import FlexBraid.Fec.Assembly
import Mathlib.Data.List.GetD

/-!
# Recovery of a block from any `k` of its frames

As soon as a decoder holds as many distinct frames of a block as the block has
data frames, one of them a parity frame, the push of the last of them returns the
block's data frames.

## Main definitions

* `CodedBlock.Encoded` — the parity shards are the code of the data frames.
* `CodedBlock.wire` — the frames of a block as the encoder returns them.
* `CodedBlock.Enough` — enough distinct frames of a block.
* `CodedBlock.Recoverable` — the assumptions of recovery.

## Main results

* `Assembly.maybeDeliver_enough` — enough shards are reconstructed and flushed.
* `push_wire` — one push of a frame of the block stores it or completes the block.
-/

namespace FlexBraid

variable {F C : Type} {RS : ReedSolomon C}

/-! ### Reconstruction -/

/-- The parity shards of a block are what the codec `c` makes of its padded
payloads. -/
def CodedBlock.Encoded (RS : ReedSolomon C) (c : C) (b : CodedBlock) : Prop :=
  RS.encode c (b.data.map (fun f => padTo (maxPayloadLen b.data) f.payload) ++
      List.replicate b.parity (List.replicate (maxPayloadLen b.data) 0)) =
    some (b.data.map (fun f => padTo (maxPayloadLen b.data) f.payload) ++
      (List.range b.parity).map fun i => padTo (maxPayloadLen b.data) (b.shard i))

theorem map_shards_behind {n : ℕ} (front : List Bytes) {parity : List Bytes}
    (hsize : ∀ s ∈ parity, s.length = n) : (List.range parity.length).map (fun i =>
      padTo n ((front ++ parity).getD (front.length + i) [])) = parity := by
  apply List.ext_getElem
  · simp
  · intro i h1 h2
    rw [List.getElem_map, List.getElem_range, List.getD_append_right _ _ _ _ (by omega),
      Nat.add_sub_cancel_left, List.getD_eq_getElem _ _ h2,
      padTo_of_length (hsize _ (List.getElem_mem h2))]

namespace Assembly

variable {b : CodedBlock} {D : Finset UInt32} {P : Finset ℕ} {st : BlockState}

/-- Filling in from the padded payloads gives every frame its payload. -/
theorem fillMissing_all {n : ℕ} {rest : List Bytes} {l : List Frame}
    (hlen : ∀ f ∈ l, f.payload.length ≤ n ∧ f.payload.length < 65536)
    (hnd : (l.map Frame.seq).Nodup) {data : GoMap UInt32 Bytes}
    (hdata : ∀ f ∈ l, data.lookup f.seq = none ∨ data.lookup f.seq = some f.payload)
    {shards : List Shard}
    (hshards : shards.map Shard.bytes = l.map (fun f => padTo n f.payload) ++ rest)
    (recovered : ℕ) : ∃ data' recovered', BlockState.fillMissing data recovered (l.map Frame.seq)
        (l.map fun f => UInt16.ofNat f.payload.length) shards = some (data', recovered') ∧
      ∀ f ∈ l, data'.lookup f.seq = some f.payload := by
  induction l generalizing data shards recovered with
  | nil => exact ⟨data, recovered, by simp [BlockState.fillMissing], by simp⟩
  | cons f l ih =>
    obtain ⟨hf, hnd⟩ := List.nodup_cons.mp hnd
    obtain ⟨shard, shards, rfl⟩ : ∃ shard shards', shards = shard :: shards' := by
      cases shards with
      | nil => simp at hshards
      | cons shard shards' => exact ⟨shard, shards', rfl⟩
    rw [List.map_cons, List.map_cons, List.cons_append, List.cons.injEq] at hshards
    obtain ⟨hshard, hshards⟩ := hshards
    obtain ⟨hle, hlt⟩ := hlen f List.mem_cons_self
    have hlen' := fun g hg => hlen g (List.mem_cons_of_mem f hg)
    rw [List.map_cons, List.map_cons, BlockState.fillMissing]
    rcases hdata f List.mem_cons_self with hnone | hsome
    · -- the payload is missing and cut from its shard
      have hslice : shard.slice (UInt16.ofNat f.payload.length).toNat = some f.payload := by
        rw [toNat_ofNat16 hlt, Shard.slice_of_le (by rw [hshard, length_padTo]; exact hle), hshard,
          take_padTo hle]
      rw [hnone, if_neg (by simp), hslice]
      have hdata' : ∀ g ∈ l, (data.insert f.seq f.payload).lookup g.seq = none ∨
          (data.insert f.seq f.payload).lookup g.seq = some g.payload := by
        intro g hg
        have hne : g.seq ≠ f.seq := fun h0 => hf (h0 ▸ List.mem_map_of_mem hg)
        rw [AList.lookup_insert_ne hne]
        exact hdata g (List.mem_cons_of_mem f hg)
      obtain ⟨data', recovered', hfill, hall⟩ := ih hlen' hnd hdata' hshards (recovered + 1)
      refine ⟨data', recovered', hfill, List.forall_mem_cons.mpr ⟨?_, hall⟩⟩
      exact BlockState.fillMissing_keeps hfill _ _ (AList.lookup_insert _)
    · rw [hsome, if_pos (by simp)]
      obtain ⟨data', recovered', hfill, hall⟩ :=
        ih hlen' hnd (fun g hg => hdata g (List.mem_cons_of_mem f hg)) hshards recovered
      refine ⟨data', recovered', hfill, List.forall_mem_cons.mpr ⟨?_, hall⟩⟩
      exact BlockState.fillMissing_keeps hfill _ _ hsome

theorem length_filter_data (h : Assembly b D P st) :
    (b.data.filter (·.seq ∈ D)).length = D.card := by
  rw [← h.size_data, AList.size, h.keys_perm.length_eq, List.length_map]

theorem countP_shards (h : Assembly b D P st) (hP : P.Nonempty) :
    st.shards.countP Option.isSome = D.card + P.card := by
  have hdata : (b.data.map fun f => if f.seq ∈ D
      then some (padTo (maxPayloadLen b.data) f.payload) else none).countP Option.isSome =
      D.card := by
    rw [List.countP_map, ← h.length_filter_data, ← List.countP_eq_length_filter]
    apply List.countP_congr
    intro f _
    by_cases hs : f.seq ∈ D <;> simp [hs]
  have hparity : ((List.range b.parity).map fun i => if i ∈ P
      then some (padTo (maxPayloadLen b.data) (b.shard i)) else none).countP Option.isSome =
      P.card := by
    have hPeq : ((List.range b.parity).filter (· ∈ P)).toFinset = P := by
      ext i
      simp only [List.mem_toFinset, List.mem_filter, List.mem_range, decide_eq_true_eq]
      exact ⟨fun hi => hi.2, fun hi => ⟨h.idx_lt i hi, hi⟩⟩
    have hnd : ((List.range b.parity).filter (· ∈ P)).Nodup := List.nodup_range.filter _
    rw [List.countP_map, ← congrArg Finset.card hPeq, List.toFinset_card_of_nodup hnd,
      ← List.countP_eq_length_filter]
    apply List.countP_congr
    intro i _
    by_cases hi : i ∈ P <;> simp [hi]
  rw [h.shards_eq hP, List.countP_append, hdata, hparity]

theorem shards_held (h : Assembly b D P st) (hP : P.Nonempty) :
    List.Forall₂ (fun s t => s = none ∨ s = some t) st.shards
      (b.data.map (fun f => padTo (maxPayloadLen b.data) f.payload) ++
        (List.range b.parity).map fun i => padTo (maxPayloadLen b.data) (b.shard i)) := by
  rw [h.shards_eq hP]
  apply List.rel_append
  · rw [List.forall₂_map_left_iff, List.forall₂_map_right_iff, List.forall₂_same]
    intro f _
    split <;> simp
  · rw [List.forall₂_map_left_iff, List.forall₂_map_right_iff, List.forall₂_same]
    intro i _
    split <;> simp

theorem frames_filled (h : Assembly b D P st) (hP : P.Nonempty) {data : GoMap UInt32 Bytes}
    (hall : ∀ f ∈ b.data, data.lookup f.seq = some f.payload) :
    ({ st with data := data } : BlockState).frames b.sessionID = b.data.map Frame.plain := by
  obtain ⟨-, -, -, hseqs, -⟩ := h.known hP
  have hpos := b.fits.pos
  have hlookup : ∀ f ∈ b.data, data.lookup f.seq =
      if f.seq ∈ (b.data.map Frame.seq).toFinset then some f.payload else none := by
    intro f hf
    rw [hall f hf, if_pos (List.mem_toFinset.mpr (List.mem_map_of_mem hf))]
  rw [BlockState.frames, if_neg (by rw [hseqs, List.length_map]; omega), hseqs,
    filterMap_lookup (fun _ => id) hlookup, List.filter_eq_self.mpr]
  intro f hf
  exact decide_eq_true (List.mem_toFinset.mpr (List.mem_map_of_mem hf))

theorem filter_eq_data (h : Assembly b D P st) (hcard : D.card = b.data.length) :
    b.data.filter (·.seq ∈ D) = b.data := by
  apply List.Sublist.eq_of_length List.filter_sublist
  rw [h.length_filter_data, hcard]

theorem rsFor_of_new {d : Decoder F C} {k p : ℕ} {c : C} (hnew : RS.new k p = some c)
    (hcache : ∀ c', d.rsByParity.lookup p = some c' → RS.new k p = some c') :
    ∃ cache, d.rsFor RS k p = ({ d with rsByParity := cache }, some c) ∧
      Decoder.CacheFrom RS k p d.rsByParity cache := by
  obtain ⟨cache, hd, hfrom⟩ := d.rsFor_eq RS k p
  refine ⟨cache, Prod.ext hd ?_, hfrom⟩
  unfold Decoder.rsFor
  split
  · next c' hl => rw [← hcache c' hl, hnew]
  · rw [hnew]

/-- **Enough shards are reconstructed**: with as many frames as the block has data
frames, one of them parity, a delivery attempt emits the block. -/
theorem maybeDeliver_enough (d : Decoder F C) (key : BlockKey) {c : C} (h : Assembly b D P st)
    (hmds : RS.MDS b.data.length b.parity) (hnew : RS.new b.data.length b.parity = some c)
    (henc : b.Encoded RS c) (hmax : 0 < maxPayloadLen b.data)
    (hcache : ∀ c', d.rsByParity.lookup b.parity = some c' →
      RS.new b.data.length b.parity = some c')
    (hP : P.Nonempty) (hcard : b.data.length ≤ D.card + P.card) :
    ∃ cache recovered data, Decoder.CacheFrom RS b.data.length b.parity d.rsByParity cache ∧
      d.maybeDeliver RS key st =
        some (({ d with rsByParity := cache, recovered := recovered } : Decoder F C).flush key
          { st with data := data }) ∧
      ({ st with data := data } : BlockState).frames b.sessionID = b.data.map Frame.plain := by
  obtain ⟨hk, hp, hmaxLen, hseqs, hlens⟩ := h.known hP
  have hpos := b.fits.pos
  unfold Decoder.maybeDeliver
  have hsize : ¬ st.data.size + st.parity.size < st.k := by
    rw [h.size_data, h.size_parity]
    omega
  rw [if_neg (by omega), if_neg hsize]
  by_cases hfull : st.data.size = st.k
  · rw [if_pos hfull]
    refine ⟨d.rsByParity, d.recovered, st.data, .inl rfl, rfl, ?_⟩
    rw [h.frames_known hP, h.filter_eq_data (by rw [← h.size_data, hfull, hk])]
  · rw [if_neg hfull]
    obtain ⟨cache, hrs, hfrom⟩ := rsFor_of_new hnew hcache
    -- the code gives back the padded payloads
    obtain ⟨out, hrec, hout⟩ := hmds.reconstruct hnew (by simp) hmax
      (by simp) henc (h.shards_held hP) (by rw [h.countP_shards hP]; exact hcard)
    obtain ⟨data, recovered, hfill, hall⟩ := fillMissing_all (l := b.data)
      (fun f hf => ⟨length_le_maxPayloadLen hf, b.fits.len_lt f hf⟩) b.nodup
      (fun f hf => by rw [h.data_lookup f hf]; split <;> simp) hout d.recovered
    refine ⟨cache, recovered, data, hfrom, ?_, ?_⟩
    · rw [Decoder.reconstruct, hk, hp, hrs]
      dsimp only
      rw [hrec, hseqs, hlens]
      dsimp only
      rw [hfill]
    · exact h.frames_filled hP hall

end Assembly

/-! ### The frames of a block on the wire -/

namespace CodedBlock

/-- The frames of a block as the encoder returns them. -/
def wire (b : CodedBlock) (bs : UInt32) : List Frame :=
  b.data.map (Frame.stamp bs) ++
    (List.range b.parity).map fun i => parityFrame bs b.data.length b.parity b.data i (b.shard i)

/-- The numbers of the data frames among `S`. -/
def dataSeqs (S : List Frame) : Finset UInt32 :=
  (S.toFinset.filter fun f => f.hasFlag flagFECParity = false).image Frame.seq

/-- The indices of the parity frames among `S`. -/
def parityIdxs (S : List Frame) : Finset ℕ :=
  (S.toFinset.filter fun f => f.hasFlag flagFECParity = true).image
    fun f => (BlockState.readSubHeader f.payload).pidx

/-- As many distinct frames as the block has data frames, one of them parity. -/
def Enough (b : CodedBlock) (S : List Frame) : Prop :=
  (parityIdxs S).Nonempty ∧ b.data.length ≤ (dataSeqs S).card + (parityIdxs S).card

theorem dataSeqs_append (S T : List Frame) : dataSeqs (S ++ T) = dataSeqs S ∪ dataSeqs T := by
  simp only [dataSeqs, List.toFinset_append, Finset.filter_union, Finset.image_union]

theorem parityIdxs_append (S T : List Frame) :
    parityIdxs (S ++ T) = parityIdxs S ∪ parityIdxs T := by
  simp only [parityIdxs, List.toFinset_append, Finset.filter_union, Finset.image_union]

theorem Enough.append {b : CodedBlock} {S : List Frame} (h : b.Enough S) (T : List Frame) :
    b.Enough (S ++ T) := by
  rw [Enough, dataSeqs_append, parityIdxs_append]
  refine ⟨h.1.mono Finset.subset_union_left, h.2.trans (Nat.add_le_add ?_ ?_)⟩
  · exact Finset.card_le_card Finset.subset_union_left
  · exact Finset.card_le_card Finset.subset_union_left

/-- The data frames of a block carry neither the parity nor the pass-through
flag. -/
def Unflagged (b : CodedBlock) : Prop :=
  ∀ f ∈ b.data, f.hasFlag flagFECParity = false ∧ f.hasFlag flagPassSeq = false

theorem mem_wire {b : CodedBlock} (hflags : b.Unflagged) {bs : UInt32} {g : Frame}
    (h : g ∈ b.wire bs) : g.blockSeq = bs ∧ g.sessionID = b.sessionID ∧
      ((∃ f, b.IsData f g ∧ g = f.stamp bs ∧ g.hasFlag flagPassSeq = false ∧
          dataSeqs [g] = {f.seq} ∧ parityIdxs [g] = ∅) ∨
        ∃ i, b.IsParity i g ∧ dataSeqs [g] = ∅ ∧ parityIdxs [g] = {i}) := by
  rcases List.mem_append.mp h with h | h
  · obtain ⟨f, hf, rfl⟩ := List.mem_map.mp h
    obtain ⟨hparity, hpass⟩ := hflags f hf
    have hflag : (f.stamp bs).hasFlag flagFECParity = false := hparity
    refine ⟨rfl, b.session f hf, .inl ⟨f, ⟨hf, hparity, rfl, rfl⟩, rfl, hpass, ?_, ?_⟩⟩
    · rw [dataSeqs, List.toFinset_cons, List.toFinset_nil]
      simp only [insert_empty_eq, Finset.filter_singleton, hflag, if_true, Finset.image_singleton]
      rfl
    · simp [parityIdxs, Finset.filter_singleton, hflag]
  · obtain ⟨i, hi, rfl⟩ := List.mem_map.mp h
    have hlt := List.mem_range.mp hi
    refine ⟨rfl, b.session_parityFrame .., .inr ⟨i, ⟨hlt, hasFlag_parityFrame .., rfl⟩, ?_, ?_⟩⟩
    · simp [dataSeqs, Finset.filter_singleton, hasFlag_parityFrame]
    · rw [parityIdxs, List.toFinset_cons, List.toFinset_nil]
      simp only [insert_empty_eq, Finset.filter_singleton, hasFlag_parityFrame, if_true,
        Finset.image_singleton]
      rw [parityFrame, readSubHeader_parityPayload b.fits hlt]

end CodedBlock

/-! ### Counting distinct frames -/

section
variable {b : CodedBlock} {bs : UInt32} {S : List Frame}

open CodedBlock

theorem seq_mem_dataSeqs (hflags : b.Unflagged) (hS : ∀ g ∈ S, g ∈ b.wire bs) {f : Frame}
    (hf : f ∈ b.data) : f.seq ∈ dataSeqs S ↔ f.stamp bs ∈ S := by
  simp only [dataSeqs, Finset.mem_image, Finset.mem_filter, List.mem_toFinset]
  constructor
  · rintro ⟨g, ⟨hg, hflag⟩, hseq⟩
    obtain ⟨-, -, ⟨f', hdata, rfl, -⟩ | ⟨i, hpar, -⟩⟩ := mem_wire hflags (hS g hg)
    · rwa [b.eq_of_seq_eq hf hdata.mem hseq.symm]
    · rw [hpar.flag] at hflag
      cases hflag
  · intro h
    exact ⟨_, ⟨h, (hflags f hf).1⟩, rfl⟩

theorem injOn_seq (hflags : b.Unflagged) (hS : ∀ g ∈ S, g ∈ b.wire bs) : Set.InjOn Frame.seq
      (S.toFinset.filter fun f => f.hasFlag flagFECParity = false : Finset Frame) := by
  intro g hg g' hg' hseq
  rw [Finset.mem_coe, Finset.mem_filter, List.mem_toFinset] at hg hg'
  obtain ⟨-, -, ⟨f, hdata, rfl, -⟩ | ⟨i, hpar, -⟩⟩ := mem_wire hflags (hS g hg.1)
  · obtain ⟨-, -, ⟨f', hdata', rfl, -⟩ | ⟨i, hpar, -⟩⟩ := mem_wire hflags (hS g' hg'.1)
    · rw [b.eq_of_seq_eq hdata.mem hdata'.mem hseq]
    · rw [hpar.flag] at hg'
      cases hg'.2
  · rw [hpar.flag] at hg
    cases hg.2

theorem injOn_pidx (hflags : b.Unflagged) (hS : ∀ g ∈ S, g ∈ b.wire bs) :
    Set.InjOn (fun f : Frame => (BlockState.readSubHeader f.payload).pidx)
      (S.toFinset.filter fun f => f.hasFlag flagFECParity = true : Finset Frame) := by
  have hform : ∀ g ∈ S, g.hasFlag flagFECParity = true → g = parityFrame bs b.data.length b.parity
      b.data (BlockState.readSubHeader g.payload).pidx
      (b.shard (BlockState.readSubHeader g.payload).pidx) := by
    intro g hg hflag
    rcases List.mem_append.mp (hS g hg) with h | h
    · obtain ⟨f, hf, rfl⟩ := List.mem_map.mp h
      have hf' : f.hasFlag flagFECParity = true := hflag
      rw [(hflags f hf).1] at hf'
      cases hf'
    · obtain ⟨i, hi, rfl⟩ := List.mem_map.mp h
      have hread : (BlockState.readSubHeader
          (parityFrame bs b.data.length b.parity b.data i (b.shard i)).payload).pidx = i := by
        rw [parityFrame, readSubHeader_parityPayload b.fits (List.mem_range.mp hi)]
      rw [hread]
  intro g hg g' hg' hidx
  rw [Finset.mem_coe, Finset.mem_filter, List.mem_toFinset] at hg hg'
  dsimp only at hidx
  rw [hform g hg.1 hg.2, hform g' hg'.1 hg'.2, hidx]

theorem card_toFinset_of_wire (hflags : b.Unflagged) (hS : ∀ g ∈ S, g ∈ b.wire bs) :
    S.toFinset.card = (dataSeqs S).card + (parityIdxs S).card := by
  rw [dataSeqs, parityIdxs, Finset.card_image_of_injOn (injOn_seq hflags hS),
    Finset.card_image_of_injOn (injOn_pidx hflags hS), Nat.add_comm]
  have h := Finset.card_filter_add_card_filter_not (s := S.toFinset)
    (fun f => f.hasFlag flagFECParity = true)
  simp only [Bool.not_eq_true] at h
  exact h.symm

theorem enough_iff (hflags : b.Unflagged) (hS : ∀ g ∈ S, g ∈ b.wire bs) :
    b.Enough S ↔ b.data.length ≤ S.toFinset.card ∧ ∃ g ∈ S, g.hasFlag flagFECParity = true := by
  rw [Enough, card_toFinset_of_wire hflags hS, and_comm]
  refine and_congr_right fun _ => ?_
  rw [parityIdxs, Finset.image_nonempty]
  simp only [Finset.Nonempty, Finset.mem_filter, List.mem_toFinset]

end

/-! ### One push -/

/-- The assumptions of recovery: the code is maximum distance separable at the
block's size, the parity shards are the code of the data frames, some payload is
not empty, and the data frames are plain. -/
structure CodedBlock.Recoverable (RS : ReedSolomon C) (b : CodedBlock) : Prop where
  mds : RS.MDS b.data.length b.parity
  encoded : ∃ c, RS.new b.data.length b.parity = some c ∧ b.Encoded RS c
  max_pos : 0 < maxPayloadLen b.data
  unflagged : b.Unflagged

/-- Every codec in the cache was built for `k` data shards. -/
def Decoder.CacheFor (RS : ReedSolomon C) (k : ℕ) (d : Decoder F C) : Prop :=
  ∀ p c, d.rsByParity.lookup p = some c → RS.new k p = some c

theorem Decoder.CacheFor.of_cacheFrom {k p : ℕ} {d d' : Decoder F C} (h : d.CacheFor RS k)
    (hfrom : Decoder.CacheFrom RS k p d.rsByParity d'.rsByParity) : d'.CacheFor RS k := by
  intro p' c hl
  rcases hfrom.lookup hl with hl | ⟨rfl, hnew⟩
  · exact h p' c hl
  · exact hnew

section
variable {b : CodedBlock} {key : BlockKey} {d : Decoder F C}

open CodedBlock

variable {g : Frame}

theorem coded_of_mem_wire (hflags : b.Unflagged) {bs : UInt32} (hbs : bs ≠ 0) (hg : g ∈ b.wire bs) :
    g.coded = true := by
  obtain ⟨hseq, -, ⟨f, -, -, hpass, -⟩ | ⟨i, hpar, -⟩⟩ := mem_wire hflags hg
  · simp [Frame.coded, hpass, hseq, hbs]
  · simp [Frame.coded, hpar.flag]

theorem absorb_wire (hflags : b.Unflagged) {S : List Frame} {st : BlockState}
    (h : Assembly b (dataSeqs S) (parityIdxs S) st) {bs : UInt32} (hg : g ∈ b.wire bs) (now : Time)
    (timeout : Duration) :
    ∃ st', st.absorb now timeout g = some st' ∧
      Assembly b (dataSeqs (S ++ [g])) (parityIdxs (S ++ [g])) st' ∧
      st'.deadline = if dataSeqs S = ∅ ∧ parityIdxs S = ∅ then some (now + timeout)
        else st.deadline := by
  rw [dataSeqs_append, parityIdxs_append]
  obtain ⟨-, -, ⟨f, hdata, -, -, h1, h2⟩ | ⟨i, hpar, h1, h2⟩⟩ := mem_wire hflags hg
  · rw [h1, h2, Finset.union_empty, Finset.union_comm, ← Finset.insert_eq]
    exact h.absorb_data hdata now timeout
  · rw [h1, h2, Finset.union_empty, Finset.union_comm (parityIdxs S), ← Finset.insert_eq]
    exact h.absorb_parity hpar now timeout

/-- **One push** of a frame of the block: it is stored, or it completes the block
and the data frames come out. -/
theorem push_wire (hb : b.Recoverable RS) (henabled : d.params.enabled = true)
    (hcache : d.CacheFor RS b.data.length) (hsid : key.sessionID = b.sessionID)
    (hbs : key.blockSeq ≠ 0) {S : List Frame}
    (h : Assembly b (dataSeqs S) (parityIdxs S) (d.blockAt key)) (hlate : d.late key = false)
    {path : String} (hg : g ∈ b.wire key.blockSeq) (hkey : d.blockKey path g = key) (now : Time) :
    ∃ d' : Decoder F C, d'.params = d.params ∧ d'.CacheFor RS b.data.length ∧
      ((¬ b.Enough (S ++ [g]) ∧ d.push RS now path g = some (d', []) ∧
          ∃ st', d'.blocks.lookup key = some st' ∧
            Assembly b (dataSeqs (S ++ [g])) (parityIdxs (S ++ [g])) st' ∧
            st'.deadline = if dataSeqs S = ∅ ∧ parityIdxs S = ∅
              then some (now + d.params.blockTimeout) else (d.blockAt key).deadline) ∨
        (b.Enough (S ++ [g]) ∧ d.push RS now path g = some (d', b.data.map Frame.plain) ∧
          d'.blocks.lookup key = none ∧ key.blockSeq ≤ d'.lastFlushed.getD key.stream 0)) := by
  obtain ⟨st', habsorb, hasm, hdl⟩ :=
    absorb_wire hb.unflagged h hg now (d.openBlock key).params.blockTimeout
  obtain ⟨d₁, stats, hd₁, hpush⟩ :=
    Decoder.pushBlock_of_absorb RS (d.openBlock key) key h.unflushed habsorb
  have hcoded := coded_of_mem_wire hb.unflagged hbs hg
  rw [Decoder.push_of_coded RS henabled hcoded, hkey, if_neg (by rw [hlate]; decide), hpush]
  have hparams : d₁.params = d.params := by rw [hd₁]; rfl
  have hcache₁ : d₁.CacheFor RS b.data.length := by rw [hd₁]; exact hcache
  by_cases henough : b.Enough (S ++ [g])
  · obtain ⟨c, hnew, henc⟩ := hb.encoded
    obtain ⟨cache, recovered, data, hfrom, hdeliver, hframes⟩ := hasm.maybeDeliver_enough d₁ key
      hb.mds hnew henc hb.max_pos (hcache₁ _) henough.1 henough.2
    refine ⟨(({ d₁ with rsByParity := cache, recovered := recovered } : Decoder F C).flush key
      { st' with data := data }).1, hparams, hcache₁.of_cacheFrom hfrom, .inr ⟨henough, ?_, ?_, ?_⟩⟩
    · rw [hdeliver, ← hframes, ← hsid]
      rfl
    · rw [Decoder.flush_blocks, AList.lookup_erase]
    · rw [Decoder.flush_lastFlushed]
      grind
  · have hfew : parityIdxs (S ++ [g]) = ∅ ∨
        (dataSeqs (S ++ [g])).card + (parityIdxs (S ++ [g])).card < b.data.length := by
      by_contra hcon
      rw [not_or, not_lt] at hcon
      exact henough ⟨Finset.nonempty_iff_ne_empty.mpr hcon.1, hcon.2⟩
    refine ⟨d₁, hparams, hcache₁,
      .inl ⟨henough, hasm.maybeDeliver_early d₁ key hfew, st', ?_, hasm, hdl⟩⟩
    rw [hd₁]
    exact AList.lookup_insert _

end

end FlexBraid
