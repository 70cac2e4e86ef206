import FlexBraid.Fec.Parity

/-!
# Assembling the blocks of an encoder

What a decoder's buffer holds while it receives frames of one block that an
encoder emitted: the payloads of some of its data frames, some of its parity
shards, and the geometry of the block once a parity frame arrived.

## Main definitions

* `CodedBlock` — a block as an encoder emitted it.
* `CodedBlock.IsData`, `CodedBlock.IsParity` — the frames of a block on the wire.
* `Assembly b D P st` — the buffer `st` holds the data frames numbered by `D` and
  the parity frames indexed by `P` of the block `b`.

## Main results

* `Assembly.absorb_data`, `Assembly.absorb_parity` — every frame of the block is
  taken in, in any order and any number of times.
* `Assembly.frames_perm`, `Assembly.frames_known` — what a flush of the buffer emits.
* `Assembly.maybeDeliver_ne_none` — a delivery attempt does not panic.
-/

namespace FlexBraid

/-- The frame a decoder hands on for a data frame. -/
def Frame.plain (f : Frame) : Frame :=
  { sessionID := f.sessionID, seq := f.seq, payload := f.payload }

/-- A block as an encoder emitted it: its data frames, and its parity shards. -/
structure CodedBlock where
  sessionID : UInt64
  data : List Frame
  /-- The number of parity frames. -/
  parity : ℕ
  /-- The shard of each parity frame. -/
  shard : ℕ → Bytes
  fits : ParityFits parity data
  nodup : (data.map Frame.seq).Nodup
  session : ∀ f ∈ data, f.sessionID = sessionID

namespace CodedBlock

/-- The frame `g` carries the data frame `f` of the block. -/
structure IsData (b : CodedBlock) (f g : Frame) : Prop where
  mem : f ∈ b.data
  flag : g.hasFlag flagFECParity = false
  seq : g.seq = f.seq
  payload : g.payload = f.payload

/-- The frame `g` is parity frame `i` of the block. -/
structure IsParity (b : CodedBlock) (i : ℕ) (g : Frame) : Prop where
  lt : i < b.parity
  flag : g.hasFlag flagFECParity = true
  payload : g.payload = parityPayload b.data.length b.parity b.data i (b.shard i)

theorem hasFlag_parityFrame (bs : UInt32) (k p : ℕ) (data : List Frame) (i : ℕ) (shard : Bytes) :
    (parityFrame bs k p data i shard).hasFlag flagFECParity = true := by
  change (flagFECParity &&& flagFECParity != 0) = true
  decide

theorem session_parityFrame (b : CodedBlock) (bs : UInt32) (k p i : ℕ) (shard : Bytes) :
    (parityFrame bs k p b.data i shard).sessionID = b.sessionID := by
  have hpos := b.fits.pos
  cases hdata : b.data with
  | nil => rw [hdata] at hpos; simp at hpos
  | cons f l => exact b.session f (hdata ▸ List.mem_cons_self)

theorem eq_of_seq_eq (b : CodedBlock) {f g : Frame} (hf : f ∈ b.data) (hg : g ∈ b.data)
    (h : f.seq = g.seq) : f = g := List.inj_on_of_nodup_map b.nodup hf hg h

end CodedBlock

/-- The buffer `st` holds the data frames of `b` with numbers in `D` and its parity
frames with indices in `P`. -/
structure Assembly (b : CodedBlock) (D : Finset UInt32) (P : Finset ℕ) (st : BlockState) :
    Prop where
  seqs_mem : ∀ s ∈ D, s ∈ b.data.map Frame.seq
  idx_lt : ∀ i ∈ P, i < b.parity
  data_lookup : ∀ f ∈ b.data, st.data.lookup f.seq = if f.seq ∈ D then some f.payload else none
  data_none : ∀ s ∉ D, st.data.lookup s = none
  parity_lookup : ∀ i, st.parity.lookup i =
    if i ∈ P then some (padTo (maxPayloadLen b.data) (b.shard i)) else none
  unknown : P = ∅ → st.k = 0 ∧ st.seqs = []
  known : P.Nonempty → st.k = b.data.length ∧ st.p = b.parity ∧
    st.maxLen = maxPayloadLen b.data ∧ st.seqs = b.data.map Frame.seq ∧
    st.lens = b.data.map fun f => UInt16.ofNat f.payload.length
  unflushed : st.flushed = false

namespace Assembly

variable {b : CodedBlock} {D : Finset UInt32} {P : Finset ℕ} {st : BlockState}

theorem empty (b : CodedBlock) : Assembly b ∅ ∅ {} where
  seqs_mem := by simp
  idx_lt := by simp
  data_lookup _ _ := rfl
  data_none _ _ := rfl
  parity_lookup _ := rfl
  unknown _ := ⟨rfl, rfl⟩
  known h := absurd h Finset.not_nonempty_empty
  unflushed := rfl

theorem isSome_lookup_data (h : Assembly b D P st) (s : UInt32) :
    (st.data.lookup s).isSome ↔ s ∈ D := by
  by_cases hs : s ∈ D
  · obtain ⟨f, hf, rfl⟩ := List.mem_map.mp (h.seqs_mem s hs)
    simp [h.data_lookup f hf, hs]
  · simp [h.data_none s hs, hs]

theorem seqs_ne_nil (h : Assembly b D P st) : st.seqs ≠ [] ↔ P.Nonempty := by
  refine ⟨fun hne => Finset.nonempty_iff_ne_empty.mpr fun h0 => hne (h.unknown h0).2, fun hP => ?_⟩
  obtain ⟨-, -, -, hseqs, -⟩ := h.known hP
  simpa [hseqs] using List.ne_nil_of_length_pos b.fits.pos

theorem size_data (h : Assembly b D P st) : st.data.size = D.card :=
  AList.size_eq_card h.isSome_lookup_data

theorem size_parity (h : Assembly b D P st) : st.parity.size = P.card := by
  apply AList.size_eq_card
  intro i
  rw [h.parity_lookup]
  split <;> simp_all

theorem nothing_held (h : Assembly b D P st) :
    (decide (st.data.size = 0) && decide (st.parity.size = 0)) = decide (D = ∅ ∧ P = ∅) := by
  rw [h.size_data, h.size_parity]
  simp [Finset.card_eq_zero]

/-! ### Taking frames in -/

/-- Any data frame of the block is taken in. -/
theorem absorb_data (h : Assembly b D P st) {f g : Frame} (hg : b.IsData f g) (now : Time)
    (timeout : Duration) :
    ∃ st', st.absorb now timeout g = some st' ∧ Assembly b (insert f.seq D) P st' ∧
      st'.deadline = if D = ∅ ∧ P = ∅ then some (now + timeout) else st.deadline := by
  refine ⟨st.addData now timeout g, by simp [BlockState.absorb, hg.flag], ?_, ?_⟩
  · have hlookup : ∀ s, (st.addData now timeout g).data.lookup s =
        if s = f.seq then some f.payload else st.data.lookup s := by
      intro s
      change (if (st.data.lookup g.seq).isSome then st.data
        else st.data.insert g.seq g.payload).lookup s = _
      rw [hg.seq, hg.payload]
      split
      · next hsome =>
        split
        · next hs =>
          rw [hs, h.data_lookup f hg.mem, if_pos ((h.isSome_lookup_data _).mp hsome)]
        · rfl
      · rw [AList.lookup_insert_eq]
    constructor
    · intro s hs
      rcases Finset.mem_insert.mp hs with rfl | hs
      · exact List.mem_map_of_mem hg.mem
      · exact h.seqs_mem s hs
    · exact h.idx_lt
    · intro f' hf'
      rw [hlookup, h.data_lookup f' hf']
      by_cases hs : f'.seq = f.seq
      · rw [b.eq_of_seq_eq hf' hg.mem hs]
        simp
      · simp [hs]
    · intro s hs
      rw [Finset.mem_insert, not_or] at hs
      rw [hlookup, if_neg hs.1, h.data_none s hs.2]
    · exact h.parity_lookup
    · exact h.unknown
    · exact h.known
    · exact h.unflushed
  · change (if (decide (st.data.size = 0) && decide (st.parity.size = 0)) = true then _ else _) = _
    rw [h.nothing_held]
    simp only [decide_eq_true_eq]

/-- Any parity frame of the block is taken in. -/
theorem absorb_parity (h : Assembly b D P st) {i : ℕ} {g : Frame} (hg : b.IsParity i g)
    (now : Time) (timeout : Duration) :
    ∃ st', st.absorb now timeout g = some st' ∧ Assembly b D (insert i P) st' ∧
      st'.deadline = if D = ∅ ∧ P = ∅ then some (now + timeout) else st.deadline := by
  have hidx : ∀ j ∈ insert i P, j < b.parity := by
    intro j hj
    rcases Finset.mem_insert.mp hj with rfl | hj
    · exact hg.lt
    · exact h.idx_lt j hj
  have hlookup : ∀ j, (st.parity.insert i (padTo (maxPayloadLen b.data) (b.shard i))).lookup j =
      if j ∈ insert i P then some (padTo (maxPayloadLen b.data) (b.shard j)) else none := by
    intro j
    rw [AList.lookup_insert_eq, h.parity_lookup]
    by_cases hj : j = i
    · subst hj
      simp
    · simp [hj]
  rcases P.eq_empty_or_nonempty with hP | hP
  · -- the first parity frame brings the geometry
    have hadd := addParity_first b.fits hg.lt (h.unknown hP).1 hg.payload now timeout
    refine ⟨_, by rw [BlockState.absorb, if_pos hg.flag, hadd]; rfl, ?_, ?_⟩
    · exact
        { h with
          idx_lt := hidx
          parity_lookup := hlookup
          unknown := fun h0 => absurd h0 (Finset.insert_ne_empty i P)
          known := fun _ => ⟨rfl, rfl, rfl, rfl, rfl⟩ }
    · dsimp only
      rw [h.nothing_held]
      simp only [decide_eq_true_eq]
  · obtain ⟨hk, hp, hmax, hseqs, hlens⟩ := h.known hP
    have hadd := addParity_again b.fits hg.lt hk hmax hg.payload now timeout
    refine ⟨_, by rw [BlockState.absorb, if_pos hg.flag, hadd]; rfl, ?_, ?_⟩
    · exact
        { h with
          idx_lt := hidx
          parity_lookup := hlookup
          unknown := fun h0 => absurd h0 (Finset.insert_ne_empty i P)
          known := fun _ => ⟨hk, hp, hmax, hseqs, hlens⟩ }
    · rw [if_neg fun h0 => hP.ne_empty h0.2]

/-! ### What a flush emits -/

theorem filterMap_lookup {data : GoMap UInt32 Bytes} {l : List Frame}
    (hl : ∀ f ∈ l, f ∈ b.data)
    (hlookup : ∀ f ∈ b.data, data.lookup f.seq = if f.seq ∈ D then some f.payload else none) :
    (l.map Frame.seq).filterMap (fun seq => (data.lookup seq).map fun payload =>
        ({ sessionID := b.sessionID, seq := seq, payload := payload } : Frame)) =
      (l.filter (·.seq ∈ D)).map Frame.plain := by
  rw [List.filterMap_map, ← List.filterMap_eq_map, List.filterMap_filter]
  apply List.filterMap_congr
  intro f hf
  rw [Function.comp_apply, hlookup f (hl f hf)]
  by_cases hs : f.seq ∈ D
  · simp [hs, Frame.plain, b.session f (hl f hf)]
  · simp [hs]

theorem frames_known (h : Assembly b D P st) (hP : P.Nonempty) :
    st.frames b.sessionID = (b.data.filter (·.seq ∈ D)).map Frame.plain := by
  obtain ⟨-, -, -, hseqs, -⟩ := h.known hP
  have hpos := b.fits.pos
  rw [BlockState.frames, if_neg (by rw [hseqs, List.length_map]; omega), hseqs]
  exact filterMap_lookup (fun _ => id) h.data_lookup

theorem keys_perm (h : Assembly b D P st) :
    st.data.keys.Perm ((b.data.filter (·.seq ∈ D)).map Frame.seq) := by
  have hnd : ((b.data.filter (·.seq ∈ D)).map Frame.seq).Nodup :=
    b.nodup.sublist (List.filter_sublist.map Frame.seq)
  rw [List.perm_ext_iff_of_nodup st.data.keys_nodup hnd]
  intro s
  rw [← AList.mem_keys, ← AList.lookup_isSome, h.isSome_lookup_data]
  simp only [List.mem_map, List.mem_filter, decide_eq_true_eq]
  constructor
  · intro hs
    obtain ⟨f, hf, rfl⟩ := List.mem_map.mp (h.seqs_mem s hs)
    exact ⟨f, ⟨hf, hs⟩, rfl⟩
  · rintro ⟨f, ⟨-, hs⟩, rfl⟩
    exact hs

/-- **A flush emits exactly the data frames held.** -/
theorem frames_perm (h : Assembly b D P st) :
    (st.frames b.sessionID).Perm ((b.data.filter (·.seq ∈ D)).map Frame.plain) := by
  rcases P.eq_empty_or_nonempty with hP | hP
  · rw [BlockState.frames, if_pos (by rw [(h.unknown hP).2]; rfl)]
    refine (((List.perm_insertionSort (· ≤ ·) _).trans h.keys_perm).filterMap _).trans ?_
    rw [filterMap_lookup (fun f hf => (List.mem_filter.mp hf).1) h.data_lookup, List.filter_filter]
    simp
  · rw [h.frames_known hP]

/-! ### Delivery attempts -/

section
variable {F C : Type} {RS : ReedSolomon C} (d : Decoder F C) (key : BlockKey)

theorem maybeDeliver_early (h : Assembly b D P st)
    (hfew : P = ∅ ∨ D.card + P.card < b.data.length) : d.maybeDeliver RS key st = some (d, []) := by
  unfold Decoder.maybeDeliver
  rcases P.eq_empty_or_nonempty with hP | hP
  · rw [if_pos (h.unknown hP).1]
  · have hlt := hfew.resolve_left hP.ne_empty
    have hpos := b.fits.pos
    obtain ⟨hk, -⟩ := h.known hP
    rw [if_neg (by omega), if_pos (by rw [h.size_data, h.size_parity, hk]; exact hlt)]

theorem shards_eq (h : Assembly b D P st) (hP : P.Nonempty) :
    st.shards = b.data.map (fun f => if f.seq ∈ D
        then some (padTo (maxPayloadLen b.data) f.payload) else none) ++
      (List.range b.parity).map (fun i => if i ∈ P
        then some (padTo (maxPayloadLen b.data) (b.shard i)) else none) := by
  obtain ⟨-, hp, hmax, hseqs, -⟩ := h.known hP
  rw [BlockState.shards, hp, hmax, hseqs, List.map_map]
  congr 1
  · apply List.map_congr_left
    intro f hf
    rw [Function.comp_apply, h.data_lookup f hf]
    split <;> rfl
  · exact List.map_congr_left fun i _ => h.parity_lookup i

/-- A lawful library never lets a delivery attempt panic, whatever codec the cache
holds. -/
theorem maybeDeliver_ne_none (h : Assembly b D P st) (hlaw : RS.Lawful)
    (hcache : ∀ p c, d.rsByParity.lookup p = some c → ∃ k p', RS.new k p' = some c) :
    d.maybeDeliver RS key st ≠ none := by
  refine Decoder.maybeDeliver_ne_none d key hlaw hcache fun hk0 => ?_
  have hP : P.Nonempty := Finset.nonempty_iff_ne_empty.mpr fun h0 => hk0 (h.unknown h0).1
  obtain ⟨-, -, hmax, -, hlens⟩ := h.known hP
  refine ⟨fun i s hs => ?_, fun l hl => ?_⟩
  · rw [h.parity_lookup] at hs
    split at hs
    · cases hs
      rw [length_padTo, hmax]
    · cases hs
  · rw [hlens] at hl
    obtain ⟨f, hf, rfl⟩ := List.mem_map.mp hl
    rw [toNat_ofNat16 (b.fits.len_lt f hf), hmax]
    exact length_le_maxPayloadLen hf

end

end Assembly

end FlexBraid
