import FlexBraid.Fec.Batches
import FlexBraid.Fec.Recovery

/-!
# The blocks of an honest encoder

The frames an encoder emits over a run belong to coded blocks, one for each number.  The
data frames of a block are frames that were pushed, in order; its parity shards are what a
codec of the library made of them; and the frames of a block were pushed before those of
the blocks with higher numbers.

## Main definitions

* `Coding` — what the blocks of one encoder have in common with the pushed frames.

## Main results

* `Honest.exists_coding` — honest traffic consists of the frames of such blocks.
-/

namespace FlexBraid

variable {F C : Type} {RS : ReedSolomon C}

/-! ### Two members of a list -/

theorem pair_sublist_of_mem {α : Type} {l : List α} {a b : α} (ha : a ∈ l) (hb : b ∈ l)
    (hne : a ≠ b) : [a, b].Sublist l ∨ [b, a].Sublist l := by
  obtain ⟨s, t, rfl⟩ := List.append_of_mem ha
  rcases List.mem_append.mp hb with hb | hb
  · refine .inr ?_
    exact (List.singleton_sublist.mpr hb).append (List.singleton_sublist.mpr List.mem_cons_self)
  · refine .inl ((List.Sublist.cons_cons a ?_).trans (List.sublist_append_right s _))
    exact List.singleton_sublist.mpr ((List.mem_cons.mp hb).resolve_left hne.symm)

theorem eq_of_nodup_filterMap {α β : Type} {g : α → Option β} {l : List α}
    (h : (l.filterMap g).Nodup) {a b : α} {x : β} (ha : a ∈ l) (hb : b ∈ l) (hax : g a = some x)
    (hbx : g b = some x) : a = b := by
  by_contra hne
  have hpair : ∀ {a b : α}, g a = some x → g b = some x → ¬ [a, b].Sublist l := by
    intro a b ha hb hsub
    have hnd := h.sublist (hsub.filterMap g)
    simp [ha, hb] at hnd
  rcases pair_sublist_of_mem ha hb hne with hsub | hsub
  · exact hpair hax hbx hsub
  · exact hpair hbx hax hsub

/-! ### The code of a batch -/

/-- A data frame of block `bs`, as it is on the wire. -/
def Frame.dataOf (bs : UInt32) (f : Frame) : Bool :=
  f.coded && !f.hasFlag flagFECParity && decide (f.blockSeq = bs)

namespace Batch

/-- The number of parity frames of a batch, and the shard of each. -/
def code : Batch → ℕ × (ℕ → Bytes)
  | full _ data p (some shards) => (p, fun i => shards.getD (data.length + i) [])
  | _ => (0, fun _ => [])

/-- A block is not empty, and its parity comes from a codec of its size. -/
def Coded (RS : ReedSolomon C) : Batch → Prop
  | short _ data => data ≠ []
  | full _ data p shards => data ≠ [] ∧
    ∃ c, RS.new data.length p = some c ∧ RS.encode c (blockShards data p) = shards
  | _ => True

variable {b : Batch} {bs : UInt32}

theorem frames_of_number (h : b.number = some bs) :
    b.frames = Segment.blockFrames bs b.data b.code.1 b.code.2 := by
  cases b with
  | nothing | pass | transition => cases h
  | short number data =>
    cases h
    rfl
  | full number data p shards =>
    cases h
    cases shards with
    | none => rfl
    | some shards => rfl

theorem mem_frames_of_none (h : b.number = none) {f : Frame} (hf : f ∈ b.frames) :
    ∃ f₀ ∈ b.data, ∃ flagged, f = Segment.soloFrame f₀ flagged := by
  cases b with
  | nothing => cases hf
  | pass data =>
    rw [frames, parity, List.append_nil] at hf
    · obtain ⟨f₀, hf₀, rfl⟩ := List.mem_map.mp hf
      exact ⟨f₀, hf₀, true, rfl⟩
    · simp
  | transition data =>
    rw [frames, parity, List.append_nil] at hf
    · exact ⟨f, hf, false, rfl⟩
    · simp
  | short => cases h
  | full => cases h

theorem filter_frames {sid : UInt64} (hinner : ∀ f ∈ b.data, InnerFrame sid f) (hpos : 0 < bs) :
    b.frames.filter (Frame.dataOf bs) =
      if b.number = some bs then b.data.map (Frame.stamp bs) else [] := by
  cases hbs : b.number with
  | none =>
    rw [if_neg (by simp), List.filter_eq_nil_iff]
    intro f hf
    obtain ⟨f₀, hf₀, flagged, rfl⟩ := mem_frames_of_none hbs hf
    rw [Frame.dataOf, (soloFrame_sent (hinner f₀ hf₀) (.refl _)).1]
    exact Bool.false_ne_true
  | some bs' =>
    have hparity : ((List.range b.code.1).map fun i =>
        parityFrame bs' b.data.length b.code.1 b.data i (b.code.2 i)).filter (Frame.dataOf bs) =
          [] := by
      rw [List.filter_eq_nil_iff]
      intro f hf
      obtain ⟨i, -, rfl⟩ := List.mem_map.mp hf
      rw [Frame.dataOf, CodedBlock.hasFlag_parityFrame]
      simp
    rw [frames_of_number hbs, Segment.blockFrames, List.filter_append, hparity, List.append_nil,
      List.filter_map]
    -- a data frame is coded, and has the number of its block
    have hdata : ∀ f ∈ b.data, (Frame.dataOf bs ∘ Frame.stamp bs') f = decide (bs' = bs) := by
      intro f hf
      have hflag : ∀ flag, (f.stamp bs').hasFlag flag = false := (hinner f hf).hasFlag
      rw [Function.comp_apply, Frame.dataOf, Frame.coded, hflag, hflag]
      by_cases heq : bs' = bs
      · subst heq
        simp [Frame.stamp, (UInt32.ne_of_lt hpos).symm]
      · simp [Frame.stamp, heq]
    rw [List.filter_congr hdata]
    by_cases heq : bs' = bs
    · simp [heq]
    · simp [heq]

/-- What is known of a batch that is a block, in the words of segments. -/
theorem Coded.valid (h : b.Coded RS) (hbs : b.number = some bs) :
    (Segment.block b.data b.code.1 b.code.2).Valid RS b.data.length := by
  cases b with
  | nothing | pass | transition => cases hbs
  | short number data => exact ⟨h, fun h0 => absurd h0 (Nat.lt_irrefl 0)⟩
  | full number data p shards =>
    obtain ⟨hne, c, hnew, -⟩ := h
    refine ⟨hne, fun hp => ⟨rfl, ?_⟩⟩
    cases shards with
    | none => exact absurd hp (Nat.lt_irrefl 0)
    | some shards => exact Option.isSome_iff_exists.mpr ⟨c, hnew⟩

/-- The parity of a block is the code of its data frames. -/
theorem Coded.encoded (hsound : RS.Sound) (h : b.Coded RS) (hp : 0 < b.code.1) {cb : CodedBlock}
    (hdata : cb.data = b.data) (hparity : cb.parity = b.code.1) (hshard : cb.shard = b.code.2) :
    ∃ c, RS.new cb.data.length cb.parity = some c ∧ cb.Encoded RS c := by
  cases b with
  | nothing | pass | transition | short => exact absurd hp (Nat.lt_irrefl 0)
  | full number data p shards =>
    cases shards with
    | none => exact absurd hp (Nat.lt_irrefl 0)
    | some shards =>
      obtain ⟨-, c, hnew, henc⟩ := h
      change cb.data = data at hdata
      change cb.parity = p at hparity
      obtain ⟨parity, hout, hlen, hsize⟩ := hsound.encode_eq hnew (List.length_map _)
        (by simp) henc
      refine ⟨c, by rw [hdata, hparity]; exact hnew, ?_⟩
      have hbehind := map_shards_behind
        (data.map fun f => padTo (maxPayloadLen data) f.payload) hsize
      rw [CodedBlock.Encoded, hdata, hparity, hshard]
      rw [List.length_map, ← hout, hlen] at hbehind
      change RS.encode c (blockShards data p) = some (_ ++ (List.range p).map fun i =>
        padTo (maxPayloadLen data) (shards.getD (data.length + i) []))
      rw [hbehind, henc, hout]

end Batch

variable {b : Batch} {batches : List Batch} {sid : UInt64}

/-- Every batch an encoder returns is coded. -/
theorem Encoder.Returns.coded (hlaw : RS.Lawful) {e e' : Encoder F RS} {data : List Frame}
    (h : Returns e data e' b) (hparams : e'.params = e.params) : b.Coded RS := by
  cases h with
  | nothing | pass | transition => trivial
  | short _ _ _ hne => exact hne
  | full _ _ henabled hlen =>
    obtain ⟨hsome, hrs⟩ := e'.codec (by rw [hparams]; exact henabled)
    obtain ⟨c, hc⟩ := Option.isSome_iff_exists.mp hsome
    rw [hc, hparams, ← hlen] at hrs
    obtain ⟨hpos, hp, -⟩ := hlaw.new_bounds hrs.symm
    rw [hc, Option.bind_some]
    refine ⟨List.ne_nil_of_length_pos (by omega), c, ?_, rfl⟩
    rw [Int.toNat_of_nonneg hp]
    exact hrs.symm

/-! ### The blocks of a run -/

/-- The blocks `B` of the encoder of a session, and the frames `sent` that were pushed into
it. -/
structure Coding (RS : ReedSolomon C) (sid : UInt64) (sent : List Frame)
    (B : UInt32 → Option CodedBlock) : Prop where
  session : ∀ {bs b}, B bs = some b → b.sessionID = sid
  sublist : ∀ {bs b}, B bs = some b → b.data.Sublist sent
  encoded : ∀ {bs b}, B bs = some b → 0 < b.parity →
    ∃ c, RS.new b.data.length b.parity = some c ∧ b.Encoded RS c
  ordered : ∀ {bs bs' b b'}, 0 < bs → bs < bs' → B bs = some b → B bs' = some b' →
    (b.data ++ b'.data).Sublist sent

theorem numbers_ordered {n : ℕ} (h : n ≤ 2 ^ 32) :
    ((List.range' 1 n).map UInt32.ofNat).Pairwise fun bs bs' => bs' = 0 ∨ bs < bs' := by
  rw [List.pairwise_map]
  refine List.Pairwise.imp_of_mem ?_ (List.pairwise_lt_range' (s := 1) (n := n))
  intro a b ha hb hab
  have hb' := (List.mem_range'_1.mp hb).2
  rcases Nat.lt_or_ge b (2 ^ 32) with hlt | hge
  · exact .inr (ofNat_lt_ofNat hab hlt)
  · refine .inl ?_
    obtain rfl : b = 2 ^ 32 := by omega
    rfl

theorem numbers_nodup {n : ℕ} (h : n ≤ 2 ^ 32) : ((List.range' 1 n).map UInt32.ofNat).Nodup := by
  rw [List.Nodup, List.pairwise_map]
  refine List.Pairwise.imp_of_mem ?_ (List.pairwise_lt_range' (s := 1) (n := n))
  intro a b ha hb hab
  have ha' := (List.mem_range'_1.mp ha).1
  have hb' := (List.mem_range'_1.mp hb).2
  exact ofNat_ne_ofNat (by omega) hab (by omega)

theorem length_numbers_le (h : ∀ b ∈ batches, b.Coded RS) :
    (batches.filterMap Batch.number).length ≤ (batches.flatMap Batch.data).length := by
  induction batches with
  | nil => simp
  | cons b batches ih =>
    obtain ⟨hb, hrest⟩ := List.forall_mem_cons.mp h
    have hle := ih hrest
    rw [List.flatMap_cons, List.length_append]
    cases hbs : b.number with
    | none =>
      rw [List.filterMap_cons_none hbs]
      omega
    | some bs =>
      have hpos := List.length_pos_of_ne_nil (hb.valid hbs).1
      rw [List.filterMap_cons_some hbs, List.length_cons]
      omega

/-- The block `cb` is the one of number `bs` among batches. -/
def IsBlock (sid : UInt64) (batches : List Batch) (bs : UInt32) (cb : CodedBlock) : Prop :=
  ∃ b ∈ batches, b.number = some bs ∧ cb.sessionID = sid ∧ cb.data = b.data ∧
    cb.parity = b.code.1 ∧ cb.shard = b.code.2

theorem exists_blockMap (hnodup : (batches.filterMap Batch.number).Nodup)
    (hblock : ∀ b ∈ batches, ∀ bs, b.number = some bs → ∃ cb : CodedBlock, cb.sessionID = sid ∧
      cb.data = b.data ∧ cb.parity = b.code.1 ∧ cb.shard = b.code.2) :
    ∃ B : UInt32 → Option CodedBlock, (∀ bs cb, B bs = some cb → IsBlock sid batches bs cb) ∧
      ∀ b ∈ batches, ∀ bs, b.number = some bs → ∃ cb, B bs = some cb ∧ cb.sessionID = sid ∧
        cb.data = b.data ∧ cb.parity = b.code.1 ∧ cb.shard = b.code.2 := by
  classical
  refine ⟨fun bs => if hx : ∃ cb, IsBlock sid batches bs cb then some hx.choose else none,
    fun bs cb hcb => ?_, fun b hb bs hbs => ?_⟩
  · dsimp only at hcb
    split at hcb
    · next hx =>
      cases hcb
      exact hx.choose_spec
    · cases hcb
  · obtain ⟨cb, hcb⟩ := hblock b hb bs hbs
    have hx : ∃ cb, IsBlock sid batches bs cb := ⟨cb, b, hb, hbs, hcb⟩
    refine ⟨hx.choose, dif_pos hx, ?_⟩
    obtain ⟨b', hb', hbs', hspec⟩ := hx.choose_spec
    rwa [eq_of_nodup_filterMap hnodup hb' hb hbs' hbs] at hspec

theorem data_sublist_of_lt
    (horder : (batches.filterMap Batch.number).Pairwise fun bs bs' => bs' = 0 ∨ bs < bs')
    {b' : Batch} (hb : b ∈ batches) (hb' : b' ∈ batches) {bs bs' : UInt32}
    (hbs : b.number = some bs) (hbs' : b'.number = some bs') (hpos : 0 < bs) (hlt : bs < bs') :
    (b.data ++ b'.data).Sublist (batches.flatMap Batch.data) := by
  have hne : b ≠ b' := by
    rintro rfl
    rw [hbs] at hbs'
    cases hbs'
    exact absurd hlt (UInt32.lt_irrefl _)
  rcases pair_sublist_of_mem hb hb' hne with hsub | hsub
  · simpa using hsub.flatMap Batch.data
  · -- the other way round the numbers would decrease
    have hpair := horder.sublist (hsub.filterMap Batch.number)
    rw [List.filterMap_cons_some hbs', List.filterMap_cons_some hbs, List.filterMap_nil,
      List.pairwise_pair] at hpair
    rcases hpair with h0 | h0
    · exact absurd h0 (UInt32.ne_of_lt hpos).symm
    · exact absurd (UInt32.lt_trans hlt h0) (UInt32.lt_irrefl _)

theorem filter_batches (hinner : ∀ b ∈ batches, ∀ f ∈ b.data, InnerFrame sid f)
    (hnodup : (batches.filterMap Batch.number).Nodup) (hb : b ∈ batches) {bs : UInt32}
    (hbs : b.number = some bs) (hpos : 0 < bs) :
    (batches.map Batch.frames).flatten.filter (Frame.dataOf bs) = b.data.map (Frame.stamp bs) := by
  have hother : ∀ l : List Batch, (∀ b' ∈ l, b' ∈ batches) → (∀ b' ∈ l, b'.number ≠ some bs) →
      (l.map Batch.frames).flatten.filter (Frame.dataOf bs) = [] := by
    intro l hl hne
    rw [List.filter_eq_nil_iff]
    intro f hf
    obtain ⟨fs, hfs, hf⟩ := List.mem_flatten.mp hf
    obtain ⟨b', hb', rfl⟩ := List.mem_map.mp hfs
    have hnil := Batch.filter_frames (hinner b' (hl b' hb')) hpos
    rw [if_neg (hne b' hb'), List.filter_eq_nil_iff] at hnil
    exact hnil f hf
  obtain ⟨l, l', rfl⟩ := List.append_of_mem hb
  rw [List.filterMap_append, List.filterMap_cons_some hbs, List.nodup_append] at hnodup
  obtain ⟨-, hnodup', hdisj⟩ := hnodup
  have hleft : ∀ b' ∈ l, b'.number ≠ some bs := fun b' hb' h0 =>
    hdisj bs (List.mem_filterMap.mpr ⟨b', hb', h0⟩) bs List.mem_cons_self rfl
  have hright : ∀ b' ∈ l', b'.number ≠ some bs := fun b' hb' h0 =>
    (List.nodup_cons.mp hnodup').1 (List.mem_filterMap.mpr ⟨b', hb', h0⟩)
  rw [List.map_append, List.map_cons, List.flatten_append, List.flatten_cons, List.filter_append,
    List.filter_append, Batch.filter_frames (hinner b hb) hpos, if_pos hbs,
    hother l (fun b' hb' => List.mem_append_left _ hb') hleft,
    hother l' (fun b' hb' => List.mem_append_right _ (List.mem_cons_of_mem _ hb')) hright,
    List.nil_append, List.append_nil]

/-- **Honest traffic** consists of the frames of coded blocks, and all data frames of a block are
on the wire. -/
theorem Honest.exists_coding [Float64 F] (hlaw : RS.Lawful) {params : Params F}
    {calls : List (Encoder.Call F)} {fs : List Frame} (h : Honest RS sid params calls fs) :
    ∃ B : UInt32 → Option CodedBlock, (∀ f ∈ fs, ∀ g, f.SentAs g → HonestFrame B g) ∧
      (RS.Sound → Coding RS sid (calls.flatMap Encoder.Call.pushed) B) ∧
      ∀ bs b, 0 < bs → B bs = some b → fs.filter (Frame.dataOf bs) = b.data.map (Frame.stamp bs) := by
  obtain ⟨e, hnew, rfl⟩ := h.emitted
  obtain ⟨-, hpending, hcoded⟩ := newEncoder_ok hnew
  obtain ⟨batches, hout, hdata, hall, n, hn, hnumbers⟩ :=
    e.batches_of_run (P := fun _ b => b.Coded RS) (fun hr => hr.coded hlaw) calls
  rw [hpending, List.nil_append] at hdata
  rw [hcoded, Nat.zero_add] at hnumbers
  have hcb : ∀ b ∈ batches, b.Coded RS := fun b hb => by
    obtain ⟨i, hi, rfl⟩ := List.getElem_of_mem hb
    exact List.Forall₂.get hall (by rw [hall.length_eq]; exact hi) hi
  have hsub : ∀ b ∈ batches, b.data.Sublist (calls.flatMap Encoder.Call.pushed) := by
    intro b hb
    rw [← hdata]
    refine List.Sublist.trans ?_ (List.sublist_append_left _ _)
    simpa using (List.singleton_sublist.mpr hb).flatMap Batch.data
  have hcount : n ≤ 2 ^ 32 := by
    have h1 := length_numbers_le hcb
    have h2 := congrArg List.length hdata
    have h3 := length_le_of_nodup_seqs h.nodup
    rw [hnumbers, List.length_map, List.length_range'] at h1
    rw [List.length_append] at h2
    rw [List.length_map] at h3
    omega
  have hnodup : (batches.filterMap Batch.number).Nodup := by
    rw [hnumbers]
    exact numbers_nodup hcount
  have horder : (batches.filterMap Batch.number).Pairwise fun bs bs' => bs' = 0 ∨ bs < bs' := by
    rw [hnumbers]
    exact numbers_ordered hcount
  have hblock : ∀ b ∈ batches, ∀ bs, b.number = some bs →
      ∃ cb : CodedBlock, cb.sessionID = sid ∧ cb.data = b.data ∧ cb.parity = b.code.1 ∧
        cb.shard = b.code.2 := by
    intro b hb bs hbs
    have hs := hsub b hb
    exact codedBlock_of_segment hlaw ((hcb b hb).valid hbs) (fun f hf => h.inner f (hs.subset hf))
      (fun f hf => h.size f (hs.subset hf)) (h.nodup.sublist (hs.map Frame.seq))
  obtain ⟨B, hB, hBsome⟩ := exists_blockMap hnodup hblock
  refine ⟨B, fun f hf g hg => ?_, fun hsound => ?_, fun bs cb hpos hcb' => ?_⟩
  · rw [hout, List.mem_flatten] at hf
    obtain ⟨l, hl, hf⟩ := hf
    obtain ⟨b, hb, rfl⟩ := List.mem_map.mp hl
    cases hbs : b.number with
    | none =>
      obtain ⟨f₀, hf₀, flagged, rfl⟩ := Batch.mem_frames_of_none hbs hf
      exact .inl (soloFrame_sent (h.inner f₀ ((hsub b hb).subset hf₀)) hg).1
    | some bs =>
      obtain ⟨cb, hcb', hsid, hcdata, hcparity, hcshard⟩ := hBsome b hb bs hbs
      rw [Batch.frames_of_number hbs, ← hcdata, ← hcparity, ← hcshard] at hf
      refine honestFrame_block hcb' (fun f₀ hf₀ => ?_) hf hg
      rw [hsid]
      exact h.inner f₀ ((hsub b hb).subset (hcdata ▸ hf₀))
  · refine ⟨fun hcb' => ?_, fun hcb' => ?_, fun hcb' hp => ?_, fun hpos hlt h1 h2 => ?_⟩
    · obtain ⟨-, -, -, hsid, -⟩ := hB _ _ hcb'
      exact hsid
    · obtain ⟨b, hb, -, -, hcdata, -⟩ := hB _ _ hcb'
      rw [hcdata]
      exact hsub b hb
    · obtain ⟨b, hb, -, -, hcdata, hcparity, hcshard⟩ := hB _ _ hcb'
      exact (hcb b hb).encoded hsound (by rw [← hcparity]; exact hp) hcdata hcparity hcshard
    · obtain ⟨b, hb, hbs, -, hcdata, -⟩ := hB _ _ h1
      obtain ⟨b', hb', hbs', -, hcdata', -⟩ := hB _ _ h2
      rw [hcdata, hcdata', ← hdata]
      exact (data_sublist_of_lt horder hb hb' hbs hbs' hpos hlt).trans
        (List.sublist_append_left _ _)
  · obtain ⟨b, hb, hbs, -, hcdata, -⟩ := hB _ _ hcb'
    rw [hout, hcdata]
    exact filter_batches (fun b hb f hf => h.inner f ((hsub b hb).subset hf)) hnodup hb hbs hpos

end FlexBraid
