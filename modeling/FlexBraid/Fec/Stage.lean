import FlexBraid.Fec.Segments

/-!
# Stages of a lossless emission

A decoder that receives an emission in order and without loss is between segments,
within a block whose buffer fills, or within a block whose frames need no buffer
any more.

## Main definitions

* `BlockState.Partial` — a buffer that no parity frame has reached.
* `Decoder.held` — the data frames that wait in buffers.
* `Decoder.Waiting` — a decoder between two blocks.
* `Decoder.Stage` — where in an emission a decoder stands.

## Main results

* `held_tick` — a tick hands on what it takes from the buffers.
* `push_partial`, `push_complete`, `push_late`, `push_solo` — what a push does with
  each kind of frame.
-/

namespace FlexBraid

variable {F C : Type} {RS : ReedSolomon C}

open Segment

/-- The block of a stream with the given number. -/
def StreamKey.block (sk : StreamKey) (n : ℕ) : BlockKey :=
  ⟨sk.sessionID, sk.path, UInt32.ofNat n⟩

/-- What a data frame carries: its number and its payload. -/
def Frame.content (f : Frame) : UInt32 × Bytes := (f.seq, f.payload)

/-! ### Buffers without geometry -/

/-- The buffer `st` holds the data frames `got` and no parity frame has come. -/
structure BlockState.Partial (got : List Frame) (st : BlockState) : Prop where
  k : st.k = 0
  seqs : st.seqs = []
  flushed : st.flushed = false
  keys : st.data.keys.Perm (got.map Frame.seq)
  lookup : ∀ f ∈ got, st.data.lookup f.seq = some f.payload

namespace BlockState

variable {got : List Frame} {st : BlockState}

theorem partial_nil : Partial [] {} := ⟨rfl, rfl, rfl, List.Perm.refl _, by simp⟩

theorem content_filterMap {data : GoMap UInt32 Bytes}
    (h : ∀ f ∈ got, data.lookup f.seq = some f.payload) (sid : UInt64) :
    ((got.map Frame.seq).filterMap fun seq => (data.lookup seq).map fun payload =>
      ({ sessionID := sid, seq := seq, payload := payload } : Frame)).map Frame.content =
      got.map Frame.content := by
  induction got with
  | nil => rfl
  | cons f got ih =>
    obtain ⟨hf, hgot⟩ := List.forall_mem_cons.mp h
    rw [List.map_cons, List.filterMap_cons, hf, List.map_cons]
    simp only [Option.map_some, List.map_cons, ih hgot]
    rfl

theorem Partial.frames (h : st.Partial got) (sid : UInt64) :
    ((st.frames sid).map Frame.content).Perm (got.map Frame.content) := by
  rw [BlockState.frames, if_pos (by rw [h.seqs]; rfl), ← content_filterMap h.lookup sid]
  exact (((List.perm_insertionSort (· ≤ ·) _).trans h.keys).filterMap _).map _

theorem Partial.addData (h : st.Partial got) {f g : Frame} (hseq : g.seq = f.seq)
    (hpayload : g.payload = f.payload) (hnew : f.seq ∉ got.map Frame.seq) (now : Time)
    (timeout : Duration) : (st.addData now timeout g).Partial (got ++ [f]) ∧
      (got ≠ [] → (st.addData now timeout g).deadline = st.deadline) := by
  have hnone : st.data.lookup f.seq = none := by
    rw [AList.lookup_eq_none, AList.mem_keys, h.keys.mem_iff]
    exact hnew
  have hdata : (st.addData now timeout g).data = st.data.insert f.seq f.payload := by
    change (if (st.data.lookup g.seq).isSome then _ else _) = _
    rw [hseq, hpayload, hnone]
    rfl
  refine ⟨⟨h.k, h.seqs, h.flushed, ?_, fun f' hf' => ?_⟩, fun hne => ?_⟩
  · rw [hdata, AList.keys_insert, List.erase_of_not_mem (by rwa [h.keys.mem_iff]), List.map_append]
    exact (h.keys.cons f.seq).trans (List.perm_append_singleton f.seq _).symm
  · rw [hdata, AList.lookup_insert_eq]
    rcases List.mem_append.mp hf' with hf' | hf'
    · have hne : f'.seq ≠ f.seq := fun h0 => hnew (h0 ▸ List.mem_map_of_mem hf')
      rw [if_neg hne, h.lookup f' hf']
    · rw [List.mem_singleton.mp hf', if_pos rfl]
  · have hsize : st.data.size ≠ 0 := by
      rw [AList.size, h.keys.length_eq, List.length_map]
      exact fun h0 => hne (List.length_eq_zero_iff.mp h0)
    change (if (decide (st.data.size = 0) && decide (st.parity.size = 0)) = true then _ else _) = _
    rw [decide_eq_false hsize]
    rfl

end BlockState

namespace Decoder

/-! ### What the buffers hold -/

/-- The data frames a block's buffer holds. -/
def heldIn (key : BlockKey) (st : BlockState) : List Frame := st.frames key.sessionID

/-- The data frames that wait in buffers. -/
def held (d : Decoder F C) : List Frame := d.blocks.gather heldIn

/-- **A tick hands on what it takes from the buffers.** -/
theorem held_tick (d : Decoder F C) (σ : IterOrder BlockKey) (now : Time) :
    d.held.Perm ((d.tick σ now).2 ++ (d.tick σ now).1.held) := by
  cases henabled : d.params.enabled with
  | false =>
    rw [tick_of_disabled henabled]
    exact List.Perm.refl _
  | true =>
    have hlook := lookup_tick henabled σ now
    have hout : (d.tick σ now).2.Perm (d.blocks.keys.flatMap (d.dueFrames now)) := by
      rw [(ticked_tick henabled σ now).2]
      exact (σ.perm _).flatMap_right _
    have hleft : (d.tick σ now).1.held.Perm
        (d.blocks.keys.flatMap ((d.tick σ now).1.blocks.gatherAt heldIn)) := by
      refine AList.gather_perm_keys heldIn d.blocks.keys_nodup fun key hkey => ?_
      rw [hlook, Option.isSome_filter] at hkey
      rw [← AList.mem_keys, ← AList.lookup_isSome]
      exact Option.isSome_of_any hkey
    refine List.Perm.trans ?_ ((hout.append hleft).symm)
    refine List.Perm.trans (List.Perm.of_eq ?_) (List.flatMap_append_perm _ _ _).symm
    -- block by block: what was held is handed on or left
    refine List.flatMap_congr fun key _ => ?_
    unfold dueFrames AList.gatherAt
    rw [hlook]
    cases hl : d.blocks.lookup key with
    | none => rfl
    | some st => cases hdue : st.overdue now <;> simp [hdue, heldIn, Option.filter_some]

/-! ### Decoders that wait for the next block -/

/-- A decoder that has seen the first `n` blocks of a stream: every buffer belongs to
one of them, with a deadline not after `T`, and the high-water mark is one of their
numbers. -/
structure Waiting (params : Params F) (sk : StreamKey) (T : Time) (n : ℕ) (d : Decoder F C) :
    Prop where
  params : d.params = params
  blocks : ∀ key st, d.blocks.lookup key = some st →
    (∃ m, 0 < m ∧ m ≤ n ∧ key = sk.block m) ∧ st.flushed = false ∧
      ∃ t, st.deadline = some t ∧ t ≤ T
  last : ∃ m ≤ n, d.lastFlushed.getD sk 0 = UInt32.ofNat m

variable {params : Params F} {sk : StreamKey} {T : Time} {n : ℕ} {d d' : Decoder F C}

/-- What is left after a call: buffers from before, and that of the last block. -/
theorem Waiting.next {m : ℕ} (h : Waiting params sk T n d) (hm : n ≤ m)
    (hparams : d'.params = d.params)
    (hblocks : ∀ key st, d'.blocks.lookup key = some st → d.blocks.lookup key = some st ∨
      key = sk.block m ∧ 0 < m ∧ st.flushed = false ∧ ∃ t, st.deadline = some t ∧ t ≤ T)
    (hlast : d'.lastFlushed.getD sk 0 = d.lastFlushed.getD sk 0 ∨
      ∃ j ≤ m, d'.lastFlushed.getD sk 0 = UInt32.ofNat j) : Waiting params sk T m d' := by
  refine ⟨hparams.trans h.params, fun key st hl => ?_, ?_⟩
  · rcases hblocks key st hl with hl | ⟨hkey, hpos, hrest⟩
    · obtain ⟨⟨j, hj, hjn, hkey⟩, hrest⟩ := h.blocks key st hl
      exact ⟨⟨j, hj, hjn.trans hm, hkey⟩, hrest⟩
    · exact ⟨⟨m, hpos, le_refl m, hkey⟩, hrest⟩
  · rcases hlast with hsame | hlast
    · obtain ⟨j, hj, hlast⟩ := h.last
      exact ⟨j, hj.trans hm, hsame.trans hlast⟩
    · exact hlast

/-- A tick keeps a decoder waiting. -/
theorem Waiting.tick (h : Waiting params sk T n d) (σ : IterOrder BlockKey) (now : Time) :
    Waiting params sk T n (d.tick σ now).1 := by
  obtain ⟨hparams, -, hleft⟩ := tick_leaves d σ now
  refine h.next (le_refl n) hparams (fun key st hl => .inl (hleft key st hl)) ?_
  cases henabled : d.params.enabled with
  | false =>
    rw [tick_of_disabled henabled]
    exact .inl rfl
  | true =>
    rcases (ticked_tick henabled σ now).1.last sk with hsame | ⟨key, -, st, hl, -, -, hlast⟩
    · exact .inl hsame
    · obtain ⟨⟨m, -, hm, rfl⟩, -⟩ := h.blocks key st hl
      exact .inr ⟨m, hm, hlast.symm⟩

theorem Waiting.tick_final (h : Waiting params sk T n d) (henabled : 0 < n → params.enabled = true)
    (σ : IterOrder BlockKey) : d.held.Perm (d.tick σ T).2 := by
  have hnone : ∀ key, (d.tick σ T).1.blocks.lookup key = none := by
    intro key
    cases hl : (d.tick σ T).1.blocks.lookup key with
    | none => rfl
    | some st =>
      obtain ⟨⟨m, hm, hmn, -⟩, -⟩ := (h.tick σ T).blocks key st hl
      rw [lookup_tick (by rw [h.params]; exact henabled (by omega))] at hl
      obtain ⟨hl, hdue⟩ := Option.filter_eq_some_iff.mp hl
      obtain ⟨-, hflushed, t, ht, hle⟩ := h.blocks key st hl
      rw [BlockState.overdue, hflushed, ht] at hdue
      have hlt : T < t := by simpa [before] using hdue
      exact absurd hle (not_le.mpr hlt)
  have hempty : (d.tick σ T).1.held = [] := by
    rw [held, AList.gather, List.flatMap_eq_nil_iff]
    exact fun key _ => AList.gatherAt_of_none _ (hnone key)
  have hheld := d.held_tick σ T
  rwa [hempty, List.append_nil] at hheld

/-! ### Pushes on a block in order -/

variable {path : String} {g : Frame} {hist : List Call} {bs : UInt32} {sid : UInt64}

variable (RS) in
/-- A data frame of a block without geometry waits in its buffer. -/
theorem push_partial (henabled : d.params.enabled = true) (now : Time) {f : Frame}
    {got : List Frame} (hcoded : g.coded = true) (hdata : g.hasFlag flagFECParity = false)
    (hseq : g.seq = f.seq) (hpayload : g.payload = f.payload)
    (hlate : d.late (d.blockKey path g) = false) (hst : (d.blockAt (d.blockKey path g)).Partial got)
    (hnew : f.seq ∉ got.map Frame.seq) :
    ∃ d' : Decoder F C, d.push RS now path g = some (d', []) ∧ d'.params = d.params ∧
      d'.lastFlushed = d.lastFlushed ∧
      ∀ key, d'.blocks.lookup key = if key = d.blockKey path g
        then some ((d.blockAt (d.blockKey path g)).addData now d.params.blockTimeout g)
        else d.blocks.lookup key := by
  generalize hkey : d.blockKey path g = key at *
  have habsorb : (d.blockAt key).absorb now (d.openBlock key).params.blockTimeout g =
      some ((d.blockAt key).addData now d.params.blockTimeout g) := by
    simp [BlockState.absorb, hdata, openBlock]
  obtain ⟨d₁, stats, hd₁, hpush⟩ :=
    pushBlock_of_absorb RS (d.openBlock key) key hst.flushed habsorb
  obtain ⟨hst', -⟩ := hst.addData hseq hpayload hnew now d.params.blockTimeout
  refine ⟨d₁, ?_, by rw [hd₁]; rfl, by rw [hd₁]; rfl, fun key' => ?_⟩
  · rw [push_of_coded RS henabled hcoded, hkey, hlate]
    simp only [Bool.false_eq_true, if_false, hpush]
    rw [maybeDeliver, if_pos hst'.k]
  · rw [hd₁]
    exact lookup_insert_openBlock d key _ key'

variable (RS) in
/-- The first parity frame of a block that is complete hands the block on. -/
theorem push_complete (henabled : d.params.enabled = true) (now : Time) {got : List Frame}
    (hne : got ≠ []) (hlt : got.length < 65536) {st : BlockState}
    (hl : d.blocks.lookup (d.blockKey path g) = some st) (hst : st.Partial got)
    (hparity : g.hasFlag flagFECParity = true) {p i : ℕ} {shard : Bytes}
    (hg : g.payload = parityPayload got.length p got i shard) :
    ∃ (d' : Decoder F C) (out : List Frame), d.push RS now path g = some (d', out) ∧
      d'.params = d.params ∧ out.map Frame.content = got.map Frame.content ∧
      (∀ key, d'.blocks.lookup key =
        if key = d.blockKey path g then none else d.blocks.lookup key) ∧
      ∀ sk, d'.lastFlushed.getD sk 0 =
        if sk = (d.blockKey path g).stream ∧ d.lastFlushed.getD sk 0 < g.blockSeq then g.blockSeq
        else d.lastFlushed.getD sk 0 := by
  have hbs : (d.blockKey path g).blockSeq = g.blockSeq := rfl
  have hcoded : g.coded = true := by rw [Frame.coded, hparity, Bool.true_or]
  rw [push_of_coded RS henabled hcoded, ← hbs]
  generalize d.blockKey path g = key at *
  have hat : d.blockAt key = st := blockAt_of_lookup hl
  have hopen : (d.openBlock key).blocks = d.blocks := by rw [openBlock, hl]; rfl
  obtain ⟨st', hadd, hk, hseqs, hdata, -⟩ :=
    addParity_order hlt hst.k hg now (d.openBlock key).params.blockTimeout
  have habsorb : st.absorb now (d.openBlock key).params.blockTimeout g = some st' := by
    rw [BlockState.absorb, if_pos hparity, hadd]
    rfl
  obtain ⟨d₁, stats, hd₁, hpush⟩ :=
    pushBlock_of_absorb RS (d.openBlock key) key hst.flushed habsorb
  -- the block is complete, so the delivery attempt flushes it
  have hpos := List.length_pos_of_ne_nil hne
  have hsize : st'.data.size = st'.k := by
    rw [hdata, hk, AList.size, hst.keys.length_eq, List.length_map]
  have hdeliver : d₁.maybeDeliver RS key st' = some (d₁.flush key st') := by
    rw [maybeDeliver, if_neg (by omega), if_neg (by omega), if_pos hsize]
  refine ⟨(d₁.flush key st').1, (d₁.flush key st').2, ?_, by rw [hd₁]; rfl, ?_, fun key' => ?_,
    fun sk => ?_⟩
  · rw [late, hl, hat]
    simp only [Option.isNone_some, Bool.false_and, Bool.false_eq_true, if_false, hpush, hdeliver]
  · rw [flush_snd, BlockState.frames,
      if_neg (by rw [hseqs, List.length_map]; omega), hseqs, hdata]
    exact BlockState.content_filterMap hst.lookup key.sessionID
  · rw [flush_blocks, AList.lookup_erase_eq, hd₁]
    split
    · rfl
    · next hne => rw [AList.lookup_insert_ne hne, hopen]
  · rw [flush_lastFlushed, hd₁]
    rfl

variable (RS) in
/-- A frame of a block that was handed on is dropped. -/
theorem push_late (henabled : d.params.enabled = true) (now : Time) (hcoded : g.coded = true)
    (hnone : d.blocks.lookup (d.blockKey path g) = none)
    (hlast : g.blockSeq ≤ d.lastFlushed.getD (d.blockKey path g).stream 0) :
    d.push RS now path g = some (d, []) := by
  have hlate : d.late (d.blockKey path g) = true := by
    rw [late, hnone, Bool.and_eq_true]
    exact ⟨rfl, decide_eq_true hlast⟩
  rw [push_of_coded RS henabled hcoded, if_pos hlate]

variable (RS) in
/-- A frame that belongs to no block is handed on at once. -/
theorem push_solo (d : Decoder F C) (now : Time) (path : String) (hcoded : g.coded = false) :
    ∃ pathSeq, d.push RS now path g = some ({ d with pathSeq := pathSeq }, [g]) := by
  cases henabled : d.params.enabled with
  | true => exact push_of_not_coded RS henabled hcoded
  | false =>
    have hparity : g.hasFlag flagFECParity = false := by
      rw [Frame.coded, Bool.or_eq_false_iff] at hcoded
      exact hcoded.1
    simpa [hparity] using push_of_disabled RS henabled now path g

/-! ### Stages of an emission -/

/-- A block whose data frames are inner frames of session `sid` with distinct
numbers, and whose size the sub-header can hold. -/
structure Whole (sid : UInt64) (data : List Frame) (p : ℕ) : Prop where
  inner : ∀ f ∈ data, InnerFrame sid f
  nodup : (data.map Frame.seq).Nodup
  ne_nil : data ≠ []
  size : 0 < p → data.length < 65536

/-- The segments ahead of a decoder that has seen `n` blocks. -/
structure Ahead (params : Params F) (sid : UInt64) (n : ℕ) (segs : List Segment) : Prop where
  count : n + blockCount segs ≤ 2 ^ 32
  enabled : 0 < n + blockCount segs → params.enabled = true
  solo : ∀ f flagged, Segment.solo f flagged ∈ segs → InnerFrame sid f
  block : ∀ data p shard, Segment.block data p shard ∈ segs → Whole sid data p

/-- A decoder between two segments: it has seen the first `n` blocks, to which all coded
frames pushed so far belong, and `segs` is to come. -/
structure Between (hist : List Call) (params : Params F) (sk : StreamKey) (T : Time) (n : ℕ)
    (d : Decoder F C) (segs : List Segment) : Prop extends
    Ahead params sk.sessionID n segs, Waiting params sk T n d where
  seen : ∀ g ∈ hist.flatMap Call.pushed, g.coded = true →
    ∃ m, 0 < m ∧ m ≤ n ∧ g.blockSeq = UInt32.ofNat m

/-- The deadline of block `bs` was set by its first frame. -/
def FirstAt (timeout : Duration) (hist : List Call) (bs : UInt32) (deadline : Option Time) : Prop :=
  ∃ pre now path g mid, hist = pre ++ .push now path g :: mid ∧ g.coded = true ∧ g.blockSeq = bs ∧
    (∀ g' ∈ pre.flatMap Call.pushed, g'.coded = true → g'.blockSeq ≠ bs) ∧
    deadline = some (now + timeout)

/-- The frames of block `n` that are still to come: data frames `left` and parity frames
`js`. -/
def remaining (n : ℕ) (data : List Frame) (p : ℕ) (shard : ℕ → Bytes) (left : List Frame)
    (js : List ℕ) : List Frame :=
  left.map (Frame.stamp (UInt32.ofNat n)) ++
    js.map fun i => parityFrame (UInt32.ofNat n) data.length p data i (shard i)

/-- Where in an emission a decoder stands, what is still to come of the emission, and
the data frames among it: between segments, within a block whose buffer fills, or
within a block whose frames need no buffer any more. -/
inductive Stage (params : Params F) (sk : StreamKey) (T : Time) (hist : List Call)
    (d : Decoder F C) : List Frame → List Frame → Prop
  | idle {n : ℕ} {segs : List Segment} (hb : Between hist params sk T n d segs) :
      Stage params sk T hist d (emit n segs) (segs.flatMap Segment.data)
  | filling {n p : ℕ} {segs : List Segment} {got left : List Frame} {shard : ℕ → Bytes}
      {st : BlockState} (hb : Between hist params sk T (n + 1) d segs)
      (hw : Whole sk.sessionID (got ++ left) p) (hgot : got ≠ []) (hn : n + 1 < 2 ^ 32)
      (hmore : remaining (n + 1) (got ++ left) p shard left (List.range p) ≠ [])
      (hl : d.blocks.lookup (sk.block (n + 1)) = some st) (hst : st.Partial got)
      (hfirst : FirstAt params.blockTimeout hist (UInt32.ofNat (n + 1)) st.deadline) :
      Stage params sk T hist d
        (remaining (n + 1) (got ++ left) p shard left (List.range p) ++ emit (n + 1) segs)
        (left ++ segs.flatMap Segment.data)
  | settled {n p : ℕ} {segs : List Segment} {data left : List Frame} {shard : ℕ → Bytes}
      {js : List ℕ} (hb : Between hist params sk T (n + 1) d segs) (hw : Whole sk.sessionID data p)
      (hleft : ∀ f ∈ left, f ∈ data) (hzero : left ≠ [] → UInt32.ofNat (n + 1) = 0)
      (hmore : remaining (n + 1) data p shard left js ≠ [])
      (hnone : d.blocks.lookup (sk.block (n + 1)) = none)
      (hlast : UInt32.ofNat (n + 1) ≤ d.lastFlushed.getD sk 0) :
      Stage params sk T hist d (remaining (n + 1) data p shard left js ++ emit (n + 1) segs)
        (left ++ segs.flatMap Segment.data)

variable {segs segs' : List Segment} {p : ℕ} {shard : ℕ → Bytes} {data left : List Frame}
  {js : List ℕ}

theorem FirstAt.snoc {timeout : Duration} {deadline : Option Time}
    (h : FirstAt timeout hist bs deadline) (c : Call) :
    FirstAt timeout (hist ++ [c]) bs deadline := by
  obtain ⟨pre, now, path, g, mid, rfl, hg⟩ := h
  exact ⟨pre, now, path, g, mid ++ [c], by simp, hg⟩

/-- Past a solo frame or a block, the rest is ahead. -/
theorem Ahead.tail {s : Segment} (h : Ahead params sid n (s :: segs)) :
    Ahead params sid (n + blockCount [s]) segs := by
  have hcount : n + blockCount [s] + blockCount segs = n + blockCount (s :: segs) := by
    rw [Nat.add_assoc, ← blockCount_append, List.singleton_append]
  exact ⟨hcount.trans_le h.count, fun h0 => h.enabled (hcount ▸ h0),
    fun f flagged hmem => h.solo f flagged (List.mem_cons_of_mem _ hmem),
    fun data p shard hmem => h.block data p shard (List.mem_cons_of_mem _ hmem)⟩

theorem Between.coding (h : Between hist params sk T (n + 1) d segs) : d.params.enabled = true := by
  rw [h.params]
  exact h.enabled (by omega)

/-- A call that pushes at most a frame of block `m`. -/
theorem Between.call {m : ℕ} (h : Between hist params sk T n d segs) (hm : n ≤ m)
    (hw : Waiting params sk T m d') (ha : Ahead params sk.sessionID m segs') {c : Call}
    (hc : ∀ g ∈ c.pushed, g.coded = true → 0 < m ∧ g.blockSeq = UInt32.ofNat m) :
    Between (hist ++ [c]) params sk T m d' segs' := by
  refine ⟨ha, hw, fun g hg hcoded => ?_⟩
  rw [List.flatMap_append, List.mem_append, List.flatMap_singleton] at hg
  rcases hg with hg | hg
  · obtain ⟨j, hj, hjn, hbs⟩ := h.seen g hg hcoded
    exact ⟨j, hj, hjn.trans hm, hbs⟩
  · obtain ⟨hpos, hbs⟩ := hc g hg hcoded
    exact ⟨m, hpos, le_refl m, hbs⟩

namespace Stage

theorem idle_of_nil (hb : Between hist params sk T n d segs)
    (h : remaining n data p shard left js = []) :
    Stage params sk T hist d (remaining n data p shard left js ++ emit n segs)
      (left ++ segs.flatMap Segment.data) := by
  obtain ⟨hleft, -⟩ := List.append_eq_nil_iff.mp h
  rw [h, List.map_eq_nil_iff.mp hleft]
  exact idle hb

/-- The stage of a block that is being filled, or that was complete without parity. -/
theorem fill {got : List Frame} {st : BlockState} (hb : Between hist params sk T (n + 1) d segs)
    (hw : Whole sk.sessionID (got ++ left) p) (hgot : got ≠ []) (hn : n + 1 < 2 ^ 32)
    (hl : d.blocks.lookup (sk.block (n + 1)) = some st) (hst : st.Partial got)
    (hfirst : FirstAt params.blockTimeout hist (UInt32.ofNat (n + 1)) st.deadline) :
    Stage params sk T hist d
      (remaining (n + 1) (got ++ left) p shard left (List.range p) ++ emit (n + 1) segs)
      (left ++ segs.flatMap Segment.data) := by
  by_cases hmore : remaining (n + 1) (got ++ left) p shard left (List.range p) = []
  · exact idle_of_nil hb hmore
  · exact filling hb hw hgot hn hmore hl hst hfirst

/-- The stage of a block that was handed on, or of the block after it. -/
theorem settle (hb : Between hist params sk T (n + 1) d segs) (hw : Whole sk.sessionID data p)
    (hleft : ∀ f ∈ left, f ∈ data) (hzero : left ≠ [] → UInt32.ofNat (n + 1) = 0)
    (hnone : d.blocks.lookup (sk.block (n + 1)) = none)
    (hlast : UInt32.ofNat (n + 1) ≤ d.lastFlushed.getD sk 0) :
    Stage params sk T hist d (remaining (n + 1) data p shard left js ++ emit (n + 1) segs)
      (left ++ segs.flatMap Segment.data) := by
  by_cases hmore : remaining (n + 1) data p shard left js = []
  · exact idle_of_nil hb hmore
  · exact settled hb hw hleft hzero hmore hnone hlast

end Stage

/-! ### Frames of a block on the wire -/

theorem stamp_sent {f : Frame} (hf : InnerFrame sid f) (hg : (f.stamp bs).SentAs g) :
    g.hasFlag flagFECParity = false ∧ g.seq = f.seq ∧ g.payload = f.payload ∧
      g.sessionID = sid ∧ g.blockSeq = bs ∧ g.coded = decide (bs ≠ 0) := by
  have hflag : ∀ flag, (f.stamp bs).hasFlag flag = false := hf.hasFlag
  have hbs : g.blockSeq = bs := hg.blockSeq (hflag _)
  refine ⟨by rw [hg.hasFlag, hflag], hg.seq (hflag _), hg.payload, hg.session.trans hf.session, hbs,
    ?_⟩
  rw [Frame.coded, hg.hasFlag, hg.hasFlag, hflag, hflag, hbs]
  rfl

theorem parity_sent {i : ℕ} {shard : Bytes} (hw : Whole sid data p)
    (hg : (parityFrame bs data.length p data i shard).SentAs g) :
    g.hasFlag flagFECParity = true ∧ g.payload = parityPayload data.length p data i shard ∧
      g.sessionID = sid ∧ g.blockSeq = bs ∧ g.coded = true := by
  have hflag := CodedBlock.hasFlag_parityFrame bs data.length p data i shard
  have hparity : g.hasFlag flagFECParity = true := by rw [hg.hasFlag, hflag]
  refine ⟨hparity, hg.payload, ?_, hg.blockSeq ?_, by rw [Frame.coded, hparity, Bool.true_or]⟩
  · rw [hg.session]
    cases hdata : data with
    | nil => exact absurd hdata hw.ne_nil
    | cons f l => exact (hw.inner f (hdata ▸ List.mem_cons_self)).session
  · change (flagFECParity &&& flagPassSeq != 0) = false
    decide

theorem remaining_sent {f : Frame} (hw : Whole sid data p) (hleft : ∀ f ∈ left, f ∈ data)
    (hf : f ∈ remaining n data p shard left js) (hg : f.SentAs g) :
    g.blockSeq = UInt32.ofNat n ∧ (UInt32.ofNat n ≠ 0 → g.coded = true) := by
  rcases List.mem_append.mp hf with hf | hf
  · obtain ⟨f₀, hf₀, rfl⟩ := List.mem_map.mp hf
    obtain ⟨-, -, -, -, hbs, hcoded⟩ := stamp_sent (hw.inner f₀ (hleft f₀ hf₀)) hg
    exact ⟨hbs, fun h0 => hcoded.trans (decide_eq_true h0)⟩
  · obtain ⟨i, -, rfl⟩ := List.mem_map.mp hf
    obtain ⟨-, -, -, hbs, hcoded⟩ := parity_sent hw hg
    exact ⟨hbs, fun _ => hcoded⟩

end Decoder

end FlexBraid
