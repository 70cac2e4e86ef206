import FlexBraid.Fec.Encoder
import FlexBraid.Lib.GoMap
import FlexBraid.Lib.Run

/-!
# The block decoder

The decoder assembles the blocks of every stream (a session's frames on one path,
or on all paths in cross-path mode) and emits a block's data frames when it is
complete, when parity completes it, or when its deadline has passed.

A call that slices past a shard's capacity panics; such a call returns `none`.

## Main definitions

* `BlockState`, `Decoder`, `newDecoder` — the assembly buffers and the decoder.
* `Decoder.push`, `Decoder.tick` — the two calls.
* `BlockState.addParity`, `Decoder.reconstruct`, `Decoder.flush` — their parts.
* `Decoder.observePathSeq`, `Decoder.flushPathGaps` — the raw loss counters of
  pass-through frames.
* `Decoder.takeStreamStats`, `Decoder.takePathStats` — the counters read out.
* `Decoder.Call`, `Decoder.step` — the decoder as a machine.
-/

namespace FlexBraid

/-- One stream: a session's frames on one path. -/
structure StreamKey where
  sessionID : UInt64
  path : String
deriving DecidableEq

structure BlockKey where
  sessionID : UInt64
  path : String
  blockSeq : UInt32
deriving DecidableEq

def BlockKey.stream (key : BlockKey) : StreamKey := ⟨key.sessionID, key.path⟩

/-- The assembly buffer of one block.  The geometry is known once a parity frame
arrived. -/
structure BlockState where
  k : ℕ := 0
  p : ℕ := 0
  /-- The sequence numbers of the data frames, in block order. -/
  seqs : List UInt32 := []
  /-- The payload lengths of the data frames. -/
  lens : List UInt16 := []
  maxLen : ℕ := 0
  /-- The payloads that arrived, by sequence number. -/
  data : GoMap UInt32 Bytes := ∅
  /-- The parity shards that arrived, by index. -/
  parity : GoMap ℕ Bytes := ∅
  deadline : Option Time := none
  flushed : Bool := false
deriving DecidableEq

/-- The loss counters of a stream. -/
structure StreamStat where
  lost : ℕ := 0
  received : ℕ := 0
deriving DecidableEq

/-- The raw loss counters of a stream's pass-through frames. -/
structure RawPathStat where
  /-- The next counter expected; zero before the first frame. -/
  next : ℕ := 0
  received : ℕ := 0
  lost : ℕ := 0
  /-- The counters past `next` that arrived. -/
  pending : GoMap ℕ Unit := ∅
  /-- Since when `next` is missing. -/
  gapSince : Option Time := none
deriving DecidableEq

/-- How long a counter may be missing before it counts as lost. -/
def pathGapWindow : Duration := 40 * millisecond

structure Decoder (F C : Type) where
  params : Params F
  blocks : GoMap BlockKey BlockState := ∅
  /-- The codecs built so far, by number of parity shards. -/
  rsByParity : GoMap ℕ C := ∅
  /-- The highest block flushed, by stream. -/
  lastFlushed : GoMap StreamKey UInt32 := ∅
  stats : GoMap StreamKey StreamStat := ∅
  /-- The number of data frames reconstructed from parity. -/
  recovered : ℕ := 0
  pathSeq : GoMap StreamKey RawPathStat := ∅

variable {F C : Type} (RS : ReedSolomon C)

/-- A decoder for the given parameters. -/
def newDecoder (params : Params F) : Decoder F C := { params := params.withDefaults }

/-! ### Raw path counters -/

namespace RawPathStat

/-- Consume the run of pending counters that starts at `next`, at most `fuel` of
them; there are no more than pending counters. -/
def drain : ℕ → RawPathStat → RawPathStat
  | 0, ps => ps
  | fuel + 1, ps =>
    if (ps.pending.lookup ps.next).isNone then ps
    else drain fuel
      { ps with
        pending := ps.pending.erase ps.next
        received := ps.received + 1
        next := ps.next + 1 }

/-- Consume the run of pending counters that starts at `next`. -/
def drainPathPending (ps : RawPathStat) : RawPathStat := drain ps.pending.size ps

/-- Record one counter; `none` when it is a duplicate and nothing is stored. -/
def observe (ps : RawPathStat) (now : Time) (seq : UInt32) : Option RawPathStat :=
  let next := seq.toNat
  if ps.next = 0 then
    some { ps with next := next + 1, received := ps.received + 1 }
  else if next < ps.next then none
  else if next = ps.next then
    let ps' := ({ ps with received := ps.received + 1, next := next + 1 } :
      RawPathStat).drainPathPending
    some (if ps'.pending.size = 0 then { ps' with gapSince := none } else ps')
  else
    some { ps with
      pending := ps.pending.insert next ()
      gapSince := if ps.gapSince.isNone then some now else ps.gapSince }

/-- Book a gap that outlived the window as loss, and go on at the lowest pending
counter. -/
def ageGap (ps : RawPathStat) (now : Time) : RawPathStat :=
  if ps.next = 0 || ps.gapSince.isNone then ps
  else if !elapsed now pathGapWindow ps.gapSince then ps
  else if ps.pending.size = 0 then
    { ps with lost := ps.lost + 1, next := ps.next + 1, gapSince := none }
  else
    let lo := ps.pending.keys.foldl min (2 ^ 64 - 1)
    let ps' := ({ ps with lost := ps.lost + (lo - ps.next), next := lo } :
      RawPathStat).drainPathPending
    { ps' with gapSince := if ps'.pending.size = 0 then none else some now }

end RawPathStat

namespace Decoder

/-- Record the counter of one pass-through frame. -/
def observePathSeq (d : Decoder F C) (now : Time) (sessionID : UInt64) (path : String)
    (seq : UInt32) : Decoder F C :=
  let sk : StreamKey := ⟨sessionID, path⟩
  match (d.pathSeq.getD sk {}).observe now seq with
  | none => d
  | some ps => { d with pathSeq := d.pathSeq.insert sk ps }

/-- Age the gaps of every stream. -/
def flushPathGaps (d : Decoder F C) (now : Time) : Decoder F C :=
  { d with pathSeq := d.pathSeq.mapVals fun ps => ps.ageGap now }

/-- Read out and reset the raw counters of one stream. -/
def takePathStats (d : Decoder F C) (sessionID : UInt64) (path : String) :
    Decoder F C × ℕ × ℕ :=
  let sk : StreamKey := ⟨sessionID, path⟩
  let ps := d.pathSeq.getD sk {}
  ({ d with pathSeq := d.pathSeq.insert sk { ps with lost := 0, received := 0 } },
    ps.lost, ps.received)

/-- Read out and reset the loss counters of one stream. -/
def takeStreamStats (d : Decoder F C) (sessionID : UInt64) (path : String) :
    Decoder F C × ℕ × ℕ :=
  let sk : StreamKey := ⟨sessionID, path⟩
  let s := d.stats.getD sk {}
  ({ d with stats := d.stats.insert sk {} }, s.lost, s.received)

end Decoder

/-! ### Parity frames -/

namespace BlockState

/-- The sub-header of a parity payload: the number of data frames, the index, the
shard size and the number of parity frames. -/
structure SubHeader where
  k : ℕ
  pidx : ℕ
  maxLen : ℕ
  p : ℕ

def readSubHeader (payload : Bytes) : SubHeader where
  k := (uint16 payload).toNat
  pidx := (uint16 (payload.drop 2)).toNat
  maxLen := (uint16 (payload.drop 4)).toNat
  p := (uint16 (payload.drop 6)).toNat

/-- Take the block's geometry from its first parity frame. -/
def adoptGeometry (st : BlockState) (now : Time) (timeout : Duration) (h : SubHeader)
    (payload : Bytes) : BlockState :=
  { st with
    k := h.k
    p := h.p
    maxLen := h.maxLen
    seqs := (List.range h.k).map fun i => uint32 (payload.drop (parityHdrFixed + 4 * i))
    lens := (List.range h.k).map fun i =>
      uint16 (payload.drop (parityHdrFixed + 4 * h.k + 2 * i))
    deadline := if st.data.size = 0 && st.parity.size = 0 then some (now + timeout)
      else st.deadline }

/-- Parse the sub-header of a parity frame and store its shard. -/
def addParity (st : BlockState) (now : Time) (timeout : Duration) (f : Frame) :
    Except FecError BlockState :=
  if f.payload.length < parityHdrFixed then .error .parityTooShort
  else
    let h := readSubHeader f.payload
    if f.payload.length < parityHdrFixed + 4 * h.k + 2 * h.k + h.maxLen then
      .error .parityTruncated
    else
      let st' := if st.k = 0 then st.adoptGeometry now timeout h f.payload else st
      if st'.k ≠ h.k || st'.maxLen ≠ h.maxLen then .error .parityInconsistent
      else
        .ok { st' with
          parity := st'.parity.insert h.pidx
            ((f.payload.drop (parityHdrFixed + 4 * h.k + 2 * h.k)).take h.maxLen) }

/-- Store the payload of a data frame, the first of its number only; the first
frame of the block sets the deadline. -/
def addData (st : BlockState) (now : Time) (timeout : Duration) (f : Frame) : BlockState :=
  { st with
    deadline := if st.data.size = 0 && st.parity.size = 0 then some (now + timeout)
      else st.deadline
    data := if (st.data.lookup f.seq).isSome then st.data else st.data.insert f.seq f.payload }

/-- Take in a frame, if it is acceptable. -/
def absorb (st : BlockState) (now : Time) (timeout : Duration) (f : Frame) : Option BlockState :=
  if f.hasFlag flagFECParity then (st.addParity now timeout f).toOption
  else some (st.addData now timeout f)

variable {st st' : BlockState} {now : Time} {timeout : Duration} {f : Frame}

theorem addParity_ok (h : st.addParity now timeout f = .ok st') :
    let hdr := readSubHeader f.payload
    let st₁ := if st.k = 0 then st.adoptGeometry now timeout hdr f.payload else st
    parityHdrFixed + 4 * hdr.k + 2 * hdr.k + hdr.maxLen ≤ f.payload.length ∧
      st₁.k = hdr.k ∧ st₁.maxLen = hdr.maxLen ∧
      st' = { st₁ with
        parity := st₁.parity.insert hdr.pidx
          ((f.payload.drop (parityHdrFixed + 4 * hdr.k + 2 * hdr.k)).take hdr.maxLen) } := by
  unfold addParity at h
  split at h
  · cases h
  · dsimp only at h ⊢
    split at h
    · cases h
    · next hlen =>
      generalize (if st.k = 0 then st.adoptGeometry now timeout (readSubHeader f.payload) f.payload
        else st) = st₁ at h ⊢
      split at h
      · cases h
      · next hsame =>
        cases h
        simp only [ne_eq, decide_not, Bool.or_eq_true, Bool.not_eq_true', decide_eq_false_iff_not,
          not_or, not_not] at hsame
        exact ⟨not_lt.mp hlen, hsame.1, hsame.2, rfl⟩

theorem absorb_cases (h : st.absorb now timeout f = some st') :
    f.hasFlag flagFECParity = true ∧ st.addParity now timeout f = .ok st' ∨
      f.hasFlag flagFECParity = false ∧ st' = st.addData now timeout f := by
  unfold absorb at h
  split at h
  · next hparity =>
    cases hadd : st.addParity now timeout f with
    | error err =>
      rw [hadd] at h
      cases h
    | ok st'' =>
      rw [hadd] at h
      cases h
      exact .inl ⟨hparity, rfl⟩
  · next hdata =>
    cases h
    exact .inr ⟨(Bool.not_eq_true _).mp hdata, rfl⟩

theorem absorb_k (h : st.absorb now timeout f = some st') :
    st'.k = st.k ∨ f.hasFlag flagFECParity = true ∧ st'.k = (readSubHeader f.payload).k := by
  rcases absorb_cases h with ⟨hparity, hadd⟩ | ⟨-, rfl⟩
  · obtain ⟨-, hk, -, rfl⟩ := addParity_ok hadd
    exact .inr ⟨hparity, hk⟩
  · exact .inl rfl

/-- The shards at hand for a reconstruction: the data payloads padded to the
shard size, then the parity shards. -/
def shards (st : BlockState) : List (Option Bytes) :=
  st.seqs.map (fun seq => (st.data.lookup seq).map (padTo st.maxLen)) ++
    (List.range st.p).map fun i => st.parity.lookup i

/-- Take the missing payloads from the reconstructed shards, and count them. -/
def fillMissing (data : GoMap UInt32 Bytes) (recovered : ℕ) :
    List UInt32 → List UInt16 → List Shard → Option (GoMap UInt32 Bytes × ℕ)
  | seq :: seqs, len :: lens, shard :: shards =>
    if (data.lookup seq).isSome then fillMissing data recovered seqs lens shards
    else
      match shard.slice len.toNat with
      | none => none
      | some payload => fillMissing (data.insert seq payload) (recovered + 1) seqs lens shards
  | _, _, _ => some (data, recovered)

/-- What filling in does: a payload is as before, or it was missing and its number is one of the
block's. -/
theorem fillMissing_lookup {data data' : GoMap UInt32 Bytes} {recovered recovered' : ℕ}
    {seqs : List UInt32} {lens : List UInt16} {shards : List Shard}
    (h : fillMissing data recovered seqs lens shards = some (data', recovered')) (seq : UInt32) :
    data'.lookup seq = data.lookup seq ∨ data.lookup seq = none ∧ seq ∈ seqs := by
  induction data, recovered, seqs, lens, shards using fillMissing.induct with
  | case1 data recovered s seqs len lens shard shards hsome ih =>
    rw [fillMissing, if_pos hsome] at h
    exact (ih h).imp_right (And.imp_right (List.mem_cons_of_mem _))
  | case2 data recovered s seqs len lens shard shards hsome hslice =>
    rw [fillMissing, if_neg hsome, hslice] at h
    cases h
  | case3 data recovered s seqs len lens shard shards hsome payload hslice ih =>
    rw [fillMissing, if_neg hsome, hslice] at h
    have hrest := ih h
    rw [AList.lookup_insert_eq] at hrest
    by_cases heq : seq = s
    · subst heq
      exact .inr ⟨Option.not_isSome_iff_eq_none.mp hsome, List.mem_cons_self⟩
    · rw [if_neg heq] at hrest
      exact hrest.imp_right (And.imp_right (List.mem_cons_of_mem _))
  | case4 data recovered seqs lens shards hne =>
    rw [fillMissing] at h
    · cases h
      exact .inl rfl
    · exact hne

theorem fillMissing_keeps {data data' : GoMap UInt32 Bytes} {recovered recovered' : ℕ}
    {seqs : List UInt32} {lens : List UInt16} {shards : List Shard}
    (h : fillMissing data recovered seqs lens shards = some (data', recovered')) (seq : UInt32)
    (payload : Bytes) (hl : data.lookup seq = some payload) : data'.lookup seq = some payload := by
  rcases fillMissing_lookup h seq with heq | ⟨hnone, -⟩
  · exact heq.trans hl
  · rw [hl] at hnone
    cases hnone

/-- The data frames a block holds, in block order when it is known and in the
order of their numbers otherwise. -/
def frames (st : BlockState) (sessionID : UInt64) : List Frame :=
  let order := if st.seqs.length = 0 then st.data.keys.insertionSort (· ≤ ·) else st.seqs
  order.filterMap fun seq => (st.data.lookup seq).map fun payload =>
    { sessionID := sessionID, seq := seq, payload := payload }

theorem mem_frames {seq : UInt32} {payload : Bytes} (hl : st.data.lookup seq = some payload)
    (hseq : st.seqs = [] ∨ seq ∈ st.seqs) (sessionID : UInt64) :
    ({ sessionID := sessionID, seq := seq, payload := payload } : Frame) ∈ st.frames sessionID := by
  rw [frames, List.mem_filterMap]
  refine ⟨seq, ?_, by rw [hl]; rfl⟩
  split
  · exact (List.mem_insertionSort _).mpr (AList.mem_keys.mp (AList.mem_of_lookup hl))
  · next hne =>
    exact hseq.resolve_left fun h0 => hne (by rw [h0]; rfl)

theorem sessionID_of_mem_frames {sessionID : UInt64} (hf : f ∈ st.frames sessionID) :
    f.sessionID = sessionID := by
  obtain ⟨q, -, hq⟩ := List.mem_filterMap.mp hf
  obtain ⟨payload, -, rfl⟩ := Option.map_eq_some_iff.mp hq
  rfl

/-- Whether a tick at `now` flushes the block. -/
def overdue (st : BlockState) (now : Time) : Bool := !(st.flushed || before now st.deadline)

end BlockState

/-! ### The decoder -/

/-- Whether a frame belongs to a block: parity frames, and data frames with a
block number that is not a path counter. -/
def Frame.coded (f : Frame) : Bool :=
  f.hasFlag flagFECParity || (!f.hasFlag flagPassSeq && decide (f.blockSeq ≠ 0))

namespace Decoder

/-- The codec for a block, built on first use and cached by its number of parity
shards. -/
def rsFor (d : Decoder F C) (k p : ℕ) : Decoder F C × Option C :=
  match d.rsByParity.lookup p with
  | some rs => (d, some rs)
  | none =>
    match RS.new k p with
    | none => (d, none)
    | some rs => ({ d with rsByParity := d.rsByParity.insert p rs }, some rs)

/-- Emit a block's data frames and forget the block. -/
def flush (d : Decoder F C) (key : BlockKey) (st : BlockState) : Decoder F C × List Frame :=
  let sk := key.stream
  ({ d with
      lastFlushed :=
        if key.blockSeq > d.lastFlushed.getD sk 0 then d.lastFlushed.insert sk key.blockSeq
        else d.lastFlushed
      stats :=
        if 0 < st.seqs.length && st.data.size < st.seqs.length then
          let s := d.stats.getD sk {}
          d.stats.insert sk { s with lost := s.lost + (st.seqs.length - st.data.size) }
        else d.stats
      blocks := d.blocks.erase key },
    st.frames key.sessionID)

/-- Fill the missing data frames of a block and emit it. -/
def reconstruct (d : Decoder F C) (key : BlockKey) (st : BlockState) :
    Option (Decoder F C × List Frame) :=
  match d.rsFor RS st.k st.p with
  | (d', none) => some (d', [])
  | (d', some rs) =>
    match RS.reconstruct rs st.shards with
    | none => some (d', [])
    | some shards =>
      match BlockState.fillMissing st.data d'.recovered st.seqs st.lens shards with
      | none => none
      | some (data, recovered) =>
        let st' := { st with data := data }
        some (({ d' with recovered := recovered } : Decoder F C).flush key st')

/-- Emit a block once enough shards are held. -/
def maybeDeliver (d : Decoder F C) (key : BlockKey) (st : BlockState) :
    Option (Decoder F C × List Frame) :=
  if st.k = 0 then some (d, [])
  else if st.data.size + st.parity.size < st.k then some (d, [])
  else if st.data.size = st.k then some (d.flush key st)
  else d.reconstruct RS key st

/-- The path part of a block's key: cross-path blocks span all paths. -/
def streamPath (d : Decoder F C) (path : String) : String :=
  if d.params.crossPath then "" else path

def blockKey (d : Decoder F C) (path : String) (f : Frame) : BlockKey :=
  ⟨f.sessionID, d.streamPath path, f.blockSeq⟩

/-- Put a frame into its block. -/
def pushBlock (d : Decoder F C) (now : Time) (key : BlockKey) (st : BlockState) (f : Frame) :
    Option (Decoder F C × List Frame) :=
  if st.flushed then some (d, [])
  else if f.hasFlag flagFECParity then
    match st.addParity now d.params.blockTimeout f with
    | .error _ => some (d, [])
    | .ok st' => ({ d with blocks := d.blocks.insert key st' } : Decoder F C).maybeDeliver RS key st'
  else
    let st' := st.addData now d.params.blockTimeout f
    let s := d.stats.getD key.stream {}
    let d' : Decoder F C :=
      { d with
        blocks := d.blocks.insert key st'
        stats := if (st.data.lookup f.seq).isSome then d.stats
          else d.stats.insert key.stream { s with received := s.received + 1 } }
    d'.maybeDeliver RS key st'

/-- Accept a frame of a stream and return the data frames that can be
delivered. -/
def push (d : Decoder F C) (now : Time) (path : String) (f : Frame) :
    Option (Decoder F C × List Frame) :=
  if f.hasFlag flagPassSeq && !f.hasFlag flagFECParity then
    some (d.observePathSeq now f.sessionID path f.blockSeq, [f])
  else if !d.params.enabled then
    some (d, if f.hasFlag flagFECParity then [] else [f])
  else if !f.hasFlag flagFECParity && f.blockSeq = 0 then some (d, [f])
  else
    let key := d.blockKey path f
    match d.blocks.lookup key with
    | some st => d.pushBlock RS now key st f
    | none =>
      if d.lastFlushed.getD key.stream 0 ≥ key.blockSeq then some (d, [])
      else
        ({ d with blocks := d.blocks.insert key {} } : Decoder F C).pushBlock RS now key {} f

/-- Flush one block if its deadline has passed. -/
def tickBlock (now : Time) (acc : Decoder F C × List Frame) (key : BlockKey) :
    Decoder F C × List Frame :=
  match acc.1.blocks.lookup key with
  | none => acc
  | some st =>
    if st.flushed || before now st.deadline then acc
    else
      let (d', out) := acc.1.flush key st
      (d', acc.2 ++ out)

/-- Flush the blocks whose deadline has passed, in the order the map is iterated. -/
def tick (d : Decoder F C) (σ : IterOrder BlockKey) (now : Time) : Decoder F C × List Frame :=
  let d' := d.flushPathGaps now
  if !d'.params.enabled then (d', [])
  else (σ.visit d'.blocks.keys).foldl (tickBlock now) (d', [])

/-! ### The decoder as a machine -/

inductive Call where
  | push (now : Time) (path : String) (f : Frame)
  | tick (σ : IterOrder BlockKey) (now : Time)
  | takeStreamStats (sessionID : UInt64) (path : String)
  | takePathStats (sessionID : UInt64) (path : String)

/-- The frames a call pushes. -/
def Call.pushed : Call → List Frame
  | .push _ _ f => [f]
  | _ => []

/-- One call of a decoder: the next state, none after a panic, and the frames
returned. -/
def step : Option (Decoder F C) → Call → Option (Decoder F C) × List Frame
  | none, _ => (none, [])
  | some d, .push now path f =>
    match d.push RS now path f with
    | none => (none, [])
    | some (d', out) => (some d', out)
  | some d, .tick σ now => (some (d.tick σ now).1, (d.tick σ now).2)
  | some d, .takeStreamStats sessionID path => (some (d.takeStreamStats sessionID path).1, [])
  | some d, .takePathStats sessionID path => (some (d.takePathStats sessionID path).1, [])

end Decoder

end FlexBraid
