import FlexBraid.Fec.Isolation
import FlexBraid.Lib.GoSlice

/-!
# The decoder with every access checked

The model of `Fec.Decoder` reads tables and shards by total functions, and only the slice
of a reconstructed shard can panic.  Here the calls of the decoder are written once more
with every index and slice expression of the source checked.  As long as the sub-headers
of the parity frames are truthful the two decoders do the same, so no access is out of
range; a length table that reaches past the shards stops the decoder.

## Main definitions

* `BlockState.addParityChecked`, `Decoder.reconstructChecked`, `Decoder.pushChecked`,
  `Decoder.tickChecked` — the calls and their parts; none is a panic.
* `Decoder.CheckedCall`, `Decoder.checkedStep` — the checked decoder as a machine.
* `Frame.Truthful` — the parity frames whose length table stays within the shards.

## Main results

* `Decoder.never_panics` — **no access is out of range** while the parity frames are
  truthful.
* `Decoder.length_table_panics` — one parity frame of a peer stops the decoder.
-/

namespace FlexBraid

variable {F C : Type} (RS : ReedSolomon C)

/-- The orders in which a call iterates over the maps of a block. -/
structure BlockOrder where
  data : IterOrder UInt32
  parity : IterOrder ℕ

def BlockOrder.plain : BlockOrder := ⟨.plain, .plain⟩

/-- Reading two bytes. -/
def checkedUint16 (b : Bytes) : Option UInt16 := if 2 ≤ b.length then some (uint16 b) else none

/-- Reading four bytes. -/
def checkedUint32 (b : Bytes) : Option UInt32 := if 4 ≤ b.length then some (uint32 b) else none

/-! ### Parity frames -/

namespace BlockState

def readSubHeaderChecked (payload : Bytes) : Option SubHeader := do
  let k ← (GoSlice.sub payload 0 2).bind checkedUint16
  let pidx ← (GoSlice.sub payload 2 4).bind checkedUint16
  let maxLen ← (GoSlice.sub payload 4 6).bind checkedUint16
  let p ← (GoSlice.sub payload 6 8).bind checkedUint16
  return ⟨k.toNat, pidx.toNat, maxLen.toNat, p.toNat⟩

/-- Entry `i` of the two tables of the sub-header. -/
def readEntryChecked (k : ℕ) (payload : Bytes) (i : ℕ) : Option (UInt32 × UInt16) := do
  let seq ← (GoSlice.tail payload (parityHdrFixed + 4 * i)).bind checkedUint32
  let len ← (GoSlice.tail payload (parityHdrFixed + 4 * k + 2 * i)).bind checkedUint16
  return (seq, len)

/-- Take the block's geometry from its first parity frame. -/
def adoptGeometryChecked (st : BlockState) (now : Time) (timeout : Duration) (h : SubHeader)
    (payload : Bytes) : Option BlockState := do
  let tables ← (List.range h.k).mapM (readEntryChecked h.k payload)
  return { st with
    k := h.k
    p := h.p
    maxLen := h.maxLen
    seqs := tables.map Prod.fst
    lens := tables.map Prod.snd
    deadline := if st.data.size = 0 && st.parity.size = 0 then some (now + timeout)
      else st.deadline }

/-- Parse the sub-header of a parity frame and store its shard. -/
def addParityChecked (st : BlockState) (now : Time) (timeout : Duration) (f : Frame) :
    Option (Except FecError BlockState) :=
  if f.payload.length < parityHdrFixed then some (.error .parityTooShort)
  else
    (readSubHeaderChecked f.payload).bind fun h =>
    if f.payload.length < parityHdrFixed + 4 * h.k + 2 * h.k + h.maxLen then
      some (.error .parityTruncated)
    else
      (if st.k = 0 then st.adoptGeometryChecked now timeout h f.payload else some st).bind fun st' =>
      if st'.k ≠ h.k || st'.maxLen ≠ h.maxLen then some (.error .parityInconsistent)
      else
        (GoSlice.tail f.payload (parityHdrFixed + 4 * h.k + 2 * h.k)).map fun rest =>
        .ok { st' with parity := st'.parity.insert h.pidx (padTo h.maxLen rest) }

theorem uint16_take (b : Bytes) : uint16 (b.take 2) = uint16 b := by
  rw [uint16, uint16, List.take_take, Nat.min_self]

variable {payload : Bytes}

theorem sub_uint16 (lo : ℕ) (h : lo + 2 ≤ payload.length) :
    (GoSlice.sub payload lo (lo + 2)).bind checkedUint16 = some (uint16 (payload.drop lo)) := by
  rw [GoSlice.sub_eq (by omega) h, Option.bind_some, List.drop_take, Nat.add_sub_cancel_left,
    checkedUint16, if_pos (by rw [List.length_take, List.length_drop]; omega), uint16_take]

theorem readSubHeaderChecked_eq (h : parityHdrFixed ≤ payload.length) :
    readSubHeaderChecked payload = some (readSubHeader payload) := by
  rw [parityHdrFixed] at h
  have hread : ∀ lo, lo + 2 ≤ 8 → (GoSlice.sub payload lo (lo + 2)).bind checkedUint16 =
      some (uint16 (payload.drop lo)) := fun lo hlo => sub_uint16 lo (by omega)
  rw [readSubHeaderChecked, hread 0 (by decide), hread 2 (by decide), hread 4 (by decide),
    hread 6 (by decide)]
  rfl

theorem readEntryChecked_eq {k i : ℕ} (h : parityHdrFixed + 4 * k + 2 * k ≤ payload.length)
    (hi : i < k) :
    readEntryChecked k payload i = some (uint32 (payload.drop (parityHdrFixed + 4 * i)),
      uint16 (payload.drop (parityHdrFixed + 4 * k + 2 * i))) := by
  have hseq : checkedUint32 (payload.drop (parityHdrFixed + 4 * i)) =
      some (uint32 (payload.drop (parityHdrFixed + 4 * i))) :=
    if_pos (by rw [List.length_drop]; omega)
  have hlen : checkedUint16 (payload.drop (parityHdrFixed + 4 * k + 2 * i)) =
      some (uint16 (payload.drop (parityHdrFixed + 4 * k + 2 * i))) :=
    if_pos (by rw [List.length_drop]; omega)
  rw [readEntryChecked, GoSlice.tail_eq (by omega), GoSlice.tail_eq (by omega), Option.bind_some,
    Option.bind_some, hseq, hlen]
  rfl

theorem adoptGeometryChecked_eq {st : BlockState} {h : SubHeader}
    (hlen : parityHdrFixed + 4 * h.k + 2 * h.k ≤ payload.length) (now : Time) (timeout : Duration) :
    st.adoptGeometryChecked now timeout h payload = some (st.adoptGeometry now timeout h payload) := by
  rw [adoptGeometryChecked, GoSlice.mapM_eq_map fun i hi =>
    readEntryChecked_eq hlen (List.mem_range.mp hi)]
  simp only [Option.pure_def, Option.bind_eq_bind, Option.bind_some, List.map_map,
    Function.comp_def, adoptGeometry]

theorem padTo_eq_take {n : ℕ} {l : Bytes} (h : n ≤ l.length) : padTo n l = l.take n := by
  rw [padTo, Nat.sub_eq_zero_of_le h, List.replicate_zero, List.append_nil]

/-- **Parsing a parity frame never panics**, whatever its payload. -/
theorem addParityChecked_eq (st : BlockState) (now : Time) (timeout : Duration) (f : Frame) :
    st.addParityChecked now timeout f = some (st.addParity now timeout f) := by
  rw [addParityChecked, addParity]
  split
  · rfl
  · next hfixed =>
    rw [readSubHeaderChecked_eq (not_lt.mp hfixed), Option.bind_some]
    generalize readSubHeader f.payload = h
    dsimp only
    split
    · rfl
    · next hlen =>
      have hgeo : (if st.k = 0 then st.adoptGeometryChecked now timeout h f.payload else some st) =
          some (if st.k = 0 then st.adoptGeometry now timeout h f.payload else st) := by
        split
        · exact adoptGeometryChecked_eq (by omega) now timeout
        · rfl
      rw [hgeo, Option.bind_some]
      generalize (if st.k = 0 then st.adoptGeometry now timeout h f.payload else st) = st'
      split
      · rfl
      · rw [GoSlice.tail_eq (by omega), Option.map_some,
          padTo_eq_take (by rw [List.length_drop]; omega)]

/-! ### Reconstruction -/

/-- Put the payloads at hand in front of the parity shards, from index `i` on. -/
def placeData (st : BlockState) : ℕ → List UInt32 → List (Option Bytes) →
    Option (List (Option Bytes))
  | _, [], shards => some shards
  | i, seq :: seqs, shards =>
    match st.data.lookup seq with
    | none => placeData st (i + 1) seqs shards
    | some payload =>
      (GoSlice.store shards i (some (padTo st.maxLen payload))).bind (placeData st (i + 1) seqs)

/-- Put the parity shards whose index is within the block behind the data shards. -/
def placeParity (st : BlockState) (indices : List ℕ) (shards : List (Option Bytes)) :
    Option (List (Option Bytes)) :=
  indices.foldlM (fun shards pidx =>
    if st.k + pidx < st.k + st.p then GoSlice.store shards (st.k + pidx) (st.parity.lookup pidx)
    else some shards) shards

/-- Take the missing payloads from the reconstructed shards, from index `i` on. -/
def fillChecked (lens : List UInt16) (shards : List Shard) :
    ℕ → List UInt32 → GoMap UInt32 Bytes → ℕ → Option (GoMap UInt32 Bytes × ℕ)
  | _, [], data, recovered => some (data, recovered)
  | i, seq :: seqs, data, recovered =>
    if (data.lookup seq).isSome then fillChecked lens shards (i + 1) seqs data recovered
    else do
      let len ← lens[i]?
      let shard ← shards[i]?
      let payload ← shard.slice len.toNat
      fillChecked lens shards (i + 1) seqs (data.insert seq payload) (recovered + 1)

/-- The data frames a block holds. -/
def framesChecked (st : BlockState) (o : BlockOrder) (sessionID : UInt64) : Option (List Frame) := do
  let order ← if st.seqs.length = 0 then
      GoSlice.sort (fun a b => decide (a < b)) (o.data.visit st.data.keys)
    else some st.seqs
  return order.filterMap fun seq => (st.data.lookup seq).map fun payload =>
    { sessionID := sessionID, seq := seq, payload := payload }

/-- A buffer whose tables have an entry for each of its data frames. -/
structure Shaped (st : BlockState) : Prop where
  seqs : st.seqs.length = st.k
  lens : st.lens.length = st.k

theorem shaped_empty : Shaped {} := ⟨rfl, rfl⟩

variable {st : BlockState}

theorem placeData_eq (st : BlockState) (seqs : List UInt32) (pre : List (Option Bytes)) (m : ℕ) :
    st.placeData pre.length seqs (pre ++ List.replicate (seqs.length + m) none) =
      some (pre ++ (seqs.map (fun seq => (st.data.lookup seq).map (padTo st.maxLen)) ++
        List.replicate m none)) := by
  induction seqs generalizing pre with
  | nil => simp [placeData]
  | cons seq seqs ih =>
    have hrep : List.replicate ((seq :: seqs).length + m) (none : Option Bytes) =
        none :: List.replicate (seqs.length + m) none := by
      rw [List.length_cons, Nat.add_right_comm, List.replicate_succ]
    -- the entry at this index is settled, and the rest is the same task one index further
    have hrest : ∀ x : Option Bytes, st.placeData (pre.length + 1) seqs
        (pre ++ x :: List.replicate (seqs.length + m) none) =
          some (pre ++ x :: (seqs.map (fun seq => (st.data.lookup seq).map (padTo st.maxLen)) ++
            List.replicate m none)) := by
      intro x
      have h := ih (pre ++ [x])
      rwa [List.length_append, List.length_singleton, List.append_assoc, List.append_assoc] at h
    rw [placeData, hrep, List.map_cons, List.cons_append]
    cases hl : st.data.lookup seq with
    | none => exact hrest none
    | some payload =>
      dsimp only
      rw [GoSlice.store_append, Option.bind_some]
      exact hrest _

theorem placeParity_eq {head : List (Option Bytes)} (hhead : head.length = st.k)
    (indices : List ℕ) (tail : ℕ → Option Bytes) :
    st.placeParity indices (head ++ (List.range st.p).map tail) =
      some (head ++ (List.range st.p).map fun j => if j ∈ indices then st.parity.lookup j
        else tail j) := by
  induction indices generalizing tail with
  | nil => simp [placeParity]
  | cons i indices ih =>
    have hstep : (if st.k + i < st.k + st.p then
          GoSlice.store (head ++ (List.range st.p).map tail) (st.k + i) (st.parity.lookup i)
        else some (head ++ (List.range st.p).map tail)) =
        some (head ++ (List.range st.p).map fun j => if j = i then st.parity.lookup j
          else tail j) := by
      split
      · next hlt =>
        rw [GoSlice.store, if_pos (by simp; omega),
          List.set_append_right _ _ (by omega), hhead, Nat.add_sub_cancel_left]
        congr 2
        apply List.ext_getElem
        · simp
        · intro j hj hj'
          rw [List.getElem_set, List.getElem_map, List.getElem_map, List.getElem_range]
          by_cases hij : j = i
          · rw [if_pos hij.symm, if_pos hij, hij]
          · rw [if_neg (Ne.symm hij), if_neg hij]
      · next hge =>
        congr 2
        apply List.map_congr_left
        intro j hj
        rw [if_neg]
        rintro rfl
        exact hge (by have := List.mem_range.mp hj; omega)
    have hrest := ih fun j => if j = i then st.parity.lookup j else tail j
    rw [placeParity] at hrest ⊢
    rw [List.foldlM_cons, hstep]
    refine hrest.trans ?_
    congr 2
    apply List.map_congr_left
    intro j _
    by_cases hj : j ∈ indices
    · rw [if_pos hj, if_pos (List.mem_cons_of_mem _ hj)]
    · by_cases hji : j = i
      · rw [if_neg hj, if_pos hji, if_pos (hji ▸ List.mem_cons_self)]
      · rw [if_neg hj, if_neg hji, if_neg (by simp [hj, hji])]

theorem Shaped.shards_eq (h : st.Shaped) (σ : IterOrder ℕ) :
    (st.placeData 0 st.seqs (List.replicate (st.k + st.p) none)).bind
      (st.placeParity (σ.visit st.parity.keys)) = some st.shards := by
  have hdata := st.placeData_eq st.seqs [] st.p
  rw [List.length_nil, List.nil_append, List.nil_append, h.seqs] at hdata
  have hnone : List.replicate st.p (none : Option Bytes) =
      (List.range st.p).map fun _ => none := by simp
  rw [hdata, Option.bind_some, hnone, placeParity_eq (by rw [List.length_map, h.seqs]), shards]
  congr 2
  apply List.map_congr_left
  intro j _
  split
  · rfl
  · next hj =>
    rw [IterOrder.mem_visit, ← AList.mem_keys] at hj
    exact (AList.lookup_eq_none.mpr hj).symm

theorem fillChecked_eq {lens : List UInt16} {shards : List Shard} {i : ℕ} {seqs : List UInt32}
    (hlens : i + seqs.length ≤ lens.length) (hshards : i + seqs.length ≤ shards.length)
    (data : GoMap UInt32 Bytes) (recovered : ℕ) : fillChecked lens shards i seqs data recovered =
      fillMissing data recovered seqs (lens.drop i) (shards.drop i) := by
  induction seqs generalizing i data recovered with
  | nil =>
    rw [fillChecked, fillMissing]
    intro seq seqs len lens shard shards h
    cases h
  | cons seq seqs ih =>
    rw [List.length_cons] at hlens hshards
    have hl : i < lens.length := by omega
    have hs : i < shards.length := by omega
    rw [fillChecked, List.drop_eq_getElem_cons hl, List.drop_eq_getElem_cons hs, fillMissing,
      List.getElem?_eq_getElem hl, List.getElem?_eq_getElem hs]
    split
    · exact ih (by omega) (by omega) data recovered
    · simp only [Option.bind_eq_bind, Option.bind_some]
      cases shards[i].slice lens[i].toNat with
      | none => rfl
      | some payload => exact ih (by omega) (by omega) _ _

theorem framesChecked_eq (st : BlockState) (o : BlockOrder) (sessionID : UInt64) :
    st.framesChecked o sessionID = some (st.frames sessionID) := by
  have hlt : ∀ a b : UInt32, decide (a < b) = true ↔ ¬ b ≤ a := fun a b => by
    rw [decide_eq_true_eq, UInt32.not_le]
  have hsort : (o.data.visit st.data.keys).insertionSort (· ≤ ·) =
      st.data.keys.insertionSort (· ≤ ·) := by
    refine List.Perm.eq_of_pairwise' (List.pairwise_insertionSort _ _)
      (List.pairwise_insertionSort _ _) ?_
    exact ((List.perm_insertionSort _ _).trans (o.data.perm _)).trans
      (List.perm_insertionSort _ _).symm
  rw [framesChecked, frames, GoSlice.sort_eq hlt, hsort]
  by_cases h0 : st.seqs.length = 0
  · rw [if_pos h0, if_pos h0]
    rfl
  · rw [if_neg h0, if_neg h0]
    rfl

theorem Shaped.absorb (h : st.Shaped) {st' : BlockState} {now : Time} {timeout : Duration}
    {f : Frame} (habsorb : st.absorb now timeout f = some st') : st'.Shaped := by
  unfold BlockState.absorb at habsorb
  by_cases hparity : f.hasFlag flagFECParity = true
  · rw [if_pos hparity] at habsorb
    cases hadd : st.addParity now timeout f with
    | error err =>
      rw [hadd] at habsorb
      cases habsorb
    | ok st'' =>
      rw [hadd] at habsorb
      cases habsorb
      obtain ⟨-, -, -, rfl⟩ := addParity_ok hadd
      by_cases h0 : st.k = 0
      · rw [if_pos h0]
        exact ⟨by simp [adoptGeometry], by simp [adoptGeometry]⟩
      · rw [if_neg h0]
        exact ⟨h.seqs, h.lens⟩
  · rw [if_neg hparity] at habsorb
    cases habsorb
    exact ⟨h.seqs, h.lens⟩

end BlockState

/-- A parity frame that is long enough for its sub-header has a data frame, and its length
table does not reach past the shards. -/
def Frame.Truthful (f : Frame) : Prop :=
  ∀ h, f.geometry = some h → 0 < h.k ∧
    ∀ i < h.k, (uint16 (f.payload.drop (parityHdrFixed + 4 * h.k + 2 * i))).toNat ≤ h.maxLen

/-! ### The calls -/

namespace Decoder

/-- Emit a block's data frames and forget the block. -/
def flushChecked (d : Decoder F C) (o : BlockOrder) (key : BlockKey) (st : BlockState) :
    Option (Decoder F C × List Frame) :=
  (st.framesChecked o key.sessionID).map fun out => ((d.flush key st).1, out)

/-- Fill the missing data frames of a block and emit it. -/
def reconstructChecked (d : Decoder F C) (o : BlockOrder) (key : BlockKey) (st : BlockState) :
    Option (Decoder F C × List Frame) :=
  match d.rsFor RS st.k st.p with
  | (d', none) => some (d', [])
  | (d', some rs) =>
    ((st.placeData 0 st.seqs (List.replicate (st.k + st.p) none)).bind
      (st.placeParity (o.parity.visit st.parity.keys))).bind fun shards =>
    match RS.reconstruct rs shards with
    | none => some (d', [])
    | some shards =>
      (BlockState.fillChecked st.lens shards 0 st.seqs st.data d'.recovered).bind fun r =>
        ({ d' with recovered := r.2 } : Decoder F C).flushChecked o key { st with data := r.1 }

/-- Emit a block once enough shards are held. -/
def maybeDeliverChecked (d : Decoder F C) (o : BlockOrder) (key : BlockKey) (st : BlockState) :
    Option (Decoder F C × List Frame) :=
  if st.k = 0 then some (d, [])
  else if st.data.size + st.parity.size < st.k then some (d, [])
  else if st.data.size = st.k then d.flushChecked o key st
  else d.reconstructChecked RS o key st

/-- Put a frame into its block. -/
def pushBlockChecked (d : Decoder F C) (o : BlockOrder) (now : Time) (key : BlockKey)
    (st : BlockState) (f : Frame) : Option (Decoder F C × List Frame) :=
  if st.flushed then some (d, [])
  else if f.hasFlag flagFECParity then
    (st.addParityChecked now d.params.blockTimeout f).bind fun
    | .error _ => some (d, [])
    | .ok st' =>
      ({ d with blocks := d.blocks.insert key st' } : Decoder F C).maybeDeliverChecked RS o key st'
  else
    let st' := st.addData now d.params.blockTimeout f
    let s := d.stats.getD key.stream {}
    let d' : Decoder F C :=
      { d with
        blocks := d.blocks.insert key st'
        stats := if (st.data.lookup f.seq).isSome then d.stats
          else d.stats.insert key.stream { s with received := s.received + 1 } }
    d'.maybeDeliverChecked RS o key st'

/-- Accept a frame of a stream and return the data frames that can be delivered. -/
def pushChecked (d : Decoder F C) (o : BlockOrder) (now : Time) (path : String) (f : Frame) :
    Option (Decoder F C × List Frame) :=
  if f.hasFlag flagPassSeq && !f.hasFlag flagFECParity then
    some (d.observePathSeq now f.sessionID path f.blockSeq, [f])
  else if !d.params.enabled then
    some (d, if f.hasFlag flagFECParity then [] else [f])
  else if !f.hasFlag flagFECParity && f.blockSeq = 0 then some (d, [f])
  else
    let key := d.blockKey path f
    match d.blocks.lookup key with
    | some st => d.pushBlockChecked RS o now key st f
    | none =>
      if d.lastFlushed.getD key.stream 0 ≥ key.blockSeq then some (d, [])
      else
        ({ d with blocks := d.blocks.insert key {} } : Decoder F C).pushBlockChecked RS o now key {} f

/-- Flush one block if its deadline has passed. -/
def tickBlockChecked (o : BlockOrder) (now : Time) (acc : Decoder F C × List Frame)
    (key : BlockKey) : Option (Decoder F C × List Frame) :=
  match acc.1.blocks.lookup key with
  | none => some acc
  | some st =>
    if st.flushed || before now st.deadline then some acc
    else (acc.1.flushChecked o key st).map fun r => (r.1, acc.2 ++ r.2)

/-- Flush the blocks whose deadline has passed, in the order the map is iterated. -/
def tickChecked (d : Decoder F C) (o : BlockOrder) (σ : IterOrder BlockKey) (now : Time) :
    Option (Decoder F C × List Frame) :=
  let d' := d.flushPathGaps now
  if !d'.params.enabled then some (d', [])
  else (σ.visit d'.blocks.keys).foldlM (tickBlockChecked o now) (d', [])

/-- A call of the checked decoder, with the orders in which it iterates over maps. -/
inductive CheckedCall where
  | push (o : BlockOrder) (now : Time) (path : String) (f : Frame)
  | tick (o : BlockOrder) (σ : IterOrder BlockKey) (now : Time)

/-- The frames a call pushes. -/
def CheckedCall.pushed : CheckedCall → List Frame
  | .push _ _ _ f => [f]
  | .tick _ _ _ => []

/-- One call of the checked decoder; it stays in the state none after a panic. -/
def checkedStep (s : Option (Decoder F C)) (c : CheckedCall) :
    Option (Decoder F C) × List Frame :=
  let r := s.bind fun d => match c with
    | .push o now path f => d.pushChecked RS o now path f
    | .tick o σ now => d.tickChecked o σ now
  (r.map Prod.fst, (r.map Prod.snd).getD [])

/-! ### The checked calls are the calls -/

theorem flushChecked_eq (d : Decoder F C) (o : BlockOrder) (key : BlockKey) (st : BlockState) :
    d.flushChecked o key st = some (d.flush key st) := by
  rw [flushChecked, st.framesChecked_eq]
  rfl

theorem tickChecked_eq (d : Decoder F C) (o : BlockOrder) (σ : IterOrder BlockKey) (now : Time) :
    d.tickChecked o σ now = some (d.tick σ now) := by
  have hblock : ∀ (acc : Decoder F C × List Frame) key,
      tickBlockChecked o now acc key = some (tickBlock now acc key) := by
    intro acc key
    rw [tickBlockChecked, tickBlock]
    cases acc.1.blocks.lookup key with
    | none => rfl
    | some st =>
      dsimp only
      split
      · rfl
      · rw [flushChecked_eq]
        rfl
  have hfold : ∀ (keys : List BlockKey) (acc : Decoder F C × List Frame),
      keys.foldlM (tickBlockChecked o now) acc = some (keys.foldl (tickBlock now) acc) := by
    intro keys
    induction keys with
    | nil => exact fun _ => rfl
    | cons key keys ih =>
      intro acc
      rw [List.foldlM_cons, hblock, List.foldl_cons]
      exact ih _
  rw [tickChecked, tick]
  split
  · rfl
  · exact hfold _ _

variable {RS} {d : Decoder F C}

theorem maybeDeliverChecked_eq (hplace : RS.InPlace) (o : BlockOrder) (key : BlockKey)
    {st : BlockState} (h : st.Shaped) :
    d.maybeDeliverChecked RS o key st = d.maybeDeliver RS key st := by
  rw [maybeDeliverChecked, maybeDeliver]
  split_ifs
  · rfl
  · rfl
  · exact d.flushChecked_eq o key st
  · rw [reconstructChecked, reconstruct, h.shards_eq]
    rcases d.rsFor RS st.k st.p with ⟨d', - | rs⟩
    · rfl
    · dsimp only [Option.bind_some]
      cases hrec : RS.reconstruct rs st.shards with
      | none => rfl
      | some shards =>
        have hlen : shards.length = st.k + st.p := by
          rw [hplace hrec, BlockState.shards]
          simp [h.seqs]
        dsimp only
        rw [BlockState.fillChecked_eq (by rw [h.seqs, h.lens, Nat.zero_add])
          (by rw [h.seqs, hlen]; omega), List.drop_zero, List.drop_zero]
        cases BlockState.fillMissing st.data d'.recovered st.seqs st.lens shards with
        | none => rfl
        | some r => exact flushChecked_eq _ o key _

theorem pushBlockChecked_eq (hplace : RS.InPlace) (o : BlockOrder) (now : Time) (key : BlockKey)
    {st : BlockState} (h : st.Shaped) (f : Frame) :
    d.pushBlockChecked RS o now key st f = d.pushBlock RS now key st f := by
  rw [pushBlockChecked, pushBlock]
  split
  · rfl
  · split
    · next hparity =>
      rw [st.addParityChecked_eq, Option.bind_some]
      cases hadd : st.addParity now d.params.blockTimeout f with
      | error err => rfl
      | ok st' =>
        have habsorb : st.absorb now d.params.blockTimeout f = some st' := by
          rw [BlockState.absorb, if_pos hparity, hadd]
          rfl
        exact maybeDeliverChecked_eq hplace o key (h.absorb habsorb)
    · exact maybeDeliverChecked_eq hplace o key ⟨h.seqs, h.lens⟩

/-- A checked push is a push, as long as the tables of all buffers are complete. -/
theorem pushChecked_eq (hplace : RS.InPlace)
    (h : ∀ key st, d.blocks.lookup key = some st → st.Shaped) (o : BlockOrder) (now : Time)
    (path : String) (f : Frame) : d.pushChecked RS o now path f = d.push RS now path f := by
  rw [pushChecked, push]
  split
  · rfl
  · split
    · rfl
    · split
      · rfl
      · dsimp only
        cases hl : d.blocks.lookup (d.blockKey path f) with
        | some st => exact pushBlockChecked_eq hplace o now _ (h _ st hl) f
        | none =>
          dsimp only
          split
          · rfl
          · exact pushBlockChecked_eq hplace o now _ BlockState.shaped_empty f

/-! ### Truthful parity frames -/

/-- The tables of every buffer are complete and stay within its shards, and the cache holds
codecs of the library. -/
structure Orderly (RS : ReedSolomon C) (d : Decoder F C) : Prop where
  blocks : ∀ key st, d.blocks.lookup key = some st →
    st.Shaped ∧ st.Foreign fun _ _ => False
  cache : ∀ p c, d.rsByParity.lookup p = some c → ∃ k p', RS.new k p' = some c

/-- A truthful frame is pushed without a panic. -/
theorem Orderly.push (hlaw : RS.Lawful) (hplace : RS.InPlace) (h : Orderly RS d) {f : Frame}
    (hf : f.Truthful) (o : BlockOrder) (now : Time) (path : String) :
    ∃ r, d.pushChecked RS o now path f = some r ∧ Orderly RS r.1 := by
  have hharmless : f.Harmless fun _ _ => False := fun hdr hgeo =>
    ⟨(hf hdr hgeo).1, fun _ hno => hno.elim, (hf hdr hgeo).2⟩
  have hempty : BlockState.Shaped {} ∧ BlockState.Foreign (fun _ _ => False) {} :=
    ⟨BlockState.shaped_empty, BlockState.foreign_empty _⟩
  have habsorb : ∀ st st' : BlockState, (st.Shaped ∧ st.Foreign fun _ _ => False) →
      st.absorb now d.params.blockTimeout f = some st' →
      st'.Shaped ∧ st'.Foreign fun _ _ => False :=
    fun st st' hst hst' => ⟨hst.1.absorb hst', hst.2.absorb hharmless hst'⟩
  obtain ⟨r, hr⟩ : ∃ r, d.push RS now path f = some r :=
    exists_push hlaw h.blocks hempty habsorb (fun st hst => hst.2.sized) h.cache
  refine ⟨r, by rw [pushChecked_eq hplace fun key st hl => (h.blocks key st hl).1, hr], ?_⟩
  obtain ⟨-, hblocks, hcache⟩ := forall_buffers_push h.blocks hempty habsorb hr
  refine ⟨hblocks, fun p c hc => ?_⟩
  exact (hcache p c hc).elim (h.cache p c) fun ⟨_, _, _, _, hnew⟩ => ⟨_, _, hnew⟩

theorem Orderly.tick (h : Orderly RS d) (o : BlockOrder) (σ : IterOrder BlockKey) (now : Time) :
    ∃ r, d.tickChecked o σ now = some r ∧ Orderly RS r.1 := by
  obtain ⟨-, hcodecs, hblocks⟩ := d.tick_leaves σ now
  exact ⟨_, d.tickChecked_eq o σ now, fun key st hl => h.blocks key st (hblocks key st hl),
    by rw [hcodecs]; exact h.cache⟩

/-- **No access is out of range** in any sequence of pushes and ticks, as long as every
parity frame that is long enough for its sub-header has a data frame and a length table
that does not reach past its shards. -/
theorem never_panics (hlaw : RS.Lawful) (hplace : RS.InPlace) (params : Params F)
    (calls : List CheckedCall) (hcalls : ∀ c ∈ calls, ∀ f ∈ c.pushed, f.Truthful) :
    (Run.exec (checkedStep RS) (some (newDecoder params)) calls).isSome := by
  have hstep : ∀ (s : Option (Decoder F C)) (c : CheckedCall), (∃ d, s = some d ∧ Orderly RS d) →
      (∀ f ∈ c.pushed, f.Truthful) → ∃ d, (checkedStep RS s c).1 = some d ∧ Orderly RS d := by
    rintro s c ⟨d, rfl, hd⟩ hc
    cases c with
    | push o now path f =>
      obtain ⟨r, hr, hr'⟩ := hd.push hlaw hplace (hc f List.mem_cons_self) o now path
      refine ⟨r.1, ?_, hr'⟩
      rw [checkedStep, Option.bind_some]
      dsimp only
      rw [hr]
      rfl
    | tick o σ now =>
      obtain ⟨r, hr, hr'⟩ := hd.tick o σ now
      refine ⟨r.1, ?_, hr'⟩
      rw [checkedStep, Option.bind_some]
      dsimp only
      rw [hr]
      rfl
  have hrun := Run.exec_induct hstep (⟨_, rfl, nofun, nofun⟩ :
    ∃ d, some (newDecoder params : Decoder F C) = some d ∧ Orderly RS d)
    (Run.along_of_forall (checkedStep RS) hcalls _)
  obtain ⟨d, hd, -⟩ := hrun
  rw [hd]
  rfl

/-- A block of two frames is recovered from one of them and its parity frame. -/
theorem never_panics_block21 : (Run.exec (checkedStep smallCodes) (some (newDecoder params21))
      [.push .plain 0 "wan0" { sessionID := 5, seq := 2, blockSeq := 1, payload := [8, 9] },
        .push .plain 1 "wan0" parityFrame21, .tick .plain .plain (8 * millisecond)]).isSome := by
  refine never_panics lawful_smallCodes inPlace_smallCodes params21 _ ?_
  intro c hc f hf h hh
  rcases List.mem_cons.mp hc with rfl | hc
  · cases List.mem_singleton.mp hf
    cases hh
  · rcases List.mem_cons.mp hc with rfl | hc
    · cases List.mem_singleton.mp hf
      cases hh
      exact ⟨by decide, by decide⟩
    · cases List.mem_singleton.mp hc
      cases hf

/-- The sub-header announces two data frames, shards of one byte and a payload of 65535
bytes for the second frame. -/
def longParity : Frame :=
  { sessionID := 5, blockSeq := 1, flags := flagFECParity
    payload := [0, 2, 0, 0, 0, 1, 0, 1] ++ [0, 0, 0, 1, 0, 0, 0, 2] ++ [0, 1, 255, 255] ++ [7] }

/-- **One parity frame stops the decoder.**  With the first data frame at hand the second
is reconstructed, and its one byte is sliced to the 65535 bytes of the length table. -/
theorem length_table_panics : Run.exec (checkedStep smallCodes) (some (newDecoder params21))
      [.push .plain 0 "wan0" { sessionID := 5, seq := 1, blockSeq := 1, payload := [7] },
        .push .plain 1 "wan0" longParity] = none := by
  have h : (Run.exec (checkedStep smallCodes) (some (newDecoder params21))
      [.push .plain 0 "wan0" { sessionID := 5, seq := 1, blockSeq := 1, payload := [7] },
        .push .plain 1 "wan0" longParity]).isNone = true := by decide
  exact Option.isNone_iff_eq_none.mp h

end Decoder

end FlexBraid
