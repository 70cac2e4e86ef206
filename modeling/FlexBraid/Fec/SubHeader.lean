import FlexBraid.Fec.Parity
import FlexBraid.Lib.GoSlice

/-!
# The parity frames of a block

The encoder writes the parity frames of a block one after another through one buffer: the sizes
and the tables once, the index and the shard for each frame.  What it writes is what the decoder
reads, whichever of the frames comes first, and the decoder takes no frame that was cut short.

## Main definitions

* `scratchBuffer`, `writeParity` — the writer, with every access checked.
* `feed` — parity frames taken in one after another.

## Main results

* `parityPayloads_eq` — **the buffer holds the payload of each frame** when it is copied out.
* `subHeader_codec` — **the sub-header is read back** from any of the parity frames, the others
  are consistent with it, and no proper prefix is accepted.
-/

namespace FlexBraid

open GoSlice

/-! ### The writer -/

/-- The buffer with the sizes and the tables of a block. -/
def scratchBuffer (k p : ℕ) (data : List Frame) : Option Bytes := do
  let sub := List.replicate (parityHeaderSize k + maxPayloadLen data) 0
  let sub ← put sub 0 (putUint16 (UInt16.ofNat k))
  let sub ← put sub 6 (putUint16 (UInt16.ofNat p))
  let sub ← data.zipIdx.foldlM
    (fun sub x => put sub (parityHdrFixed + 4 * x.2) (putUint32 x.1.seq)) sub
  let sub ← data.zipIdx.foldlM
    (fun sub x => put sub (parityHdrFixed + 4 * k + 2 * x.2)
      (putUint16 (UInt16.ofNat x.1.payload.length))) sub
  put sub 4 (putUint16 (UInt16.ofNat (maxPayloadLen data)))

/-- Write the index and the shard of each frame into the buffer, and copy it out. -/
def writeParity (k : ℕ) (shards : List Bytes) : List ℕ → Bytes → Option (List Bytes)
  | [], _ => some []
  | i :: is, sub => do
    let sub ← put sub 2 (putUint16 (UInt16.ofNat i))
    let shard ← shards[k + i]?
    let sub ← copyAt sub (parityHeaderSize k) shard
    let rest ← writeParity k shards is sub
    some (sub :: rest)

/-- The payloads of the parity frames of a block, as they are written. -/
def parityPayloads (k p : ℕ) (data : List Frame) (shards : List Bytes) : Option (List Bytes) := do
  let sub ← scratchBuffer k p data
  writeParity k shards (List.range p) sub

/-- The buffer has the sizes and the tables of a block; `x` stands for the index and `y` for the
shard. -/
def layout (k p : ℕ) (data : List Frame) (x y : Bytes) : Bytes :=
  [putUint16 (UInt16.ofNat k), x, putUint16 (UInt16.ofNat (maxPayloadLen data)),
    putUint16 (UInt16.ofNat p), seqTable data, lenTable data, y].flatten

theorem replicate_layout (n m : ℕ) : (List.replicate (parityHeaderSize n + m) 0 : Bytes) =
      [[0, 0], [0, 0], [0, 0], [0, 0], List.replicate (4 * n) 0, List.replicate (2 * n) 0,
        List.replicate m 0].flatten := by
  refine (List.eq_replicate_iff.mpr ⟨?_, by simp⟩).symm
  simp [parityHeaderSize, parityHdrFixed]
  omega

theorem scratchBuffer_eq (p : ℕ) (data : List Frame) : scratchBuffer data.length p data =
      some (layout data.length p data [0, 0] (List.replicate (maxPayloadLen data) 0)) := by
  rw [scratchBuffer, replicate_layout, put_field 0 (by simp) (by simp) (by simp)]
  dsimp only [Option.bind_eq_bind, Option.bind_some, List.set]
  rw [put_field 3 (by simp) (by simp) (by simp), Option.bind_some]
  dsimp only [List.set]
  rw [foldlM_put_field 4 (fun f : Frame => length_putUint32 f.seq) (by simp)
    (by simp [parityHdrFixed]) (by simp), Option.bind_some]
  dsimp only [List.set]
  rw [foldlM_put_field 5 (fun f : Frame => length_putUint16 (UInt16.ofNat f.payload.length))
    (by simp) (by simp [parityHdrFixed]; omega) (by simp), Option.bind_some]
  dsimp only [List.set]
  rw [put_field 2 (by simp) (by simp) (by simp)]
  rfl

variable {x : Bytes}

theorem layout_index (p : ℕ) (data : List Frame) (hx : x.length = 2) (y z : Bytes)
    (hz : z.length = 2) :
    put (layout data.length p data x y) 2 z = some (layout data.length p data z y) :=
  put_field 1 (by simp) (by simp) (by simp [hx, hz])

theorem layout_shard (p : ℕ) (data : List Frame) (hx : x.length = 2) {y z : Bytes}
    (hyz : y.length = z.length) :
    copyAt (layout data.length p data x y) (parityHeaderSize data.length) z =
      some (layout data.length p data x z) := by
  have h := copyAt_append (show (layout data.length p data x []).length =
      parityHeaderSize data.length by
    simp [layout, hx, length_seqTable, length_lenTable, parityHeaderSize, parityHdrFixed]
    omega) hyz
  simpa [layout] using h

theorem writeParity_layout {p : ℕ} {data : List Frame} {shards : List Bytes} {is : List ℕ}
    (hshards : ∀ i ∈ is, ∃ shard, shards[data.length + i]? = some shard ∧
      shard.length = maxPayloadLen data) {y : Bytes} (hx : x.length = 2)
    (hy : y.length = maxPayloadLen data) :
    writeParity data.length shards is (layout data.length p data x y) = some (is.map fun i =>
        parityPayload data.length p data i (shards.getD (data.length + i) [])) := by
  induction is generalizing x y with
  | nil => rfl
  | cons i is ih =>
    obtain ⟨⟨shard, hget, hlen⟩, hrest⟩ := List.forall_mem_cons.mp hshards
    have hpayload : layout data.length p data (putUint16 (UInt16.ofNat i)) shard =
        parityPayload data.length p data i (shards.getD (data.length + i) []) := by
      rw [parityPayload_eq, List.getD_eq_getElem?_getD, hget, Option.getD_some,
        padTo_of_length hlen]
      simp [layout]
    rw [writeParity, layout_index p data hx y _ (length_putUint16 _), hget]
    dsimp only [Option.bind_eq_bind, Option.bind_some]
    rw [layout_shard p data (length_putUint16 _) (hy.trans hlen.symm), Option.bind_some,
      ih hrest (length_putUint16 _) hlen, Option.bind_some, hpayload, List.map_cons]

/-- **The payloads are those of the parity frames**, although all go through one buffer. -/
theorem parityPayloads_eq {p : ℕ} {data : List Frame} {shards : List Bytes}
    (hshards : ∀ i < p, ∃ shard, shards[data.length + i]? = some shard ∧
      shard.length = maxPayloadLen data) : parityPayloads data.length p data shards =
      some ((List.range p).map fun i =>
        parityPayload data.length p data i (shards.getD (data.length + i) [])) := by
  rw [parityPayloads, scratchBuffer_eq, Option.bind_eq_bind, Option.bind_some]
  exact writeParity_layout (fun i hi => hshards i (List.mem_range.mp hi)) rfl
    List.length_replicate

/-! ### The reader -/

/-- Take in parity frames, each given by its place in the list, with the time it arrives. -/
def feed (parity : List Frame) (timeout : Duration) :
    List (ℕ × Time) → BlockState → Except FecError BlockState
  | [], st => .ok st
  | (i, now) :: rest, st =>
    match parity[i]? with
    | none => feed parity timeout rest st
    | some f =>
      match st.addParity now timeout f with
      | .error err => .error err
      | .ok st' => feed parity timeout rest st'

/-- The geometry of a block is known. -/
structure Described (p : ℕ) (data : List Frame) (st : BlockState) : Prop where
  k : st.k = data.length
  p : st.p = p
  maxLen : st.maxLen = maxPayloadLen data
  seqs : st.seqs = data.map Frame.seq
  lens : st.lens = data.map fun f => UInt16.ofNat f.payload.length

section
variable {p : ℕ} {data parity : List Frame} {shards : List Bytes}

/-- The frames are the parity frames of a block with these shards. -/
def ParityOf (p : ℕ) (data : List Frame) (shards : List Bytes) (parity : List Frame) : Prop :=
  ∀ i < p, ∃ f shard, parity[i]? = some f ∧ shards[data.length + i]? = some shard ∧
    shard.length = maxPayloadLen data ∧ f.payload = parityPayload data.length p data i shard

theorem feed_described (hfits : ParityFits p data) (hparity : ParityOf p data shards parity)
    (timeout : Duration) {js : List (ℕ × Time)} (hjs : ∀ x ∈ js, x.1 < p) {st : BlockState}
    (hst : Described p data st) :
    ∃ st', feed parity timeout js st = .ok st' ∧ Described p data st' ∧
      ∀ i, (st.parity.lookup i = shards[data.length + i]? ∨ ∃ now, (i, now) ∈ js) →
        st'.parity.lookup i = shards[data.length + i]? := by
  induction js generalizing st with
  | nil =>
    refine ⟨st, rfl, hst, fun i hi => ?_⟩
    obtain hi | ⟨now, hnow⟩ := hi
    · exact hi
    · cases hnow
  | cons x js ih =>
    obtain ⟨i, now⟩ := x
    obtain ⟨hi, hjs⟩ := List.forall_mem_cons.mp hjs
    obtain ⟨f, shard, hget, hshard, hlen, hf⟩ := hparity i hi
    have hadd := addParity_again hfits hi hst.k hst.maxLen hf now timeout
    rw [padTo_of_length hlen] at hadd
    have hdesc₁ : Described p data { st with parity := st.parity.insert i shard } :=
      ⟨hst.k, hst.p, hst.maxLen, hst.seqs, hst.lens⟩
    obtain ⟨st', hfeed, hdesc, hstored⟩ := ih hjs hdesc₁
    refine ⟨st', ?_, hdesc, fun j hj => hstored j ?_⟩
    · rw [feed, hget]
      dsimp only
      rw [hadd]
      exact hfeed
    · by_cases hji : j = i
      · left
        rw [hji, AList.lookup_insert, hshard]
      · rw [AList.lookup_insert_ne hji]
        obtain hj | ⟨now', hnow'⟩ := hj
        · exact .inl hj
        · obtain heq | hmem := List.mem_cons.mp hnow'
          · cases heq
            exact absurd rfl hji
          · exact .inr ⟨now', hmem⟩

theorem feed_first (hfits : ParityFits p data) (hparity : ParityOf p data shards parity)
    (timeout : Duration) {js : List (ℕ × Time)} (hne : js ≠ []) (hjs : ∀ x ∈ js, x.1 < p)
    {st : BlockState} (hst : st.k = 0) :
    ∃ st', feed parity timeout js st = .ok st' ∧ Described p data st' ∧
      ∀ x ∈ js, st'.parity.lookup x.1 = shards[data.length + x.1]? := by
  cases js with
  | nil => exact absurd rfl hne
  | cons x js =>
    obtain ⟨i, now⟩ := x
    obtain ⟨hi, hjs⟩ := List.forall_mem_cons.mp hjs
    obtain ⟨f, shard, hget, hshard, hlen, hf⟩ := hparity i hi
    have hadd := addParity_first hfits hi hst hf now timeout
    rw [padTo_of_length hlen] at hadd
    -- the block is described now, and the shard of this frame is stored
    generalize hst₁ : ({ st with
        k := data.length
        p := p
        maxLen := maxPayloadLen data
        seqs := data.map Frame.seq
        lens := data.map fun f => UInt16.ofNat f.payload.length
        deadline := if st.data.size = 0 && st.parity.size = 0 then some (now + timeout)
          else st.deadline
        parity := st.parity.insert i shard } : BlockState) = st₁ at hadd
    have hdesc₁ : Described p data st₁ := by
      rw [← hst₁]
      exact ⟨rfl, rfl, rfl, rfl, rfl⟩
    have hlookup : st₁.parity.lookup i = shards[data.length + i]? := by
      rw [← hst₁, AList.lookup_insert, hshard]
    obtain ⟨st', hfeed, hdesc, hstored⟩ := feed_described hfits hparity timeout hjs hdesc₁
    refine ⟨st', ?_, hdesc, fun y hy => hstored y.1 ?_⟩
    · rw [feed, hget]
      dsimp only
      rw [hadd]
      exact hfeed
    · obtain rfl | hy := List.mem_cons.mp hy
      · exact .inl hlookup
      · exact .inr ⟨y.2, hy⟩

theorem readSubHeader_take {payload : Bytes} {n : ℕ} (h : parityHdrFixed ≤ n) :
    BlockState.readSubHeader (payload.take n) = BlockState.readSubHeader payload := by
  have hread : ∀ j, j + 2 ≤ n → uint16 ((payload.take n).drop j) = uint16 (payload.drop j) := by
    intro j hj
    rw [uint16, uint16, List.drop_take, List.take_take, min_eq_left (by omega)]
  unfold parityHdrFixed at h
  have hzero := hread 0 (by omega)
  rw [List.drop_zero, List.drop_zero] at hzero
  unfold BlockState.readSubHeader
  rw [hzero, hread 2 (by omega), hread 4 (by omega), hread 6 (by omega)]

theorem addParity_prefix (hfits : ParityFits p data) {i : ℕ} (hi : i < p) {shard : Bytes} {f : Frame}
    (hf : f.payload = parityPayload data.length p data i shard) {n : ℕ} (hn : n < f.payload.length)
    (st : BlockState) (now : Time) (timeout : Duration) :
    st.addParity now timeout { f with payload := f.payload.take n } =
      .error (if n < parityHdrFixed then .parityTooShort else .parityTruncated) := by
  have hlen : (f.payload.take n).length = n := by
    rw [List.length_take]
    omega
  rw [BlockState.addParity]
  dsimp only
  rw [hlen]
  by_cases hshort : n < parityHdrFixed
  · rw [if_pos hshort, if_pos hshort]
  · rw [hf, length_parityPayload] at hn
    rw [if_neg hshort, if_neg hshort, readSubHeader_take (not_lt.mp hshort), hf,
      readSubHeader_parityPayload hfits hi]
    exact if_pos hn

end

/-- **The parity sub-header.**  Of the parity frames that the encoder returns for a block, written
through one buffer, any one tells the decoder the numbers of data and parity frames, the size of
the shards, the sequence numbers in order and the payload lengths, and brings its own shard under
its index.  All further ones are accepted, in any order, and no proper prefix of any is. -/
theorem subHeader_codec {F C : Type} [Float64 F] {RS : ReedSolomon C} (hlaw : RS.Lawful)
    (hsound : RS.Sound) {e : Encoder F RS} (henabled : e.params.enabled = true) {data : List Frame}
    (hk : (data.length : ℤ) = e.params.dataShards)
    (hfits : parityHdrFixed + 6 * data.length + maxPayloadLen data ≤ 65535) {c : C}
    (hc : e.rs = some c) {shards : List Bytes}
    (hencode : RS.encode c (blockShards data e.rsParity.toNat) = some shards) :
    ∃ parity, (e.emitBlock data).2 = data.map (Frame.stamp (e.block + 1)) ++ parity ∧
      parity.length = e.rsParity.toNat ∧
      parityPayloads data.length e.rsParity.toNat data shards = some (parity.map Frame.payload) ∧
      (∀ (st : BlockState) (timeout : Duration) (js : List (ℕ × Time)), st.k = 0 → js ≠ [] →
        (∀ x ∈ js, x.1 < e.rsParity.toNat) →
        ∃ st', feed parity timeout js st = .ok st' ∧ st'.k = data.length ∧
          st'.p = e.rsParity.toNat ∧ st'.maxLen = maxPayloadLen data ∧
          st'.seqs = data.map Frame.seq ∧
          st'.lens.map UInt16.toNat = data.map (fun f => f.payload.length) ∧
          ∀ x ∈ js, ∃ shard, shards[data.length + x.1]? = some shard ∧
            shard.length = maxPayloadLen data ∧ st'.parity.lookup x.1 = some shard) ∧
      ∀ f ∈ parity, ∀ (st : BlockState) (now : Time) (timeout : Duration) (n : ℕ),
        n < f.payload.length → ∃ err,
          st.addParity now timeout { f with payload := f.payload.take n } = .error err := by
  have hnew : RS.new e.params.dataShards e.rsParity = some c := by
    rw [← (e.codec henabled).2, hc]
  obtain ⟨hkpos, hp0, hsum⟩ := hlaw.new_bounds hnew
  have hp : ((e.rsParity.toNat : ℕ) : ℤ) = e.rsParity := Int.toNat_of_nonneg hp0
  have hktoNat : e.params.dataShards.toNat = data.length := by omega
  have hblock : e.emitBlock data = (e.cutBlock, data.map (Frame.stamp (e.block + 1)) ++
      (List.range e.rsParity.toNat).map fun i => parityFrame (e.block + 1) data.length
        e.rsParity.toNat data i (shards.getD (data.length + i) [])) := by
    rw [blockShards] at hencode
    rw [Encoder.emitBlock, hc]
    dsimp only [Option.bind_some]
    rw [hencode, hktoNat]
  generalize e.rsParity.toNat = p at *
  rw [← hk, ← hp] at hnew
  -- the library returns the data shards and `p` parity shards of the common size
  obtain ⟨parityShards, hshards, hcount, hsize⟩ := hsound.encode_eq hnew (List.length_map _)
    (by simp) hencode
  have hshard : ∀ i < p, ∃ shard, shards[data.length + i]? = some shard ∧
      shard.length = maxPayloadLen data := by
    intro i hi
    refine ⟨parityShards[i], ?_, hsize _ (List.getElem_mem _)⟩
    rw [hshards, List.getElem?_append_right (by simp)]
    simp [hcount, hi]
  have hpfits : ParityFits p data :=
    ⟨by omega, fun _ => by omega, by omega, fun f hf => by
      have hle := length_le_maxPayloadLen hf
      omega⟩
  have hof : ParityOf p data shards ((List.range p).map fun i => parityFrame (e.block + 1)
      data.length p data i (shards.getD (data.length + i) [])) := by
    intro i hi
    obtain ⟨shard, hget, hlen⟩ := hshard i hi
    refine ⟨_, shard, by rw [List.getElem?_map, List.getElem?_range hi]; rfl, hget, hlen, ?_⟩
    change parityPayload data.length p data i (shards.getD (data.length + i) []) = _
    rw [List.getD_eq_getElem?_getD, hget, Option.getD_some]
  refine ⟨_, by rw [hblock], by simp, ?_, fun st timeout js hst hne hjs => ?_,
    fun f hf st now timeout n hn => ?_⟩
  · rw [parityPayloads_eq hshard, List.map_map]
    rfl
  · obtain ⟨st', hfeed, hdesc, hstored⟩ := feed_first hpfits hof timeout hne hjs hst
    refine ⟨st', hfeed, hdesc.k, hdesc.p, hdesc.maxLen, hdesc.seqs, ?_, fun x hx => ?_⟩
    · rw [hdesc.lens, List.map_map]
      refine List.map_congr_left fun f hf => ?_
      exact toNat_ofNat16 (hpfits.len_lt f hf)
    · obtain ⟨shard, hget, hlen⟩ := hshard x.1 (hjs x hx)
      exact ⟨shard, hget, hlen, (hstored x hx).trans hget⟩
  · obtain ⟨i, hi, rfl⟩ := List.mem_map.mp hf
    exact ⟨_, addParity_prefix hpfits (List.mem_range.mp hi) rfl hn st now timeout⟩

/-- A block of two frames. -/
theorem subHeader_codec_small : (block21.length : ℤ) = encoder21.params.dataShards ∧
      ∃ parity, (encoder21.emitBlock block21).2 = block21.map (Frame.stamp 1) ++ parity ∧
        parity.length = 1 := by
  have hk : (block21.length : ℤ) = encoder21.params.dataShards := rfl
  have hencode : smallCodes.encode 2 (blockShards block21 encoder21.rsParity.toNat) =
      some [[7, 0], [8, 9], parity21 [7, 0] [8, 9]] := by decide
  obtain ⟨parity, hblock, hlen, -⟩ := subHeader_codec lawful_smallCodes sound_smallCodes rfl hk
    (by decide) rfl hencode
  exact ⟨hk, parity, hblock, hlen⟩

end FlexBraid
