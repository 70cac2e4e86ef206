import FlexBraid.Fec.DecoderCalls

/-!
# The parity sub-header

A parity frame describes its block: what the decoder reads from the payload the
encoder wrote is the geometry, the sequence numbers and lengths of the data
frames, and the shard.

## Main definitions

* `ParityFits` — the blocks whose numbers the sub-header can hold.

## Main results

* `readSubHeader_parityPayload` — the fixed part is read back.
* `addParity_first`, `addParity_again` — the first parity frame of a block sets
  the geometry, and every further one is accepted and only adds its shard.
-/

namespace FlexBraid

/-- The bounds under which the 16-bit fields of the sub-header hold the numbers of
a block. -/
structure ParityFits (p : ℕ) (data : List Frame) : Prop where
  pos : 0 < data.length
  k_lt : 0 < p → data.length < 65536
  p_lt : p < 65536
  len_lt : ∀ f ∈ data, f.payload.length < 65536

/-! ### The longest payload -/

theorem le_foldl_maxLen (data : List Frame) (m : ℕ) :
    m ≤ data.foldl (fun m f => if f.payload.length > m then f.payload.length else m) m ∧
      ∀ f ∈ data, f.payload.length ≤
        data.foldl (fun m f => if f.payload.length > m then f.payload.length else m) m := by
  induction data generalizing m with
  | nil => simp
  | cons f data ih =>
    rw [List.foldl_cons]
    obtain ⟨h1, h2⟩ := ih (if f.payload.length > m then f.payload.length else m)
    refine ⟨le_trans (by split <;> omega) h1, fun g hg => ?_⟩
    rcases List.mem_cons.mp hg with rfl | hg
    · exact le_trans (by split <;> omega) h1
    · exact h2 g hg

theorem length_le_maxPayloadLen {data : List Frame} {f : Frame} (h : f ∈ data) :
    f.payload.length ≤ maxPayloadLen data := (le_foldl_maxLen data 0).2 f h

theorem maxPayloadLen_lt {data : List Frame} {n : ℕ} (hn : 0 < n)
    (h : ∀ f ∈ data, f.payload.length < n) : maxPayloadLen data < n := by
  suffices ∀ m < n,
      data.foldl (fun m f => if f.payload.length > m then f.payload.length else m) m < n from
    this 0 hn
  induction data with
  | nil => exact fun m hm => hm
  | cons f data ih =>
    intro m hm
    rw [List.foldl_cons]
    have hf := h f List.mem_cons_self
    exact ih (fun g hg => h g (List.mem_cons_of_mem _ hg)) _ (by split <;> assumption)

/-! ### Reading the payload back -/

/-- The sequence numbers in the sub-header. -/
def seqTable (data : List Frame) : Bytes := data.flatMap fun f => putUint32 f.seq

/-- The payload lengths in the sub-header. -/
def lenTable (data : List Frame) : Bytes :=
  data.flatMap fun f => putUint16 (UInt16.ofNat f.payload.length)

theorem length_seqTable (data : List Frame) : (seqTable data).length = 4 * data.length :=
  length_flatMap_of_length (fun _ => length_putUint32 _) data

theorem length_lenTable (data : List Frame) : (lenTable data).length = 2 * data.length :=
  length_flatMap_of_length (fun _ => length_putUint16 _) data

theorem parityPayload_eq (k p : ℕ) (data : List Frame) (i : ℕ) (shard : Bytes) :
    parityPayload k p data i shard = putUint16 (UInt16.ofNat k) ++ (putUint16 (UInt16.ofNat i) ++
        (putUint16 (UInt16.ofNat (maxPayloadLen data)) ++ (putUint16 (UInt16.ofNat p) ++
          (seqTable data ++ (lenTable data ++ padTo (maxPayloadLen data) shard))))) := by
  simp only [parityPayload, seqTable, lenTable, List.append_assoc]

theorem length_parityPayload (k p : ℕ) (data : List Frame) (i : ℕ) (shard : Bytes) :
    (parityPayload k p data i shard).length =
      parityHdrFixed + 4 * data.length + 2 * data.length + maxPayloadLen data := by
  simp only [parityPayload_eq, List.length_append, length_putUint16, length_seqTable,
    length_lenTable, length_padTo, parityHdrFixed]
  omega

theorem drop_parityPayload (k p : ℕ) (data : List Frame) (i : ℕ) (shard : Bytes) :
    (parityPayload k p data i shard).drop parityHdrFixed =
      seqTable data ++ (lenTable data ++ padTo (maxPayloadLen data) shard) := by
  rw [parityPayload_eq, ← List.append_assoc, ← List.append_assoc, ← List.append_assoc]
  apply List.drop_left'
  simp [parityHdrFixed]

section
variable {p : ℕ} {data : List Frame} {i : ℕ}

theorem toNat_ofNat16 {n : ℕ} (h : n < 65536) : (UInt16.ofNat n).toNat = n :=
  UInt16.toNat_ofNat_of_lt h

theorem readSubHeader_mod (k p : ℕ) (data : List Frame) (i : ℕ) (shard : Bytes) :
    BlockState.readSubHeader (parityPayload k p data i shard) =
      ⟨k % 65536, i % 65536, maxPayloadLen data % 65536, p % 65536⟩ := by
  have hdrop2 : ∀ (x : UInt16) (l : Bytes), (putUint16 x ++ l).drop 2 = l := fun x l =>
    List.drop_left' (length_putUint16 x)
  have hdrop4 : ∀ (x y : UInt16) (l : Bytes), (putUint16 x ++ (putUint16 y ++ l)).drop 4 = l := by
    intro x y l
    rw [← List.drop_drop (i := 2) (j := 2), hdrop2, hdrop2]
  have hdrop6 : ∀ (x y z : UInt16) (l : Bytes),
      (putUint16 x ++ (putUint16 y ++ (putUint16 z ++ l))).drop 6 = l := by
    intro x y z l
    rw [← List.drop_drop (i := 2) (j := 4), hdrop4, hdrop2]
  rw [BlockState.readSubHeader, parityPayload_eq, hdrop2, hdrop4, hdrop6, uint16_put, uint16_put,
    uint16_put, uint16_put]
  simp only [UInt16.toNat_ofNat']

theorem readSubHeader_parityPayload (h : ParityFits p data) (hi : i < p) (shard : Bytes) :
    BlockState.readSubHeader (parityPayload data.length p data i shard) =
      ⟨data.length, i, maxPayloadLen data, p⟩ := by
  have hk := h.k_lt (Nat.zero_lt_of_lt hi)
  have hp := h.p_lt
  rw [readSubHeader_mod, Nat.mod_eq_of_lt hk, Nat.mod_eq_of_lt (hi.trans hp), Nat.mod_eq_of_lt hp,
    Nat.mod_eq_of_lt (maxPayloadLen_lt (by decide) h.len_lt)]

theorem read_seqTable (data : List Frame) (p i : ℕ) (shard : Bytes) :
    ((List.range data.length).map fun j =>
      uint32 ((parityPayload data.length p data i shard).drop (parityHdrFixed + 4 * j))) =
      data.map Frame.seq := by
  have h := @map_read_flatMap _ putUint32 4 uint32 length_putUint32 uint32_put
    (data.map Frame.seq) (lenTable data ++ padTo (maxPayloadLen data) shard)
  rw [List.length_map, List.flatMap_map] at h
  refine Eq.trans (List.map_congr_left fun j _ => ?_) h
  rw [← List.drop_drop, drop_parityPayload, seqTable]

theorem read_lenTable (data : List Frame) (p i : ℕ) (shard : Bytes) :
    ((List.range data.length).map fun j => uint16 ((parityPayload data.length p data i shard).drop
        (parityHdrFixed + 4 * data.length + 2 * j))) =
      data.map fun f => UInt16.ofNat f.payload.length := by
  have h := @map_read_flatMap _ putUint16 2 uint16 length_putUint16 uint16_put
    (data.map fun f => UInt16.ofNat f.payload.length) (padTo (maxPayloadLen data) shard)
  rw [List.length_map, List.flatMap_map] at h
  refine Eq.trans (List.map_congr_left fun j _ => ?_) h
  rw [← List.drop_drop, ← List.drop_drop, drop_parityPayload, List.drop_left' (length_seqTable data),
    lenTable]

theorem read_shard (data : List Frame) (p i : ℕ) (shard : Bytes) :
    ((parityPayload data.length p data i shard).drop
      (parityHdrFixed + 4 * data.length + 2 * data.length)).take (maxPayloadLen data) =
      padTo (maxPayloadLen data) shard := by
  rw [← List.drop_drop, ← List.drop_drop, drop_parityPayload, List.drop_left' (length_seqTable data),
    List.drop_left' (length_lenTable data), List.take_of_length_le (by simp)]

/-! ### Taking a parity frame in -/

variable {st : BlockState} {f : Frame} {shard : Bytes}

/-- The first parity frame of a block sets its geometry and stores the shard. -/
theorem addParity_first (h : ParityFits p data) (hi : i < p) (hk : st.k = 0)
    (hf : f.payload = parityPayload data.length p data i shard) (now : Time) (timeout : Duration) :
    st.addParity now timeout f = .ok
      { st with
        k := data.length
        p := p
        maxLen := maxPayloadLen data
        seqs := data.map Frame.seq
        lens := data.map fun f => UInt16.ofNat f.payload.length
        deadline := if st.data.size = 0 && st.parity.size = 0 then some (now + timeout)
          else st.deadline
        parity := st.parity.insert i (padTo (maxPayloadLen data) shard) } := by
  have hlen := length_parityPayload data.length p data i shard
  rw [BlockState.addParity, hf, if_neg (by rw [hlen]; unfold parityHdrFixed; omega)]
  dsimp only
  rw [readSubHeader_parityPayload h hi]
  dsimp only
  rw [if_neg (by rw [hlen]; omega), if_pos hk]
  simp only [BlockState.adoptGeometry, ne_eq, not_true_eq_false, decide_false, Bool.or_false,
    Bool.false_eq_true, if_false, read_seqTable, read_lenTable, read_shard]

/-- Whatever the payload sizes, the first parity frame of a block brings the number
and the order of its data frames. -/
theorem addParity_order (hk : data.length < 65536) (hst : st.k = 0)
    (hf : f.payload = parityPayload data.length p data i shard) (now : Time) (timeout : Duration) :
    ∃ st', st.addParity now timeout f = .ok st' ∧ st'.k = data.length ∧
      st'.seqs = data.map Frame.seq ∧ st'.data = st.data ∧ st'.flushed = st.flushed := by
  have hlen := length_parityPayload data.length p data i shard
  have hmod : maxPayloadLen data % 65536 ≤ maxPayloadLen data := Nat.mod_le _ _
  rw [BlockState.addParity, hf, if_neg (by rw [hlen]; unfold parityHdrFixed; omega)]
  dsimp only
  rw [readSubHeader_mod, Nat.mod_eq_of_lt hk]
  dsimp only
  rw [if_neg (by rw [hlen]; omega), if_pos hst]
  simp only [BlockState.adoptGeometry, ne_eq, not_true_eq_false, decide_false, Bool.or_false,
    Bool.false_eq_true, if_false, read_seqTable]
  exact ⟨_, rfl, rfl, rfl, rfl, rfl⟩

/-- A further parity frame of a block only adds its shard. -/
theorem addParity_again (h : ParityFits p data) (hi : i < p) (hk : st.k = data.length)
    (hmax : st.maxLen = maxPayloadLen data)
    (hf : f.payload = parityPayload data.length p data i shard) (now : Time) (timeout : Duration) :
    st.addParity now timeout f =
      .ok { st with parity := st.parity.insert i (padTo (maxPayloadLen data) shard) } := by
  have hlen := length_parityPayload data.length p data i shard
  have hpos := h.pos
  rw [BlockState.addParity, hf, if_neg (by rw [hlen]; unfold parityHdrFixed; omega)]
  dsimp only
  rw [readSubHeader_parityPayload h hi]
  dsimp only
  rw [if_neg (by rw [hlen]; omega), if_neg (show ¬ st.k = 0 by omega)]
  simp only [hk, hmax, ne_eq, not_true_eq_false, decide_false, Bool.or_false,
    Bool.false_eq_true, if_false, read_shard]

end

end FlexBraid
