import FlexBraid.Fec.Segments

/-!
# The batches of an encoder

Every call of an encoder returns one batch: frames that pass through, the frames left
over when coding went off, a short block, or a full block with its parity frames.  Over
a whole run the batches hold the pushed frames, in order and each once, and their blocks
are numbered one after the other.

## Main definitions

* `Batch.Shaped` — the shape of a batch.
* `Batch.indices` — the indices in the parity frames of a batch.

## Main results

* `Encoder.conserves` — **conservation and block shape**.
-/

namespace FlexBraid

variable {F C : Type} {RS : ReedSolomon C}

/-- The indices the parity frames of a batch carry in their sub-headers. -/
def Batch.indices (b : Batch) : List ℕ :=
  b.parity.map fun f => (BlockState.readSubHeader f.payload).pidx

/-- The shape of a batch that a call returned which left the encoder in the state `e`.  A
short block has fewer frames than data shards; a full block has as many, and its parity
frames, as many as the encoder has parity shards, come from the codec of that size unless
there was nothing to encode. -/
def Batch.Shaped (e : Encoder F RS) : Batch → Prop
  | .nothing => True
  | .pass _ => True
  | .transition _ => True
  | .short _ data => data ≠ [] ∧ (data.length : ℤ) < e.params.dataShards
  | .full number data p shards =>
    (data.length : ℤ) = e.params.dataShards ∧ (p : ℤ) = e.rsParity ∧
      (∃ c, RS.new data.length p = some c ∧ RS.encode c (blockShards data p) = shards) ∧
      (shards = none → ∀ f ∈ data, f.payload = []) ∧
      (shards ≠ none → (Batch.full number data p shards).indices = List.range p)

/-! ### One call -/

theorem indices_full (number : UInt32) (data : List Frame) {p : ℕ} (hp : p ≤ 65536)
    (shards : List Bytes) : (Batch.full number data p (some shards)).indices = List.range p := by
  rw [Batch.indices, Batch.parity, List.map_map]
  conv_rhs => rw [← List.map_id (List.range p)]
  apply List.map_congr_left
  intro i hi
  have hlt := List.mem_range.mp hi
  rw [Function.comp_apply, parityFrame, readSubHeader_mod, id]
  exact Nat.mod_eq_of_lt (by omega)

theorem payloads_empty (hencodes : RS.Encodes) {c : C} {data : List Frame} {k p : ℤ}
    (hnew : RS.new k p = some c) (hk : (data.length : ℤ) = k)
    (hfail : RS.encode c (blockShards data p.toNat) = none) : ∀ f ∈ data, f.payload = [] := by
  rcases Nat.eq_zero_or_pos (maxPayloadLen data) with hmax | hmax
  · intro f hf
    have hle := length_le_maxPayloadLen hf
    exact List.eq_nil_of_length_eq_zero (by omega)
  · have hlen : ((data.map fun f => padTo (maxPayloadLen data) f.payload).length : ℤ) = k := by
      rw [List.length_map]
      exact hk
    have hsome := hencodes hnew hlen hmax (by simp)
    rw [← blockShards, hfail] at hsome
    cases hsome

namespace Encoder

theorem Returns.shaped (hlaw : RS.Lawful) (hencodes : RS.Encodes) {e e' : Encoder F RS}
    {data : List Frame} {b : Batch} (h : Returns e data e' b) (hparams : e'.params = e.params) :
    b.Shaped e' := by
  cases h with
  | nothing => trivial
  | pass => trivial
  | transition => trivial
  | short _ _ _ hne hlen => exact ⟨hne, by rw [hparams]; exact hlen⟩
  | full _ _ henabled hlen =>
    obtain ⟨hsome, hrs⟩ := e'.codec (by rw [hparams]; exact henabled)
    obtain ⟨c, hc⟩ := Option.isSome_iff_exists.mp hsome
    rw [hc, hparams, ← hlen] at hrs
    have hnew := hrs.symm
    obtain ⟨-, hpos, hmax⟩ := hlaw.new_bounds hnew
    have hp : (e'.rsParity.toNat : ℤ) = e'.rsParity := Int.toNat_of_nonneg hpos
    rw [hc, Option.bind_some]
    refine ⟨by rw [hparams]; exact hlen, hp, ⟨c, by rw [hp]; exact hnew, rfl⟩,
      payloads_empty hencodes hnew rfl, fun hne => ?_⟩
    obtain ⟨shards, hshards⟩ := Option.ne_none_iff_exists'.mp hne
    rw [hshards]
    exact indices_full _ _ (by omega) shards

theorem Returns.data {e e' : Encoder F RS} {data : List Frame} {b : Batch}
    (h : Returns e data e' b) : b.data ++ e'.pending = data := by
  cases h with
  | nothing _ hpending => exact hpending
  | pass _ hpending => rw [hpending, List.append_nil]; rfl
  | transition _ hpending => rw [hpending, List.append_nil]; rfl
  | short _ hpending => rw [hpending, List.append_nil]; rfl
  | full _ hpending => rw [hpending, List.append_nil]; rfl

/-- A call that returns a block numbers it next, and the others count none. -/
theorem Returns.number {e e' : Encoder F RS} {data : List Frame} {b : Batch}
    (h : Returns e data e' b) : b.number = none ∧ e'.blocksCoded = e.blocksCoded ∨
      b.number = some (UInt32.ofNat (e.blocksCoded + 1)) ∧ e'.blocksCoded = e.blocksCoded + 1 := by
  cases h with
  | nothing hcoded => exact .inl ⟨rfl, hcoded⟩
  | pass hcoded => exact .inl ⟨rfl, hcoded⟩
  | transition hcoded => exact .inl ⟨rfl, hcoded⟩
  | short hcoded => exact .inr ⟨congrArg some e.block_succ, hcoded⟩
  | full hcoded => exact .inr ⟨congrArg some e.block_succ, hcoded⟩

variable [Float64 F]

theorem batched_step (e : Encoder F RS) (c : Call F) :
    Batched e (e.pending ++ c.pushed) (e.step c) := by
  cases c with
  | push now start f => exact e.batched_push now start f
  | tick now => simpa [Call.pushed, step] using e.batched_tick now
  | setLossRate now rate => simpa [Call.pushed, step] using e.batched_setLossRate now rate

/-- Whether a call is a push or a tick. -/
def Call.flushes : Call F → Bool
  | .setLossRate _ _ => false
  | _ => true

theorem step_off (e : Encoder F RS) {c : Call F} (hc : c.flushes = true)
    (hoff : (e.step c).1.codingOn = false) : (e.step c).1.pending = [] := by
  -- a call that refreshes the decision to on leaves it on
  have hne : ∀ {now : Time} {P : Prop}, ¬ (!(e.refresh now).codingOn) = true →
      (e.refresh now).codingOn = false → P := fun h h' => absurd (by rw [h']; rfl) h
  revert hoff
  cases c with
  | push now start f =>
    rw [step]
    unfold push
    split
    · next hdisabled => exact fun _ => e.idle hdisabled
    · dsimp only
      split
      · exact fun _ => rfl
      · next hon =>
        split
        · exact hne hon
        · unfold emitBlock
          dsimp only
          split <;> exact hne hon
  | tick now =>
    rw [step]
    unfold tick
    split
    · next hdisabled => exact fun _ => e.idle hdisabled
    · dsimp only
      split
      · exact fun _ => rfl
      · next hon => split_ifs <;> exact hne hon
  | setLossRate now rate => cases hc

/-! ### Whole runs -/

/-- **The batches of a run**: one for each call, whose frames were pending or pushed, in
order, and whose blocks are numbered one after the other.  They have every property `P` that
holds of what one call returns. -/
theorem batches_of_run {P : Encoder F RS → Batch → Prop}
    (hP : ∀ {e e' : Encoder F RS} {data b}, Returns e data e' b → e'.params = e.params → P e' b)
    (e : Encoder F RS) (calls : List (Call F)) :
    ∃ batches : List Batch, Run.outputs step e calls = batches.map Batch.frames ∧
      batches.flatMap Batch.data ++ (Run.exec step e calls).pending =
        e.pending ++ calls.flatMap Call.pushed ∧ List.Forall₂ P (Run.states step e calls) batches ∧
      ∃ n, (Run.exec step e calls).blocksCoded = e.blocksCoded + n ∧
        batches.filterMap Batch.number = (List.range' (e.blocksCoded + 1) n).map UInt32.ofNat := by
  induction calls generalizing e with
  | nil => exact ⟨[], rfl, by simp, .nil, 0, rfl, rfl⟩
  | cons c calls ih =>
    obtain ⟨hparams, b, hframes, hreturns⟩ := e.batched_step c
    obtain ⟨batches, hout, hdata, hshaped, n, hcoded, hnumbers⟩ := ih (e.step c).1
    refine ⟨b :: batches, ?_, ?_, .cons (hP hreturns hparams) hshaped, ?_⟩
    · rw [Run.outputs_cons, hframes, hout, List.map_cons]
    · rw [List.flatMap_cons, Run.exec_cons, List.append_assoc, hdata, ← List.append_assoc,
        hreturns.data, List.append_assoc, List.flatMap_cons]
    · rw [Run.exec_cons, hcoded]
      rcases hreturns.number with ⟨hnone, hsame⟩ | ⟨hsome, hnext⟩
      · refine ⟨n, by rw [hsame], ?_⟩
        rw [List.filterMap_cons_none hnone, hnumbers, hsame]
      · refine ⟨n + 1, by rw [hnext]; omega, ?_⟩
        rw [List.filterMap_cons_some hsome, hnumbers, hnext, List.range'_succ, List.map_cons]

theorem pairwise_numbers {m n : ℕ} (h : m + n ≤ 2 ^ 32) :
    ((List.range' m n).map UInt32.ofNat).Pairwise (· < ·) := by
  rw [List.pairwise_map]
  refine List.Pairwise.imp_of_mem ?_ (List.pairwise_lt_range' (s := m) (n := n))
  intro a b ha hb hab
  have hb' := (List.mem_range'_1.mp hb).2
  exact ofNat_lt_ofNat hab (by omega)

theorem states_off (e : Encoder F RS) (calls : List (Call F)) :
    List.Forall₂ (fun (c : Call F) (e' : Encoder F RS) =>
      c.flushes = true → e'.codingOn = false → e'.pending = []) calls (Run.states step e calls) := by
  induction calls generalizing e with
  | nil => exact .nil
  | cons c calls ih => exact .cons (fun hc hoff => e.step_off hc hoff) (ih _)

/-- Two pushes fill a block, and a third frame waits for its tick. -/
def calls21 : List (Call ℚ) :=
  block21.map (.push 0 0) ++
    [.push 0 0 { sessionID := 5, seq := 3, payload := [1] }, .tick (8 * millisecond)]

end Encoder

end FlexBraid
