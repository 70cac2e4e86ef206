import FlexBraid.Tunnel.DeliveryWindow

/-!
# The delivery buffer under a shift of the numbers

All comparisons of the buffer are relative, so it should behave the same wherever its numbers
begin, past their wraparound as well.  It does, frame by frame and call by call, and for every order
in which the maps are visited; only a tick that finds number zero as the nearest one takes it for
nothing at all.

## Main definitions

* `Frame.shift`, `DeliveryBuffer.Call.Shifted` — frames and calls with all numbers shifted.
* `DeliveryBuffer.Shifted` — two buffers that differ by a shift of the numbers.
* `DeliveryBuffer.clearOf` — neither buffer has zero as the nearest number when a tick skips a gap.

## Main results

* `DeliveryBuffer.shift_run` — **the shifted run returns the shifted frames**.
* `DeliveryBuffer.zero_not_found` — number zero is not returned where number two is.
-/

namespace FlexBraid

/-- A frame with its number shifted. -/
def Frame.shift (c : UInt32) (f : Frame) : Frame := { f with seq := f.seq + c }

@[simp] theorem Frame.shift_seq (c : UInt32) (f : Frame) : (f.shift c).seq = f.seq + c := rfl

theorem shift_sub (a b c : UInt32) : a + c - (b + c) = a - b := by
  have ha := a.toNat_lt
  have hb := b.toNat_lt
  have hc := c.toNat_lt
  rw [← UInt32.toNat_inj, UInt32.toNat_sub, UInt32.toNat_sub, UInt32.toNat_add, UInt32.toNat_add]
  omega

@[simp] theorem ahead_shift (n k c : UInt32) : ahead (n + c) (k + c) = ahead n k := by
  rw [ahead, ahead, shift_sub]

@[simp] theorem seqBefore_shift (a b c : UInt32) : seqBefore (a + c) (b + c) = seqBefore a b := by
  rw [seqBefore, seqBefore, shift_sub]

theorem add_one_shift (n c : UInt32) : n + c + 1 = n + 1 + c := by
  rw [UInt32.add_assoc, UInt32.add_comm c 1, ← UInt32.add_assoc]

namespace DeliveryBuffer

/-! ### Two buffers that differ by a shift -/

/-- **The relation**: the second buffer is the first one with all its numbers shifted. -/
structure Shifted (c : UInt32) (d d' : DeliveryBuffer) : Prop where
  next : d'.next = d.next + c
  pending : ∀ s, d'.pending.lookup (s + c) = (d.pending.lookup s).map (Frame.shift c)
  gapSince : d'.gapSince = d.gapSince
  gapTimeout : d'.gapTimeout = d.gapTimeout
  maxPending : d'.maxPending = d.maxPending
  drops : d'.drops = d.drops

variable {c : UInt32} {d d' : DeliveryBuffer}

theorem Shifted.mem (h : Shifted c d d') (s : UInt32) : s + c ∈ d'.pending ↔ s ∈ d.pending := by
  rw [← AList.lookup_isSome, h.pending, Option.isSome_map, AList.lookup_isSome]

theorem Shifted.mem_sub (h : Shifted c d d') {k : UInt32} (hk : k ∈ d'.pending) :
    k - c ∈ d.pending ∧ k = k - c + c := by
  have heq : k = k - c + c := (UInt32.sub_add_cancel k c).symm
  rw [heq] at hk
  exact ⟨(h.mem _).mp hk, heq⟩

theorem Shifted.size (h : Shifted c d d') : d'.pending.size = d.pending.size := by
  have hcard : d'.pending.size = (d.pending.keys.toFinset.image (· + c)).card := by
    apply AList.size_eq_card
    intro k
    rw [AList.lookup_isSome, Finset.mem_image]
    constructor
    · intro hk
      obtain ⟨hmem, heq⟩ := h.mem_sub hk
      exact ⟨k - c, List.mem_toFinset.mpr (AList.mem_keys.mp hmem), heq.symm⟩
    · rintro ⟨s, hs, rfl⟩
      exact (h.mem s).mpr (AList.mem_keys.mpr (List.mem_toFinset.mp hs))
  have hinj : Function.Injective (· + c : UInt32 → UInt32) := fun a b hab =>
    (UInt32.add_left_inj c).mp hab
  rw [hcard, Finset.card_image_of_injective _ hinj,
    List.toFinset_card_of_nodup d.pending.keys_nodup, AList.size]

theorem Shifted.near (h : Shifted c d d') (hnear : d.Near) : d'.Near := by
  intro k hk
  obtain ⟨hmem, heq⟩ := h.mem_sub hk
  rw [heq, h.next, ahead_shift]
  exact hnear _ hmem

variable {m : UInt32} {f : Frame}

theorem Shifted.nearest (h : Shifted c d d') (hm : d.Nearest m) : d'.Nearest (m + c) := by
  refine ⟨(h.mem m).mpr hm.mem, fun k hk => ?_⟩
  obtain ⟨hmem, heq⟩ := h.mem_sub hk
  rw [heq, h.next, ahead_shift, ahead_shift]
  exact hm.le _ hmem

theorem nearestIs_iff :
    d.nearestIs m = true ↔ m ∈ d.pending ∧ ∀ k ∈ d.pending, k = m ∨ seqBefore m k = true := by
  rw [nearestIs, Bool.and_eq_true, AList.lookup_isSome, List.all_eq_true]
  refine and_congr_right fun _ => forall_congr' fun k => ?_
  rw [Bool.or_eq_true, beq_iff_eq, ← AList.mem_keys]

theorem Shifted.nearestIs (h : Shifted c d d') (hm : d'.nearestIs (m + c) = true) :
    d.nearestIs m = true := by
  obtain ⟨hmem, hall⟩ := nearestIs_iff.mp hm
  refine nearestIs_iff.mpr ⟨(h.mem m).mp hmem, fun k hk => ?_⟩
  have hk' := hall (k + c) ((h.mem k).mpr hk)
  rw [seqBefore_shift, UInt32.add_left_inj] at hk'
  exact hk'

/-! ### The parts of a step -/

theorem Shifted.erase (h : Shifted c d d') (s : UInt32) :
    Shifted c { d with pending := d.pending.erase s }
      { d' with pending := d'.pending.erase (s + c) } := by
  refine { h with pending := fun k => ?_ }
  dsimp only
  rw [AList.lookup_erase_eq, AList.lookup_erase_eq, h.pending]
  simp only [UInt32.add_left_inj]
  split <;> rfl

theorem Shifted.set (h : Shifted c d d') (f : Frame) :
    Shifted c { d with pending := d.pending.set f.seq f }
      { d' with pending := d'.pending.set (f.shift c).seq (f.shift c) } := by
  refine { h with pending := fun k => ?_ }
  dsimp only
  rw [AList.lookup_set, AList.lookup_set, h.pending]
  simp only [Frame.shift_seq, UInt32.add_left_inj]
  split <;> rfl

theorem Shifted.goto (h : Shifted c d d') (n : UInt32) :
    Shifted c { d with next := n } { d' with next := n + c } :=
  { h with next := rfl }

theorem Shifted.drain (h : Shifted c d d') (fuel : ℕ) (out : List Frame) :
    Shifted c (drain fuel d out).1 (drain fuel d' (out.map (Frame.shift c))).1 ∧
      (drain fuel d' (out.map (Frame.shift c))).2 = (drain fuel d out).2.map (Frame.shift c) := by
  induction fuel generalizing d d' out with
  | zero => exact ⟨h, rfl⟩
  | succ fuel ih =>
    rw [DeliveryBuffer.drain, DeliveryBuffer.drain, h.next, h.pending]
    cases d.pending.lookup d.next with
    | none => exact ⟨h, rfl⟩
    | some f =>
      have hnext := ih ((h.erase d.next).goto (d.next + 1)) (out ++ [f])
      rw [List.map_append] at hnext
      rw [add_one_shift]
      exact hnext

theorem Shifted.drainContiguous (h : Shifted c d d') (out : List Frame) :
    Shifted c (d.drainContiguous out).1 (d'.drainContiguous (out.map (Frame.shift c))).1 ∧
      (d'.drainContiguous (out.map (Frame.shift c))).2 =
        (d.drainContiguous out).2.map (Frame.shift c) := by
  obtain ⟨hdrain, hout⟩ := h.drain d.pending.size out
  rw [drainContiguous_fst, drainContiguous_fst, h.size, hdrain.size]
  refine ⟨{ hdrain with gapSince := ?_ }, ?_⟩
  · dsimp only
    rw [hdrain.gapSince]
  · rw [DeliveryBuffer.drainContiguous, DeliveryBuffer.drainContiguous, h.size]
    exact hout

/-- The search for the frame to drop finds the shifted number, whichever way the maps are
visited. -/
theorem Shifted.roomFor (h : Shifted c d d') (hnear : d.Near) (hf : ahead d.next f.seq < 2 ^ 31)
    (σ σ' : IterOrder UInt32) : d'.roomFor σ' (f.shift c) = d.roomFor σ f + c := by
  obtain ⟨m, hm, hle⟩ := Finset.exists_min_image (insert f.seq d.pending.keys.toFinset)
    (ahead d.next) (Finset.insert_nonempty _ _)
  have hin : ∀ k, k ∈ insert f.seq d.pending.keys.toFinset ↔ k = f.seq ∨ k ∈ d.pending := by
    intro k
    rw [Finset.mem_insert, List.mem_toFinset, AList.mem_keys]
  have hmem := (hin m).mp hm
  have hfirst : ahead d.next m ≤ ahead d.next f.seq := hle _ (Finset.mem_insert_self _ _)
  have hother : ∀ k ∈ d.pending, ahead d.next m ≤ ahead d.next k := fun k hk =>
    hle k ((hin k).mpr (.inr hk))
  rw [roomFor_eq hnear hf hmem ⟨hfirst, hother⟩ σ]
  refine roomFor_eq (h.near hnear) ?_ ?_ ⟨?_, fun k hk => ?_⟩ σ'
  · rw [h.next, Frame.shift_seq, ahead_shift]
    exact hf
  · rcases hmem with rfl | hmem
    · exact .inl rfl
    · exact .inr ((h.mem m).mpr hmem)
  · rw [h.next, Frame.shift_seq, ahead_shift, ahead_shift]
    exact hfirst
  · obtain ⟨hk', heq⟩ := h.mem_sub hk
    rw [heq, h.next, ahead_shift, ahead_shift]
    exact hother _ hk'

theorem Shifted.store (h : Shifted c d d') (hnear : d.Near) (hf : ahead d.next f.seq < 2 ^ 31)
    (σ σ' : IterOrder UInt32) : Shifted c (d.store σ f) (d'.store σ' (f.shift c)) := by
  rw [DeliveryBuffer.store, DeliveryBuffer.store, Frame.shift_seq, h.pending, Option.isSome_map]
  split
  · exact h
  · refine Shifted.set ?_ f
    have hroom := h.roomFor hnear hf σ σ'
    unfold DeliveryBuffer.roomFor at hroom
    rw [makeRoom, makeRoom, h.size, h.maxPending]
    split
    · dsimp only
      rw [hroom, h.drops]
      exact { h.erase _ with maxPending := rfl, drops := rfl }
    · exact h

theorem Shifted.hold (h : Shifted c d d') (hnear : d.Near) (hf : ahead d.next f.seq < 2 ^ 31)
    (σ σ' : IterOrder UInt32) (now : Time) :
    Shifted c (d.hold σ now f) (d'.hold σ' now (f.shift c)) := by
  have hstore := h.store hnear hf σ σ'
  rw [DeliveryBuffer.hold, DeliveryBuffer.hold]
  refine { hstore with gapSince := ?_ }
  dsimp only
  rw [hstore.gapSince]

/-- **One frame**: the same happens to the shifted one. -/
theorem Shifted.pushOne (h : Shifted c d d') (hnear : d.Near) (σ σ' : IterOrder UInt32) (now : Time)
    (f : Frame) : Shifted c (pushOne σ now d f).1 (pushOne σ' now d' (f.shift c)).1 ∧
      (pushOne σ' now d' (f.shift c)).2 = (pushOne σ now d f).2.map (Frame.shift c) := by
  rw [DeliveryBuffer.pushOne, DeliveryBuffer.pushOne, pushFrame, pushFrame]
  dsimp only
  rw [h.next, Frame.shift_seq, seqBefore_shift]
  simp only [UInt32.add_left_inj]
  split
  · exact ⟨h, rfl⟩
  · next hlate =>
    split
    · rw [add_one_shift]
      exact (h.goto (d.next + 1)).drainContiguous [f]
    · exact ⟨h.hold hnear (seqBefore_eq_false.mp ((Bool.not_eq_true _).mp hlate)) σ σ' now, rfl⟩

/-- The frames of a push, one by one. -/
theorem Shifted.push (h : Shifted c d d') (hahead : d.Ahead) (σ σ' : IterOrder UInt32) (now : Time)
    (frames : List Frame) :
    Shifted c (d.push σ now frames).1 (d'.push σ' now (frames.map (Frame.shift c))).1 ∧
      (d'.push σ' now (frames.map (Frame.shift c))).2 =
        (d.push σ now frames).2.map (Frame.shift c) ∧ (d.push σ now frames).1.Ahead := by
  rw [push_eq_run, push_eq_run]
  dsimp only
  induction frames generalizing d d' with
  | nil => exact ⟨h, rfl, hahead⟩
  | cons f frames ih =>
    obtain ⟨hone, hout⟩ := h.pushOne hahead.near σ σ' now f
    obtain ⟨hrest, hout', hahead'⟩ := ih hone (hahead.pushOne σ now f)
    refine ⟨hrest, ?_, hahead'⟩
    rw [List.map_cons, Run.outputs_cons, Run.outputs_cons, List.flatten_cons, List.flatten_cons,
      List.map_append, hout, hout']

/-! ### Ticks -/

/-- When the tick skips a gap, the nearest number is not zero in either buffer. -/
def clearOf (c : UInt32) (d : DeliveryBuffer) : Call → Bool
  | .tick _ now => !d.due now || (!d.nearestIs 0 && !d.nearestIs (0 - c))
  | _ => true

theorem Shifted.due (h : Shifted c d d') (now : Time) : d'.due now = d.due now := by
  rw [DeliveryBuffer.due, DeliveryBuffer.due, h.gapSince, h.gapTimeout]

/-- **One tick**: it skips the shifted gap. -/
theorem Shifted.tick (h : Shifted c d d') (hnear : d.Near) (σ σ' : IterOrder UInt32) {now : Time}
    (hclear : d.clearOf c (.tick σ now) = true) : Shifted c (d.tick σ now).1 (d'.tick σ' now).1 ∧
      (d'.tick σ' now).2 = (d.tick σ now).2.map (Frame.shift c) := by
  cases hdue : d.due now with
  | false =>
    have hdue' : d'.due now = false := (h.due now).trans hdue
    rw [tick_of_not_due hdue, tick_of_not_due hdue']
    exact ⟨h, rfl⟩
  | true =>
    have hdue' : d'.due now = true := (h.due now).trans hdue
    rw [clearOf, hdue, Bool.not_true, Bool.false_or, Bool.and_eq_true, Bool.not_eq_true',
      Bool.not_eq_true'] at hclear
    -- zero is not the nearest number of the shifted buffer, either
    have hzero' : d'.nearestIs 0 = false := by
      rw [← Bool.not_eq_true]
      intro hzero
      rw [← UInt32.sub_add_cancel 0 c] at hzero
      rw [h.nearestIs hzero] at hclear
      cases hclear.2
    rcases tick_cases hnear hdue hclear.1 σ with ⟨hsize, heq⟩ | ⟨m, hm, heq⟩
    · rcases tick_cases (h.near hnear) hdue' hzero' σ' with ⟨-, heq'⟩ | ⟨m', hm', -⟩
      · rw [heq, heq', h.next, add_one_shift]
        exact ⟨{ h.goto (d.next + 1) with gapSince := rfl }, rfl⟩
      · have hsize' : d'.pending.size ≠ 0 := AList.size_ne_zero.mpr ⟨m', hm'.mem⟩
        rw [h.size] at hsize'
        exact absurd hsize hsize'
    · rcases tick_cases (h.near hnear) hdue' hzero' σ' with ⟨hsize', -⟩ | ⟨m', hm', heq'⟩
      · rw [h.size] at hsize'
        exact absurd hsize' (AList.size_ne_zero.mpr ⟨m, hm.mem⟩)
      · rw [heq, heq', hm'.unique (h.nearest hm)]
        exact (h.goto m).drainContiguous []

/-! ### Runs -/

/-- A call with all numbers shifted; the maps may be visited another way. -/
inductive Call.Shifted (c : UInt32) : Call → Call → Prop
  | push (σ σ' : IterOrder UInt32) (now : Time) (frames : List Frame) :
    Call.Shifted c (.push σ now frames) (.push σ' now (frames.map (Frame.shift c)))
  | tick (σ σ' : IterOrder UInt32) (now : Time) : Call.Shifted c (.tick σ now) (.tick σ' now)
  | reload (gapTimeout : Duration) (maxPending : ℤ) :
    Call.Shifted c (.reload gapTimeout maxPending) (.reload gapTimeout maxPending)

/-- One call. -/
theorem Shifted.step (h : Shifted c d d') (hahead : d.Ahead) {call call' : Call}
    (hcall : Call.Shifted c call call') (hclear : d.clearOf c call = true) :
    Shifted c (d.step call).1 (d'.step call').1 ∧
      (d'.step call').2 = (d.step call).2.map (Frame.shift c) ∧ (d.step call).1.Ahead := by
  cases hcall with
  | push σ σ' now frames => exact h.push hahead σ σ' now frames
  | tick σ σ' now =>
    obtain ⟨htick, hout⟩ := h.tick hahead.near σ σ' hclear
    refine ⟨htick, hout, hahead.tick ?_ σ⟩
    rw [clearOf, Bool.or_eq_true, Bool.and_eq_true] at hclear
    rw [clearTick, Bool.or_eq_true]
    exact hclear.imp_right And.left
  | reload gapTimeout maxPending =>
    refine ⟨?_, rfl, ⟨hahead.near, hahead.missing⟩⟩
    rw [DeliveryBuffer.step, DeliveryBuffer.step, reload, reload, h.gapTimeout, h.maxPending]
    exact { h with gapTimeout := rfl, maxPending := rfl }

/-- **The shifted run returns the shifted frames**, call by call, whichever way the maps are
visited, if zero is never the nearest number in either run when a tick skips a gap. -/
theorem shift_run (c : UInt32) (gapTimeout : Duration) (maxPending : ℤ) (next : UInt32)
    (calls calls' : List Call) (hcalls : List.Forall₂ (Call.Shifted c) calls calls')
    (hclear : Run.Along DeliveryBuffer.step (fun d call => d.clearOf c call = true)
      { newDeliveryBuffer gapTimeout maxPending with next := next } calls) :
    Run.outputs DeliveryBuffer.step
        { newDeliveryBuffer gapTimeout maxPending with next := next + c } calls' =
      (Run.outputs DeliveryBuffer.step
        { newDeliveryBuffer gapTimeout maxPending with next := next } calls).map
          (List.map (Frame.shift c)) := by
  have hrun : ∀ (d d' : DeliveryBuffer), Shifted c d d' → d.Ahead →
      Run.Along DeliveryBuffer.step (fun d call => d.clearOf c call = true) d calls →
      Run.outputs DeliveryBuffer.step d' calls' =
        (Run.outputs DeliveryBuffer.step d calls).map (List.map (Frame.shift c)) := by
    clear hclear
    induction hcalls with
    | nil => exact fun _ _ _ _ _ => rfl
    | cons hcall _ ih =>
      intro d d' h hahead hclear
      obtain ⟨hnext, hout, hahead'⟩ := h.step hahead hcall hclear.1
      rw [Run.outputs_cons, Run.outputs_cons, List.map_cons, hout, ih _ _ hnext hahead' hclear.2]
  refine hrun _ _ ?_ (.empty rfl) hclear
  exact ⟨rfl, fun s => rfl, rfl, rfl, rfl, rfl⟩

/-- Frame 2 waits for frame 1, which a tick skips. -/
def skipOne (σ : IterOrder UInt32) (c : UInt32) : List Call :=
  [.push σ 0 [Frame.shift c { seq := 2 }], .tick σ (100 * millisecond)]

theorem shift_run_small :
    Run.outputs step { newDeliveryBuffer 0 0 with next := 1 + 7 } (skipOne .plain 7) =
      (Run.outputs step { newDeliveryBuffer 0 0 with next := 1 } (skipOne .plain 0)).map
        (List.map (Frame.shift 7)) :=
  shift_run 7 0 0 1 (skipOne .plain 0) (skipOne .plain 7)
    (.cons (.push _ _ _ _) (.cons (.tick _ _ _) .nil)) (by decide)

/-- Where the numbers wrap around, frame 2 becomes frame 0, and the tick does not return it. -/
theorem zero_not_found :
    ((Run.outputs step { newDeliveryBuffer 0 0 with next := 1 } (skipOne .plain 0)).map
        (List.map fun f => f.seq)) = [[], [2]] ∧
      ((Run.outputs step { newDeliveryBuffer 0 0 with next := 1 - 2 } (skipOne .plain (0 - 2))).map
        (List.map fun f => f.seq)) = [[], []] ∧
      List.Forall₂ (Call.Shifted (0 - 2)) (skipOne .plain 0) (skipOne .plain (0 - 2)) :=
  ⟨by decide, by decide, .cons (.push _ _ _ _) (.cons (.tick _ _ _) .nil)⟩

end DeliveryBuffer

end FlexBraid
