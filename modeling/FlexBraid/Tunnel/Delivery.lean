import FlexBraid.Frame
import FlexBraid.Lib.GoMap
import FlexBraid.Lib.GoNum
import FlexBraid.Lib.Run

/-!
# The delivery buffer

The server spreads the frames of a session over several paths, so they reach the
client out of order.  The delivery buffer puts them back into the order of their
sequence numbers: a missing number holds up what comes after it until a timeout,
then the hole is skipped.

Sequence numbers are compared by the sign of their 32-bit difference, so they may
wrap around.  The search for the lowest pending number goes over a map; the order
in which it does is an argument, like the clock reading of a call.

## Main definitions

* `DeliveryBuffer`, `newDeliveryBuffer` — the buffer.
* `DeliveryBuffer.push`, `DeliveryBuffer.tick`, `DeliveryBuffer.reload` — the calls.
* `DeliveryBuffer.Call`, `DeliveryBuffer.step` — the buffer as a machine.
* `DeliveryBuffer.lowest` — the search of a tick.

## Main results

* `DeliveryBuffer.drain_induct`, `DeliveryBuffer.push_induct` — the induction rules for draining
  and for the frames of a push.
* `DeliveryBuffer.hold_spec` — what waits after a frame was held.
* `DeliveryBuffer.push_next` — the frame that is expected passes straight through an
  empty buffer.
-/

namespace FlexBraid

/-- Whether a sequence number lies before another one: their difference, read as a
signed number, is negative. -/
def seqBefore (a b : UInt32) : Bool := decide ((a - b).toInt32 < 0)

structure DeliveryBuffer where
  /-- The sequence number expected next. -/
  next : UInt32 := 1
  pending : GoMap UInt32 Frame := ∅
  /-- Since when `next` is missing. -/
  gapSince : Option Time := none
  gapTimeout : Duration
  maxPending : ℤ
  /-- The frames dropped because too many were pending. -/
  drops : ℕ := 0

/-- An empty buffer, which expects the first number of a session. -/
def newDeliveryBuffer (gapTimeout : Duration) (maxPending : ℤ) : DeliveryBuffer where
  gapTimeout := positiveOr gapTimeout (100 * millisecond)
  maxPending := positiveOr maxPending 4096

namespace DeliveryBuffer

/-- Move the run of pending frames that starts at `next` to the output, at most `fuel`
of them; there are no more than pending frames. -/
def drain : ℕ → DeliveryBuffer → List Frame → DeliveryBuffer × List Frame
  | 0, d, out => (d, out)
  | fuel + 1, d, out =>
    match d.pending.lookup d.next with
    | none => (d, out)
    | some f => drain fuel { d with pending := d.pending.erase d.next, next := d.next + 1 } (out ++ [f])

/-- Deliver the run of pending frames that starts at `next`; with nothing left there
is no gap. -/
def drainContiguous (d : DeliveryBuffer) (out : List Frame) : DeliveryBuffer × List Frame :=
  let r := drain d.pending.size d out
  (if r.1.pending.size = 0 then { r.1 with gapSince := none } else r.1, r.2)

/-- Drop the frame with the lowest number, that of the new frame included, when too
many are pending. -/
def makeRoom (d : DeliveryBuffer) (σ : IterOrder UInt32) (f : Frame) : DeliveryBuffer :=
  if (d.pending.size : ℤ) ≥ d.maxPending then
    let lo := (σ.visit d.pending.keys).foldl
      (fun lo seq => if seqBefore seq lo then seq else lo) f.seq
    { d with pending := d.pending.erase lo, drops := d.drops + 1 }
  else d

/-- Store a frame that is ahead of `next`, unless it is there already. -/
def store (d : DeliveryBuffer) (σ : IterOrder UInt32) (f : Frame) : DeliveryBuffer :=
  if (d.pending.lookup f.seq).isSome then d
  else
    let d := d.makeRoom σ f
    { d with pending := d.pending.set f.seq f }

/-- Hold a frame that is ahead of `next`. -/
def hold (d : DeliveryBuffer) (σ : IterOrder UInt32) (now : Time) (f : Frame) : DeliveryBuffer :=
  let d := d.store σ f
  { d with gapSince := if d.gapSince.isNone then some now else d.gapSince }

/-- One frame of a push; the frames to deliver are collected. -/
def pushFrame (σ : IterOrder UInt32) (now : Time) (acc : DeliveryBuffer × List Frame) (f : Frame) :
    DeliveryBuffer × List Frame :=
  if seqBefore f.seq acc.1.next then acc
  else if f.seq = acc.1.next then
    ({ acc.1 with next := acc.1.next + 1 } : DeliveryBuffer).drainContiguous (acc.2 ++ [f])
  else (acc.1.hold σ now f, acc.2)

/-- Accept decoded frames and return those that can be delivered in order. -/
def push (d : DeliveryBuffer) (σ : IterOrder UInt32) (now : Time) (frames : List Frame) :
    DeliveryBuffer × List Frame :=
  frames.foldl (pushFrame σ now) (d, [])

/-- Skip a hole that has been there for too long.  The search starts at 0, which also
means that nothing is pending. -/
def tick (d : DeliveryBuffer) (σ : IterOrder UInt32) (now : Time) : DeliveryBuffer × List Frame :=
  match d.gapSince with
  | none => (d, [])
  | some since =>
    if now - since < d.gapTimeout then (d, [])
    else
      let lo := (σ.visit d.pending.keys).foldl
        (fun lo seq => if lo = 0 || seqBefore seq lo then seq else lo) 0
      if lo = 0 then ({ d with next := d.next + 1, gapSince := none }, [])
      else ({ d with next := lo } : DeliveryBuffer).drainContiguous []

/-- Apply new settings at runtime, those that are positive; what is pending stays. -/
def reload (d : DeliveryBuffer) (gapTimeout : Duration) (maxPending : ℤ) : DeliveryBuffer :=
  { d with
    gapTimeout := if gapTimeout > 0 then gapTimeout else d.gapTimeout
    maxPending := if maxPending > 0 then maxPending else d.maxPending }

/-- A call of a delivery buffer. -/
inductive Call where
  | push (σ : IterOrder UInt32) (now : Time) (frames : List Frame)
  | tick (σ : IterOrder UInt32) (now : Time)
  | reload (gapTimeout : Duration) (maxPending : ℤ)

/-- The frames a call pushes. -/
def Call.pushed : Call → List Frame
  | .push _ _ frames => frames
  | _ => []

/-- One call of a delivery buffer. -/
def step (d : DeliveryBuffer) : Call → DeliveryBuffer × List Frame
  | .push σ now frames => d.push σ now frames
  | .tick σ now => d.tick σ now
  | .reload gapTimeout maxPending => (d.reload gapTimeout maxPending, [])

/-- The search of a tick for the lowest pending number. -/
def lowest (d : DeliveryBuffer) (σ : IterOrder UInt32) : UInt32 :=
  (σ.visit d.pending.keys).foldl (fun lo seq => if lo = 0 || seqBefore seq lo then seq else lo) 0

/-- One frame of a push on its own. -/
def pushOne (σ : IterOrder UInt32) (now : Time) (d : DeliveryBuffer) (f : Frame) :
    DeliveryBuffer × List Frame := pushFrame σ now (d, []) f

variable {d : DeliveryBuffer} {f : Frame}

theorem seqBefore_self (a : UInt32) : seqBefore a a = false := by
  rw [seqBefore, UInt32.sub_self]
  rfl

/-! ### Draining -/

/-- **The induction rule for draining**: the number expected waits, and is passed. -/
theorem drain_induct {I : DeliveryBuffer → List Frame → Prop}
    (hpass : ∀ d out f, I d out → d.pending.lookup d.next = some f →
      I { d with pending := d.pending.erase d.next, next := d.next + 1 } (out ++ [f]))
    (fuel : ℕ) {o : List Frame} (h : I d o) : I (drain fuel d o).1 (drain fuel d o).2 := by
  induction fuel generalizing d o with
  | zero => exact h
  | succ fuel ih =>
    rw [drain]
    split
    · exact h
    · next f hf => exact ih (hpass d o f h hf)

theorem drain_missing {fuel : ℕ} (hfuel : d.pending.size ≤ fuel) (out : List Frame) :
    (drain fuel d out).1.next ∉ (drain fuel d out).1.pending := by
  induction fuel generalizing d out with
  | zero =>
    change d.next ∉ d.pending
    rw [AList.size_eq_zero.mp (Nat.le_zero.mp hfuel)]
    exact AList.notMem_empty _
  | succ fuel ih =>
    rw [drain]
    split
    · next hnone => exact AList.lookup_eq_none.mp hnone
    · next f hf =>
      have hsize := AList.size_erase_of_mem (AList.mem_of_lookup hf)
      refine ih ?_ _
      change (d.pending.erase d.next).size ≤ fuel
      omega

theorem drain_out (fuel : ℕ) (d : DeliveryBuffer) (out : List Frame) :
    drain fuel d out = ((drain fuel d []).1, out ++ (drain fuel d []).2) := by
  induction fuel generalizing d out with
  | zero => simp [drain]
  | succ fuel ih =>
    rw [drain, drain]
    cases d.pending.lookup d.next with
    | none => simp
    | some f =>
      dsimp only
      rw [ih, ih _ ([] ++ [f])]
      simp

theorem drainContiguous_out (d : DeliveryBuffer) (out : List Frame) :
    d.drainContiguous out = ((d.drainContiguous []).1, out ++ (d.drainContiguous []).2) := by
  rw [drainContiguous, drain_out, drainContiguous]

theorem drainContiguous_fst (d : DeliveryBuffer) (out : List Frame) :
    (d.drainContiguous out).1 = { (drain d.pending.size d out).1 with
      gapSince := if (drain d.pending.size d out).1.pending.size = 0 then none
        else (drain d.pending.size d out).1.gapSince } := by
  rw [drainContiguous]
  dsimp only
  split <;> rfl

/-! ### One frame at a time -/

theorem push_next (hempty : d.pending = ∅) (hnext : f.seq = d.next) (σ : IterOrder UInt32)
    (now : Time) : d.push σ now [f] = ({ d with next := d.next + 1, gapSince := none }, [f]) := by
  show pushFrame σ now (d, []) f = _
  rw [pushFrame, hnext, seqBefore_self]
  simp [drainContiguous, hempty, AList.size, drain]

/-- What waits after a frame was held: the frame, and of what waited before at least no more. -/
theorem hold_spec (d : DeliveryBuffer) (σ : IterOrder UInt32) (now : Time) (f : Frame) :
    ∃ pending drops, d.hold σ now f = { d with
        pending := pending, drops := drops
        gapSince := if d.gapSince.isNone then some now else d.gapSince } ∧
      f.seq ∈ pending ∧
      ∀ k g, pending.lookup k = some g → k = f.seq ∧ g = f ∨ d.pending.lookup k = some g := by
  have hset : ∀ pending : GoMap UInt32 Frame,
      (∀ k g, pending.lookup k = some g → d.pending.lookup k = some g) →
      f.seq ∈ pending.set f.seq f ∧ ∀ k g, (pending.set f.seq f).lookup k = some g →
        k = f.seq ∧ g = f ∨ d.pending.lookup k = some g := by
    refine fun pending hkept => ⟨AList.mem_set.mpr (.inl rfl), fun k g hk => ?_⟩
    rw [AList.lookup_set] at hk
    split at hk
    · next heq => exact .inl ⟨heq, (Option.some.inj hk).symm⟩
    · exact .inr (hkept k g hk)
  rw [hold, store]
  split
  · next hdup => exact ⟨_, _, rfl, AList.lookup_isSome.mp hdup, fun _ _ => .inr⟩
  · rw [makeRoom]
    split
    · exact ⟨_, _, rfl, hset _ fun _ _ => AList.lookup_of_erase⟩
    · exact ⟨_, _, rfl, hset _ fun _ _ => id⟩

theorem pushFrame_eq (σ : IterOrder UInt32) (now : Time) (d : DeliveryBuffer) (out : List Frame)
    (f : Frame) :
    pushFrame σ now (d, out) f = ((pushOne σ now d f).1, out ++ (pushOne σ now d f).2) := by
  rw [pushOne, pushFrame, pushFrame]
  split_ifs
  · simp
  · dsimp only
    rw [drainContiguous_out, drainContiguous_out _ ([] ++ [f])]
    simp
  · simp

/-- **A push is a run over its frames.** -/
theorem push_eq_run (d : DeliveryBuffer) (σ : IterOrder UInt32) (now : Time) (frames : List Frame) :
    d.push σ now frames =
      (Run.exec (pushOne σ now) d frames, (Run.outputs (pushOne σ now) d frames).flatten) := by
  have hfold : ∀ (d : DeliveryBuffer) (out : List Frame),
      frames.foldl (pushFrame σ now) (d, out) =
        (Run.exec (pushOne σ now) d frames,
          out ++ (Run.outputs (pushOne σ now) d frames).flatten) := by
    induction frames with
    | nil => simp
    | cons f frames ih =>
      intro d out
      rw [List.foldl_cons, pushFrame_eq, ih]
      simp
  exact hfold d []

/-- **The induction rule for the frames of a push.** -/
theorem push_induct {I : DeliveryBuffer → List Frame → Prop} {P : Frame → Prop}
    {σ : IterOrder UInt32} {now : Time} (hstep : ∀ d out f, I d out → P f →
      I (pushOne σ now d f).1 (out ++ (pushOne σ now d f).2)) (h : I d [])
    {frames : List Frame} (hframes : ∀ f ∈ frames, P f) :
    I (d.push σ now frames).1 (d.push σ now frames).2 := by
  rw [push_eq_run, ← List.nil_append (List.flatten _)]
  exact Run.exec_induct_outputs hstep h (Run.along_of_forall _ hframes d)

end DeliveryBuffer

end FlexBraid
