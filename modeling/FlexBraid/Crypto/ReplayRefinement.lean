import FlexBraid.Crypto.Replay
import FlexBraid.Lib.Run
import Mathlib.Data.Finset.Lattice.Fold

/-!
# The bitmap refines a set

What the anti-replay window is for is said without a bitmap: remember the numbers that
were accepted, and accept a number that is not among them and not a whole window behind
the largest.  The window of `Crypto.Replay` gives the same answers, over every sequence
of calls.

## Main definitions

* `ReplaySpec.Admits`, `ReplaySpec.step` — the specification, over the set of accepted
  numbers.
* `ReplayWindow.step` — the bitmap as a machine.
* `ReplayWindow.Tracks` — the bitmap stands for a set.
* `ReplayWindow.accepted` — the numbers accepted over a run.

## Main results

* `ReplayWindow.refines_set` — **the bitmap refines the set**.
-/

namespace FlexBraid

/-! ### The specification -/

namespace ReplaySpec

/-- The largest number accepted. -/
def largest (A : Finset UInt32) : ℕ := A.sup UInt32.toNat

/-- A number is admitted when it was not accepted before and is not behind the window
that ends with the largest number accepted. -/
def Admits (window : ℕ) (A : Finset UInt32) (seq : UInt32) : Prop :=
  seq ∉ A ∧ (A = ∅ ∨ max 0 ((largest A : ℤ) - window + 1) ≤ seq.toNat)

instance (window : ℕ) (A : Finset UInt32) (seq : UInt32) : Decidable (Admits window A seq) :=
  inferInstanceAs (Decidable (_ ∧ _))

/-- One call: a number that is admitted is accepted. -/
def step (window : ℕ) (A : Finset UInt32) (seq : UInt32) : Finset UInt32 × List Bool :=
  if Admits window A seq then (insert seq A, [true]) else (A, [false])

end ReplaySpec

/-! ### The abstraction -/

namespace ReplayWindow

/-- One call of the window. -/
def step (w : ReplayWindow) (seq : UInt32) : ReplayWindow × List Bool :=
  ((w.checkAndMark seq).1, [(w.checkAndMark seq).2])

/-- The bitmap of a window of size `window` stands for the set `A`: it has accepted the
numbers of `A`, and it has seen all of them. -/
structure Tracks (window : ℕ) (w : ReplayWindow) (A : Finset UInt32) : Prop where
  size : w.window.toNat = window
  accepted : w.Accepted A
  seen : ∀ q ∈ A, w.seen q = true

variable {w : ReplayWindow} {A : Finset UInt32} {window : ℕ}

theorem tracks_new {size : UInt32} (hsize : 1 ≤ size) : Tracks size.toNat (new size) ∅ where
  size := by
    have hne : size ≠ 0 := by
      rintro rfl
      exact absurd hsize (by decide)
    show (if size = 0 then defaultReplayWindow else size).toNat = _
    rw [if_neg hne]
  accepted := by
    rw [Finset.coe_empty]
    exact accepted_new size
  seen _ hq := absurd hq (Finset.notMem_empty _)

/-- The base of the window is where the window that ends with the largest accepted number
begins. -/
theorem Tracks.lt_base_iff (h : Tracks window w A) (seq : UInt32) :
    seq < w.base ↔ A ≠ ∅ ∧ (seq.toNat : ℤ) < max 0 ((ReplaySpec.largest A : ℤ) - window + 1) := by
  have hsize := h.size
  have hbehind : ReplaySpec.largest A < w.base.toNat + w.window.toNat := by
    rw [ReplaySpec.largest, Finset.sup_lt_iff (by have := w.window_pos; rw [Nat.bot_eq_zero]; omega)]
    exact fun q hq => h.accepted.behind q hq
  rw [UInt32.lt_iff_toNat_lt]
  rcases h.accepted.base with hzero | ⟨q, hq, hbase⟩
  · -- the window was not moved: no number is a whole window behind
    rw [hzero] at hbehind ⊢
    rw [UInt32.toNat_zero] at hbehind ⊢
    constructor
    · intro hlt
      omega
    · rintro ⟨-, hlt⟩
      omega
  · have hle : q.toNat ≤ ReplaySpec.largest A := Finset.le_sup (f := UInt32.toNat) hq
    have hne : A ≠ ∅ := Finset.ne_empty_of_mem hq
    constructor
    · intro hlt
      exact ⟨hne, by omega⟩
    · rintro ⟨-, hlt⟩
      omega

/-- **A number is seen exactly when the specification does not admit it.** -/
theorem Tracks.seen_iff (h : Tracks window w A) (seq : UInt32) :
    w.seen seq = true ↔ ¬ ReplaySpec.Admits window A seq := by
  rw [ReplaySpec.Admits, not_and_or, not_not, not_or, not_le, ← ne_eq, ← h.lt_base_iff]
  constructor
  · intro hseen
    by_cases hlt : seq < w.base
    · exact .inr hlt
    · rw [ReplayWindow.seen, Bool.or_eq_true, decide_eq_true_eq] at hseen
      exact .inl (h.accepted.marked seq hlt (hseen.resolve_left hlt))
  · rintro (hmem | hlt)
    · exact h.seen seq hmem
    · simp [ReplayWindow.seen, hlt]

/-- One call of the window answers as the specification does, and stands for its set
afterwards. -/
theorem Tracks.step (h : Tracks window w A) (seq : UInt32) :
    (w.step seq).2 = (ReplaySpec.step window A seq).2 ∧
      Tracks window (w.step seq).1 (ReplaySpec.step window A seq).1 := by
  have hiff := h.seen_iff seq
  rw [ReplayWindow.step, ReplaySpec.step]
  cases hseen : w.seen seq with
  | true =>
    rw [if_neg (hiff.mp hseen), checkAndMark_of_seen hseen]
    exact ⟨rfl, h⟩
  | false =>
    have hadmits : ReplaySpec.Admits window A seq := by
      by_contra hnot
      rw [hiff.mpr hnot] at hseen
      cases hseen
    rw [if_pos hadmits, checkAndMark_snd, hseen]
    refine ⟨rfl, ⟨?_, ?_, ?_⟩⟩
    · rw [window_checkAndMark]
      exact h.size
    · rw [Finset.coe_insert]
      exact h.accepted.insert hseen
    · intro q hq
      rcases Finset.mem_insert.mp hq with rfl | hq
      · exact w.seen_checkAndMark_self q
      · exact seen_checkAndMark (h.seen q hq) seq

/-! ### Whole runs -/

/-- The numbers of a run that a window accepts, in order. -/
def accepted (w : ReplayWindow) : List UInt32 → List UInt32
  | [] => []
  | seq :: seqs =>
    if (w.checkAndMark seq).2 then seq :: (w.checkAndMark seq).1.accepted seqs
    else (w.checkAndMark seq).1.accepted seqs

theorem not_mem_accepted {seq : UInt32} (h : w.seen seq = true) (seqs : List UInt32) :
    seq ∉ w.accepted seqs := by
  induction seqs generalizing w with
  | nil => exact List.not_mem_nil
  | cons s seqs ih =>
    have hrest := ih (seen_checkAndMark h s)
    rw [accepted]
    split
    · next hnew =>
      rw [List.mem_cons, not_or]
      refine ⟨?_, hrest⟩
      rintro rfl
      rw [checkAndMark_snd, h] at hnew
      cases hnew
    · exact hrest

theorem nodup_accepted (w : ReplayWindow) (seqs : List UInt32) : (w.accepted seqs).Nodup := by
  induction seqs generalizing w with
  | nil => exact List.nodup_nil
  | cons s seqs ih =>
    rw [accepted]
    split
    · exact List.nodup_cons.mpr ⟨not_mem_accepted (w.seen_checkAndMark_self s) seqs, ih _⟩
    · exact ih _

/-- **The bitmap refines the set.**  Over every sequence of calls a fresh window gives the
answers of the specification, no number is accepted twice, and a rejected call changes
nothing. -/
theorem refines_set (size : UInt32) (hsize : 1 ≤ size) (seqs : List UInt32) :
    Run.outputs step (new size) seqs = Run.outputs (ReplaySpec.step size.toNat) ∅ seqs ∧
      ((new size).accepted seqs).Nodup ∧
      ∀ seq, ((Run.exec step (new size) seqs).checkAndMark seq).2 = false →
        ((Run.exec step (new size) seqs).checkAndMark seq).1 = Run.exec step (new size) seqs := by
  refine ⟨?_, nodup_accepted _ seqs, fun seq hfalse => ?_⟩
  · exact Run.outputs_eq_of_sim (fun w A seq (h : Tracks size.toNat w A) => h.step seq)
      (tracks_new hsize) seqs
  · rw [checkAndMark_snd, Bool.not_eq_false'] at hfalse
    rw [checkAndMark_of_seen hfalse]

/-- A window of five numbers slides by one and by more than its size. -/
theorem refines_set_five : Run.outputs step (new 5) [3, 5, 1, 0, 200, 5, 196, 195] =
      [[true], [true], [true], [false], [true], [false], [true], [false]] ∧
    Run.outputs (ReplaySpec.step 5) ∅ [3, 5, 1, 0, 200, 5, 196, 195] =
      [[true], [true], [true], [false], [true], [false], [true], [false]] := by
  have hrun := (refines_set 5 (by decide) [3, 5, 1, 0, 200, 5, 196, 195]).1
  have hbits : Run.outputs step (new 5) [3, 5, 1, 0, 200, 5, 196, 195] =
      [[true], [true], [true], [false], [true], [false], [true], [false]] := by decide
  exact ⟨hbits, hrun.symm.trans hbits⟩

end ReplayWindow

end FlexBraid
