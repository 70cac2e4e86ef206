import FlexBraid.Lib.Bitmap

/-!
# The anti-replay window

A sliding bitmap over the sequence numbers: it accepts a number once and rejects
it, and everything older than the window, from then on.  The window slides
forward when a number ahead of it arrives.

## Main definitions

* `ReplayWindow` — the window; its fields say that the bitmap covers it and that
  no bit past it is set.
* `ReplayWindow.checkAndMark` — accept or reject one number.
* `ReplayWindow.seen` — whether a number would be rejected.
* `ReplayWindow.Accepted` — what a window has accepted.

## Main results

* `seen_checkAndMark_self`, `seen_checkAndMark` — **once rejected, always
  rejected**: an accepted number is seen from then on, and nothing seen is ever
  forgotten.
-/

namespace FlexBraid

def defaultReplayWindow : UInt32 := 4096

/-- A sliding anti-replay window.  Bit `i` of `bits` stands for the number
`base + i`. -/
structure ReplayWindow where
  window : UInt32
  /-- The number bit zero stands for. -/
  base : UInt32
  bits : List (BitVec 64)
  window_pos : 0 < window.toNat
  covers : window.toNat ≤ 64 * bits.length
  clean : ∀ i, window.toNat ≤ i → Bitmap.getBit bits i = false
deriving DecidableEq

namespace ReplayWindow

/-- A window of the given size; zero stands for the default. -/
def new (size : UInt32) : ReplayWindow where
  window := if size = 0 then defaultReplayWindow else size
  base := 0
  bits := List.replicate (((if size = 0 then defaultReplayWindow else size).toNat + 63) / 64) 0
  window_pos := by
    split
    · decide
    · next h =>
      have hne : size.toNat ≠ 0 := fun h0 => h (UInt32.toNat_inj.mp h0)
      omega
  covers := by
    rw [List.length_replicate]
    omega
  clean i _ := Bitmap.getBit_replicate _ i

/-- Test and set one bit inside the window. -/
def markBit (w : ReplayWindow) (bit : ℕ) (h : bit < w.window.toNat) : ReplayWindow × Bool :=
  if w.bits.getD (bit / 64) 0 &&& (1#64 <<< (bit % 64)) ≠ 0 then
    (w, false)
  else
    ({ w with
        bits := Bitmap.mark w.bits bit
        covers := by rw [Bitmap.length_mark]; exact w.covers
        clean := by
          intro i hi
          have hne : ¬ i = bit := by omega
          have hcov := w.covers
          rw [Bitmap.getBit_mark (by omega), w.clean i hi]
          simp [hne] }, true)

/-- Slide the window forward so that `seq` is its last number. -/
def slide (w : ReplayWindow) (seq : UInt32) : ReplayWindow :=
  { w with
    base := seq - w.window + 1
    bits := Bitmap.shiftDown w.bits (seq.toNat - w.base.toNat - w.window.toNat + 1)
    covers := by rw [Bitmap.length_shiftDown]; exact w.covers
    clean := by
      intro i hi
      rw [Bitmap.getBit_shiftDown]
      exact w.clean _ (by omega) }

/-- Report whether `seq` is new and mark it seen. -/
def checkAndMark (w : ReplayWindow) (seq : UInt32) : ReplayWindow × Bool :=
  if seq < w.base then
    (w, false)
  else if h : seq.toNat - w.base.toNat < w.window.toNat then
    w.markBit (seq.toNat - w.base.toNat) h
  else
    let slid := w.slide seq
    slid.markBit (slid.window.toNat - 1) (Nat.sub_lt slid.window_pos Nat.one_pos)

/-- Whether a number would be rejected: it is older than the window, or its bit
is set. -/
def seen (w : ReplayWindow) (seq : UInt32) : Bool :=
  decide (seq < w.base) || Bitmap.getBit w.bits (seq.toNat - w.base.toNat)

/-! ### One bit -/

theorem markBit_eq (w : ReplayWindow) (bit : ℕ) (h : bit < w.window.toNat) :
    (w.markBit bit h).2 = !Bitmap.getBit w.bits bit ∧
      (Bitmap.getBit w.bits bit = true → (w.markBit bit h).1 = w) ∧
      (w.markBit bit h).1.base = w.base ∧
      ∀ i, Bitmap.getBit (w.markBit bit h).1.bits i = (decide (i = bit) || Bitmap.getBit w.bits i) := by
  have hiff := Bitmap.and_ne_zero_iff (w := w.bits.getD (bit / 64) 0)
    (Nat.mod_lt bit (by decide : 0 < 64))
  have hcov := w.covers
  unfold markBit
  by_cases hbit : Bitmap.getBit w.bits bit = true
  · rw [if_pos (hiff.mpr hbit)]
    refine ⟨by simp [hbit], fun _ => rfl, rfl, fun i => ?_⟩
    by_cases hi : i = bit
    · subst hi
      simp [hbit]
    · simp [hi]
  · rw [if_neg (fun h => hbit (hiff.mp h))]
    refine ⟨by simp [hbit], fun h => absurd h hbit, rfl, fun i => ?_⟩
    exact Bitmap.getBit_mark (by omega) i

/-! ### Accepting and rejecting -/

@[simp] theorem slide_window (w : ReplayWindow) (seq : UInt32) :
    (w.slide seq).window = w.window := rfl

variable {seq : UInt32}

theorem slide_base_toNat {w : ReplayWindow} (hge : ¬ seq < w.base)
    (hout : ¬ seq.toNat - w.base.toNat < w.window.toNat) :
    (w.slide seq).base.toNat = seq.toNat - w.window.toNat + 1 := by
  have hpos := w.window_pos
  have hs := seq.toNat_lt
  rw [UInt32.lt_iff_toNat_lt] at hge
  have hsub : (seq - w.window).toNat = seq.toNat - w.window.toNat := by
    apply UInt32.toNat_sub_of_le
    rw [UInt32.le_iff_toNat_le]
    omega
  change (seq - w.window + 1).toNat = _
  rw [UInt32.toNat_add, hsub]
  simp only [UInt32.reduceToNat]
  omega

theorem getBit_slide_last (w : ReplayWindow) (seq : UInt32) :
    Bitmap.getBit (w.slide seq).bits ((w.slide seq).window.toNat - 1) = false := by
  have hpos := w.window_pos
  change Bitmap.getBit (Bitmap.shiftDown _ _) (w.window.toNat - 1) = false
  rw [Bitmap.getBit_shiftDown]
  exact w.clean _ (by omega)

/-- **A number is accepted exactly when it was not seen.** -/
theorem checkAndMark_snd (w : ReplayWindow) (seq : UInt32) :
    (w.checkAndMark seq).2 = !w.seen seq := by
  unfold checkAndMark seen
  by_cases hlt : seq < w.base
  · simp [hlt]
  · rw [if_neg hlt]
    by_cases hin : seq.toNat - w.base.toNat < w.window.toNat
    · rw [dif_pos hin, (w.markBit_eq _ hin).1]
      simp [hlt]
    · rw [dif_neg hin, ((w.slide seq).markBit_eq _ _).1, getBit_slide_last,
        w.clean _ (by omega)]
      simp [hlt]

/-- **A rejected call changes nothing.** -/
theorem checkAndMark_of_seen {w : ReplayWindow} (h : w.seen seq = true) :
    w.checkAndMark seq = (w, false) := by
  have hsnd : (w.checkAndMark seq).2 = false := by rw [checkAndMark_snd, h]; rfl
  refine Prod.ext ?_ hsnd
  unfold checkAndMark
  by_cases hlt : seq < w.base
  · rw [if_pos hlt]
  · rw [if_neg hlt]
    have hbit : Bitmap.getBit w.bits (seq.toNat - w.base.toNat) = true := by
      simpa [seen, hlt] using h
    by_cases hin : seq.toNat - w.base.toNat < w.window.toNat
    · rw [dif_pos hin]
      exact (w.markBit_eq _ hin).2.1 hbit
    · rw [w.clean _ (by omega)] at hbit
      cases hbit

/-- **What a call does** with a number that is not older than the window: the window moves up to
it unless it contains it, and the number is marked. -/
theorem checkAndMark_marks {w : ReplayWindow} (hge : ¬ seq < w.base) :
    (w.checkAndMark seq).1.base.toNat = max w.base.toNat (seq.toNat + 1 - w.window.toNat) ∧
      ∀ q, ¬ q < (w.checkAndMark seq).1.base →
        Bitmap.getBit (w.checkAndMark seq).1.bits (q.toNat - (w.checkAndMark seq).1.base.toNat) =
          (decide (q = seq) || Bitmap.getBit w.bits (q.toNat - w.base.toNat)) := by
  have hpos := w.window_pos
  have hseq := hge
  rw [UInt32.lt_iff_toNat_lt] at hseq
  unfold checkAndMark
  rw [if_neg hge]
  by_cases hin : seq.toNat - w.base.toNat < w.window.toNat
  · obtain ⟨-, -, hbase, hbits⟩ := w.markBit_eq _ hin
    rw [dif_pos hin, hbase]
    refine ⟨by omega, fun q hq => ?_⟩
    rw [UInt32.lt_iff_toNat_lt] at hq
    rw [hbits]
    congr 1
    rw [decide_eq_decide, ← UInt32.toNat_inj]
    omega
  · -- the window slides, and the bits move along
    obtain ⟨-, -, hbase, hbits⟩ := (w.slide seq).markBit_eq
      ((w.slide seq).window.toNat - 1) (Nat.sub_lt w.window_pos Nat.one_pos)
    have hslid := slide_base_toNat hge hin
    rw [dif_neg hin, hbase]
    refine ⟨by omega, fun q hq => ?_⟩
    rw [UInt32.lt_iff_toNat_lt] at hq
    rw [hbits, slide_window]
    congr 1
    · rw [decide_eq_decide, ← UInt32.toNat_inj]
      omega
    · change Bitmap.getBit (Bitmap.shiftDown _ _) _ = _
      rw [Bitmap.getBit_shiftDown]
      congr 1
      omega

theorem checkAndMark_of_lt {w : ReplayWindow} (h : seq < w.base) :
    w.checkAndMark seq = (w, false) := if_pos h

/-- An accepted number is seen from then on. -/
theorem seen_checkAndMark_self (w : ReplayWindow) (seq : UInt32) :
    (w.checkAndMark seq).1.seen seq = true := by
  by_cases hlt : seq < w.base
  · simp [checkAndMark_of_lt hlt, seen, hlt]
  · rw [seen, Bool.or_eq_true, decide_eq_true_eq, or_iff_not_imp_left]
    intro hge
    simp [(checkAndMark_marks hlt).2 seq hge]

/-- **Nothing seen is ever forgotten**: a number that would be rejected still is
after any other number was checked. -/
theorem seen_checkAndMark {w : ReplayWindow} {s : UInt32} (h : w.seen s = true) (seq : UInt32) :
    (w.checkAndMark seq).1.seen s = true := by
  by_cases hlt : seq < w.base
  · rwa [checkAndMark_of_lt hlt]
  · obtain ⟨hbase, hbits⟩ := checkAndMark_marks hlt
    rw [seen, Bool.or_eq_true, decide_eq_true_eq] at h ⊢
    rw [or_iff_not_imp_left]
    intro hge
    -- it was not older than the window before, since the window only moves forward
    have hbit := h.resolve_left fun h0 => hge (by rw [UInt32.lt_iff_toNat_lt] at h0 ⊢; omega)
    rw [hbits s hge, hbit, Bool.or_true]

/-! ### What a window has accepted -/

/-- The window has accepted the numbers of a set: it was moved by one of them or not at
all, the marked numbers are among them, and none of them is ahead of it. -/
structure Accepted (w : ReplayWindow) (A : Set UInt32) : Prop where
  base : w.base = 0 ∨ ∃ q ∈ A, q.toNat + 1 = w.base.toNat + w.window.toNat
  marked : ∀ q, ¬ q < w.base → Bitmap.getBit w.bits (q.toNat - w.base.toNat) = true → q ∈ A
  behind : ∀ q ∈ A, q.toNat < w.base.toNat + w.window.toNat

theorem accepted_new (size : UInt32) : (new size).Accepted ∅ where
  base := .inl rfl
  marked q _ hq := by
    rw [show (new size).bits = List.replicate _ 0 from rfl, Bitmap.getBit_replicate] at hq
    cases hq
  behind _ hq := hq.elim

variable {w : ReplayWindow} {A : Set UInt32}

theorem window_markBit (w : ReplayWindow) (bit : ℕ) (h : bit < w.window.toNat) :
    (w.markBit bit h).1.window = w.window := by
  unfold markBit
  split <;> rfl

@[simp] theorem window_checkAndMark (w : ReplayWindow) (seq : UInt32) :
    (w.checkAndMark seq).1.window = w.window := by
  unfold checkAndMark
  split
  · rfl
  · split
    · exact w.window_markBit _ _
    · exact (w.slide seq).window_markBit _ _

/-- **A number that is rejected without having been accepted is a whole window behind
one that was.** -/
theorem Accepted.of_seen (h : w.Accepted A) (hseen : w.seen seq = true) (hnew : seq ∉ A) :
    ∃ q ∈ A, seq.toNat + w.window.toNat ≤ q.toNat := by
  have hlt : seq < w.base := by
    by_contra hge
    rw [seen, Bool.or_eq_true, decide_eq_true_eq] at hseen
    exact hnew (h.marked seq hge (hseen.resolve_left hge))
  rcases h.base with hzero | ⟨q, hq, hbase⟩
  · rw [hzero] at hlt
    exact absurd hlt (UInt32.not_lt_zero)
  · rw [UInt32.lt_iff_toNat_lt] at hlt
    exact ⟨q, hq, by omega⟩

/-- Accepting one more number. -/
theorem Accepted.insert (h : w.Accepted A) (hnew : w.seen seq = false) :
    (w.checkAndMark seq).1.Accepted (Insert.insert seq A) := by
  rw [seen, Bool.or_eq_false_iff, decide_eq_false_iff_not] at hnew
  obtain ⟨hge, -⟩ := hnew
  have hseq := hge
  rw [UInt32.lt_iff_toNat_lt] at hseq
  have hwindow := w.window_checkAndMark seq
  obtain ⟨hbase, hbits⟩ := checkAndMark_marks hge
  refine ⟨?_, fun q hq hbit => ?_, ?_⟩
  · rcases le_total (seq.toNat + 1 - w.window.toNat) w.base.toNat with hle | hle
    · rw [hwindow, ← UInt32.toNat_inj, hbase, max_eq_left hle]
      refine h.base.imp (congrArg _) fun ⟨q, hq, hq'⟩ => ⟨q, .inr hq, hq'⟩
    · rcases Nat.eq_zero_or_pos (seq.toNat + 1 - w.window.toNat) with hzero | hpos
      · rw [← UInt32.toNat_inj, hbase, max_eq_right hle]
        exact .inl hzero
      · exact .inr ⟨seq, .inl rfl, by rw [hbase, hwindow]; omega⟩
  · rw [hbits q hq, Bool.or_eq_true, decide_eq_true_eq] at hbit
    refine hbit.imp id fun hbit => h.marked q (fun h0 => hq ?_) hbit
    rw [UInt32.lt_iff_toNat_lt] at h0 ⊢
    omega
  · rintro q (rfl | hq)
    · rw [hbase, hwindow]
      omega
    · have hbehind := h.behind q hq
      rw [hbase, hwindow]
      omega

/-- The window has accepted no number above `n`. -/
def AtMost (w : ReplayWindow) (n : ℕ) : Prop := ∃ A, w.Accepted A ∧ ∀ q ∈ A, q.toNat ≤ n

theorem atMost_new (size : UInt32) (n : ℕ) : (new size).AtMost n :=
  ⟨∅, accepted_new size, fun _ hq => hq.elim⟩

theorem AtMost.unseen {n : ℕ} (h : w.AtMost n) (hseq : n < seq.toNat) : w.seen seq = false := by
  obtain ⟨A, haccepted, hle⟩ := h
  by_contra hseen
  rw [Bool.not_eq_false] at hseen
  have hnew : seq ∉ A := fun hmem => absurd (hle seq hmem) (by omega)
  obtain ⟨q, hq, hbehind⟩ := haccepted.of_seen hseen hnew
  have hq := hle q hq
  omega

theorem AtMost.next {n : ℕ} (h : w.AtMost n) (hseq : n < seq.toNat) :
    (w.checkAndMark seq).1.AtMost seq.toNat := by
  have hnew := h.unseen hseq
  obtain ⟨A, haccepted, hle⟩ := h
  refine ⟨_, haccepted.insert hnew, ?_⟩
  rintro q (rfl | hq)
  · exact le_rfl
  · have hq := hle q hq
    omega

end ReplayWindow

end FlexBraid
