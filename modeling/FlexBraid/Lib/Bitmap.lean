import Mathlib.Data.List.Basic
import Mathlib.Tactic

/-!
# Bitmaps stored in 64-bit words

A bitmap is a list of 64-bit words; bit `i` is bit `i % 64` of word `i / 64`.
Marking a bit and shifting the whole bitmap towards bit zero are done word by
word; the lemmas say what they do to single bits.

## Main results

* `getBit_mark` — marking sets one bit and leaves the others.
* `getBit_shiftDown` — bit `i` of the shifted bitmap is bit `i + n` of the old one.
-/

namespace Bitmap

/-- Bit `i` of a bitmap; bits past its end are clear. -/
def getBit (words : List (BitVec 64)) (i : ℕ) : Bool :=
  (words.getD (i / 64) 0).getLsbD (i % 64)

/-- Set bit `i` of a bitmap. -/
def mark (words : List (BitVec 64)) (i : ℕ) : List (BitVec 64) :=
  words.set (i / 64) (words.getD (i / 64) 0 ||| (1#64 <<< (i % 64)))

/-- Drop the lowest `n` bits: word `i` of the result is assembled from the words
`i + n / 64` and `i + n / 64 + 1`. -/
def shiftDown (words : List (BitVec 64)) (n : ℕ) : List (BitVec 64) :=
  if words.length ≤ n / 64 then
    words.map fun _ => 0
  else
    (List.range words.length).map fun i =>
      if i + n / 64 < words.length then
        (words.getD (i + n / 64) 0 >>> (n % 64)) |||
          (if n % 64 ≠ 0 ∧ i + n / 64 + 1 < words.length then
            words.getD (i + n / 64 + 1) 0 <<< (64 - n % 64)
          else 0)
      else 0

@[simp] theorem length_mark (words : List (BitVec 64)) (i : ℕ) :
    (mark words i).length = words.length := by
  rw [mark, List.length_set]

@[simp] theorem length_shiftDown (words : List (BitVec 64)) (n : ℕ) :
    (shiftDown words n).length = words.length := by
  unfold shiftDown
  split <;> simp

variable {words : List (BitVec 64)} {j : ℕ}

theorem getD_of_length_le (h : words.length ≤ j) : words.getD j 0 = 0 := by
  rw [List.getD_eq_getElem?_getD, List.getElem?_eq_none h, Option.getD_none]

theorem getBit_eq_false_of_length_le {i : ℕ} (h : 64 * words.length ≤ i) :
    getBit words i = false := by
  have hdiv : words.length ≤ i / 64 := by omega
  rw [getBit, getD_of_length_le hdiv]
  simp

theorem getBit_replicate (n i : ℕ) : getBit (List.replicate n 0) i = false := by
  rw [getBit, List.getD_eq_getElem?_getD, List.getElem?_replicate, apply_ite (Option.getD · 0),
    Option.getD_some, Option.getD_none, ite_self]
  simp

theorem getLsbD_one_shiftLeft {r : ℕ} (hr : r < 64) (hj : j < 64) :
    (1#64 <<< j).getLsbD r = decide (r = j) := by
  rw [BitVec.getLsbD_shiftLeft, BitVec.getLsbD_one]
  by_cases h : r = j
  · subst h
    simp [hr]
  · rcases Nat.lt_or_ge r j with hlt | hge
    · simp [h, hlt]
    · have : ¬ r - j = 0 := by omega
      simp [h, this]

theorem and_ne_zero_iff {w : BitVec 64} (hj : j < 64) :
    w &&& (1#64 <<< j) ≠ 0 ↔ w.getLsbD j = true := by
  constructor
  · intro h
    by_contra hbit
    refine h (BitVec.eq_of_getLsbD_eq fun r hr => ?_)
    rw [BitVec.getLsbD_and, getLsbD_one_shiftLeft hr hj]
    by_cases hrj : r = j
    · subst hrj
      simp [hbit]
    · simp [hrj]
  · intro h h0
    have hj0 := congrArg (fun v => BitVec.getLsbD v j) h0
    simp only [BitVec.getLsbD_and, getLsbD_one_shiftLeft hj hj, h] at hj0
    simp at hj0

/-- Marking sets one bit and leaves the others. -/
theorem getBit_mark {i : ℕ} (hi : i < 64 * words.length) (j : ℕ) :
    getBit (mark words i) j = (decide (j = i) || getBit words j) := by
  have hlen : i / 64 < words.length := by omega
  have hr : j % 64 < 64 := Nat.mod_lt _ (by decide)
  unfold getBit mark
  by_cases hw : j / 64 = i / 64
  · rw [hw, List.getD_eq_getElem?_getD, List.getElem?_set_self hlen, Option.getD_some,
      BitVec.getLsbD_or, getLsbD_one_shiftLeft hr (Nat.mod_lt _ (by decide)), Bool.or_comm]
    congr 1
    rw [decide_eq_decide]
    omega
  · have hji : ¬ j = i := fun h => hw (by rw [h])
    rw [List.getD_eq_getElem?_getD, List.getElem?_set_ne (Ne.symm hw)]
    simp [hji, List.getD_eq_getElem?_getD]

/-- Bit `r` of the word assembled from two neighbours is bit `r + b` of the two
words put end to end. -/
theorem getLsbD_assemble (lo hi : BitVec 64) {b r : ℕ} (hb : b < 64) (hr : r < 64) :
    ((lo >>> b) ||| (if b ≠ 0 then hi <<< (64 - b) else 0)).getLsbD r =
      if r + b < 64 then lo.getLsbD (r + b) else hi.getLsbD (r + b - 64) := by
  rw [BitVec.getLsbD_or, BitVec.getLsbD_ushiftRight]
  by_cases h : r + b < 64
  · rw [if_pos h, Nat.add_comm b r]
    by_cases hb0 : b = 0
    · simp [hb0]
    · have : r < 64 - b := by omega
      simp [hb0, BitVec.getLsbD_shiftLeft, this]
  · have hb0 : b ≠ 0 := by omega
    have hlo : lo.getLsbD (b + r) = false := BitVec.getLsbD_of_ge _ _ (by omega)
    have hge : ¬ r < 64 - b := by omega
    have hsub : r - (64 - b) = r + b - 64 := by omega
    rw [if_neg h, if_pos hb0, hlo, BitVec.getLsbD_shiftLeft]
    simp [hr, hge, hsub]

theorem getD_shiftDown (hj : j < words.length) (n : ℕ) :
    (shiftDown words n).getD j 0 = (words.getD (j + n / 64) 0 >>> (n % 64)) |||
      (if n % 64 ≠ 0 then words.getD (j + n / 64 + 1) 0 <<< (64 - n % 64) else 0) := by
  rw [shiftDown]
  split
  · rw [getD_of_length_le (j := j + n / 64) (by omega),
      getD_of_length_le (j := j + n / 64 + 1) (by omega)]
    simp [List.getD_eq_getElem?_getD, hj]
  · rw [List.getD_eq_getElem?_getD, List.getElem?_map, List.getElem?_range hj, Option.map_some,
      Option.getD_some]
    by_cases hlast : j + n / 64 + 1 < words.length
    · simp [hlast, show j + n / 64 < words.length by omega]
    · rw [getD_of_length_le (j := j + n / 64 + 1) (by omega)]
      split
      · simp [hlast]
      · rw [getD_of_length_le (j := j + n / 64) (by omega)]
        simp

/-- Bit `i` of the shifted bitmap is bit `i + n` of the old one. -/
theorem getBit_shiftDown (words : List (BitVec 64)) (n i : ℕ) :
    getBit (shiftDown words n) i = getBit words (i + n) := by
  by_cases hi : i / 64 < words.length
  · rw [getBit, getD_shiftDown hi, getLsbD_assemble _ _ (Nat.mod_lt _ (by decide))
      (Nat.mod_lt _ (by decide)), getBit]
    by_cases h : i % 64 + n % 64 < 64
    · have hd : (i + n) / 64 = i / 64 + n / 64 := by omega
      have hm : (i + n) % 64 = i % 64 + n % 64 := by omega
      rw [if_pos h, hd, hm]
    · have hd : (i + n) / 64 = i / 64 + n / 64 + 1 := by omega
      have hm : (i + n) % 64 = i % 64 + n % 64 - 64 := by omega
      rw [if_neg h, hd, hm]
  · rw [getBit_eq_false_of_length_le (by rw [length_shiftDown]; omega),
      getBit_eq_false_of_length_le (by omega)]

end Bitmap
