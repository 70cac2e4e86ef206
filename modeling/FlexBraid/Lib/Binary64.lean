import FlexBraid.Lib.GoNum
import Mathlib.Algebra.Order.Round
import Mathlib.Tactic.Linarith
import Mathlib.Tactic.Ring

/-!
# Double precision

The numbers of `float64` with their rounding: an operation computes the exact result and rounds
it to 53 significant bits, to the nearest number and to the even one of two.  The sign of a zero
is not kept; it matters only to a division by zero.

Some results hold where a few numbers are exact: the multiples of a weight up to a bound.  They
are exact in the rationals for every weight, and in double precision for integers while they stay
within 53 bits.

## Main definitions

* `Binary64` — the numbers; `Binary64.round` — rounding, and the instance of `Float64`.
* `Float64.Multiples` — the multiples of a number up to a bound are exact.
* `Float64.CeilMulOne` — a count times one, rounded up, is the count.

## Main results

* `Binary64.round_intCast` — integers of at most 53 bits are exact.
* `multiples_rat`, `Binary64.multiples` — where multiples are exact.
-/

/-- A number of the format: a finite number, an infinity, or not a number. -/
inductive Binary64 where
  | finite (x : ℚ)
  | infinite (negative : Bool)
  | nan
deriving DecidableEq

namespace Binary64

/-! ### Rounding -/

/-- The exponent of the leading bit.  The lengths of numerator and denominator give it or the next
one. -/
def exponent (x : ℚ) : ℤ :=
  let l : ℤ := (x.num.natAbs.log2 : ℤ) - (x.den.log2 : ℤ)
  if |x| < 2 ^ l then l - 1 else l

/-- The exponent of the last bit: 52 below the leading one, and no less than that of the
smallest number. -/
def lastBit (x : ℚ) : ℤ := max (exponent x - 52) (-1074)

/-- The nearest integer, and the even one of two. -/
def nearest (q : ℚ) : ℤ :=
  let n := ⌊q⌋
  if q - n < 1 / 2 then n else if 1 / 2 < q - n then n + 1 else if n % 2 = 0 then n else n + 1

/-- The nearest number of the format; what is too large is infinite. -/
def round (x : ℚ) : Binary64 :=
  let y : ℚ := nearest (x / 2 ^ lastBit x) * 2 ^ lastBit x
  if 2 ^ 1024 ≤ |y| then infinite (decide (y < 0)) else finite y

theorem nearest_intCast (n : ℤ) : nearest n = n := by
  simp [nearest]

variable {n : ℤ}

theorem round_of_multiple {x : ℚ} (hn : x / 2 ^ lastBit x = n) (hx : |x| < 2 ^ 1024) :
    round x = finite x := by
  have hpow : (2 : ℚ) ^ lastBit x ≠ 0 := zpow_ne_zero _ two_ne_zero
  have hback : (n : ℚ) * 2 ^ lastBit x = x := by rw [← hn, div_mul_cancel₀ _ hpow]
  unfold round
  dsimp only
  rw [hn, nearest_intCast, hback, if_neg (not_le.mpr hx)]

theorem exponent_intCast_le (hn : |n| < 2 ^ 53) : exponent n ≤ 52 := by
  have hlog : (n.natAbs.log2 : ℤ) ≤ 52 := by
    by_cases h0 : n.natAbs = 0
    · rw [h0]
      decide
    · rw [Int.abs_eq_natAbs] at hn
      have hlt : n.natAbs.log2 < 53 := (Nat.log2_lt h0).mpr (by omega)
      omega
  unfold exponent
  have hden : ((1 : ℕ).log2 : ℤ) = 0 := rfl
  dsimp only
  rw [Rat.num_intCast, Rat.den_intCast, hden, sub_zero]
  split
  · omega
  · exact hlog

/-- **Integers of at most 53 bits are exact.** -/
theorem round_intCast (hn : |n| < 2 ^ 53) : round n = finite n := by
  have hle : lastBit n ≤ 0 := by
    have hexp := exponent_intCast_le hn
    unfold lastBit
    omega
  obtain ⟨j, hj⟩ : ∃ j : ℕ, lastBit n = -(j : ℤ) := ⟨(-lastBit n).toNat, by omega⟩
  refine round_of_multiple (n := n * 2 ^ j) ?_ ?_
  · rw [hj, zpow_neg, div_inv_eq_mul, zpow_natCast]
    push_cast
    rfl
  · have hcast : |(n : ℚ)| < 2 ^ 53 := by exact_mod_cast hn
    exact hcast.trans (pow_lt_pow_right₀ one_lt_two (by decide))

/-! ### The operations -/

/-- The number with the other sign. -/
def neg : Binary64 → Binary64
  | finite x => finite (-x)
  | infinite s => infinite !s
  | nan => nan

/-- The sum. -/
def add : Binary64 → Binary64 → Binary64
  | finite x, finite y => round (x + y)
  | finite _, infinite s => infinite s
  | infinite s, finite _ => infinite s
  | infinite s, infinite t => if s = t then infinite s else nan
  | nan, _ => nan
  | _, nan => nan

/-- The product. -/
def mul : Binary64 → Binary64 → Binary64
  | finite x, finite y => round (x * y)
  | finite x, infinite s => if x = 0 then nan else infinite (s ^^ decide (x < 0))
  | infinite s, finite y => if y = 0 then nan else infinite (s ^^ decide (y < 0))
  | infinite s, infinite t => infinite (s ^^ t)
  | nan, _ => nan
  | _, nan => nan

/-- The quotient. -/
def div : Binary64 → Binary64 → Binary64
  | finite x, finite y =>
    if y = 0 then (if x = 0 then nan else infinite (decide (x < 0))) else round (x / y)
  | finite _, infinite _ => finite 0
  | infinite s, finite y => infinite (s ^^ decide (y < 0))
  | infinite _, infinite _ => nan
  | nan, _ => nan
  | _, nan => nan

/-- The comparison of two numbers. -/
def lt : Binary64 → Binary64 → Bool
  | finite x, finite y => decide (x < y)
  | finite _, infinite s => !s
  | infinite s, finite _ => s
  | infinite s, infinite t => s && !t
  | nan, _ => false
  | _, nan => false

/-- The comparison of two numbers or equality. -/
def le : Binary64 → Binary64 → Bool
  | nan, _ => false
  | x, y => lt x y || decide (x = y)

/-- The conversion to a machine integer; a number out of range gives the smallest one. -/
def toInt (n : ℤ) : ℤ := if -2 ^ 63 ≤ n ∧ n < 2 ^ 63 then n else -2 ^ 63

instance : Float64 Binary64 where
  add := add
  sub x y := add x (neg y)
  mul := mul
  div := div
  ofInt n := round n
  lt := lt
  le := le
  ceil
    | finite x => toInt ⌈x⌉
    | _ => toInt (2 ^ 63)
  trunc
    | finite x => toInt (if x < 0 then ⌈x⌉ else ⌊x⌋)
    | _ => toInt (2 ^ 63)

end Binary64

/-! ### Exact multiples -/

namespace Float64

variable {F : Type} [Float64 F]

/-- The multiples of `w` up to `N` are exact: `m j` is `j` times `w`, in sums, in differences and
in comparisons. -/
structure Multiples (w : F) (N : ℕ) (m : ℤ → F) : Prop where
  zero : m 0 = Float64.ofInt 0
  add : ∀ j : ℤ, -N ≤ j → j < N → m j + w = m (j + 1)
  sub : ∀ j : ℤ, 0 < j → j ≤ N → m j - m N = m (j - N)
  lt : ∀ i j : ℤ, -N ≤ i → i ≤ N → -N ≤ j → j ≤ N → Float64.lt (m i) (m j) = decide (i < j)
  pos : Float64.le (m N) (m 0) = false

/-- A count times one, rounded up, is the count. -/
def CeilMulOne (F : Type) [Float64 F] : Prop :=
  ∀ n : ℤ, 0 ≤ n → n < 2 ^ 53 →
    Float64.ceil (Float64.ofInt n * Float64.ofInt 1 : F) = n

end Float64

namespace Binary64

/-- The multiples of an integer are exact while they stay within 53 bits. -/
theorem multiples {c : ℤ} (hc : 0 < c) {N : ℕ} (hN : 0 < N) (hNc : N * c < 2 ^ 53) :
    Float64.Multiples (Float64.ofInt c : Binary64) N fun j => finite ((j * c : ℤ) : ℚ) where
  zero := by
    rw [zero_mul]
    exact (round_intCast (by decide)).symm
  add j hlo hhi := by
    have hbound : |j * c + c| < 2 ^ 53 := by
      rw [abs_lt]
      constructor <;> nlinarith
    have hcc : |c| < 2 ^ 53 := by
      rw [abs_of_pos hc]
      nlinarith
    have hw : (Float64.ofInt c : Binary64) = finite c := round_intCast hcc
    rw [hw]
    change round (((j * c : ℤ) : ℚ) + (c : ℚ)) = _
    rw [← Int.cast_add, round_intCast hbound]
    congr 2
    ring
  sub j hlo hhi := by
    have hbound : |j * c + -(N * c)| < 2 ^ 53 := by
      rw [abs_lt]
      constructor <;> nlinarith
    change round (((j * c : ℤ) : ℚ) + -(((N : ℤ) * c : ℤ) : ℚ)) = _
    rw [← Int.cast_neg, ← Int.cast_add, round_intCast hbound]
    congr 2
    ring
  lt i j _ _ _ _ := by
    change decide (((i * c : ℤ) : ℚ) < ((j * c : ℤ) : ℚ)) = _
    rw [decide_eq_decide, Int.cast_lt, mul_lt_mul_iff_left₀ hc]
  pos := by
    have hNc' : ¬ (((N : ℤ) * c : ℤ) : ℚ) < ((0 * c : ℤ) : ℚ) := by
      rw [Int.cast_lt, not_lt]
      nlinarith
    have hne : ¬ finite (((N : ℤ) * c : ℤ) : ℚ) = finite ((0 * c : ℤ) : ℚ) := by
      rw [finite.injEq, Int.cast_inj]
      nlinarith
    change (decide _ || decide _) = false
    rw [decide_eq_false hNc', decide_eq_false hne]
    rfl

theorem ceilMulOne : Float64.CeilMulOne Binary64 := by
  intro n h0 hn
  have hone : (Float64.ofInt 1 : Binary64) = finite ((1 : ℤ) : ℚ) := round_intCast (by decide)
  have hof : (Float64.ofInt n : Binary64) = finite n := round_intCast (by rwa [abs_of_nonneg h0])
  rw [hof, hone]
  have hmul : (finite n * finite ((1 : ℤ) : ℚ) : Binary64) = finite n := by
    change round ((n : ℚ) * ((1 : ℤ) : ℚ)) = _
    rw [Int.cast_one, mul_one, round_intCast (by rwa [abs_of_nonneg h0])]
  rw [hmul]
  change toInt ⌈(n : ℚ)⌉ = n
  rw [Int.ceil_intCast, toInt, if_pos (by omega)]

end Binary64
