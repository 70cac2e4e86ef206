import Mathlib.Data.Rat.Floor

/-!
# Times, floating-point numbers and errors of Go programs

Instants and durations are integers (nanoseconds).  A `time.Time` that may be the
zero value is an `Option Time`: the zero value lies before every instant a clock
returns.

`float64` is a class of operations without laws.  What is proved over an arbitrary
instance holds for IEEE arithmetic with its rounding, infinities and NaNs; the
rationals are the instance of exact arithmetic.

A function that may fail returns an `Except`, and a call whose error is passed on is a bind.

## Main definitions

* `Time`, `Duration`, `before`, `elapsed` — instants, and the comparisons with a
  time that may be zero.
* `positiveOr` — a setting or its default.
* `Float64` — the operations of `float64`.
* `Float64.CeilMulLe` — the law about scaled counts, where a result needs it.
-/

/-- An instant, in nanoseconds. -/
abbrev Time := ℤ

/-- A span of time, in nanoseconds. -/
abbrev Duration := ℤ

def millisecond : Duration := 1000000

def second : Duration := 1000 * millisecond

def minute : Duration := 60 * second

/-- The Go expression `now.Before(t)`; no instant is before the zero time. -/
def before (now : Time) : Option Time → Bool
  | none => false
  | some t => decide (now < t)

/-- The Go expression `now.Sub(t) >= d`.  The difference to the zero time saturates at the largest
duration. -/
def elapsed (now : Time) (d : Duration) : Option Time → Bool
  | none => true
  | some t => decide (d ≤ now - t)

@[simp] theorem before_some (now t : Time) : before now (some t) = decide (now < t) := rfl

/-- A count or a duration that must be positive, or its default. -/
def positiveOr (x dflt : ℤ) : ℤ := if x ≤ 0 then dflt else x

/-- The operations of `float64`. -/
class Float64 (F : Type) extends Add F, Sub F, Mul F, Div F where
  /-- The conversion of an integer. -/
  ofInt : ℤ → F
  /-- The comparison of two numbers; a comparison with a NaN is false. -/
  lt : F → F → Bool
  /-- The comparison of two numbers or equality. -/
  le : F → F → Bool
  /-- Rounding up, converted to an integer. -/
  ceil : F → ℤ
  /-- Rounding towards zero, converted to an integer. -/
  trunc : F → ℤ

/-- Exact arithmetic. -/
instance : Float64 ℚ where
  ofInt n := n
  lt x y := decide (x < y)
  le x y := decide (x ≤ y)
  ceil x := ⌈x⌉
  trunc x := if x < 0 then ⌈x⌉ else ⌊x⌋

/-- A count that is scaled by at most one and rounded up is no larger.  Rounding keeps this, since
the count itself is a number of the format. -/
def Float64.CeilMulLe (F : Type) [Float64 F] : Prop :=
  ∀ (n : ℤ) (x : F), 0 ≤ n → n ≤ 2 ^ 53 → Float64.lt (Float64.ofInt 1) x = false →
    Float64.ceil (Float64.ofInt n * x) ≤ n

theorem ceilMulLe_rat : Float64.CeilMulLe ℚ := by
  intro n x hn _ hx
  have hx' : x ≤ 1 := by simpa [Float64.lt, Float64.ofInt] using hx
  change ⌈(n : ℚ) * x⌉ ≤ n
  rw [Int.ceil_le]
  exact mul_le_of_le_one_right (by exact_mod_cast hn) hx'

variable {ε α : Type}

theorem Except.bind_eq_ok {β : Type} {x : Except ε α} {f : α → Except ε β} {b : β}
    (h : x >>= f = .ok b) : ∃ a, x = .ok a ∧ f a = .ok b := by
  cases x with
  | error e => cases h
  | ok a => exact ⟨a, rfl, h⟩

theorem Except.foldlM_induct {β : Type} {f : β → α → Except ε β} {I : β → Prop}
    (hstep : ∀ b a b', I b → f b a = .ok b' → I b') {as : List α} {b b' : β} (hb : I b)
    (h : as.foldlM f b = .ok b') : I b' := by
  induction as generalizing b with
  | nil =>
    cases h
    exact hb
  | cons a as ih =>
    rw [List.foldlM_cons] at h
    obtain ⟨b₁, hb₁, hrest⟩ := Except.bind_eq_ok h
    exact ih (hstep b a b₁ hb hb₁) hrest

theorem Except.eq_ok_of_toOption {x : Except ε α} {a : α} (h : x.toOption = some a) :
    x = .ok a := by
  cases x with
  | error e => cases h
  | ok b =>
    cases h
    rfl

theorem Except.eq_ok_getD {x : Except ε α} {d : α}
    (h : x.isOk = true := by with_unfolding_all decide) : x = .ok (x.toOption.getD d) := by
  cases x with
  | error e => cases h
  | ok a => rfl
