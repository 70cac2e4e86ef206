import FlexBraid.Lib.Run
import Mathlib.Algebra.Order.Field.Basic
import Mathlib.Algebra.BigOperators.Group.List.Basic
import Mathlib.Tactic.Linarith
import Mathlib.Tactic.Ring

/-!
# Token buckets

A bucket holds at most `burst` tokens and gains `rate` of them per unit of time.  An attempt at an
instant first fills the bucket and then takes what it needs, if there is as much; one that fails
takes nothing.

What an attempt takes and what it leaves is the level it found.  So over a run the tokens taken and
those left are at most those at the start and the ones gained, and if the run begins with an
attempt, at most a full bucket and the ones gained since.  Filling twice is filling once, so failed
attempts do not change the level at any later instant, and a need the bucket can hold is met sooner
or later.

## Main definitions

* `TokenBucket`, `TokenBucket.level`, `TokenBucket.take` — the bucket and an attempt.
* `TokenBucket.Valid` — the tokens are between nothing and a full bucket.

## Main results

* `TokenBucket.valid_exec` — every run keeps the bounds.
* `TokenBucket.conforms` — **a run takes at most a full bucket and what is gained since it began.**
* `TokenBucket.level_take_of_fail` — **a failed attempt changes no later level.**
* `TokenBucket.le_level_of_late` — from some instant on the level is enough.
-/

structure TokenBucket (K : Type) where
  /-- The tokens gained per unit of time. -/
  rate : K
  /-- The tokens it can hold. -/
  burst : K
  tokens : K
  /-- The instant of the last attempt. -/
  last : K

namespace TokenBucket

variable {K : Type} [Field K] [LinearOrder K]

/-- The tokens at the instant `t`. -/
def level (b : TokenBucket K) (t : K) : K := min b.burst (b.tokens + (t - b.last) * b.rate)

/-- An attempt `(t, n)` to take `n` tokens at the instant `t`; it emits what it takes. -/
def take (b : TokenBucket K) (a : K × K) : TokenBucket K × List K :=
  if a.2 ≤ b.level a.1 then ({ b with tokens := b.level a.1 - a.2, last := a.1 }, [a.2])
  else ({ b with tokens := b.level a.1, last := a.1 }, [])

/-- The tokens are between nothing and a full bucket. -/
structure Valid (b : TokenBucket K) : Prop where
  rate : 0 ≤ b.rate
  nonneg : 0 ≤ b.tokens
  le_burst : b.tokens ≤ b.burst

/-- An attempt that is not before the last one. -/
def OnTime (b : TokenBucket K) (a : K × K) : Prop := b.last ≤ a.1 ∧ 0 ≤ a.2

/-- What a run takes in all. -/
def taken (b : TokenBucket K) (as : List (K × K)) : K := (Run.outputs take b as).flatten.sum

/-! ### One attempt -/

@[simp] theorem rate_take (b : TokenBucket K) (a : K × K) : (b.take a).1.rate = b.rate := by
  unfold take
  split <;> rfl

@[simp] theorem last_take (b : TokenBucket K) (a : K × K) : (b.take a).1.last = a.1 := by
  unfold take
  split <;> rfl

theorem sum_take (b : TokenBucket K) (a : K × K) :
    (b.take a).2.sum + (b.take a).1.tokens = b.level a.1 := by
  unfold take
  split <;> simp

theorem level_le_burst (b : TokenBucket K) (t : K) : b.level t ≤ b.burst := min_le_left _ _

variable [IsStrictOrderedRing K]

variable {b : TokenBucket K} {a : K × K} {t : K}

omit [IsStrictOrderedRing K] in
theorem take_eq_of_le (h : a.2 ≤ b.level a.1) :
    b.take a = ({ b with tokens := b.level a.1 - a.2, last := a.1 }, [a.2]) := by
  rw [take, if_pos h]

omit [IsStrictOrderedRing K] in
theorem take_eq_nil (h : b.level a.1 < a.2) :
    b.take a = ({ b with tokens := b.level a.1, last := a.1 }, []) := by
  rw [take, if_neg (not_le.mpr h)]

theorem tokens_le_level (h : b.Valid) (ht : b.last ≤ t) : b.tokens ≤ b.level t := by
  have hgain : 0 ≤ (t - b.last) * b.rate := mul_nonneg (sub_nonneg.mpr ht) h.rate
  exact le_min h.le_burst (by linarith)

theorem Valid.take (h : b.Valid) (ha : b.OnTime a) : (b.take a).1.Valid := by
  have hlevel := (tokens_le_level h ha.1).trans' h.nonneg
  have hburst := b.level_le_burst a.1
  refine ⟨by rw [rate_take]; exact h.rate, ?_, ?_⟩
  all_goals
    unfold TokenBucket.take
    split
  · next hn => exact sub_nonneg.mpr hn
  · exact hlevel
  · exact (sub_le_self _ ha.2).trans hburst
  · exact hburst

/-- **A failed attempt changes no later level**: filling twice is filling once. -/
theorem level_take_of_fail (h : b.Valid) (hfail : b.level a.1 < a.2) (ht : a.1 ≤ t) :
    (b.take a).1.level t = b.level t := by
  rw [take_eq_nil hfail]
  unfold level
  dsimp only
  have hgain : 0 ≤ (t - a.1) * b.rate := mul_nonneg (sub_nonneg.mpr ht) h.rate
  have hsplit : (t - b.last) * b.rate = (a.1 - b.last) * b.rate + (t - a.1) * b.rate := by ring
  rw [hsplit]
  -- either the first filling stops at the brim, and so does the second, or it stops nowhere
  rcases le_total b.burst (b.tokens + (a.1 - b.last) * b.rate) with hfull | hroom
  · rw [min_eq_left hfull, min_eq_left (by linarith), min_eq_left (by linarith)]
  · rw [min_eq_right hroom, add_assoc]

/-! ### Runs -/

theorem valid_exec (h : b.Valid) {as : List (K × K)} (hon : Run.Along take OnTime b as) :
    (Run.exec take b as).Valid :=
  Run.exec_induct (fun _ _ hb ha => hb.take ha) h hon

omit [IsStrictOrderedRing K] in
theorem taken_cons (b : TokenBucket K) (a : K × K) (as : List (K × K)) :
    b.taken (a :: as) = (b.take a).2.sum + (b.take a).1.taken as := by
  simp [taken]

theorem taken_add_tokens_le (b : TokenBucket K) (as : List (K × K)) :
    b.taken as + (Run.exec take b as).tokens ≤
      b.tokens + ((Run.exec take b as).last - b.last) * b.rate := by
  induction as generalizing b with
  | nil => simp [taken]
  | cons a as ih =>
    rw [taken_cons, Run.exec_cons]
    have hrest := ih (b.take a).1
    rw [last_take, rate_take] at hrest
    have hstep := (b.sum_take a).trans_le (min_le_right _ _)
    have hsplit : ((Run.exec take (b.take a).1 as).last - b.last) * b.rate =
        ((Run.exec take (b.take a).1 as).last - a.1) * b.rate + (a.1 - b.last) * b.rate := by ring
    linarith

/-- **A run takes at most a full bucket and what is gained since its first attempt.** -/
theorem conforms (h : b.Valid) {as : List (K × K)} (hon : Run.Along take OnTime b (a :: as)) :
    b.taken (a :: as) ≤ b.burst + b.rate * ((Run.exec take b (a :: as)).last - a.1) := by
  have hrest := taken_add_tokens_le (b.take a).1 as
  rw [last_take, rate_take] at hrest
  have hfirst := (b.sum_take a).trans_le (b.level_le_burst a.1)
  have hleft := (valid_exec (h.take hon.1) hon.2).nonneg
  rw [taken_cons, Run.exec_cons]
  linarith

/-! ### Attempts that are repeated -/

theorem le_level {n : K} (hn : n ≤ b.burst) (hgain : n - b.tokens ≤ (t - b.last) * b.rate) :
    n ≤ b.level t :=
  le_min hn (sub_le_iff_le_add'.mp hgain)

theorem le_level_of_late (hrate : 0 < b.rate) {n : K} (hn : n ≤ b.burst)
    (ht : b.last + (n - b.tokens) / b.rate ≤ t) : n ≤ b.level t := by
  refine le_level hn ((div_le_iff₀ hrate).mp ?_)
  linarith

end TokenBucket
