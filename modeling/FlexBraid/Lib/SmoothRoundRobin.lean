import Mathlib.Algebra.BigOperators.Ring.Finset
import Mathlib.Algebra.Order.BigOperators.Group.Finset
import Mathlib.Tactic.Linarith
import Mathlib.Tactic.Ring

/-!
# Smooth weighted round-robin

Every candidate has a weight and an account.  In each round all accounts are credited with the
weights, a candidate with the most in its account is picked, and it pays the sum of all weights.
So the accounts always add up to what they added up to before, the account of a candidate says by
how much it was picked too rarely or too often, and no account falls by the whole sum: the
candidate that pays had something, since it had the most.

With integer weights the rounds repeat after as many picks as the weights add up to.

## Main definitions

* `SmoothRoundRobin.Round` — one round over a set of candidates.
* `SmoothRoundRobin.Rounds` — a sequence of rounds and the candidates it picks.

## Main results

* `Rounds.account` — **an account is the difference between due and taken.**
* `Rounds.lt_account` — no account falls by the sum of the weights.
* `Rounds.count_eq_weight` — **a full cycle picks every candidate as often as its weight says.**
-/

open Finset

namespace SmoothRoundRobin

variable {ι R : Type} [DecidableEq ι] [CommRing R] [LinearOrder R]

/-- One round over the candidates `S` with weights `w`: `i` is picked, and the accounts change
from `acc` to `acc'`. -/
structure Round (S : Finset ι) (w acc : ι → R) (i : ι) (acc' : ι → R) : Prop where
  mem : i ∈ S
  /-- The candidate picked has the most, once the weights are credited. -/
  most : ∀ j ∈ S, acc j + w j ≤ acc i + w i
  /-- It pays the sum of the weights. -/
  next : ∀ j ∈ S, acc' j = acc j + w j - if j = i then ∑ k ∈ S, w k else 0

/-- Rounds that pick the given candidates. -/
inductive Rounds (S : Finset ι) (w : ι → R) : (ι → R) → List ι → (ι → R) → Prop
  | nil (acc : ι → R) : Rounds S w acc [] acc
  | cons {acc acc' acc'' : ι → R} {i : ι} {picks : List ι} (hround : Round S w acc i acc')
      (hrest : Rounds S w acc' picks acc'') : Rounds S w acc (i :: picks) acc''

variable {S : Finset ι} {w acc acc' : ι → R} {i : ι} {picks : List ι}

/-! ### What the rounds add up to -/

theorem Round.sum (h : Round S w acc i acc') : ∑ j ∈ S, acc' j = ∑ j ∈ S, acc j := by
  rw [sum_congr rfl h.next, sum_sub_distrib, sum_add_distrib, sum_ite_eq', if_pos h.mem,
    add_sub_cancel_right]

/-- **An account is the difference between due and taken.** -/
theorem Rounds.account (h : Rounds S w acc picks acc') {j : ι} (hj : j ∈ S) :
    acc' j = acc j + picks.length * w j - (∑ k ∈ S, w k) * picks.count j := by
  induction h with
  | nil acc => simp
  | @cons acc acc₁ acc₂ i picks hround hrest ih =>
    rw [ih, hround.next j hj, List.length_cons, List.count_cons, Nat.cast_add, Nat.cast_add]
    by_cases hji : j = i
    · subst hji
      simp
      ring
    · have hij : (i == j) = false := beq_false_of_ne fun h => hji h.symm
      simp [hji, hij]
      ring

theorem Rounds.sum (h : Rounds S w acc picks acc') : ∑ j ∈ S, acc' j = ∑ j ∈ S, acc j := by
  induction h with
  | nil acc => rfl
  | cons hround _ ih => rw [ih, hround.sum]

theorem Rounds.subset (h : Rounds S w acc picks acc') : ∀ j ∈ picks, j ∈ S := by
  induction h with
  | nil acc => simp
  | cons hround _ ih =>
    intro j hj
    rcases List.mem_cons.mp hj with rfl | hj
    · exact hround.mem
    · exact ih j hj

theorem Rounds.sum_count (h : Rounds S w acc picks acc') :
    ∑ j ∈ S, picks.count j = picks.length := by
  rw [← List.sum_toFinset_count_eq_length]
  symm
  apply sum_subset
  · intro j hj
    exact h.subset j (List.mem_toFinset.mp hj)
  · intro j _ hj
    exact List.count_eq_zero_of_not_mem fun hmem => hj (List.mem_toFinset.mpr hmem)

/-! ### How far an account falls -/

variable [IsStrictOrderedRing R]

theorem Round.pos (h : Round S w acc i acc') (hzero : ∑ j ∈ S, acc j = 0)
    (hpos : 0 < ∑ j ∈ S, w j) : 0 < acc i + w i := by
  by_contra hnot
  have hle : ∑ j ∈ S, (acc j + w j) ≤ 0 :=
    sum_nonpos fun j hj => (h.most j hj).trans (not_lt.mp hnot)
  rw [sum_add_distrib, hzero, zero_add] at hle
  exact absurd hpos (not_lt.mpr hle)

/-- **No account falls by the sum of the weights.** -/
theorem Rounds.lt_account (h : Rounds S w acc picks acc') (hw : ∀ j ∈ S, 0 ≤ w j)
    (hpos : 0 < ∑ j ∈ S, w j) (hzero : ∑ j ∈ S, acc j = 0)
    (hlow : ∀ j ∈ S, -∑ k ∈ S, w k < acc j) : ∀ j ∈ S, -∑ k ∈ S, w k < acc' j := by
  induction h with
  | nil acc => exact hlow
  | @cons acc acc₁ acc₂ i picks hround hrest ih =>
    refine ih (hround.sum.trans hzero) fun j hj => ?_
    rw [hround.next j hj]
    split
    · -- the one picked had a positive account and paid the sum
      next hji =>
      have hi := hround.pos hzero hpos
      rw [hji]
      linarith
    · have hwj := hw j hj
      have hj' := hlow j hj
      linarith

/-- **A full cycle picks every candidate as often as its weight says**, and empties the
accounts. -/
theorem Rounds.count_eq_weight {v : ι → ℕ} (h : Rounds S w acc picks acc')
    (hw : ∀ j ∈ S, w j = v j) (hpos : 0 < ∑ j ∈ S, v j) (hzero : ∀ j ∈ S, acc j = 0)
    (hlength : picks.length = ∑ j ∈ S, v j) : ∀ j ∈ S, picks.count j = v j ∧ acc' j = 0 := by
  have hsum : ∑ j ∈ S, w j = ((∑ j ∈ S, v j : ℕ) : R) := by
    rw [sum_congr rfl hw, Nat.cast_sum]
  have hW : (0 : R) < ((∑ j ∈ S, v j : ℕ) : R) := Nat.cast_pos.mpr hpos
  -- after a full cycle an account is a multiple of the sum, so it is not negative
  have haccount : ∀ j ∈ S, acc' j = ((∑ j ∈ S, v j : ℕ) : R) * (v j - picks.count j) := by
    intro j hj
    rw [h.account hj, hzero j hj, hsum, hlength, hw j hj]
    ring
  have hle : ∀ j ∈ S, picks.count j ≤ v j := by
    intro j hj
    have hlow := h.lt_account (fun k hk => by rw [hw k hk]; exact Nat.cast_nonneg _)
      (by rw [hsum]; exact hW) (sum_eq_zero hzero)
      (fun k hk => by rw [hzero k hk, hsum]; exact neg_lt_zero.mpr hW) j hj
    rw [haccount j hj, hsum] at hlow
    by_contra hnot
    have hge : ((v j : ℕ) : R) + 1 ≤ (picks.count j : R) := by
      exact_mod_cast not_le.mp hnot
    nlinarith
  -- the counts add up to as much as the weights
  have heq := (sum_eq_sum_iff_of_le hle).mp (h.sum_count.trans hlength)
  intro j hj
  refine ⟨heq j hj, ?_⟩
  rw [haccount j hj, heq j hj, sub_self, mul_zero]

end SmoothRoundRobin
