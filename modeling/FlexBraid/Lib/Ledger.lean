import Mathlib.Algebra.Order.BigOperators.Group.List
import Mathlib.Data.Multiset.AddSub
import Mathlib.Data.Multiset.OrderedMonoid
import Mathlib.Data.Multiset.UnionInter
import Mathlib.Data.Multiset.ZeroCons

/-!
# Numbers handed out once

A counter hands out the numbers 1, 2, 3, ...  A number that was handed out is held
by someone until it is used or dropped.  A ledger records the numbers handed out
so far, those held and those used; its fields say that no number is held or used
twice, so an operation that would hand a number out again cannot be written.

## Main definitions

* `Ledger` — the count, the numbers held and the numbers used.
* `Ledger.issue`, `Ledger.settle`, `Ledger.keep`, `Ledger.skip` — hand out the next
  number, use numbers that are held, drop numbers, leave numbers out.

## Main results

* `Ledger.used_nodup` — no number is used twice.
* `Ledger.eq_of_nodup_sum` — so no two entries of a list use the same number.
-/

/-- The numbers a counter has handed out: how many, which of them are held, and
which were used. -/
structure Ledger where
  count : ℕ
  held : Multiset ℕ
  used : Multiset ℕ
  nodup : (held + used).Nodup
  bound : ∀ n ∈ held + used, n ≤ count

namespace Ledger

/-- Nothing has been handed out. -/
def empty : Ledger := ⟨0, 0, 0, Multiset.nodup_zero, by simp⟩

/-- Hand out the next number. -/
def issue (l : Ledger) : Ledger where
  count := l.count + 1
  held := (l.count + 1) ::ₘ l.held
  used := l.used
  nodup := by
    rw [Multiset.cons_add, Multiset.nodup_cons]
    refine ⟨fun hmem => ?_, l.nodup⟩
    exact absurd (l.bound _ hmem) (by omega)
  bound := by
    intro n hn
    rw [Multiset.cons_add, Multiset.mem_cons] at hn
    rcases hn with rfl | hn
    · exact le_refl _
    · exact (l.bound n hn).trans (by omega)

/-- Use some of the numbers held, keep some and drop the others. -/
def settle (l : Ledger) (held used : Multiset ℕ) (h : held + used ≤ l.held) : Ledger where
  count := l.count
  held := held
  used := used + l.used
  nodup := by
    rw [← Multiset.add_assoc]
    exact Multiset.nodup_of_le ((Multiset.add_le_add_iff_right).mpr h) l.nodup
  bound := by
    intro n hn
    rw [← Multiset.add_assoc] at hn
    exact l.bound n (Multiset.mem_of_le ((Multiset.add_le_add_iff_right).mpr h) hn)

/-- Leave out the numbers up to `n`. -/
def skip (l : Ledger) (n : ℕ) (h : l.count ≤ n) : Ledger where
  count := n
  held := l.held
  used := l.used
  nodup := l.nodup
  bound := fun m hm => (l.bound m hm).trans h

/-- Keep some of the numbers held and drop the others. -/
def keep (l : Ledger) (held : Multiset ℕ) (h : held ≤ l.held) : Ledger where
  count := l.count
  held := held
  used := l.used
  nodup := Multiset.nodup_of_le ((Multiset.add_le_add_iff_right).mpr h) l.nodup
  bound := fun n hn => l.bound n (Multiset.mem_of_le ((Multiset.add_le_add_iff_right).mpr h) hn)

/-- **No number is used twice.** -/
theorem used_nodup (l : Ledger) : l.used.Nodup :=
  Multiset.nodup_of_le (Multiset.le_add_left _ _) l.nodup

/-! ### Who uses a number -/

section
variable {α β : Type*} {f : α → Multiset β} {l : List α}

theorem le_sum_of_mem {a : α} (ha : a ∈ l) : f a ≤ (l.map f).sum :=
  List.single_le_sum (fun _ _ => Multiset.zero_le _) _ (List.mem_map_of_mem ha)

/-- Entries that use the same number are the same. -/
theorem eq_of_nodup_sum (h : (l.map f).sum.Nodup) {a a' : α} (ha : a ∈ l) (ha' : a' ∈ l) {n : β}
    (hn : n ∈ f a) (hn' : n ∈ f a') : a = a' := by
  induction l with
  | nil => cases ha
  | cons a₁ l ih =>
    rw [List.map_cons, List.sum_cons] at h
    obtain ⟨-, hrest, hdisjoint⟩ := Multiset.nodup_add.mp h
    rcases List.mem_cons.mp ha with heq | hmem
    · rcases List.mem_cons.mp ha' with heq' | hmem'
      · rw [heq, heq']
      · rw [heq] at hn
        have hother := Multiset.mem_of_le (le_sum_of_mem hmem') hn'
        exact absurd hother (Multiset.disjoint_left.mp hdisjoint hn)
    · rcases List.mem_cons.mp ha' with heq' | hmem'
      · rw [heq'] at hn'
        have hother := Multiset.mem_of_le (le_sum_of_mem hmem) hn
        exact absurd hother (Multiset.disjoint_left.mp hdisjoint hn')
      · exact ih hrest hmem hmem'

end

end Ledger
