import FlexBraid.Lib.Ledger
import FlexBraid.Lib.Prog

/-!
# Programs that number what they send

A state holds a counter and numbers that wait to be used; threads hand out the next
number, leave numbers in the state and take them out again, and use them.  A number
that a thread holds is a resource it owns, so the ownership triples of `Prog` give:
as long as the counter stays below its limit, no number is used twice, however the
threads interleave.

## Main definitions

* `SeqNumbering` — where a state keeps its counter and its waiting numbers, and what
  number an output uses.
* `SeqNumbering.Inv` — the invariant: a ledger accounts for all numbers.
* `SeqNumbering.Quiet` — an action that has nothing to do with numbers.

## Main results

* `SeqNumbering.owns_quiet`, `SeqNumbering.owns_issue`, `SeqNumbering.owns_trade` — the
  triples of the three kinds of actions.
* `SeqNumbering.used_nodup` — **no number is used twice.**
-/

/-- Where numbers are kept. -/
structure SeqNumbering (S O : Type) where
  /-- Beyond this count numbers repeat. -/
  limit : ℕ
  count : S → ℕ
  /-- The numbers that wait in the state. -/
  pending : S → Multiset ℕ
  /-- The numbers that an output uses. -/
  used : O → Multiset ℕ

namespace SeqNumbering

variable {S O α : Type} (N : SeqNumbering S O)

/-- The numbers that a list of outputs uses. -/
def usedBy (out : List O) : Multiset ℕ := (out.map N.used).sum

/-- While the counter is below its limit, a ledger accounts for the numbers that the
threads own, those that wait in the state and those that were used. -/
def Inv (s : S) (out : List O) (owned : Multiset ℕ) : Prop :=
  N.count s < N.limit → ∃ l : Ledger,
    l.count = N.count s ∧ l.held = owned + N.pending s ∧ l.used = N.usedBy out

/-- An action that neither counts nor uses a number. -/
structure Quiet (s : S) (out : List O) (s' : S) : Prop where
  count : N.count s' = N.count s
  pending : N.pending s' = N.pending s
  used : N.usedBy out = 0

@[simp] theorem usedBy_nil : N.usedBy [] = 0 := rfl

@[simp] theorem usedBy_append (out out' : List O) :
    N.usedBy (out ++ out') = N.usedBy out + N.usedBy out' := by
  rw [usedBy, List.map_append, List.sum_append]
  rfl

variable {N}

variable {s : S} {out : List O} {m : Multiset ℕ} {f : S → α × S × List O}

theorem inv_start (hcount : N.count s = 0) (hpending : N.pending s = 0) : N.Inv s [] 0 := by
  intro _
  refine ⟨Ledger.empty, hcount.symm, ?_, rfl⟩
  rw [hpending, add_zero]
  rfl

theorem Inv.quiet {s' : S} {out' : List O} (h : N.Inv s out m) (hq : N.Quiet s out' s') :
    N.Inv s' (out ++ out') m := by
  intro hlimit
  rw [hq.count] at hlimit ⊢
  obtain ⟨l, hcount, hheld, hused⟩ := h hlimit
  refine ⟨l, hcount, ?_, ?_⟩
  · rw [hq.pending, hheld]
  · rw [N.usedBy_append, hq.used, add_zero, hused]

theorem composes_quiet : Prog.Composes N.Quiet where
  nil _ := ⟨rfl, rfl, rfl⟩
  append h h' := ⟨h'.count.trans h.count, h'.pending.trans h.pending, by
    rw [usedBy_append, h.used, h'.used, add_zero]⟩

theorem Inv.skip {s' : S} {out' : List O} (h : N.Inv s out m) (hcount : N.count s ≤ N.count s')
    (hpending : N.pending s' = N.pending s) (hused : N.usedBy out' = 0) :
    N.Inv s' (out ++ out') m := by
  intro hlimit
  obtain ⟨l, hl, hheld, hl'⟩ := h (by omega)
  refine ⟨l.skip (N.count s') (by omega), rfl, ?_, ?_⟩
  · rw [hpending]
    exact hheld
  · rw [N.usedBy_append, hused, add_zero]
    exact hl'

theorem Inv.drop (h : N.Inv s out m) : N.Inv s out 0 := by
  intro hlimit
  obtain ⟨l, hcount, hheld, hused⟩ := h hlimit
  have hle : 0 + N.pending s ≤ l.held := by
    rw [hheld, zero_add]
    exact Multiset.le_add_left _ _
  exact ⟨l.keep _ hle, hcount, rfl, hused⟩

theorem owns_quiet {Q : α → Prop} (hquiet : ∀ s, N.Quiet s (f s).2.2 (f s).2.1)
    (hQ : ∀ s, Q (f s).1) : Prog.Owns N.Inv (fun a m' => m' = m ∧ Q a) (Prog.atomic f) m := by
  refine Prog.owns_atomic ?_
  intro s out others hinv
  exact ⟨m, hinv.quiet (hquiet s), rfl, hQ s⟩

/-- Handing out the next number: the thread owns it. -/
theorem owns_issue {number : α → ℕ} (hcount : ∀ s, N.count (f s).2.1 = N.count s + 1)
    (hpending : ∀ s, N.pending (f s).2.1 = N.pending s) (hused : ∀ s, N.usedBy (f s).2.2 = 0)
    (hnumber : ∀ s, N.count s + 1 < N.limit → number (f s).1 = N.count s + 1) :
    Prog.Owns N.Inv (fun a m => m = {number a}) (Prog.atomic f) 0 := by
  refine Prog.owns_atomic ?_
  intro s out others hinv
  refine ⟨{number (f s).1}, ?_, rfl⟩
  intro hlimit
  rw [hcount] at hlimit ⊢
  obtain ⟨l, hl, hheld, hl'⟩ := hinv (by omega)
  refine ⟨l.issue, ?_, ?_, ?_⟩
  · show l.count + 1 = _
    rw [hl]
  · show (l.count + 1) ::ₘ l.held = _
    rw [hl, hheld, hnumber s hlimit, hpending, zero_add, add_assoc, Multiset.singleton_add]
  · rw [N.usedBy_append, hused, add_zero]
    exact hl'

/-- Trading the numbers a thread owns against those that wait in the state, and using some;
some may get lost. -/
theorem owns_trade (gets : α → Multiset ℕ) (hcount : ∀ s, N.count (f s).2.1 = N.count s)
    (hle : ∀ s, gets (f s).1 + N.pending (f s).2.1 + N.usedBy (f s).2.2 ≤ m + N.pending s) :
    Prog.Owns N.Inv (fun a m' => m' = gets a) (Prog.atomic f) m := by
  refine Prog.owns_atomic ?_
  intro s out others hinv
  refine ⟨gets (f s).1, ?_, rfl⟩
  intro hlimit
  rw [hcount] at hlimit ⊢
  obtain ⟨l, hl, hheld, hl'⟩ := hinv hlimit
  have hsettle : gets (f s).1 + others + N.pending (f s).2.1 + N.usedBy (f s).2.2 ≤ l.held := by
    rw [hheld, add_right_comm (gets _), add_right_comm _ others, add_right_comm m]
    exact add_le_add_left (hle s) others
  refine ⟨l.settle _ _ hsettle, hl, rfl, ?_⟩
  rw [N.usedBy_append, ← hl']
  exact add_comm _ _

theorem owns_exchange (gets : α → Multiset ℕ) (hcount : ∀ s, N.count (f s).2.1 = N.count s)
    (hused : ∀ s, N.usedBy (f s).2.2 = 0)
    (hle : ∀ s, gets (f s).1 + N.pending (f s).2.1 ≤ m + N.pending s) :
    Prog.Owns N.Inv (fun a m' => m' = gets a) (Prog.atomic f) m :=
  owns_trade gets hcount fun s => by
    rw [hused, add_zero]
    exact hle s

theorem owns_use {n : ℕ} (hcount : ∀ s, N.count (f s).2.1 = N.count s)
    (hpending : ∀ s, N.pending (f s).2.1 = N.pending s) (hused : ∀ s, N.usedBy (f s).2.2 = {n}) :
    Prog.Owns N.Inv (fun _ _ => True) (Prog.atomic f) {n} := by
  refine (owns_trade (fun _ => 0) hcount fun s => ?_).mono fun _ _ _ => trivial
  rw [hpending, hused, zero_add, add_comm]

/-- **No number is used twice** while the counter is below its limit. -/
theorem used_nodup (h : N.Inv s out m) (hlimit : N.count s < N.limit) : (N.usedBy out).Nodup := by
  obtain ⟨l, -, -, hused⟩ := h hlimit
  rw [← hused]
  exact l.used_nodup

theorem used_le {o : O} (ho : o ∈ out) : N.used o ≤ N.usedBy out :=
  Ledger.le_sum_of_mem ho

theorem eq_of_used (h : (N.usedBy out).Nodup) {o o' : O} (ho : o ∈ out) (ho' : o' ∈ out) {n : ℕ}
    (hn : n ∈ N.used o) (hn' : n ∈ N.used o') : o = o' :=
  Ledger.eq_of_nodup_sum h ho ho' hn hn'

theorem nodup_filterMap {β : Type} {pick : O → Option β} (number : β → ℕ)
    (hpick : ∀ o b, pick o = some b → N.used o = {number b}) (h : (N.usedBy out).Nodup) :
    (out.filterMap pick).Nodup := by
  have hle : ∀ out : List O, (((out.filterMap pick).map number : List ℕ) : Multiset ℕ) ≤ N.usedBy out := by
    intro out
    induction out with
    | nil => exact le_refl _
    | cons o out ih =>
      have hcons : N.usedBy (o :: out) = N.used o + N.usedBy out := rfl
      rw [hcons, List.filterMap_cons]
      cases ho : pick o with
      | none => exact ih.trans (Multiset.le_add_left _ _)
      | some b =>
        rw [hpick o b ho, List.map_cons, ← Multiset.cons_coe, Multiset.singleton_add]
        exact (Multiset.cons_le_cons_iff _).mpr ih
  exact (Multiset.coe_nodup.mp (Multiset.nodup_of_le (hle out) h)).of_map number

end SeqNumbering
