import FlexBraid.Lib.SmoothRoundRobin
import FlexBraid.RoundRobin

/-!
# Round-robin in proportion to the weights

`pickWRR` finds the path with the most in its accumulator while it still credits the weights in the
same loop.  The loop is right all the same: the best path so far was credited before it is compared,
the first one because it meets itself first.  In exact arithmetic a call is therefore a round of the
smooth weighted round-robin over the usable paths, and the paths are picked in proportion to their
weights.

## Main definitions

* `Scheduler.account` — what a usable path has in its accumulator.
* `Scheduler.Weighted` — the usable paths have the given weights.

## Main results

* `Scheduler.round_pickWRR` — **a call is a round.**
* `Scheduler.picks_proportional` — the accumulators and the counts after any number of calls.
-/

namespace FlexBraid

namespace Scheduler

/-- What a usable path has in its accumulator. -/
def account (s : Scheduler ℚ) (id : String) : ℚ :=
  ((s.usable.find? fun p => p.id = id).map SchedPath.rr).getD 0

/-- The names of the usable paths. -/
def usableIds (s : Scheduler ℚ) : List String := s.usable.map SchedPath.id

/-- The usable paths have the weights `v`. -/
def Weighted (v : String → ℕ) (s : Scheduler ℚ) : Prop := ∀ p ∈ s.usable, s.weight p = v p.id

theorem nodup_usableIds (s : Scheduler ℚ) : s.usableIds.Nodup :=
  s.nodup_ids.sublist (List.filter_sublist.map _)

theorem account_of_mem {s : Scheduler ℚ} {p : SchedPath ℚ} (hp : p ∈ s.usable) :
    s.account p.id = p.rr := by
  cases hfind : s.usable.find? fun q => q.id = p.id with
  | none =>
    have hnone := List.find?_eq_none.mp hfind p hp
    simp at hnone
  | some q =>
    have hid : q.id = p.id := by simpa using List.find?_some hfind
    have hq : q ∈ s.usable := List.mem_of_find?_eq_some hfind
    obtain rfl : q = p := List.inj_on_of_nodup_map s.nodup_usableIds hq hp hid
    rw [account, hfind]
    rfl

/-! ### The loop -/

/-- **The loop** finds the sum of the weights and, among the best path so far and the paths to come,
one with the most once the weights are credited. -/
theorem foldl_accumulate_max (s : Scheduler ℚ) {l : List (SchedPath ℚ)} {b : SchedPath ℚ}
    (hnd : (b.id :: l.map SchedPath.id).Nodup) (t : ℚ) :
    ∃ b', l.foldl s.accumulate (t, b) = (t + (l.map s.weight).sum, b') ∧
      (b' = b ∨ ∃ p ∈ l, b' = { p with rr := p.rr + s.weight p }) ∧
      b.rr ≤ b'.rr ∧ ∀ p ∈ l, p.rr + s.weight p ≤ b'.rr := by
  induction l generalizing b t with
  | nil => exact ⟨b, by simp, .inl rfl, le_rfl, fun p hp => by cases hp⟩
  | cons p l ih =>
    rw [List.map_cons, List.nodup_cons, List.mem_cons, not_or, List.nodup_cons] at hnd
    obtain ⟨⟨hne, hb⟩, hp, hl⟩ := hnd
    -- the best path so far is another one: it is compared as it is
    have hstep : s.accumulate (t, b) p =
        (t + s.weight p,
          if b.rr < p.rr + s.weight p then { p with rr := p.rr + s.weight p } else b) := by
      have hother : ¬ p.id = b.id := fun h => hne h.symm
      simp only [accumulate, if_neg hother, Float64.lt, decide_eq_true_eq]
    rw [List.foldl_cons, hstep, List.map_cons, List.sum_cons, ← add_assoc]
    split
    · next hlt =>
      obtain ⟨b', hfold, hfrom, hle, hmax⟩ := ih (b := { p with rr := p.rr + s.weight p })
        (List.nodup_cons.mpr ⟨hp, hl⟩) (t + s.weight p)
      refine ⟨b', hfold, .inr ?_, hlt.le.trans hle, ?_⟩
      · rcases hfrom with rfl | ⟨q, hq, rfl⟩
        · exact ⟨p, List.mem_cons_self, rfl⟩
        · exact ⟨q, List.mem_cons_of_mem _ hq, rfl⟩
      · intro q hq
        rcases List.mem_cons.mp hq with rfl | hq
        · exact hle
        · exact hmax q hq
    · next hge =>
      obtain ⟨b', hfold, hfrom, hle, hmax⟩ := ih (List.nodup_cons.mpr ⟨hb, hl⟩) (t + s.weight p)
      refine ⟨b', hfold, ?_, hle, ?_⟩
      · exact hfrom.imp_right fun ⟨q, hq, h⟩ => ⟨q, List.mem_cons_of_mem _ hq, h⟩
      intro q hq
      rcases List.mem_cons.mp hq with rfl | hq
      · exact (not_lt.mp hge).trans hle
      · exact hmax q hq

/-! ### One call -/

theorem usable_update_credit (s : Scheduler ℚ) (id : String) (total : ℚ) :
    (s.credit.update id (fun p => { p with rr := p.rr - total }) fun _ => rfl).usable =
      s.usable.map fun p =>
        { p with rr := p.rr + s.weight p - if p.id = id then total else 0 } := by
  change List.filter _ ((s.paths.map _).map _) = _
  -- neither the credit nor the payment changes what is usable
  rw [List.map_map, List.filter_map, usable,
    List.filter_congr (q := fun p : SchedPath ℚ => decide (p.state ≠ .down))]
  · apply List.map_congr_left
    intro p hp
    have hup : p.state ≠ .down := by simpa using (List.mem_filter.mp hp).2
    simp only [Function.comp_apply, if_pos hup]
    split
    · rfl
    · rw [sub_zero]
  · intro p _
    simp only [Function.comp_apply]
    split_ifs <;> rfl

theorem pickWRR_spec {s : Scheduler ℚ} (hne : s.usable ≠ [])
    (hpos : 0 < (s.usable.map s.weight).sum) :
    ∃ best ∈ s.usable, s.pickWRR.2 = some best.id ∧
      (∀ p ∈ s.usable, p.rr + s.weight p ≤ best.rr + s.weight best) ∧
      s.pickWRR.1.opts = s.opts ∧
      s.pickWRR.1.usable = s.usable.map fun p =>
        { p with rr := p.rr + s.weight p -
                   if p.id = best.id then (s.usable.map s.weight).sum else 0 } := by
  obtain ⟨first, rest, husable⟩ := List.exists_cons_of_ne_nil hne
  have hnd := s.nodup_usableIds
  rw [usableIds, husable, List.map_cons] at hnd
  obtain ⟨b, hfold, hfrom, hle, hmax⟩ := s.foldl_accumulate_max
    (b := { first with rr := first.rr + s.weight first }) hnd (0 + s.weight first)
  have hloop : s.usable.foldl s.accumulate (Float64.ofInt 0, first) =
      ((s.usable.map s.weight).sum, b) := by
    rw [husable, List.foldl_cons, accumulate_self, List.map_cons, List.sum_cons]
    change List.foldl s.accumulate (((0 : ℤ) : ℚ) + s.weight first, _) rest = _
    rw [Int.cast_zero, hfold, zero_add]
  obtain ⟨best, hbest, rfl⟩ : ∃ p ∈ s.usable, b = { p with rr := p.rr + s.weight p } := by
    rw [husable]
    rcases hfrom with rfl | ⟨p, hp, rfl⟩
    · exact ⟨first, List.mem_cons_self, rfl⟩
    · exact ⟨p, List.mem_cons_of_mem _ hp, rfl⟩
  have hpick := pickWRR_of_foldl husable hloop (by simpa [Float64.le, Float64.ofInt] using hpos)
  refine ⟨best, hbest, by rw [hpick], ?_, by rw [hpick]; rfl, ?_⟩
  · rw [husable]
    intro p hp
    rcases List.mem_cons.mp hp with rfl | hp
    · exact hle
    · exact hmax p hp
  · rw [hpick]
    exact s.usable_update_credit best.id _

/-! ### Calls as rounds -/

variable {s : Scheduler ℚ} {v : String → ℕ}

theorem sum_weight (h : s.Weighted v) :
    (s.usable.map s.weight).sum = ∑ id ∈ s.usableIds.toFinset, (v id : ℚ) := by
  rw [List.sum_toFinset _ s.nodup_usableIds, usableIds, List.map_map]
  congr 1
  exact List.map_congr_left h

theorem Weighted.of_usable {s' : Scheduler ℚ} (h : s.Weighted v) {f : SchedPath ℚ → ℚ}
    (hopts : s'.opts = s.opts) (husable : s'.usable = s.usable.map fun p => { p with rr := f p }) :
    s'.Weighted v ∧ s'.usableIds = s.usableIds := by
  constructor
  · intro p' hp'
    rw [husable] at hp'
    obtain ⟨p, hp, rfl⟩ := List.mem_map.mp hp'
    exact (weight_congr hopts rfl rfl).trans (h p hp)
  · rw [usableIds, husable, List.map_map]
    rfl

/-- **A call is a round** over the usable paths. -/
theorem round_pickWRR (h : s.Weighted v) (hne : s.usable ≠ [])
    (hpos : 0 < ∑ id ∈ s.usableIds.toFinset, (v id : ℚ)) : ∃ id, s.pickWRR.2 = some id ∧
      SmoothRoundRobin.Round s.usableIds.toFinset (fun id => (v id : ℚ)) s.account id
        s.pickWRR.1.account ∧ s.pickWRR.1.Weighted v ∧ s.pickWRR.1.usableIds = s.usableIds := by
  rw [← sum_weight h] at hpos
  obtain ⟨best, hbest, hpick, hmax, hopts, husable⟩ := pickWRR_spec hne hpos
  obtain ⟨hweighted, hids⟩ := h.of_usable hopts husable
  refine ⟨best.id, hpick, ⟨?_, ?_, ?_⟩, hweighted, hids⟩
  · exact List.mem_toFinset.mpr (List.mem_map_of_mem hbest)
  · intro id hid
    obtain ⟨p, hp, rfl⟩ := List.mem_map.mp (List.mem_toFinset.mp hid)
    rw [account_of_mem hp, account_of_mem hbest, ← h p hp, ← h best hbest]
    exact hmax p hp
  · intro id hid
    obtain ⟨p, hp, rfl⟩ := List.mem_map.mp (List.mem_toFinset.mp hid)
    have hp' := List.mem_map_of_mem (f := fun p : SchedPath ℚ =>
      { p with rr := p.rr + s.weight p -
                 if p.id = best.id then (s.usable.map s.weight).sum else 0 }) hp
    rw [← husable] at hp'
    rw [account_of_mem hp, ← h p hp, ← sum_weight h]
    exact account_of_mem hp'

/-- **Calls are rounds.** -/
theorem rounds_picks (h : s.Weighted v) (hne : s.usable ≠ [])
    (hpos : 0 < ∑ id ∈ s.usableIds.toFinset, (v id : ℚ)) (n : ℕ) :
    ∃ ids : List String, (s.picks n).2 = ids.map some ∧ ids.length = n ∧
      SmoothRoundRobin.Rounds s.usableIds.toFinset (fun id => (v id : ℚ)) s.account ids
        (s.picks n).1.account ∧ (s.picks n).1.usableIds = s.usableIds := by
  induction n generalizing s with
  | zero => exact ⟨[], rfl, rfl, .nil _, rfl⟩
  | succ n ih =>
    obtain ⟨id, hpick, hround, hweighted, hids⟩ := round_pickWRR h hne hpos
    have hne' : s.pickWRR.1.usable ≠ [] := by
      intro h0
      rw [usableIds, h0, eq_comm] at hids
      exact hne (List.map_eq_nil_iff.mp hids)
    obtain ⟨ids, hpicks, hlength, hrounds, hids'⟩ := ih hweighted hne' (by rwa [hids])
    rw [hids] at hrounds
    refine ⟨id :: ids, ?_, by rw [List.length_cons, hlength], .cons hround hrounds,
      hids'.trans hids⟩
    rw [picks]
    dsimp only
    rw [hpick, hpicks, List.map_cons]

theorem picks_of_usable_eq_nil (h : s.usable = []) (n : ℕ) : (s.picks n).1 = s := by
  induction n with
  | zero => rfl
  | succ n ih =>
    have hpick : s.pickWRR.1 = s := by
      rw [pickWRR, h]
    rw [picks]
    dsimp only
    rw [hpick, ih]

/-- The usable paths have positive integer weights and empty accumulators.  After any number `n`
of calls the accumulators add up to 0, each is the difference between what is due to its path and
what it took, and more than the negative sum of the weights; so no path is picked a whole time more
than is due to it.  After as many calls as the weights add up to, every path was picked as often as
its weight says, and the accumulators are empty again. -/
theorem picks_proportional (s : Scheduler ℚ) (v : String → ℕ)
    (hv : ∀ p ∈ s.usable, 0 < v p.id ∧ s.weight p = v p.id) (hrr : ∀ p ∈ s.usable, p.rr = 0)
    (n : ℕ) :
    let after := (s.picks n).1
    let total := (s.usable.map fun p => v p.id).sum
    let count := fun id => (s.picks n).2.count (some id)
    after.usable.map SchedPath.id = s.usable.map SchedPath.id ∧
      (after.usable.map SchedPath.rr).sum = 0 ∧
      (∀ p ∈ after.usable, p.rr = n * v p.id - total * count p.id ∧ -total < p.rr ∧
        (count p.id : ℚ) < n * v p.id / total + 1) ∧
      (n = total → ∀ p ∈ after.usable, count p.id = v p.id ∧ p.rr = 0) := by
  intro after total count
  by_cases hne : s.usable = []
  · have hafter : after = s := picks_of_usable_eq_nil hne n
    rw [hafter, hne]
    simp
  · have hweighted : s.Weighted v := fun p hp => (hv p hp).2
    have hsum : ∑ id ∈ s.usableIds.toFinset, v id = total := by
      rw [List.sum_toFinset _ s.nodup_usableIds, usableIds, List.map_map]
      rfl
    have hcast : ∑ id ∈ s.usableIds.toFinset, (v id : ℚ) = total := by rw [← hsum, Nat.cast_sum]
    have htotal : 0 < total := by
      obtain ⟨p, rest, husable⟩ := List.exists_cons_of_ne_nil hne
      have hp := (hv p (by rw [husable]; exact List.mem_cons_self)).1
      change 0 < (s.usable.map fun p => v p.id).sum
      rw [husable, List.map_cons, List.sum_cons]
      omega
    have hW : (0 : ℚ) < total := Nat.cast_pos.mpr htotal
    obtain ⟨ids, hpicks, hlength, hrounds, hids⟩ :=
      rounds_picks hweighted hne (by rw [hcast]; exact hW) n
    have hcount : ∀ id, count id = ids.count id := by
      intro id
      change (s.picks n).2.count (some id) = _
      rw [hpicks, List.count_map_of_injective _ _ (Option.some_injective _)]
    have hmem : ∀ p ∈ after.usable, p.id ∈ s.usableIds.toFinset := by
      intro p hp
      rw [← hids]
      exact List.mem_toFinset.mpr (List.mem_map_of_mem hp)
    have hzero : ∀ id ∈ s.usableIds.toFinset, s.account id = 0 := by
      intro id hid
      obtain ⟨p, hp, rfl⟩ := List.mem_map.mp (List.mem_toFinset.mp hid)
      rw [account_of_mem hp, hrr p hp]
    have haccount : ∀ p ∈ after.usable, p.rr = n * v p.id - total * count p.id := by
      intro p hp
      have h := hrounds.account (hmem p hp)
      rwa [account_of_mem hp, hzero _ (hmem p hp), zero_add, hlength, hcast, ← hcount] at h
    -- the invariant of the rounds: an account never falls to the negative sum of the weights
    have hlow : ∀ p ∈ after.usable, -(total : ℚ) < p.rr := by
      intro p hp
      have h := hrounds.lt_account (fun _ _ => Nat.cast_nonneg _) (by rw [hcast]; exact hW)
        (Finset.sum_eq_zero hzero)
        (fun id hid => by rw [hzero id hid, hcast]; exact neg_lt_zero.mpr hW) _ (hmem p hp)
      rwa [account_of_mem hp, hcast] at h
    refine ⟨hids, ?_, fun p hp => ⟨haccount p hp, hlow p hp, ?_⟩, fun hn p hp => ?_⟩
    · have h := hrounds.sum
      rw [Finset.sum_eq_zero hzero, ← hids, List.sum_toFinset _ (nodup_usableIds _), usableIds,
        List.map_map] at h
      rw [← h]
      congr 1
      exact List.map_congr_left fun p hp => (account_of_mem hp).symm
    · -- more than the negative sum of the weights is due
      have h := hlow p hp
      rw [haccount p hp] at h
      rw [← sub_lt_iff_lt_add, lt_div_iff₀ hW]
      linarith
    · obtain ⟨hcounts, hempty⟩ :=
        hrounds.count_eq_weight (fun _ _ => rfl) (by rw [hsum]; exact htotal)
        hzero (by rw [hlength, hn, hsum]) _ (hmem p hp)
      rw [hcount, ← account_of_mem hp]
      exact ⟨hcounts, hempty⟩

def fastAndSlow : Scheduler ℚ := ((new {}).addPath "wan1" 3).addPath "wan2" 1

/-- A cycle of four calls. -/
theorem picks_proportional_small :
    let v : String → ℕ := fun id => if id = "wan1" then 3 else 1
    (fastAndSlow.picks 4).2 = [some "wan1", some "wan1", some "wan2", some "wan1"] ∧
      ∀ p ∈ (fastAndSlow.picks 4).1.usable,
        (fastAndSlow.picks 4).2.count (some p.id) = v p.id ∧ p.rr = 0 := by
  intro v
  exact ⟨by decide +kernel, (picks_proportional fastAndSlow v (by decide +kernel) (by decide +kernel)
    4).2.2.2 (by decide +kernel)⟩

end Scheduler

end FlexBraid
