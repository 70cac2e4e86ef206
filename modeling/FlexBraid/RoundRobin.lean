import FlexBraid.Lib.Binary64
import FlexBraid.Scheduler
import Mathlib.Data.Int.CardIntervalMod

/-!
# Round-robin over equal paths

Smooth weighted round-robin with equal weights takes the paths in turn.  Between two rounds all
accumulators are zero; within a round the paths that were picked are one round behind the others,
and the first path that waits has more than all before it.  This rests on exact multiples of the
weight: where they are rounded, a path can be picked twice in a row.

## Main definitions

* `Scheduler.picks` — the paths of consecutive calls.
* `Scheduler.Turn` — where a round stands.

## Main results

* `Turn.pickWRR` — one call picks the first path that waits.
* `Turn.picks` — the paths are picked in turn.
* `Turn.countP_picks_le` — how often a window of picks takes one path.
-/

namespace FlexBraid

namespace Scheduler

variable {F : Type} [Float64 F]

/-- The paths that consecutive calls of `pickWRR` take. -/
def picks : ℕ → Scheduler F → Scheduler F × List (Option String)
  | 0, s => (s, [])
  | n + 1, s =>
    let r := s.pickWRR
    let rest := picks n r.1
    (rest.1, r.2 :: rest.2)

/-- A round of `N` healthy paths of weight `w` in which `r` were picked: those are one round behind
the others. -/
structure Turn (w : F) (N : ℕ) (m : ℤ → F) (s : Scheduler F) (r : ℕ) : Prop where
  length : s.paths.length = N
  healthy : ∀ p ∈ s.paths, p.state = .healthy
  weight : ∀ p ∈ s.paths, s.weight p = w
  served : ∀ p ∈ s.paths.take r, p.rr = m (r - N)
  waiting : ∀ p ∈ s.paths.drop r, p.rr = m r

section
variable {w : F} {N : ℕ} {m : ℤ → F} {s : Scheduler F} {r : ℕ}

/-! ### One pick -/

theorem foldl_accumulate_keep (hm : Float64.Multiples w N m) {best : SchedPath F}
    {l : List (SchedPath F)} (hweight : ∀ p ∈ l, s.weight p = w) (hid : ∀ p ∈ l, p.id ≠ best.id)
    {b : ℤ} (hb : -N ≤ b ∧ b < N) (hrr : ∀ p ∈ l, p.rr = m b) {a : ℤ} (ha : 0 ≤ a)
    (haN : a + l.length ≤ N) : l.foldl s.accumulate (m a, { best with rr := m (b + 1) }) =
      (m (a + l.length), { best with rr := m (b + 1) }) := by
  induction l generalizing a with
  | nil => simp
  | cons p l ih =>
    rw [List.forall_mem_cons] at hweight hid hrr
    rw [List.length_cons] at haN
    have hstep : s.accumulate (m a, { best with rr := m (b + 1) }) p =
        (m (a + 1), { best with rr := m (b + 1) }) := by
      unfold accumulate
      dsimp only
      rw [hweight.1, if_neg hid.1, hrr.1, hm.add b hb.1 hb.2, hm.add a (by omega) (by omega),
        hm.lt _ _ (by omega) (by omega) (by omega) (by omega)]
      simp
    rw [List.foldl_cons, hstep, ih hweight.2 hid.2 hrr.2 (by omega) (by omega), List.length_cons]
    congr 2
    omega

theorem accumulate_self (p : SchedPath F) (total : F) :
    s.accumulate (total, p) p = (total + s.weight p, { p with rr := p.rr + s.weight p }) := by
  unfold accumulate
  dsimp only
  rw [if_pos rfl, ite_self]

variable {low high : List (SchedPath F)} {p : SchedPath F}

/-- The paths before and after the first one that waits. -/
theorem Turn.split (h : Turn w N m s r) (hpaths : s.paths = low ++ p :: high)
    (hlow : low.length = r) :
    (∀ q ∈ low, q.rr = m (r - N)) ∧ (∀ q ∈ p :: high, q.rr = m r) ∧ (low.map SchedPath.id).Nodup ∧
      (∀ q ∈ low, q.id ≠ p.id) ∧ ∀ q ∈ high, q.id ≠ p.id := by
  have hserved := h.served
  have hwaiting := h.waiting
  have hnodup := s.nodup_ids
  rw [hpaths, ← hlow, List.take_left, hlow] at hserved
  rw [hpaths, ← hlow, List.drop_left, hlow] at hwaiting
  rw [hpaths, List.map_append, List.map_cons, List.nodup_append, List.nodup_cons] at hnodup
  obtain ⟨hnd, ⟨hnot, -⟩, hdisj⟩ := hnodup
  exact ⟨hserved, hwaiting, hnd,
    fun q hq => hdisj q.id (List.mem_map_of_mem hq) _ List.mem_cons_self,
    fun q hq h0 => hnot (h0 ▸ List.mem_map_of_mem hq)⟩

/-- **The loop finds the first path that waits.** -/
theorem Turn.foldl_accumulate (hm : Float64.Multiples w N m) (h : Turn w N m s r)
    {first : SchedPath F} (hpaths : s.paths = low ++ p :: high) (hlow : low.length = r)
    (hfirst : s.paths.head? = some first) :
    s.paths.foldl s.accumulate (m 0, first) = (m N, { p with rr := m (r + 1) }) := by
  obtain ⟨hserved, hwaiting, hnd, hbefore, hafter⟩ := h.split hpaths hlow
  have hlen := h.length
  have hweight := h.weight
  rw [hpaths] at hlen hweight hfirst ⊢
  rw [List.length_append, List.length_cons, hlow] at hlen
  have hp : p.rr + w = m (r + 1) := by
    rw [hwaiting p List.mem_cons_self, hm.add r (by omega) (by omega)]
  -- once the first waiting path is the best, the others that wait have no more
  have hend : ∀ a : ℤ, a = r + 1 → high.foldl s.accumulate (m a, { p with rr := m (r + 1) }) =
      (m N, { p with rr := m (r + 1) }) := by
    intro a ha
    rw [foldl_accumulate_keep hm (fun q hq => hweight q (by simp [hq])) hafter
      (by omega) (fun q hq => hwaiting q (List.mem_cons_of_mem _ hq)) (by omega) (by omega)]
    congr 2
    omega
  cases low with
  | nil =>
    obtain rfl : r = 0 := hlow.symm
    cases hfirst
    rw [List.nil_append, List.foldl_cons, accumulate_self, hweight _ (by simp), hp,
      hm.add 0 (by omega) (by omega)]
    exact hend _ (by simp)
  | cons q low =>
    rw [List.length_cons] at hlow
    obtain rfl : q = first := Option.some.inj hfirst
    rw [List.map_cons, List.nodup_cons] at hnd
    rw [List.forall_mem_cons] at hserved
    -- the paths served in this round have as much as the first of them
    rw [List.cons_append, List.foldl_cons, accumulate_self, hweight _ (by simp), hserved.1,
      hm.add (r - N) (by omega) (by omega), hm.add 0 (by omega) (by omega), List.foldl_append,
      foldl_accumulate_keep hm (fun q' hq' => hweight q' (by simp [hq']))
        (fun q' hq' h0 => hnd.1 (h0 ▸ List.mem_map_of_mem hq')) (by omega) hserved.2 (by omega)
        (by omega), List.foldl_cons]
    have hstep : s.accumulate (m (0 + 1 + low.length), { q with rr := m (r - N + 1) }) p =
        (m (r + 1), { p with rr := m (r + 1) }) := by
      unfold accumulate
      dsimp only
      rw [hweight p (by simp), if_neg (hbefore q List.mem_cons_self).symm, hp,
        hm.lt _ _ (by omega) (by omega) (by omega) (by omega),
        if_pos (by rw [decide_eq_true_eq]; omega), hm.add _ (by omega) (by omega)]
      congr 2
      omega
    rw [hstep]
    exact hend _ rfl

theorem weight_congr {s s' : Scheduler F} (hopts : s'.opts = s.opts) {p p' : SchedPath F}
    (hstate : p'.state = p.state) (hcap : p'.capacity = p.capacity) : s'.weight p' = s.weight p := by
  rw [Scheduler.weight, Scheduler.weight, hstate, hcap, hopts]

theorem pickWRR_of_foldl {first best : SchedPath F} {rest : List (SchedPath F)} {total : F}
    (husable : s.usable = first :: rest)
    (hloop : s.usable.foldl s.accumulate (Float64.ofInt 0, first) = (total, best))
    (hpos : Float64.le total (Float64.ofInt 0) = false) :
    s.pickWRR = (s.credit.update best.id (fun p => { p with rr := p.rr - total }) fun _ => rfl,
      some best.id) := by
  rw [husable] at hloop
  rw [Scheduler.pickWRR, husable]
  dsimp only
  rw [hloop]
  dsimp only
  rw [hpos]
  rfl

/-- The accumulator of a path after a call that picked `id`. -/
def settle (w total : F) (id : String) (p : SchedPath F) : SchedPath F :=
  { p with rr := if p.id = id then p.rr + w - total else p.rr + w }

theorem paths_update_credit (hhealthy : ∀ p ∈ s.paths, p.state = .healthy)
    (hweight : ∀ p ∈ s.paths, s.weight p = w) (id : String) (total : F) :
    (s.credit.update id (fun p => { p with rr := p.rr - total }) fun _ => rfl).paths =
      s.paths.map (settle w total id) := by
  change (s.paths.map _).map _ = _
  rw [List.map_map]
  apply List.map_congr_left
  intro q hq
  have hup : q.state ≠ .down := by
    rw [hhealthy q hq]
    decide
  rw [Function.comp_apply, if_pos hup, hweight q hq, settle]
  dsimp only
  split <;> rfl

/-- **One pick** takes the first path that waits. -/
theorem Turn.pickWRR (hm : Float64.Multiples w N m) (h : Turn w N m s r) (hr : r < N) :
    s.pickWRR.2 = s.ids[r]? ∧ s.pickWRR.1.ids = s.ids ∧ Turn w N m s.pickWRR.1 (r + 1) := by
  have hlen := h.length
  obtain ⟨low, p, high, hpaths, hlow⟩ : ∃ low p high, s.paths = low ++ p :: high ∧ low.length = r := by
    refine ⟨s.paths.take r, s.paths[r], s.paths.drop (r + 1), ?_, ?_⟩
    · rw [← List.drop_eq_getElem_cons, List.take_append_drop]
    · rw [List.length_take]
      omega
  have husable : s.usable = s.paths := by
    rw [usable, List.filter_eq_self]
    intro p hp
    simp [h.healthy p hp]
  obtain ⟨first, rest, hcons⟩ := List.exists_cons_of_ne_nil (show s.paths ≠ [] by simp [hpaths])
  have hloop := h.foldl_accumulate hm hpaths hlow (by rw [hcons]; rfl)
  have hpos := hm.pos
  rw [hm.zero] at hloop hpos
  have hpick := pickWRR_of_foldl (husable.trans hcons) (husable.symm ▸ hloop) hpos
  have hids : s.ids[r]? = some p.id := by
    rw [ids, hpaths, List.map_append, List.getElem?_append_right (by simp [hlow])]
    simp [hlow]
  refine ⟨by rw [hpick, hids], ids_pickWRR s, ?_⟩
  have hpaths' := paths_update_credit h.healthy h.weight p.id (m N)
  obtain ⟨hserved, hwaiting, -, hbefore, hafter⟩ := h.split hpaths hlow
  have hfront : s.paths = (low ++ [p]) ++ high := by
    rw [hpaths, List.append_assoc]
    rfl
  have hfrontlen : ((low ++ [p]).map (settle w (m N) p.id)).length = r + 1 := by
    simp [hlow]
  rw [hpick]
  constructor
  · rw [hpaths', List.length_map, hlen]
  · rw [hpaths']
    intro q' hq'
    obtain ⟨q, hq, rfl⟩ := List.mem_map.mp hq'
    exact h.healthy q hq
  · rw [hpaths']
    intro q' hq'
    obtain ⟨q, hq, rfl⟩ := List.mem_map.mp hq'
    exact (weight_congr (s := s) rfl rfl rfl).trans (h.weight q hq)
  · -- the paths served before, and the one picked now
    rw [hpaths', hfront, List.map_append, ← hfrontlen, List.take_left, hfrontlen]
    intro q' hq'
    obtain ⟨q, hq, rfl⟩ := List.mem_map.mp hq'
    have hidx : m ((r : ℤ) - N + 1) = m (((r + 1 : ℕ) : ℤ) - N) := by
      congr 1
      push_cast
      ring
    rw [settle]
    dsimp only
    rcases List.mem_append.mp hq with hq | hq
    · rw [if_neg (hbefore q hq), hserved q hq, hm.add _ (by omega) (by omega), hidx]
    · cases List.mem_singleton.mp hq
      rw [if_pos rfl, hwaiting p List.mem_cons_self, hm.add _ (by omega) (by omega),
        hm.sub _ (by omega) (by omega), ← hidx]
      congr 1
      ring
  · rw [hpaths', hfront, List.map_append, ← hfrontlen, List.drop_left, hfrontlen]
    intro q' hq'
    obtain ⟨q, hq, rfl⟩ := List.mem_map.mp hq'
    rw [settle]
    dsimp only
    rw [if_neg (hafter q hq), hwaiting q (List.mem_cons_of_mem _ hq), hm.add _ (by omega) (by omega)]
    rfl

/-! ### Windows of picks -/

theorem Turn.next_round (h : Turn w N m s N) : Turn w N m s 0 where
  length := h.length
  healthy := h.healthy
  weight := h.weight
  served p hp := by simp at hp
  waiting p hp := by
    have hp' : p ∈ s.paths.take N := by
      rwa [List.take_of_length_le h.length.le]
    rw [h.served p hp', sub_self]
    rfl

/-- **The paths are picked in turn.** -/
theorem Turn.picks (hm : Float64.Multiples w N m) (n : ℕ) {s : Scheduler F} {r : ℕ}
    (h : Turn w N m s (r % N)) (hN : 0 < N) :
    (s.picks n).2 = (List.range' r n).map (fun i => s.ids[i % N]?) ∧ (s.picks n).1.ids = s.ids ∧
      Turn w N m (s.picks n).1 ((r + n) % N) := by
  induction n generalizing s r with
  | zero => exact ⟨rfl, rfl, h⟩
  | succ n ih =>
    obtain ⟨hpick, hids, hturn⟩ := h.pickWRR hm (Nat.mod_lt r hN)
    have hnext : Turn w N m s.pickWRR.1 ((r + 1) % N) := by
      rw [← Nat.mod_add_mod]
      by_cases hlast : r % N + 1 = N
      · rw [hlast] at hturn ⊢
        rw [Nat.mod_self]
        exact hturn.next_round
      · have hlt := Nat.mod_lt r hN
        rwa [Nat.mod_eq_of_lt (by omega : r % N + 1 < N)]
    obtain ⟨hpicks, hids', hturn'⟩ := ih hnext
    refine ⟨?_, hids'.trans hids, ?_⟩
    · rw [List.range'_succ, List.map_cons, Scheduler.picks]
      dsimp only
      rw [hpick, hpicks, hids]
    · rw [Nat.add_assoc, Nat.add_comm 1 n] at hturn'
      exact hturn'

theorem countP_range'_mod_le {N n p : ℕ} (hN : 0 < N) (h : n ≤ p * N) (r c : ℕ) :
    ((List.range' r n).countP fun i => decide (i % N = c)) ≤ p := by
  by_cases hc : c < N
  · have hcard : ((List.range' r n).countP fun i => decide (i % N = c)) =
        ((Finset.Ico r (r + n)).filter fun i => i ≡ c [MOD N]).card := by
      have hnd : (List.range' r n).Nodup := List.nodup_range' (h := Nat.one_pos)
      rw [List.countP_eq_length_filter, ← List.toFinset_card_of_nodup (hnd.filter _)]
      congr 1
      ext i
      simp [Nat.ModEq, Nat.mod_eq_of_lt hc, List.mem_range'_1]
    have hceil : (⌈((r + n : ℕ) - (c : ℚ)) / N⌉ : ℤ) ≤ ⌈((r : ℚ) - c) / N⌉ + p := by
      rw [← Int.ceil_add_natCast]
      apply Int.ceil_mono
      have hNq : (0 : ℚ) < N := by exact_mod_cast hN
      rw [← sub_nonneg]
      have hn : (n : ℚ) ≤ p * N := by exact_mod_cast h
      have heq : ((r : ℚ) - c) / N + p - ((r + n : ℕ) - (c : ℚ)) / N = (p * N - n) / N := by
        field_simp
        push_cast
        ring
      rw [heq]
      exact div_nonneg (by linarith) hNq.le
    have hfilter := Nat.Ico_filter_modEq_card r (r + n) hN c
    omega
  · rw [List.countP_eq_zero.mpr]
    · exact Nat.zero_le p
    · intro i _
      have hlt := Nat.mod_lt i hN
      rw [decide_eq_true_eq]
      omega

/-- **How often a window of picks takes one path.** -/
theorem Turn.countP_picks_le (hm : Float64.Multiples w N m) (hN : 0 < N) (h : Turn w N m s (r % N))
    {n p : ℕ} (hnp : n ≤ p * N) (id : String) :
    ((s.picks n).2.countP fun pick => decide (pick = some id)) ≤ p := by
  rw [(h.picks hm n hN).1, List.countP_map]
  by_cases hmem : id ∈ s.ids
  · obtain ⟨c, hc, hid⟩ := List.getElem_of_mem hmem
    refine le_trans (List.countP_mono_left fun i _ hi => ?_) (countP_range'_mod_le hN hnp r c)
    -- the name determines the place
    rw [Function.comp_apply, decide_eq_true_eq] at hi
    obtain ⟨hlt, hi⟩ := List.getElem?_eq_some_iff.mp hi
    rw [decide_eq_true_eq]
    exact (List.Nodup.getElem_inj_iff s.nodup_ids).mp (hi.trans hid.symm)
  · rw [List.countP_eq_zero.mpr]
    · exact Nat.zero_le p
    · intro i _ hi
      rw [Function.comp_apply, decide_eq_true_eq] at hi
      exact hmem (List.mem_of_getElem? hi)

end

end Scheduler

end FlexBraid
