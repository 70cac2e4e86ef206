import FlexBraid.Fec.DecoderCalls

/-!
# The raw counters of a path

The receiver follows the counters of the pass-through frames of a stream with a cursor, the set of
the counters past it that arrived, and a timer.  A counter below the cursor is a duplicate, the one
at the cursor moves it on, past the counters that wait for it, and one above waits.  When the timer
runs out the cursor jumps to the lowest counter that waits, and what it jumps over is lost.

## Main definitions

* `RawPathStat.Call`, `RawPathStat.step` — the counters of one stream as a machine.
* `RawPathStat.observed`, `RawPathStat.inTime` — the counters observed, and those of them that the
  cursor had not passed.
* `RawPathStat.booked` — the counters that ageing books as lost.

## Main results

* `RawPathStat.accounts` — **the accounts of a stream**: received and lost make up what the cursor
  passed.
* `RawPathStat.booked_overdue` — **reordering is not booked as loss** while gaps close one at a time.
* `RawPathStat.booked_early` — a gap that another one hid is booked before its time.
* `Decoder.rawStat_exec` — the counters of a stream of a decoder follow its own calls.
-/

namespace FlexBraid

namespace RawPathStat

/-! ### One stream as a machine -/

/-- A call that concerns a stream: a counter is observed, the gaps are aged, or the counters are
read out. -/
inductive Call where
  | observe (now : Time) (seq : UInt32)
  | age (now : Time)
  | take

/-- One call, with the losses and receptions that are read out. -/
def step (ps : RawPathStat) : Call → RawPathStat × List (ℕ × ℕ)
  | .observe now seq => ((ps.observe now seq).getD ps, [])
  | .age now => (ps.ageGap now, [])
  | .take => ({ ps with lost := 0, received := 0 }, [(ps.lost, ps.received)])

def Call.counter : Call → Option ℕ
  | .observe _ seq => some seq.toNat
  | _ => none

/-- The counters observed, in order. -/
def observed (calls : List Call) : List ℕ := calls.filterMap Call.counter

@[simp] theorem counter_observe (now : Time) (seq : UInt32) :
    (Call.observe now seq).counter = some seq.toNat := rfl

@[simp] theorem counter_age (now : Time) : (Call.age now).counter = none := rfl

@[simp] theorem counter_take : Call.take.counter = none := rfl

/-- The counter a call observes, if the cursor has not passed it. -/
def timely (ps : RawPathStat) (c : Call) : Finset ℕ :=
  c.counter.toFinset.filter fun n => ps.next ≤ n

/-- The counters that a run observes before its cursor has passed them. -/
def inTime : RawPathStat → List Call → Finset ℕ
  | _, [] => ∅
  | ps, c :: cs => ps.timely c ∪ inTime (ps.step c).1 cs

/-- The losses that were read out. -/
def lostIn (out : List (ℕ × ℕ)) : ℕ := (out.map Prod.fst).sum

/-- The receptions that were read out. -/
def receivedIn (out : List (ℕ × ℕ)) : ℕ := (out.map Prod.snd).sum

/-! ### The accounts -/

/-- The accounts of a stream with the first counter `first`, when `tl` losses and `tr` receptions
were read out, the counters `seen` were observed, and those in `intime` in time.  While the cursor
moves on, the counter at it may wait. -/
structure Counted (first tl tr : ℕ) (seen intime : Finset ℕ) (ps : RawPathStat) : Prop where
  total : first + (tr + ps.received) + (tl + ps.lost) = ps.next
  seeded : first < ps.next
  small : ∀ n ∈ seen, n < 2 ^ 32
  low : ∀ n ∈ intime, first ≤ n
  waits : ∀ n, n ∈ ps.pending ↔ n ∈ seen ∧ ps.next ≤ n
  timely : ∀ n, n ∈ ps.pending ↔ n ∈ intime ∧ ps.next ≤ n
  received : tr + ps.received = (intime.filter (· < ps.next)).card

/-- The accounts between two calls: the counter at the cursor is missing, and the timer runs
exactly while counters wait. -/
structure Settled (first tl tr : ℕ) (seen intime : Finset ℕ) (ps : RawPathStat) : Prop
    extends Counted first tl tr seen intime ps where
  missing : ps.next ∉ ps.pending
  gap : ps.gapSince.isSome = true ↔ ps.pending.size ≠ 0

variable {first tl tr : ℕ} {seen intime : Finset ℕ} {ps : RawPathStat}

/-- The counter at the cursor is received, whether it just arrived or waited. -/
theorem Counted.receive (h : Counted first tl tr seen intime ps) (hlt : ps.next < 2 ^ 32)
    (pending : GoMap ℕ Unit) (hpending : ∀ n, n ∈ pending ↔ n ≠ ps.next ∧ n ∈ ps.pending) :
    Counted first tl tr (insert ps.next seen) (insert ps.next intime)
      { ps with pending := pending, received := ps.received + 1, next := ps.next + 1 } where
  total := by
    have htotal := h.total
    dsimp only
    omega
  seeded := Nat.lt_succ_of_lt h.seeded
  small n hn := by
    rcases Finset.mem_insert.mp hn with rfl | hn
    · exact hlt
    · exact h.small n hn
  low n hn := by
    rcases Finset.mem_insert.mp hn with rfl | hn
    · exact h.seeded.le
    · exact h.low n hn
  waits n := by
    rw [hpending, h.waits, Finset.mem_insert]
    dsimp only
    grind
  timely n := by
    rw [hpending, h.timely, Finset.mem_insert]
    dsimp only
    grind
  received := by
    have hinsert : (insert ps.next intime).filter (· < ps.next + 1) =
        insert ps.next (intime.filter (· < ps.next)) := by
      ext n
      simp only [Finset.mem_filter, Finset.mem_insert]
      grind
    dsimp only
    rw [hinsert, Finset.card_insert_of_notMem (by simp), ← h.received, Nat.add_assoc]

/-- **Draining** receives the run of counters at the cursor, and leaves the timer alone. -/
theorem Counted.drain (h : Counted first tl tr seen intime ps) {fuel : ℕ}
    (hfuel : ps.pending.size ≤ fuel) : Counted first tl tr seen intime (drain fuel ps) ∧
      (drain fuel ps).next ∉ (drain fuel ps).pending ∧ (drain fuel ps).gapSince = ps.gapSince := by
  induction fuel generalizing ps with
  | zero =>
    refine ⟨h, ?_, rfl⟩
    change ps.next ∉ ps.pending
    rw [AList.size_eq_zero.mp (Nat.le_zero.mp hfuel)]
    exact AList.notMem_empty _
  | succ fuel ih =>
    rw [RawPathStat.drain]
    split
    · next hnone => exact ⟨h, AList.lookup_eq_none.mp (Option.isNone_iff_eq_none.mp hnone), rfl⟩
    · next hsome =>
      have hmem : ps.next ∈ ps.pending := by
        rw [← AList.lookup_isSome]
        exact Option.isSome_iff_ne_none.mpr (by simpa using hsome)
      -- the counter was observed, and in time, when it began to wait
      have hseen := ((h.waits ps.next).mp hmem).1
      have hintime := ((h.timely ps.next).mp hmem).1
      have hnext := h.receive (h.small _ hseen) (ps.pending.erase ps.next) fun n =>
        AList.mem_erase
      rw [Finset.insert_eq_of_mem hseen, Finset.insert_eq_of_mem hintime] at hnext
      have hsize := AList.size_erase_of_mem hmem
      exact ih hnext (by change (ps.pending.erase ps.next).size ≤ _; omega)

theorem drainPathPending_of_size (h : ps.pending.size = 0) : ps.drainPathPending = ps := by
  rw [RawPathStat.drainPathPending, h, RawPathStat.drain]

theorem Counted.drainPathPending (h : Counted first tl tr seen intime ps) :
    Counted first tl tr seen intime ps.drainPathPending ∧
      ps.drainPathPending.next ∉ ps.drainPathPending.pending ∧
      ps.drainPathPending.gapSince = ps.gapSince :=
  h.drain le_rfl

/-- The lowest counter that waits. -/
theorem Counted.lowest (h : Counted first tl tr seen intime ps) (hsize : ps.pending.size ≠ 0) :
    ps.pending.keys.foldl min (2 ^ 64 - 1) ∈ ps.pending ∧
      ∀ n ∈ ps.pending, ps.pending.keys.foldl min (2 ^ 64 - 1) ≤ n := by
  obtain ⟨lo, hlo⟩ : ∃ lo, ps.pending.keys.min? = some lo :=
    Option.isSome_iff_exists.mp (List.isSome_min?_of_ne_nil (List.length_pos_iff.mp
      (Nat.pos_of_ne_zero hsize)))
  obtain ⟨hmem, hle⟩ := List.min?_eq_some_iff.mp hlo
  have hmem : lo ∈ ps.pending := AList.mem_keys.mpr hmem
  have hsmall := h.small lo ((h.waits lo).mp hmem).1
  rw [List.foldl_min, hlo, Option.getD_some, Nat.min_eq_right (by omega)]
  exact ⟨hmem, fun n hn => hle n (AList.mem_keys.mp hn)⟩

theorem Counted.skip (h : Counted first tl tr seen intime ps) {lo : ℕ} (hmem : lo ∈ ps.pending)
    (hle : ∀ n ∈ ps.pending, lo ≤ n) :
    Counted first tl tr seen intime { ps with lost := ps.lost + (lo - ps.next), next := lo } := by
  have hlo := ((h.waits lo).mp hmem).2
  have hseeded := h.seeded
  have htotal := h.total
  refine ⟨?_, ?_, h.small, h.low, fun n => ?_, fun n => ?_, ?_⟩
  · dsimp only
    omega
  · dsimp only
    omega
  · -- what was observed past the cursor waits, so none of it is below the lowest
    refine ⟨fun hn => ⟨((h.waits n).mp hn).1, hle n hn⟩, ?_⟩
    rintro ⟨hn, hlon⟩
    exact (h.waits n).mpr ⟨hn, hlo.trans hlon⟩
  · refine ⟨fun hn => ⟨((h.timely n).mp hn).1, hle n hn⟩, ?_⟩
    rintro ⟨hn, hlon⟩
    exact (h.timely n).mpr ⟨hn, hlo.trans hlon⟩
  · rw [h.received]
    congr 1
    refine Finset.filter_congr fun n hn => ?_
    constructor
    · intro hlt
      exact hlt.trans_le hlo
    · intro hlt
      by_contra hge
      exact Nat.not_le.mpr hlt (hle n ((h.timely n).mpr ⟨hn, Nat.le_of_not_lt hge⟩))

/-! ### One call -/

/-- The next counter, or one that waits, changes the accounts; one below the cursor does not. -/
theorem Settled.observe (h : Settled first tl tr seen intime ps) (now : Time) (seq : UInt32) :
    Settled first tl tr (insert seq.toNat seen)
      (if ps.next ≤ seq.toNat then insert seq.toNat intime else intime)
      ((ps.observe now seq).getD ps) := by
  have hseeded := h.seeded
  have hlt : seq.toNat < 2 ^ 32 := seq.toNat_lt
  unfold RawPathStat.observe
  dsimp only
  rw [if_neg (show ps.next ≠ 0 by omega)]
  rcases Nat.lt_trichotomy seq.toNat ps.next with hold | hnext | hahead
  · rw [if_pos hold, if_neg (Nat.not_le.mpr hold), Option.getD_none]
    refine { h with small := ?_, waits := fun n => ?_ }
    · intro n hn
      rcases Finset.mem_insert.mp hn with rfl | hn
      · exact hlt
      · exact h.small n hn
    · rw [h.waits, Finset.mem_insert]
      grind
  · rw [if_neg hnext.not_lt, if_pos hnext, if_pos hnext.ge, hnext, Option.getD_some]
    obtain ⟨hcounted, hmissing, hgap⟩ :=
      (h.receive (hnext ▸ hlt) ps.pending fun n =>
        ⟨fun hn => ⟨fun heq => h.missing (heq ▸ hn), hn⟩, And.right⟩).drainPathPending
    split
    · next hempty =>
      exact { hcounted with missing := hmissing, gap := by simp [hempty] }
    · next hpending =>
      refine { hcounted with missing := hmissing, gap := ?_ }
      -- what waits still waited before, so the timer was running
      rw [hgap]
      refine ⟨fun _ => hpending, fun _ => h.gap.mpr fun hempty => hpending ?_⟩
      rw [drainPathPending_of_size (by exact hempty)]
      exact hempty
  · rw [if_neg hahead.not_gt, if_neg hahead.ne', if_pos hahead.le, Option.getD_some]
    refine { h with small := ?_, low := ?_, waits := fun n => ?_, timely := fun n => ?_,
                    received := ?_, missing := ?_, gap := ?_ }
    · intro n hn
      rcases Finset.mem_insert.mp hn with rfl | hn
      · exact hlt
      · exact h.small n hn
    · intro n hn
      rcases Finset.mem_insert.mp hn with rfl | hn
      · exact (hseeded.trans hahead).le
      · exact h.low n hn
    · rw [AList.mem_insert, h.waits, Finset.mem_insert]
      grind
    · rw [AList.mem_insert, h.timely, Finset.mem_insert]
      grind
    · rw [h.received, Finset.filter_insert, if_neg (by dsimp only; omega)]
    · rw [AList.mem_insert]
      rintro (heq | hmem)
      · exact hahead.ne heq
      · exact h.missing hmem
    · refine ⟨fun _ => AList.size_ne_zero.mpr ⟨seq.toNat, (AList.mem_insert _).mpr (.inl rfl)⟩, ?_⟩
      intro _
      dsimp only
      split
      · rfl
      · next hgap => simpa [Option.isSome_iff_ne_none] using hgap

theorem Settled.ageGap (h : Settled first tl tr seen intime ps) (now : Time) :
    Settled first tl tr seen intime (ps.ageGap now) := by
  unfold RawPathStat.ageGap
  split
  · exact h
  · next hgap =>
    split
    · exact h
    · rw [Bool.or_eq_true, not_or, Bool.not_eq_true, Bool.not_eq_true, Option.isNone_eq_false_iff]
        at hgap
      -- the timer runs, so some counter waits
      have hsize := h.gap.mp hgap.2
      rw [if_neg hsize]
      obtain ⟨hmem, hle⟩ := h.lowest hsize
      obtain ⟨hcounted, hmissing, -⟩ := (h.skip hmem hle).drainPathPending
      refine { hcounted with missing := hmissing, gap := ?_ }
      dsimp only
      split
      · next hempty => exact iff_of_false Bool.false_ne_true (not_not.mpr hempty)
      · next hpending => exact iff_of_true rfl hpending

/-- **One call keeps the accounts.** -/
theorem settled_step (h : Settled first tl tr seen intime ps) (c : Call) :
    Settled first (tl + lostIn (ps.step c).2) (tr + receivedIn (ps.step c).2)
      (seen ∪ c.counter.toFinset) (intime ∪ ps.timely c) (ps.step c).1 := by
  cases c with
  | observe now seq =>
    have hobserve := h.observe now seq
    have hseen : seen ∪ (Call.observe now seq).counter.toFinset = insert seq.toNat seen := by
      rw [counter_observe, Option.toFinset_some, Finset.union_comm, Finset.singleton_union]
    have hintime : intime ∪ ps.timely (.observe now seq) =
        if ps.next ≤ seq.toNat then insert seq.toNat intime else intime := by
      rw [timely, counter_observe, Option.toFinset_some, Finset.filter_singleton]
      split
      · rw [Finset.union_comm, Finset.singleton_union]
      · rw [Finset.union_empty]
    rw [hseen, hintime]
    exact hobserve
  | age now =>
    have hage := h.ageGap now
    simpa [timely, step, lostIn, receivedIn] using hage
  | take =>
    have htotal := h.total
    have hreceived := h.received
    simp only [timely, step, lostIn, receivedIn, counter_take, Option.toFinset_none,
      Finset.filter_empty, Finset.union_empty, List.map_cons, List.map_nil, List.sum_singleton]
    exact { h with total := by dsimp only; omega, received := hreceived }

/-! ### Runs -/

theorem lostIn_append (out out' : List (ℕ × ℕ)) :
    lostIn (out ++ out') = lostIn out + lostIn out' := by
  simp [lostIn]

theorem receivedIn_append (out out' : List (ℕ × ℕ)) :
    receivedIn (out ++ out') = receivedIn out + receivedIn out' := by
  simp [receivedIn]

theorem toFinset_observed_cons (c : Call) (calls : List Call) :
    (observed (c :: calls)).toFinset = c.counter.toFinset ∪ (observed calls).toFinset := by
  rw [observed, List.filterMap_cons]
  split
  · next hnone => rw [hnone, Option.toFinset_none, Finset.empty_union]; rfl
  · next n hsome =>
    rw [hsome, Option.toFinset_some, List.toFinset_cons, Finset.singleton_union]
    rfl

/-- A run keeps the accounts. -/
theorem settled_run (h : Settled first tl tr seen intime ps) (calls : List Call) :
    Settled first (tl + lostIn (Run.outputs step ps calls).flatten)
      (tr + receivedIn (Run.outputs step ps calls).flatten) (seen ∪ (observed calls).toFinset)
      (intime ∪ inTime ps calls) (Run.exec step ps calls) := by
  induction calls generalizing tl tr seen intime ps with
  | nil => simpa [lostIn, receivedIn, observed, inTime] using h
  | cons c calls ih =>
    have hrun := ih (settled_step h c)
    rwa [Finset.union_assoc, Finset.union_assoc, ← toFinset_observed_cons, Nat.add_assoc,
      Nat.add_assoc, ← lostIn_append, ← receivedIn_append] at hrun

theorem settled_seed (now : Time) (seq : UInt32) :
    Settled seq.toNat 0 0 {seq.toNat} {seq.toNat} (({} : RawPathStat).step (.observe now seq)).1 where
  total := by
    change seq.toNat + (0 + (0 + 1)) + (0 + 0) = seq.toNat + 1
    omega
  seeded := Nat.lt_succ_self _
  small n hn := by
    rw [Finset.mem_singleton.mp hn]
    exact seq.toNat_lt
  low n hn := (Finset.mem_singleton.mp hn).ge
  waits n := by
    change n ∈ (∅ : GoMap ℕ Unit) ↔ n ∈ ({seq.toNat} : Finset ℕ) ∧ seq.toNat + 1 ≤ n
    rw [Finset.mem_singleton]
    exact iff_of_false (AList.notMem_empty n) (by omega)
  timely n := by
    change n ∈ (∅ : GoMap ℕ Unit) ↔ n ∈ ({seq.toNat} : Finset ℕ) ∧ seq.toNat + 1 ≤ n
    rw [Finset.mem_singleton]
    exact iff_of_false (AList.notMem_empty n) (by omega)
  received := by
    change 0 + (0 + 1) = (Finset.filter (· < seq.toNat + 1) {seq.toNat}).card
    rw [Finset.filter_singleton, if_pos (Nat.lt_succ_self _), Finset.card_singleton]
  missing := AList.notMem_empty _
  gap := by simp [step, RawPathStat.observe]

theorem fresh_age (now : Time) : ({} : RawPathStat).step (.age now) = ({}, []) := rfl

theorem fresh_take : ({} : RawPathStat).step .take = ({}, [(0, 0)]) := rfl

variable {calls : List Call} {c : Call} {n : ℕ}

theorem settled_of_observed {first : ℕ} (hfirst : (observed calls).head? = some first) :
    Settled first (lostIn (Run.outputs step {} calls).flatten)
      (receivedIn (Run.outputs step {} calls).flatten) (observed calls).toFinset
      (inTime {} calls) (Run.exec step {} calls) := by
  induction calls with
  | nil => cases hfirst
  | cons c calls ih =>
    rw [toFinset_observed_cons]
    cases c with
    | observe now seq =>
      cases hfirst
      have hrun := settled_run (settled_seed now seq) calls
      rw [Nat.zero_add, Nat.zero_add] at hrun
      simpa [inTime, timely, step, lostIn, receivedIn] using hrun
    | age now =>
      have hrun := ih hfirst
      simpa [inTime, timely, lostIn, receivedIn, fresh_age] using hrun
    | take =>
      have hrun := ih hfirst
      simpa [inTime, timely, lostIn, receivedIn, fresh_take] using hrun

/-- **The accounts of a stream.**  After every run on a stream whose first counter is `first`, what
was received and what was lost, read out or held, make up the counters the cursor passed.  What
waits are the observed counters past the cursor, never the one at it; what was received are the
distinct counters observed before the cursor passed them; and the timer runs exactly while counters
wait, so ageing never finds it running with none. -/
theorem accounts (calls : List Call) (first : ℕ) (hfirst : (observed calls).head? = some first) :
    let ps := Run.exec step {} calls
    let out := (Run.outputs step {} calls).flatten
    first < ps.next ∧
      (receivedIn out + ps.received) + (lostIn out + ps.lost) = ps.next - first ∧
      (∀ n, n ∈ ps.pending ↔ n ∈ observed calls ∧ ps.next < n) ∧
      ps.next ∉ ps.pending ∧
      receivedIn out + ps.received =
        ((inTime {} calls).filter fun n => first ≤ n ∧ n < ps.next).card ∧
      (ps.gapSince.isSome = true ↔ ps.pending.size ≠ 0) := by
  intro ps out
  have h := settled_of_observed hfirst
  have htotal : first + (receivedIn out + ps.received) + (lostIn out + ps.lost) = ps.next := h.total
  refine ⟨h.seeded, by omega, fun n => ?_, h.missing, ?_, h.gap⟩
  · constructor
    · intro hn
      obtain ⟨hseen, hle⟩ := (h.waits n).mp hn
      have hne : n ≠ ps.next := fun heq => h.missing (heq ▸ hn)
      exact ⟨List.mem_toFinset.mp hseen, lt_of_le_of_ne hle hne.symm⟩
    · rintro ⟨hseen, hlt⟩
      exact (h.waits n).mpr ⟨List.mem_toFinset.mpr hseen, hlt.le⟩
  · rw [h.received]
    congr 1
    exact Finset.filter_congr fun n hn => (and_iff_right (h.low n hn)).symm

/-- Counter 1 comes after 2 and 4, while 3 is still on its way: the gap at 1 closes and the gap at 3
is left. -/
def overlapping : List Call :=
  [.observe 0 0, .observe 0 2, .take, .observe (39 * millisecond) 4,
    .observe (39 * millisecond + 500000) 1]

theorem accounts_small : (observed overlapping).head? = some 0 ∧
      (Run.exec step {} overlapping).next ∉ (Run.exec step {} overlapping).pending :=
  ⟨by decide, (accounts overlapping 0 (by decide)).2.2.2.1⟩

/-! ### What ageing books as lost -/

def Call.time : Call → Option Time
  | .observe now _ => some now
  | .age now => some now
  | .take => none

/-- The instants of the calls never go back. -/
def Timed (calls : List Call) : Prop := (calls.filterMap Call.time).Pairwise (· ≤ ·)

/-- The observation a call makes. -/
def Call.sighting : Call → Option (Time × ℕ)
  | .observe now seq => some (now, seq.toNat)
  | _ => none

theorem Call.time_of_sighting {o : Time × ℕ} (h : c.sighting = some o) : c.time = some o.1 := by
  cases c with
  | observe now seq =>
    cases h
    rfl
  | age now => cases h
  | take => cases h

/-- When a counter greater than `n` was first observed. -/
def firstAbove (calls : List Call) (n : ℕ) : Option Time :=
  ((calls.filterMap Call.sighting).find? fun o => n < o.2).map Prod.fst

/-- The counters that ageing adds to the losses: those the cursor passes that do not wait. -/
def booked (ps : RawPathStat) (now : Time) : List ℕ :=
  (List.range' ps.next ((ps.ageGap now).next - ps.next)).filter fun n => n ∉ ps.pending

/-- When the counter at the cursor arrives, what waits follows it without a further gap. -/
def oneGap (ps : RawPathStat) : Call → Bool
  | .observe _ seq => seq.toNat != ps.next ||
      ps.pending.keys.all fun n => n = ps.next + 1 || (ps.pending.lookup (n - 1)).isSome
  | _ => true

theorem mem_of_drain {fuel : ℕ} (hlt : n < (drain fuel ps).next) (hle : ps.next ≤ n) :
    n ∈ ps.pending := by
  induction fuel generalizing ps with
  | zero => exact absurd hlt (Nat.not_lt.mpr hle)
  | succ fuel ih =>
    rw [RawPathStat.drain] at hlt
    split at hlt
    · exact absurd hlt (Nat.not_lt.mpr hle)
    · next hsome =>
      have hmem : ps.next ∈ ps.pending := by
        rw [← AList.lookup_isSome]
        exact Option.isSome_iff_ne_none.mpr (by simpa using hsome)
      rcases Nat.eq_or_lt_of_le hle with rfl | hpast
      · exact hmem
      · exact (AList.mem_erase.mp (ih hlt (by exact hpast))).2

/-- What ageing can do: nothing, or jump to the lowest counter that waits once the timer ran for
the whole window. -/
theorem Settled.ageGap_cases (h : Settled first tl tr seen intime ps) (now : Time) :
    ps.ageGap now = ps ∨
      ∃ since lo, ps.gapSince = some since ∧ pathGapWindow ≤ now - since ∧ lo ∈ ps.pending ∧
        (∀ n ∈ ps.pending, lo ≤ n) ∧ (ps.ageGap now).next = (drain ps.pending.size { ps with
          lost := ps.lost + (lo - ps.next), next := lo }).next ∧
        ∀ t, (ps.ageGap now).gapSince = some t → t = now := by
  rcases Option.eq_none_or_eq_some ps.gapSince with hgap | ⟨since, hgap⟩
  · left
    rw [RawPathStat.ageGap, if_pos (by simp [hgap])]
  · have hsize : ps.pending.size ≠ 0 := h.gap.mp (by rw [hgap]; rfl)
    have hseeded := h.seeded
    obtain ⟨hmem, hle⟩ := h.lowest hsize
    unfold RawPathStat.ageGap
    rw [if_neg (by simp [hgap]; omega), if_neg hsize]
    split
    · exact .inl rfl
    · next helapsed =>
      refine .inr ⟨since, _, hgap, ?_, hmem, hle, rfl, fun t ht => ?_⟩
      · simpa [elapsed, hgap] using helapsed
      · dsimp only at ht
        split at ht
        · cases ht
        · exact (Option.some.inj ht).symm

/-- Counters wait without a gap from the cursor on. -/
def Solid (ps : RawPathStat) : Prop :=
  ∀ n ∈ ps.pending, ps.next ≤ n ∧ (n = ps.next ∨ n - 1 ∈ ps.pending)

theorem Solid.drain (h : Solid ps) (fuel : ℕ) : Solid (drain fuel ps) := by
  induction fuel generalizing ps with
  | zero => exact h
  | succ fuel ih =>
    rw [RawPathStat.drain]
    split
    · exact h
    · apply ih
      intro n hn
      obtain ⟨hne, hmem⟩ := AList.mem_erase.mp hn
      obtain ⟨hle, hprev⟩ := h n hmem
      have hlt : ps.next < n := lt_of_le_of_ne hle (Ne.symm hne)
      refine ⟨hlt, ?_⟩
      by_cases heq : n = ps.next + 1
      · exact .inl heq
      · refine .inr (AList.mem_erase.mpr ⟨by omega, ?_⟩)
        exact hprev.resolve_left hne

theorem Solid.empty (h : Solid ps) (hmissing : ps.next ∉ ps.pending) : ps.pending.size = 0 := by
  by_contra hsize
  obtain ⟨n, hn⟩ := AList.size_ne_zero.mp hsize
  induction n using Nat.strong_induction_on with
  | _ n ih =>
    obtain ⟨hle, rfl | hprev⟩ := h n hn
    · exact hmissing hn
    · have hne : n ≠ ps.next := fun heq => hmissing (heq ▸ hn)
      exact ih (n - 1) (by omega) hprev

theorem Settled.solid_of_oneGap (h : Settled first tl tr seen intime ps) {now : Time}
    {seq : UInt32} (hnext : seq.toNat = ps.next) (hone : ps.oneGap (.observe now seq) = true) :
    Solid { ps with received := ps.received + 1, next := ps.next + 1 } := by
  have hfollow : ∀ n ∈ ps.pending, n = ps.next + 1 ∨ n - 1 ∈ ps.pending := by
    simpa [oneGap, hnext, AList.mem_keys, AList.lookup_isSome] using hone
  intro n hn
  have hne : n ≠ ps.next := fun heq => h.missing (heq ▸ hn)
  exact ⟨lt_of_le_of_ne ((h.waits n).mp hn).2 hne.symm, hfollow n hn⟩

/-- While counters wait, the timer was started at or after the observation of one of them. -/
def Dated (calls : List Call) (ps : RawPathStat) : Prop :=
  ∀ since, ps.gapSince = some since →
    ∃ n ∈ ps.pending, ∃ t, (t, n) ∈ calls.filterMap Call.sighting ∧ t ≤ since

theorem Dated.append (h : Dated calls ps) (c : Call) : Dated (calls ++ [c]) ps := by
  intro since hsince
  obtain ⟨n, hn, t, ht, hle⟩ := h since hsince
  rw [List.filterMap_append]
  exact ⟨n, hn, t, List.mem_append_left _ ht, hle⟩

theorem exists_sighting (h : n ∈ observed calls) : ∃ t, (t, n) ∈ calls.filterMap Call.sighting := by
  obtain ⟨c, hc, hn⟩ := List.mem_filterMap.mp h
  cases c with
  | observe now seq =>
    cases hn
    exact ⟨now, List.mem_filterMap.mpr ⟨_, hc, rfl⟩⟩
  | age now => cases hn
  | take => cases hn

theorem Timed.sighting_le (h : Timed (calls ++ [c])) {now : Time} (hnow : c.time = some now)
    {t : Time} (ht : (t, n) ∈ calls.filterMap Call.sighting) : t ≤ now := by
  rw [Timed, List.filterMap_append, List.pairwise_append] at h
  obtain ⟨c', hc', hsighting⟩ := List.mem_filterMap.mp ht
  have htime := List.mem_filterMap.mpr ⟨c', hc', Call.time_of_sighting hsighting⟩
  exact h.2.2 t htime now (by simp [hnow])

theorem dated_step (h : Settled first tl tr (observed calls).toFinset intime ps)
    (hdated : Dated calls ps) (htimed : Timed (calls ++ [c])) (hone : ps.oneGap c = true) :
    Dated (calls ++ [c]) (ps.step c).1 := by
  cases c with
  | observe now seq =>
    have hseeded := h.seeded
    unfold step RawPathStat.observe
    dsimp only
    rw [if_neg (show ps.next ≠ 0 by omega)]
    rcases Nat.lt_trichotomy seq.toNat ps.next with hold | hnext | hahead
    · rw [if_pos hold, Option.getD_none]
      exact hdated.append _
    · -- what waits follows the counter that came, so all of it is received
      rw [if_neg hnext.not_lt, if_pos hnext, hnext, Option.getD_some]
      have hsolid : Solid (RawPathStat.drainPathPending _) := (h.solid_of_oneGap hnext hone).drain _
      have hmissing := (h.receive (hnext ▸ seq.toNat_lt) ps.pending fun n =>
        ⟨fun hn => ⟨fun heq => h.missing (heq ▸ hn), hn⟩, And.right⟩).drainPathPending.2.1
      rw [if_pos (hsolid.empty hmissing)]
      rintro since ⟨⟩
    · rw [if_neg hahead.not_gt, if_neg hahead.ne', Option.getD_some]
      intro since hsince
      dsimp only at hsince
      split at hsince
      · cases hsince
        refine ⟨seq.toNat, (AList.mem_insert _).mpr (.inl rfl), now, ?_, le_rfl⟩
        simp [Call.sighting]
      · obtain ⟨n, hn, hrest⟩ := hdated.append (.observe now seq) since hsince
        exact ⟨n, (AList.mem_insert _).mpr (.inr hn), hrest⟩
  | age now =>
    rcases h.ageGap_cases now with heq | ⟨_, _, -, -, -, -, -, hrestart⟩
    · rw [step, heq]
      exact hdated.append _
    · intro since hsince
      have h' := h.ageGap now
      -- what still waits was observed before
      obtain ⟨n, hn⟩ := AList.size_ne_zero.mp (h'.gap.mp (Option.isSome_iff_exists.mpr ⟨_, hsince⟩))
      obtain ⟨t, ht⟩ := exists_sighting (List.mem_toFinset.mp ((h'.waits n).mp hn).1)
      refine ⟨n, hn, t, ?_, ?_⟩
      · rw [List.filterMap_append]
        exact List.mem_append_left _ ht
      · rw [hrestart since hsince]
        exact htimed.sighting_le rfl ht
  | take => exact hdated.append _

theorem exec_of_unobserved (h : observed calls = []) : Run.exec step {} calls = {} := by
  induction calls with
  | nil => rfl
  | cons c calls ih =>
    cases c with
    | observe now seq => cases h
    | age now => exact ih h
    | take => exact ih h

theorem dated_run (calls : List Call) (htimed : Timed calls)
    (hone : Run.Along step (fun ps c => ps.oneGap c = true) {} calls) :
    Dated calls (Run.exec step {} calls) := by
  induction calls using List.reverseRecOn with
  | nil =>
    intro since hsince
    cases hsince
  | append_singleton calls c ih =>
    have hbefore : Timed calls := by
      rw [Timed, List.filterMap_append, List.pairwise_append] at htimed
      exact htimed.1
    rw [Run.along_append] at hone
    rw [Run.exec_append]
    cases hfirst : (observed calls).head? with
    | none =>
      rw [exec_of_unobserved (List.head?_eq_none_iff.mp hfirst)]
      intro since hsince
      cases c <;> cases hsince
    | some first =>
      exact dated_step (settled_of_observed hfirst) (ih hbefore hone.1) htimed hone.2.1

theorem exists_firstAbove (htimed : Timed calls) {t : Time} {m : ℕ}
    (h : (t, m) ∈ calls.filterMap Call.sighting) (hlt : n < m) :
    ∃ t', firstAbove calls n = some t' ∧ t' ≤ t := by
  have hsorted : (calls.filterMap Call.sighting).Pairwise fun o o' => o.1 ≤ o'.1 := by
    rw [Timed, List.pairwise_filterMap] at htimed
    rw [List.pairwise_filterMap]
    refine htimed.imp ?_
    intro c c' hle o ho o' ho'
    exact hle o.1 (Call.time_of_sighting ho) o'.1 (Call.time_of_sighting ho')
  cases hfind : (calls.filterMap Call.sighting).find? fun o => n < o.2 with
  | none => exact absurd hlt (by simpa using List.find?_eq_none.mp hfind _ h)
  | some o =>
    refine ⟨o.1, by rw [firstAbove, hfind]; rfl, ?_⟩
    obtain ⟨-, l, l', hl, hbefore⟩ := List.find?_eq_some_iff_append.mp hfind
    rw [hl] at h hsorted
    rw [List.pairwise_append, List.pairwise_cons] at hsorted
    rcases List.mem_append.mp h with hmem | hmem
    · exact absurd hlt (by simpa using hbefore _ hmem)
    · rcases List.mem_cons.mp hmem with rfl | hmem
      · exact le_rfl
      · exact hsorted.2.1.1 _ hmem

/-- **Reordering within the window is not booked as loss**, as long as gaps close one at a time: a
counter that ageing adds to the losses was not observed, and the window went by since a counter
greater than it was first observed. -/
theorem booked_overdue (calls : List Call) (now : Time) (htimed : Timed (calls ++ [.age now]))
    (hone : Run.Along step (fun ps c => ps.oneGap c = true) {} calls) (n : ℕ)
    (hn : n ∈ (Run.exec step {} calls).booked now) :
    n ∉ observed calls ∧ ∃ t, firstAbove calls n = some t ∧ pathGapWindow ≤ now - t := by
  have hbefore : Timed calls := by
    rw [Timed, List.filterMap_append, List.pairwise_append] at htimed
    exact htimed.1
  obtain ⟨hrange, hmissing⟩ := List.mem_filter.mp hn
  rw [List.mem_range'_1] at hrange
  have hmissing : n ∉ (Run.exec step {} calls).pending := by simpa using hmissing
  cases hfirst : (observed calls).head? with
  | none =>
    rw [exec_of_unobserved (List.head?_eq_none_iff.mp hfirst)] at hn
    cases hn
  | some first =>
    have h := settled_of_observed hfirst
    refine ⟨fun hseen => hmissing ((h.waits n).mpr ⟨List.mem_toFinset.mpr hseen, hrange.1⟩), ?_⟩
    rcases h.ageGap_cases now with heq | ⟨since, lo, hsince, hwindow, hlo, hle, hnext, -⟩
    · rw [heq] at hrange
      omega
    · -- the cursor only passes counters that wait after the lowest of them
      have hlt : n < lo := by
        by_contra hge
        have hpast : n < ((Run.exec step {} calls).ageGap now).next := by omega
        rw [hnext] at hpast
        have hmem := mem_of_drain hpast (Nat.le_of_not_lt hge)
        exact hmissing hmem
      obtain ⟨m, hm, t, ht, hts⟩ := dated_run calls hbefore hone since hsince
      obtain ⟨t', ht', htt⟩ := exists_firstAbove hbefore ht (hlt.trans_le (hle m hm))
      exact ⟨t', ht', hwindow.trans (sub_le_sub_left (htt.trans hts) now)⟩

theorem booked_overdue_small :
    1 ∈ (Run.exec step {} (overlapping.take 2)).booked (40 * millisecond) ∧
      1 ∉ observed (overlapping.take 2) :=
  ⟨by decide,
    (booked_overdue (overlapping.take 2) (40 * millisecond) (by unfold Timed; decide)
      (by decide) 1 (by decide)).1⟩

/-- The gap at 3 is as old as the gap at 1 was: it is booked a millisecond after a counter past it
was first observed. -/
theorem booked_early : Timed (overlapping ++ [.age (40 * millisecond)]) ∧
      (Run.exec step {} overlapping).booked (40 * millisecond) = [3] ∧
      firstAbove overlapping 3 = some (39 * millisecond) ∧
      40 * millisecond - 39 * millisecond < pathGapWindow := by
  unfold Timed
  decide

end RawPathStat

/-! ### The streams of a decoder -/

namespace Decoder

variable {F C : Type} {RS : ReedSolomon C}

variable {d : Decoder F C}

theorem pathSeq_push {now : Time} {path : String} {f : Frame} {r : Decoder F C × List Frame}
    (h : d.push RS now path f = some r) :
    r.1.pathSeq =
      if f.hasFlag flagPassSeq && !f.hasFlag flagFECParity then
        (d.observePathSeq now f.sessionID path f.blockSeq).pathSeq
      else d.pathSeq := by
  by_cases hpass : (f.hasFlag flagPassSeq && !f.hasFlag flagFECParity) = true
  · rw [if_pos hpass]
    rw [push, if_pos hpass] at h
    cases h
    rfl
  · rw [if_neg hpass]
    cases henabled : d.params.enabled with
    | false =>
      rw [push, if_neg hpass, if_pos (by rw [henabled]; rfl)] at h
      cases h
      rfl
    | true =>
      cases hcoded : f.coded with
      | false =>
        rw [push, if_neg hpass, if_neg (by rw [henabled]; decide), if_pos] at h
        · cases h
          rfl
        · rw [Frame.coded] at hcoded
          cases hb : f.hasFlag flagFECParity <;> simp_all
      | true =>
        cases codedPush henabled hcoded h with
        | late => rfl
        | refused => rfl
        | kept => rfl
        | flushed => rfl

theorem pathSeq_tick (d : Decoder F C) (σ : IterOrder BlockKey) (now : Time) :
    (d.tick σ now).1.pathSeq = (d.flushPathGaps now).pathSeq := by
  cases henabled : d.params.enabled with
  | false => rw [tick_of_disabled henabled]
  | true => exact (ticked_tick henabled σ now).1.pathSeq

/-- The raw counters of a stream. -/
def rawStat (d : Decoder F C) (sk : StreamKey) : RawPathStat := d.pathSeq.getD sk {}

theorem rawStat_observePathSeq (d : Decoder F C) (now : Time) (sessionID : UInt64) (path : String)
    (seq : UInt32) (sk : StreamKey) :
    (d.observePathSeq now sessionID path seq).rawStat sk =
      if ⟨sessionID, path⟩ = sk then ((d.rawStat sk).observe now seq).getD (d.rawStat sk)
      else d.rawStat sk := by
  unfold observePathSeq rawStat
  dsimp only
  by_cases hsk : (⟨sessionID, path⟩ : StreamKey) = sk
  · subst hsk
    rw [if_pos rfl]
    split
    · next hnone => rw [hnone, Option.getD_none]
    · next ps hsome => rw [hsome, Option.getD_some, AList.getD_insert]
  · rw [if_neg hsk]
    split
    · rfl
    · exact AList.getD_insert_ne (Ne.symm hsk) _ _

theorem rawStat_flushPathGaps (d : Decoder F C) (now : Time) (sk : StreamKey) :
    (d.flushPathGaps now).rawStat sk = (d.rawStat sk).ageGap now := by
  rw [rawStat, rawStat, flushPathGaps, AList.getD, AList.getD, AList.lookup_mapVals]
  cases d.pathSeq.lookup sk with
  | none => rfl
  | some ps => rfl

/-- What a call of the decoder is to the raw counters of a stream. -/
def Call.raw (sk : StreamKey) : Call → Option RawPathStat.Call
  | .push now path f =>
    if f.hasFlag flagPassSeq && !f.hasFlag flagFECParity && (⟨f.sessionID, path⟩ : StreamKey) = sk then
      some (.observe now f.blockSeq)
    else none
  | .tick _ now => some (.age now)
  | .takeStreamStats _ _ => none
  | .takePathStats sessionID path =>
    if (⟨sessionID, path⟩ : StreamKey) = sk then some .take else none

theorem rawStat_step {d' : Decoder F C} {c : Call} (h : (step RS (some d) c).1 = some d')
    (sk : StreamKey) :
    d'.rawStat sk = ((c.raw sk).map fun r => ((d.rawStat sk).step r).1).getD (d.rawStat sk) := by
  cases c with
  | push now path f =>
    cases hpush : d.push RS now path f with
    | none =>
      rw [step, hpush] at h
      cases h
    | some r =>
      rw [step_push hpush] at h
      cases h
      rw [rawStat, pathSeq_push hpush, Call.raw]
      by_cases hpass : (f.hasFlag flagPassSeq && !f.hasFlag flagFECParity) = true
      · rw [if_pos hpass, hpass, Bool.true_and, ← rawStat, rawStat_observePathSeq]
        by_cases hsk : (⟨f.sessionID, path⟩ : StreamKey) = sk
        · rw [if_pos hsk, if_pos (decide_eq_true hsk)]
          rfl
        · rw [if_neg hsk, if_neg (by simpa using hsk)]
          rfl
      · rw [if_neg hpass, if_neg (by simp [hpass])]
        rfl
  | tick σ now =>
    cases h
    rw [rawStat, pathSeq_tick, ← rawStat, rawStat_flushPathGaps]
    rfl
  | takeStreamStats sessionID path =>
    cases h
    rfl
  | takePathStats sessionID path =>
    cases h
    rw [Call.raw]
    split
    · next hsk =>
      subst hsk
      exact AList.getD_insert _ _ _ _
    · next hsk => exact AList.getD_insert_ne (Ne.symm hsk) _ _

/-- **The raw counters of a stream** of a decoder are those of its own calls. -/
theorem rawStat_exec {d' : Decoder F C} {calls : List Call}
    (h : Run.exec (step RS) (some d) calls = some d') (sk : StreamKey) :
    d'.rawStat sk = Run.exec RawPathStat.step (d.rawStat sk) (calls.filterMap (Call.raw sk)) := by
  induction calls generalizing d with
  | nil =>
    cases h
    rfl
  | cons c calls ih =>
    rw [Run.exec_cons] at h
    cases hstep : (step RS (some d) c).1 with
    | none =>
      rw [hstep, exec_panicked] at h
      cases h
    | some d₁ =>
      rw [hstep] at h
      rw [ih h, rawStat_step hstep sk, List.filterMap_cons]
      cases c.raw sk with
      | none => rfl
      | some r => rfl

end Decoder

end FlexBraid
