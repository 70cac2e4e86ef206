import FlexBraid.Tunnel.DeliveryWindow

/-!
# The timer of the delivery buffer

The buffer has one timer for all its gaps.  It starts when the first frame has to wait, and stops
only when nothing waits any more.  A gap that is uncovered when another one closes inherits its
age, and a tick skips one gap at a time.  While gaps do not overlap, the timer is the age of the
gap at the number expected, and a tick that skips a gap returns all that waits.

## Main definitions

* `DeliveryBuffer.watch` — the buffer together with since when the number expected blocks frames.
* `DeliveryBuffer.stamp` — the buffer together with when the frames that wait were pushed.
* `DeliveryBuffer.oneGap`, `DeliveryBuffer.oneRun` — the gaps do not overlap; what waits has no gap.

## Main results

* `DeliveryBuffer.watching_run`, `DeliveryBuffer.no_early_skip` — **no gap is skipped before its
  time** when gaps do not overlap.
* `DeliveryBuffer.stamped_run`, `DeliveryBuffer.no_stale_frame` — **no frame waits longer than the
  timeout** past a tick when what waits at a tick has no gap.
* `DeliveryBuffer.inherited_age`, `DeliveryBuffer.second_gap_waits` — overlapping gaps.
-/

namespace FlexBraid

namespace DeliveryBuffer

variable {d : DeliveryBuffer}

/-! ### The timer -/

theorem hold_gapSince (d : DeliveryBuffer) (σ : IterOrder UInt32) (now : Time) (f : Frame) :
    (d.hold σ now f).gapSince = if d.gapSince.isNone then some now else d.gapSince := by
  obtain ⟨pending, drops, heq, -⟩ := d.hold_spec σ now f
  rw [heq]

theorem hold_size (d : DeliveryBuffer) (σ : IterOrder UInt32) (now : Time) (f : Frame) :
    (d.hold σ now f).pending.size ≠ 0 := by
  obtain ⟨pending, drops, heq, hmem, -⟩ := d.hold_spec σ now f
  rw [heq]
  exact AList.size_ne_zero.mpr ⟨f.seq, hmem⟩

/-- The timer runs exactly while frames wait. -/
def Runs (d : DeliveryBuffer) : Prop := d.gapSince.isSome = true ↔ d.pending.size ≠ 0

/-! ### Since when a number blocks -/

/-- Since when the number expected blocks frames, after a step from `d` to `d'`: as before if it is
the same number and frames waited all along. -/
def blocking (since : Option Time) (now : Time) (d d' : DeliveryBuffer) : Option Time :=
  if d'.pending.size = 0 then none
  else if d.pending.size ≠ 0 ∧ d'.next = d.next then since
  else some now

/-- One frame, and since when the number expected blocks. -/
def watchFrame (σ : IterOrder UInt32) (now : Time) (w : DeliveryBuffer × Option Time) (f : Frame) :
    DeliveryBuffer × Option Time :=
  ((pushOne σ now w.1 f).1, blocking w.2 now w.1 (pushOne σ now w.1 f).1)

/-- One call, and since when the number expected blocks. -/
def watch (w : DeliveryBuffer × Option Time) : Call → DeliveryBuffer × Option Time
  | .push σ now frames => frames.foldl (watchFrame σ now) w
  | .tick σ now => ((w.1.tick σ now).1, blocking w.2 now w.1 (w.1.tick σ now).1)
  | .reload gapTimeout maxPending => (w.1.reload gapTimeout maxPending, w.2)

/-- What waits follows the number expected without a further gap. -/
def follows (d : DeliveryBuffer) : Bool :=
  d.pending.keys.all fun k => k == d.next + 1 || (d.pending.lookup (k - 1)).isSome

/-- The number expected arrives, or is skipped, only when there is no other gap. -/
def oneGap (d : DeliveryBuffer) : Call → Bool
  | .push σ now frames =>
    decide (Run.Along (pushOne σ now) (fun d f => (f.seq != d.next || d.follows) = true) d frames)
  | .tick _ now => !d.due now || (d.follows && !d.nearestIs 0)
  | .reload _ _ => true

theorem solid_of_follows (h : d.follows = true) : d.Solid (d.next + 1) := by
  intro k hk
  have hfollow := List.all_eq_true.mp h k (AList.mem_keys.mp hk)
  rw [Bool.or_eq_true, beq_iff_eq, AList.lookup_isSome] at hfollow
  exact hfollow

/-- **The invariant**: the timer is the age of the gap at the number expected. -/
structure Watching (w : DeliveryBuffer × Option Time) : Prop where
  ahead : w.1.Ahead
  runs : w.1.Runs
  since : w.1.gapSince = w.2

variable {w : DeliveryBuffer × Option Time}

theorem Watching.emptied {d' : DeliveryBuffer} (since : Option Time) (now : Time)
    (hsize : d'.pending.size = 0) (hgap : d'.gapSince = none) :
    Watching (d', blocking since now d d') where
  ahead := .empty (AList.size_eq_zero.mp hsize)
  runs := by
    change d'.gapSince.isSome = true ↔ d'.pending.size ≠ 0
    rw [hgap]
    exact iff_of_false Bool.false_ne_true (not_not.mpr hsize)
  since := by
    change d'.gapSince = blocking since now d d'
    rw [blocking, if_pos hsize, hgap]

theorem Watching.blocking_self (h : Watching w) (now : Time) :
    Watching (w.1, blocking w.2 now w.1 w.1) := by
  have hruns := h.runs
  refine ⟨h.ahead, h.runs, ?_⟩
  change w.1.gapSince = blocking w.2 now w.1 w.1
  rw [blocking]
  split
  · next hsize =>
    rw [Runs, hsize] at hruns
    simpa using hruns
  · next hsize => rw [if_pos ⟨hsize, rfl⟩, h.since]

/-- One frame keeps the invariant. -/
theorem Watching.frame (h : Watching w) (σ : IterOrder UInt32) (now : Time) {f : Frame}
    (hone : (f.seq != w.1.next || w.1.follows) = true) : Watching (watchFrame σ now w f) := by
  have hahead := h.ahead.pushOne σ now f
  have hruns := h.runs
  unfold watchFrame
  revert hahead
  rw [pushOne, pushFrame]
  dsimp only
  split
  · intro _
    exact h.blocking_self now
  · split
    · next hnext =>
      intro _
      -- what waits follows the number that came, so all of it is returned
      have hsolid : Solid (w.1.next + 1) { w.1 with next := w.1.next + 1 } :=
        solid_of_follows (by simpa [hnext] using hone)
      obtain ⟨hsize, hgap, -⟩ := Solid.drainContiguous hsolid h.ahead.pass ([] ++ [f])
      exact .emptied w.2 now hsize hgap
    · intro hahead
      have hsize := w.1.hold_size σ now f
      refine ⟨hahead, ?_, ?_⟩
      · change (w.1.hold σ now f).gapSince.isSome = true ↔ _
        rw [hold_gapSince]
        refine iff_of_true ?_ hsize
        split
        · rfl
        · next hgap => simpa [Option.isSome_iff_ne_none] using hgap
      · change (w.1.hold σ now f).gapSince = blocking w.2 now w.1 (w.1.hold σ now f)
        rw [hold_gapSince, blocking, if_neg hsize, hold_next]
        cases hgap : w.1.gapSince with
        | none =>
          rw [Runs, hgap] at hruns
          rw [Option.isNone_none, if_pos rfl, if_neg (by simpa using hruns)]
        | some since =>
          rw [Runs, hgap] at hruns
          rw [Option.isNone_some, if_neg Bool.false_ne_true, if_pos ⟨hruns.mp rfl, rfl⟩, ← h.since,
            hgap]

theorem watch_fst (w : DeliveryBuffer × Option Time) (c : Call) : (watch w c).1 = (w.1.step c).1 := by
  cases c with
  | push σ now frames =>
    rw [step, push_eq_run]
    exact Run.foldl_fst w frames fun _ _ => rfl
  | tick σ now => rfl
  | reload gapTimeout maxPending => rfl

/-- **One call keeps the invariant.** -/
theorem Watching.call (h : Watching w) {c : Call} (hone : w.1.oneGap c = true) :
    Watching (watch w c) := by
  cases c with
  | push σ now frames =>
    have hframes := of_decide_eq_true hone
    exact Run.foldl_induct (I := Watching) (fun _ _ => rfl) (fun _ _ h hone => h.frame σ now hone) h
      hframes
  | tick σ now =>
    rw [watch]
    cases hdue : w.1.due now with
    | false =>
      rw [tick_of_not_due hdue]
      exact h.blocking_self now
    | true =>
      rw [oneGap, hdue, Bool.not_true, Bool.false_or, Bool.and_eq_true, Bool.not_eq_true'] at hone
      obtain ⟨hsize, hgap, -⟩ := tick_solid h.ahead hdue hone.2 (solid_of_follows hone.1) σ
      exact .emptied w.2 now hsize hgap
  | reload gapTimeout maxPending => exact ⟨⟨h.ahead.near, h.ahead.missing⟩, h.runs, h.since⟩

theorem watching_new (gapTimeout : Duration) (maxPending : ℤ) :
    Watching (newDeliveryBuffer gapTimeout maxPending, none) where
  ahead := .empty rfl
  runs := iff_of_false Bool.false_ne_true (not_not.mpr rfl)
  since := rfl

theorem watching_run (h : Watching w) {calls : List Call}
    (hone : Run.Along step (fun d c => d.oneGap c = true) w.1 calls) :
    Watching (calls.foldl watch w) ∧ (calls.foldl watch w).1 = Run.exec step w.1 calls :=
  ⟨Run.foldl_induct watch_fst (fun _ _ h hone => h.call hone) h hone, Run.foldl_fst w calls watch_fst⟩

/-- What a tick passes without returning it is the number expected, once it has blocked frames for
the whole timeout. -/
theorem Watching.skip (h : Watching w) {σ : IterOrder UInt32} {now : Time}
    (hone : w.1.oneGap (.tick σ now) = true) {s : UInt32} (hs : s ∉ w.1.pending)
    (hpast : FlexBraid.ahead w.1.next s < FlexBraid.ahead w.1.next (w.1.tick σ now).1.next) :
    s = w.1.next ∧ ∃ t, w.2 = some t ∧ w.1.gapTimeout ≤ now - t := by
  cases hdue : w.1.due now with
  | false =>
    rw [tick_of_not_due hdue, ahead_self] at hpast
    exact absurd hpast (Nat.not_lt_zero _)
  | true =>
    rw [oneGap, hdue, Bool.not_true, Bool.false_or, Bool.and_eq_true, Bool.not_eq_true'] at hone
    obtain ⟨since, hsince, htimeout⟩ := due_iff.mp hdue
    refine ⟨?_, since, by rw [← h.since, hsince], htimeout⟩
    by_contra hne
    obtain ⟨-, -, hpassed⟩ := tick_solid h.ahead hdue hone.2 (solid_of_follows hone.1) σ
    refine hs (hpassed (h.runs.mp (by rw [hsince]; rfl)) s ?_)
    -- seen from one further on
    have hsucc := ahead_succ hne
    have hend := ahead_succ (ahead_pos.mp (Nat.zero_lt_of_lt hpast))
    omega

/-- **No gap is skipped before its time.**  In a run in which the number expected arrives or is
skipped only when there is no other gap, a tick passes a number that does not wait only if it is the
number expected, and has blocked frames for the whole timeout. -/
theorem no_early_skip (gapTimeout : Duration) (maxPending : ℤ) (calls : List Call)
    (σ : IterOrder UInt32) (now : Time)
    (hone : Run.Along step (fun d c => d.oneGap c = true) (newDeliveryBuffer gapTimeout maxPending)
      (calls ++ [.tick σ now])) :
    let d₀ := newDeliveryBuffer gapTimeout maxPending
    let d := Run.exec step d₀ calls
    ∀ s, s ∉ d.pending → ahead d.next s < ahead d.next (d.tick σ now).1.next →
      s = d.next ∧ ∃ t, (calls.foldl watch (d₀, none)).2 = some t ∧ d.gapTimeout ≤ now - t := by
  intro d₀ d s hs hpast
  rw [Run.along_append] at hone
  obtain ⟨hwatching, hexec⟩ := watching_run (watching_new gapTimeout maxPending) hone.1
  have hd : (calls.foldl watch (d₀, none)).1 = d := hexec
  have htick : (calls.foldl watch (d₀, none)).1.oneGap (.tick σ now) = true := by
    rw [hd]
    exact hone.2.1
  rw [← hd] at hs hpast ⊢
  exact hwatching.skip htick hs hpast

/-- Frame 2 waits for frame 1, which is skipped after the timeout. -/
def shortWait : List Call := [.push .plain 0 [{ seq := 2 }]]

theorem no_early_skip_small :
    let d := Run.exec step (newDeliveryBuffer 0 0) shortWait
    (1 : UInt32) ∉ d.pending ∧
      (∃ t, (shortWait.foldl watch (newDeliveryBuffer 0 0, none)).2 = some t ∧
        d.gapTimeout ≤ 100 * millisecond - t) := by
  refine ⟨by decide, ?_⟩
  exact (no_early_skip 0 0 shortWait .plain (100 * millisecond) (by decide) 1
    (by decide) (by decide)).2

/-- Frame 1 comes late and uncovers the gap at 3, which is one millisecond old when a tick skips
it. -/
theorem inherited_age :
    let d₀ := newDeliveryBuffer 0 0
    let calls : List Call :=
      [.push .plain 0 [{ seq := 2 }], .push .plain (99 * millisecond) [{ seq := 4 }, { seq := 1 }]]
    let d := Run.exec step d₀ calls
    d.next = 3 ∧ (3 : UInt32) ∉ d.pending ∧
      (d.tick .plain (100 * millisecond)).1.next = 5 ∧
      (calls.foldl watch (d₀, none)).2 = some (99 * millisecond) ∧
      100 * millisecond - 99 * millisecond < d.gapTimeout := by
  decide

/-! ### How long frames wait -/

/-- One frame, and when the frames that wait were pushed. -/
def stampFrame (σ : IterOrder UInt32) (now : Time) (w : DeliveryBuffer × (UInt32 → Option Time))
    (f : Frame) : DeliveryBuffer × (UInt32 → Option Time) :=
  let d' := (pushOne σ now w.1 f).1
  (d', if f.seq ∈ d'.pending ∧ f.seq ∉ w.1.pending then Function.update w.2 f.seq (some now)
    else w.2)

/-- One call, and when the frames that wait were pushed. -/
def stamp (w : DeliveryBuffer × (UInt32 → Option Time)) :
    Call → DeliveryBuffer × (UInt32 → Option Time)
  | .push σ now frames => frames.foldl (stampFrame σ now) w
  | c => ((w.1.step c).1, w.2)

/-- The numbers that wait and have no number right before them that waits. -/
def starts (d : DeliveryBuffer) : List UInt32 :=
  d.pending.keys.filter fun k => (d.pending.lookup (k - 1)).isNone

/-- What waits has no gap when a tick skips one. -/
def oneRun (d : DeliveryBuffer) : Call → Bool
  | .tick _ now => !d.due now || (decide (d.starts.length ≤ 1) && !d.nearestIs 0)
  | _ => true

def Call.time : Call → Option Time
  | .push _ now _ => some now
  | .tick _ now => some now
  | .reload _ _ => none

/-- The instants of the calls never go back. -/
def InOrder (calls : List Call) : Prop := (calls.filterMap Call.time).Pairwise (· ≤ ·)

theorem InOrder.cons {c : Call} {calls : List Call} (h : InOrder (c :: calls)) : InOrder calls ∧
      ∀ now, c.time = some now → ∀ now' ∈ calls.filterMap Call.time, now ≤ now' := by
  rw [InOrder, List.filterMap_cons] at h
  cases hc : c.time with
  | none =>
    rw [hc] at h
    exact ⟨h, fun now hnow => by cases hnow⟩
  | some t =>
    rw [hc] at h
    obtain ⟨hle, hrest⟩ := List.pairwise_cons.mp h
    refine ⟨hrest, fun now hnow => ?_⟩
    cases hnow
    exact hle

theorem solid_of_starts (h : d.starts.length ≤ 1) : ∃ a, d.Solid a := by
  have hstart : ∀ a, (∀ k ∈ d.starts, k = a) → d.Solid a := by
    intro a ha k hk
    cases hprev : d.pending.lookup (k - 1) with
    | none => exact .inl (ha k (List.mem_filter.mpr ⟨AList.mem_keys.mp hk, by rw [hprev]; rfl⟩))
    | some f => exact .inr (AList.mem_of_lookup hprev)
  rcases hstarts : d.starts with _ | ⟨a, _ | ⟨b, l⟩⟩
  · exact ⟨0, hstart 0 (by simp [hstarts])⟩
  · exact ⟨a, hstart a (by simp [hstarts])⟩
  · rw [hstarts] at h
    simp at h

/-- **The invariant**: the timer started no later than any frame that waits was pushed. -/
structure Stamped (w : DeliveryBuffer × (UInt32 → Option Time)) : Prop where
  ahead : w.1.Ahead
  runs : w.1.Runs
  since : ∀ k ∈ w.1.pending, ∃ since t, w.1.gapSince = some since ∧ w.2 k = some t ∧ since ≤ t

section Stamps

variable {w : DeliveryBuffer × (UInt32 → Option Time)}

theorem drainContiguous_kept (hnear : d.Near) (out : List Frame) :
    (∀ k ∈ (d.drainContiguous out).1.pending, k ∈ d.pending) ∧
      (d.drainContiguous out).1.gapSince =
        if (d.drainContiguous out).1.pending.size = 0 then none else d.gapSince := by
  have hdrained := hnear.drained le_rfl out
  rw [drainContiguous_fst, ← hdrained.gapSince]
  exact ⟨hdrained.kept, rfl⟩

/-- Some of what waited still waits, and the timer goes on for it. -/
theorem Stamped.kept (h : Stamped w) {d' : DeliveryBuffer} (hahead : d'.Ahead)
    (hkept : ∀ k ∈ d'.pending, k ∈ w.1.pending)
    (hgap : d'.gapSince = if d'.pending.size = 0 then none else w.1.gapSince) :
    Stamped (d', w.2) := by
  refine ⟨hahead, ?_, fun k hk => ?_⟩
  · change d'.gapSince.isSome = true ↔ d'.pending.size ≠ 0
    rw [hgap]
    split
    · next hsize => exact iff_of_false Bool.false_ne_true (not_not.mpr hsize)
    · next hsize =>
      obtain ⟨k, hk⟩ := AList.size_ne_zero.mp hsize
      exact iff_of_true (h.runs.mpr (AList.size_ne_zero.mpr ⟨k, hkept k hk⟩)) hsize
  · obtain ⟨since, t, hsince, ht, hle⟩ := h.since k (hkept k hk)
    refine ⟨since, t, ?_, ht, hle⟩
    change d'.gapSince = some since
    rw [hgap, if_neg (AList.size_ne_zero.mpr ⟨k, hk⟩), hsince]

variable {now : Time}

theorem hold_since (σ : IterOrder UInt32) (hnow : ∀ since, d.gapSince = some since → since ≤ now)
    (f : Frame) : ∃ since, (d.hold σ now f).gapSince = some since ∧ since ≤ now ∧
      (d.gapSince = some since ∨ d.gapSince = none ∧ since = now) := by
  have hgap := d.hold_gapSince σ now f
  cases hsince : d.gapSince with
  | none =>
    rw [hsince, Option.isNone_none, if_pos rfl] at hgap
    exact ⟨now, hgap, le_rfl, .inr ⟨rfl, rfl⟩⟩
  | some since =>
    rw [hsince, Option.isNone_some, if_neg Bool.false_ne_true] at hgap
    exact ⟨since, hgap, hnow since hsince, .inl rfl⟩

/-- A frame that has to wait is stamped now, unless it waits already. -/
theorem Stamped.hold (h : Stamped w) (σ : IterOrder UInt32)
    (hnow : ∀ since, w.1.gapSince = some since → since ≤ now) {f : Frame}
    (hahead : (w.1.hold σ now f).Ahead) :
    Stamped (w.1.hold σ now f,
      if f.seq ∈ (w.1.hold σ now f).pending ∧ f.seq ∉ w.1.pending then
        Function.update w.2 f.seq (some now)
      else w.2) := by
  obtain ⟨since, hsince, hle, hcases⟩ := hold_since σ hnow f
  have hruns : (w.1.hold σ now f).gapSince.isSome = true := by
    rw [hsince]
    rfl
  refine ⟨hahead, iff_of_true hruns (w.1.hold_size σ now f), fun k hk => ?_⟩
  dsimp only at hk ⊢
  by_cases hold : k ∈ w.1.pending
  · -- it waited before, with its stamp
    obtain ⟨since', t, hsince', ht, hle'⟩ := h.since k hold
    have hsame : since' = since := by
      rcases hcases with heq | ⟨hnone, -⟩
      · exact Option.some.inj (hsince'.symm.trans heq)
      · rw [hnone] at hsince'
        cases hsince'
    refine ⟨since, t, hsince, ?_, hsame ▸ hle'⟩
    split
    · next hnew =>
      rw [Function.update_of_ne, ht]
      rintro rfl
      exact hnew.2 hold
    · exact ht
  · obtain rfl := (mem_hold hk).resolve_right hold
    refine ⟨since, now, hsince, ?_, hle⟩
    rw [if_pos ⟨hk, hold⟩, Function.update_self]

/-- One frame keeps the invariant, and starts the timer now if at all. -/
theorem Stamped.frame (h : Stamped w) (σ : IterOrder UInt32)
    (hnow : ∀ since, w.1.gapSince = some since → since ≤ now) (f : Frame) :
    Stamped (stampFrame σ now w f) ∧ ∀ since, (stampFrame σ now w f).1.gapSince = some since →
        w.1.gapSince = some since ∨ since = now := by
  have hahead := h.ahead.pushOne σ now f
  unfold stampFrame
  revert hahead
  rw [pushOne, pushFrame]
  dsimp only
  split
  · intro _
    rw [if_neg fun hnew => hnew.2 hnew.1]
    exact ⟨h, fun since hsince => .inl hsince⟩
  · split
    · next hnext =>
      intro hahead
      obtain ⟨hkept, hgap⟩ := drainContiguous_kept h.ahead.pass ([] ++ [f])
      rw [if_neg fun hnew => hnew.2 (hkept _ hnew.1)]
      refine ⟨h.kept hahead hkept hgap, fun since hsince => .inl ?_⟩
      rw [hgap] at hsince
      split at hsince
      · cases hsince
      · exact hsince
    · intro hahead
      refine ⟨h.hold σ hnow hahead, fun since hsince => ?_⟩
      obtain ⟨since', hsince', -, hcases⟩ := hold_since σ hnow f
      rw [hsince'] at hsince
      cases hsince
      exact hcases.imp_right And.right

theorem stamp_fst (w : DeliveryBuffer × (UInt32 → Option Time)) (c : Call) :
    (stamp w c).1 = (w.1.step c).1 := by
  cases c with
  | push σ now frames =>
    rw [step, push_eq_run]
    exact Run.foldl_fst w frames fun _ _ => rfl
  | tick σ now => rfl
  | reload gapTimeout maxPending => rfl

/-- The frames of a push keep the invariant. -/
theorem Stamped.frames (h : Stamped w) (σ : IterOrder UInt32)
    (hnow : ∀ since, w.1.gapSince = some since → since ≤ now) (frames : List Frame) :
    Stamped (frames.foldl (stampFrame σ now) w) ∧
      ∀ since, (frames.foldl (stampFrame σ now) w).1.gapSince = some since →
        w.1.gapSince = some since ∨ since = now := by
  induction frames generalizing w with
  | nil => exact ⟨h, fun since hsince => .inl hsince⟩
  | cons f frames ih =>
    obtain ⟨hframe, hgap⟩ := h.frame σ hnow f
    have hnow' : ∀ since, (stampFrame σ now w f).1.gapSince = some since → since ≤ now := by
      intro since hsince
      rcases hgap since hsince with hbefore | rfl
      · exact hnow since hbefore
      · exact le_rfl
    obtain ⟨hrest, hgap'⟩ := ih hframe hnow'
    refine ⟨hrest, fun since hsince => ?_⟩
    rcases hgap' since hsince with hbefore | heq
    · exact hgap since hbefore
    · exact .inr heq

/-- A tick that skips a gap returns all that waits. -/
theorem Stamped.tick (h : Stamped w) {σ : IterOrder UInt32}
    (hone : w.1.oneRun (.tick σ now) = true) : w.1.due now = false ∨
      ((w.1.tick σ now).1.pending.size = 0 ∧ (w.1.tick σ now).1.gapSince = none) := by
  cases hdue : w.1.due now with
  | false => exact .inl rfl
  | true =>
    rw [oneRun, hdue, Bool.not_true, Bool.false_or, Bool.and_eq_true, decide_eq_true_eq,
      Bool.not_eq_true'] at hone
    obtain ⟨a, hsolid⟩ := solid_of_starts hone.1
    obtain ⟨hsize, hgap, -⟩ := tick_solid h.ahead hdue hone.2 hsolid σ
    exact .inr ⟨hsize, hgap⟩

/-- **One call keeps the invariant**, and starts the timer now if at all. -/
theorem Stamped.call (h : Stamped w) {c : Call}
    (hnow : ∀ since, w.1.gapSince = some since → ∀ now, c.time = some now → since ≤ now)
    (hone : w.1.oneRun c = true) : Stamped (stamp w c) ∧
      ∀ since, (stamp w c).1.gapSince = some since →
        w.1.gapSince = some since ∨ c.time = some since := by
  cases c with
  | push σ now frames =>
    obtain ⟨hframes, hgap⟩ := h.frames σ (fun since hsince => hnow since hsince now rfl) frames
    refine ⟨hframes, fun since hsince => (hgap since hsince).imp_right ?_⟩
    rintro rfl
    rfl
  | tick σ now =>
    rcases h.tick hone with hdue | ⟨hsize, hgap⟩
    · have hsame : stamp w (.tick σ now) = w := by
        change ((w.1.tick σ now).1, w.2) = w
        rw [tick_of_not_due hdue]
      rw [hsame]
      exact ⟨h, fun since hsince => .inl hsince⟩
    · have hempty : Stamped ((w.1.tick σ now).1, w.2) := by
        refine h.kept (.empty (AList.size_eq_zero.mp hsize)) (fun k hk => ?_) ?_
        · exact absurd hsize (AList.size_ne_zero.mpr ⟨k, hk⟩)
        · rw [hgap, if_pos hsize]
      refine ⟨hempty, fun since hsince => ?_⟩
      rw [show (stamp w (.tick σ now)).1.gapSince = none from hgap] at hsince
      cases hsince
  | reload gapTimeout maxPending =>
    exact ⟨⟨⟨h.ahead.near, h.ahead.missing⟩, h.runs, h.since⟩, fun since hsince => .inl hsince⟩

theorem stamped_new (gapTimeout : Duration) (maxPending : ℤ) :
    Stamped (newDeliveryBuffer gapTimeout maxPending, fun _ => none) where
  ahead := .empty rfl
  runs := iff_of_false Bool.false_ne_true (not_not.mpr rfl)
  since k hk := absurd hk (AList.notMem_empty k)

/-- The invariant after a run. -/
theorem stamped_run (h : Stamped w) {calls : List Call} (htimes : InOrder calls)
    (hnow : ∀ since, w.1.gapSince = some since → ∀ now ∈ calls.filterMap Call.time, since ≤ now)
    (hone : Run.Along step (fun d c => d.oneRun c = true) w.1 calls) :
    Stamped (calls.foldl stamp w) ∧ (calls.foldl stamp w).1 = Run.exec step w.1 calls := by
  refine ⟨?_, Run.foldl_fst w calls stamp_fst⟩
  induction calls generalizing w with
  | nil => exact h
  | cons c calls ih =>
    obtain ⟨htail, hlater⟩ := htimes.cons
    obtain ⟨hcall, hgap⟩ := h.call (fun since hsince now hc =>
      hnow since hsince now (List.mem_filterMap.mpr ⟨c, List.mem_cons_self, hc⟩)) hone.1
    have hrest := hone.2
    rw [← stamp_fst] at hrest
    have hnow' : ∀ since, (stamp w c).1.gapSince = some since →
        ∀ now ∈ calls.filterMap Call.time, since ≤ now := by
      intro since hsince now hmem
      rcases hgap since hsince with hbefore | hc
      · refine hnow since hbefore now ?_
        obtain ⟨c', hc', hnow'⟩ := List.mem_filterMap.mp hmem
        exact List.mem_filterMap.mpr ⟨c', List.mem_cons_of_mem _ hc', hnow'⟩
      · exact hlater since hc now hmem
    exact ih hcall htail hnow' hrest

/-- What still waits after a tick was pushed less than the timeout ago. -/
theorem Stamped.fresh (h : Stamped w) {σ : IterOrder UInt32}
    (hone : w.1.oneRun (.tick σ now) = true) {k : UInt32} (hk : k ∈ (w.1.tick σ now).1.pending) :
    ∃ t, w.2 k = some t ∧ now - w.1.gapTimeout < t := by
  rcases h.tick hone with hdue | ⟨hsize, -⟩
  · rw [tick_of_not_due hdue] at hk
    obtain ⟨since, t, hsince, ht, hle⟩ := h.since k hk
    refine ⟨t, ht, ?_⟩
    have hearly : ¬ w.1.gapTimeout ≤ now - since := fun htimeout => by
      rw [due_iff.mpr ⟨since, hsince, htimeout⟩] at hdue
      cases hdue
    linarith
  · exact absurd hsize (AList.size_ne_zero.mpr ⟨k, hk⟩)

end Stamps

/-- **No frame waits longer than the timeout past a tick.**  In a run whose instants never go back
and in which what waits has no gap whenever a tick skips one, no frame waits after a tick that was
pushed the whole timeout ago or earlier. -/
theorem no_stale_frame (gapTimeout : Duration) (maxPending : ℤ) (calls : List Call)
    (σ : IterOrder UInt32) (now : Time) (htimes : InOrder (calls ++ [.tick σ now]))
    (hone : Run.Along step (fun d c => d.oneRun c = true) (newDeliveryBuffer gapTimeout maxPending)
      (calls ++ [.tick σ now])) :
    let d₀ := newDeliveryBuffer gapTimeout maxPending
    let d := Run.exec step d₀ calls
    ∀ k ∈ (d.tick σ now).1.pending,
      ∃ t, (calls.foldl stamp (d₀, fun _ => none)).2 k = some t ∧ now - d.gapTimeout < t := by
  intro d₀ d k hk
  rw [Run.along_append] at hone
  have hbefore : InOrder calls := by
    rw [InOrder, List.filterMap_append, List.pairwise_append] at htimes
    exact htimes.1
  obtain ⟨hstamped, hexec⟩ := stamped_run (stamped_new gapTimeout maxPending) hbefore
    (fun since hsince => by cases hsince) hone.1
  have hd : (calls.foldl stamp (d₀, fun _ => none)).1 = d := hexec
  have htick : (calls.foldl stamp (d₀, fun _ => none)).1.oneRun (.tick σ now) = true := by
    rw [hd]
    exact hone.2.1
  rw [← hd] at hk ⊢
  exact hstamped.fresh htick hk

theorem no_stale_frame_small :
    let d := Run.exec step (newDeliveryBuffer 0 0) shortWait
    (2 : UInt32) ∈ (d.tick .plain (99 * millisecond)).1.pending ∧
      ∃ t, (shortWait.foldl stamp (newDeliveryBuffer 0 0, fun _ => none)).2 2 = some t ∧
        99 * millisecond - d.gapTimeout < t := by
  refine ⟨by decide, ?_⟩
  exact no_stale_frame 0 0 shortWait .plain (99 * millisecond) (by unfold InOrder; decide)
    (by decide) 2 (by decide)

/-- Two gaps: a tick returns frame 2, and frame 4, which is as old, stays. -/
theorem second_gap_waits :
    let d₀ := newDeliveryBuffer 0 0
    let calls : List Call := [.push .plain 0 [{ seq := 2 }, { seq := 4 }]]
    let d := Run.exec step d₀ calls
    (4 : UInt32) ∈ (d.tick .plain (100 * millisecond)).1.pending ∧
      (calls.foldl stamp (d₀, fun _ => none)).2 4 = some 0 ∧
      (0 : Time) ≤ 100 * millisecond - d.gapTimeout := by
  decide

end DeliveryBuffer

end FlexBraid
