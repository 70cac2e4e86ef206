import FlexBraid.Health
import FlexBraid.Lib.Run
import Mathlib.Data.List.Chain
import Mathlib.Data.List.DropRight

/-!
# Runs of the circuit breaker

A tick of a monitor times a condition: that the loss is too high, or that it is low enough to
recover.  One timestamp serves whichever condition the state looks at.  It is set by the first
tick that sees a condition and cleared by a tick that sees none and by every change of the state,
so while it is set all ticks have seen a condition.  Which one they saw is another matter: a
degraded path looks at both of them, and the estimate may go from one to the other between two
ticks.

## Main definitions

* `Monitor.Op`, `Monitor.step` — a monitor as a machine; it emits what its ticks saw.
* `Monitor.timed` — the condition a tick times.
* `Lasted p d now log` — the ticks with `p` at the end of a log reach back for the span `d`.
* `Steady` — a degraded path did not cross from one condition to the other.
* `Watched` — a monitor and whether a dead path has answered.

## Main results

* `Monitor.timer_run` — **the timer of a run**: all ticks since its start saw a condition.
* `Monitor.transitions_sustained` — a change for loss needs a lasting condition, on a path that is
  steady, and `Monitor.escalates_at_once`, where it is not.
* `Monitor.dwell` — **a path that left the healthy state stays away** for the recovery span.
* `Watched.revived_answered` — a dead path comes back after an answer, as long as its estimate
  stays high without one, and `Watched.revived_unanswered`, where it does not.
-/

namespace FlexBraid

section
variable {F : Type} [Float64 F]

/-- The two conditions of the circuit breaker: the loss exceeds its bound, or is below half of
it. -/
inductive LossCond where
  | above
  | below
deriving DecidableEq

/-- What a tick saw: its time, and the monitor before it. -/
structure TickRecord (F : Type) where
  now : Time
  monitor : Monitor F

namespace Monitor

/-! ### A monitor as a machine -/

/-- An operation on a monitor. -/
inductive Op (F : Type) where
  | observeSample (loss : F) (rtt : Duration)
  | noteAlive
  | noteMissedProbe (now : Time)
  | observeInBand (lossRate : F)
  | observeRaw (lossRate : F)
  | reload (opts : HealthOptions F)
  | tick (now : Time)

/-- One operation, with the record of a tick. -/
def step (m : Monitor F) : Op F → Monitor F × List (TickRecord F)
  | .observeSample loss rtt => (m.observeSample loss rtt, [])
  | .noteAlive => (m.noteAlive, [])
  | .noteMissedProbe now => (m.noteMissedProbe now, [])
  | .observeInBand lossRate => (m.observeInBand lossRate, [])
  | .observeRaw lossRate => (m.observeRaw lossRate, [])
  | .reload opts => (m.reload opts, [])
  | .tick now => (m.tick now, [⟨now, m⟩])

/-! ### What a tick does -/

/-- The condition a tick times: a healthy path looks for too much loss, a dead one for little
loss, and a degraded one for both. -/
def timed (m : Monitor F) : Option LossCond :=
  if m.state ≠ .down && Float64.lt m.maxLoss m.loss then some .above
  else if m.state ≠ .healthy && Float64.lt m.loss m.recoverLoss then some .below
  else none

/-- How long a condition has to last. -/
def span (m : Monitor F) : LossCond → Duration
  | .above => m.degradeAft
  | .below => m.recoverAft

/-- The state a lasting condition leads to. -/
def target (m : Monitor F) : LossCond → PathHealth
  | .above => if m.state = .healthy then .degraded else .down
  | .below => .healthy

/-- **A tick**: missed probes come first; then the condition that is seen is timed. -/
theorem tick_eq (m : Monitor F) (now : Time) :
    m.tick now =
      if m.state ≠ .down && m.missedDown now then m.setState .down
      else
        match m.timed with
        | none => { m with condSince := none }
        | some c => m.sustained now (m.span c) (m.target c) := by
  unfold tick timed
  cases hs : m.state with
  | healthy =>
    cases m.missedDown now <;> cases Float64.lt m.maxLoss m.loss <;> simp [span, target, hs]
  | degraded =>
    cases m.missedDown now <;> cases Float64.lt m.maxLoss m.loss <;>
      cases Float64.lt m.loss m.recoverLoss <;> simp [span, target, hs]
  | down => cases Float64.lt m.loss m.recoverLoss <;> simp [span, target]

/-- What an operation does to the timer of the condition. -/
inductive Timing (m : Monitor F) (op : Op F) (m' : Monitor F) : Prop
  | cleared (hcond : m'.condSince = none)
  | kept (hop : ∀ now, op ≠ .tick now) (hstate : m'.state = m.state)
      (hcond : m'.condSince = m.condSince)
  | seen (now : Time) (hop : op = .tick now) (hsome : m.timed.isSome = true)
      (hstate : m'.state = m.state) (hcond : m'.condSince = some (m.condSince.getD now))

/-- The options in force. -/
def options (m : Monitor F) : HealthOptions F where
  maxLoss := m.maxLoss
  degradeAfter := m.degradeAft
  recoverAfter := m.recoverAft
  downAfterMisses := m.downAftMiss
  downGrace := m.downGrace
  lossAlphaFast := m.alphaFast
  lossAlphaSlow := m.alphaSlow
  jitterAlpha := m.jitterAlpha

/-- The options stay, and the timer is cleared, or neither it nor the state changes. -/
def Unmoved (m m' : Monitor F) : Prop :=
  m'.options = m.options ∧
    (m'.condSince = none ∨ m'.state = m.state ∧ m'.condSince = m.condSince)

theorem unmoved_noteAlive (m : Monitor F) : m.Unmoved m.noteAlive := by
  unfold noteAlive
  dsimp only
  split
  · exact ⟨rfl, .inl rfl⟩
  · exact ⟨rfl, .inr ⟨rfl, rfl⟩⟩

theorem unmoved_observeSample (m : Monitor F) (loss : F) (rtt : Duration) :
    m.Unmoved (m.observeSample loss rtt) := by
  unfold observeSample
  dsimp only
  split
  · exact unmoved_noteAlive _
  · exact ⟨rfl, .inr ⟨rfl, rfl⟩⟩

omit [Float64 F] in
theorem unmoved_noteMissedProbe (m : Monitor F) (now : Time) :
    m.Unmoved (m.noteMissedProbe now) := by
  unfold noteMissedProbe
  dsimp only
  split_ifs
  · exact ⟨rfl, .inl rfl⟩
  all_goals exact ⟨rfl, .inr ⟨rfl, rfl⟩⟩

theorem unmoved_observeInBand (m : Monitor F) (lossRate : F) :
    m.Unmoved (m.observeInBand lossRate) := by
  unfold observeInBand
  dsimp only
  split_ifs
  · exact ⟨rfl, .inl rfl⟩
  all_goals exact ⟨rfl, .inr ⟨rfl, rfl⟩⟩

theorem timing_tick (m : Monitor F) (now : Time) : m.Timing (.tick now) (m.tick now) := by
  rw [tick_eq]
  split
  · exact .cleared rfl
  · split
    · exact .cleared rfl
    · next c hc =>
      have hsome : m.timed.isSome = true := by rw [hc]; rfl
      unfold sustained
      split
      · next hnone => exact .seen now rfl hsome rfl (by rw [hnone]; rfl)
      · next since hsince =>
        split
        · exact .cleared rfl
        · exact .seen now rfl hsome rfl (hsince.trans (by rw [hsince]; rfl))

/-- **One operation and the timer**: it is cleared, which every change of the state does, or goes
on; and a tick with which it goes on has seen a condition. -/
theorem timing_step (m : Monitor F) (op : Op F) : m.Timing op (m.step op).1 := by
  have hkept : ∀ {m' : Monitor F}, (∀ now, op ≠ .tick now) → m.Unmoved m' → m.Timing op m' := by
    rintro m' hop ⟨-, hcond | ⟨hstate, hcond⟩⟩
    · exact .cleared hcond
    · exact .kept hop hstate hcond
  cases op with
  | observeSample loss rtt => exact hkept (fun _ h => by cases h) (m.unmoved_observeSample loss rtt)
  | noteAlive => exact hkept (fun _ h => by cases h) m.unmoved_noteAlive
  | noteMissedProbe now => exact hkept (fun _ h => by cases h) (m.unmoved_noteMissedProbe now)
  | observeInBand lossRate => exact hkept (fun _ h => by cases h) (m.unmoved_observeInBand lossRate)
  | observeRaw lossRate => exact .kept (fun _ h => by cases h) rfl rfl
  | reload opts => exact .kept (fun _ h => by cases h) rfl rfl
  | tick now => exact m.timing_tick now

variable {m : Monitor F} {now : Time}

theorem condSince_of_state_ne {op : Op F} (h : (m.step op).1.state ≠ m.state) :
    (m.step op).1.condSince = none := by
  cases m.timing_step op with
  | cleared hcond => exact hcond
  | kept _ hstate _ => exact absurd hstate h
  | seen _ _ _ hstate _ => exact absurd hstate h

theorem not_missed_of_tick (h : (m.tick now).state ≠ .down) :
    m.missedDown now = false ∨ m.state = .down := by
  by_contra hnot
  rw [not_or, Bool.not_eq_false] at hnot
  rw [tick_eq, if_pos (by simp [hnot.1, hnot.2])] at h
  exact h rfl

theorem tick_changes (hmissed : m.missedDown now = false ∨ m.state = .down)
    (h : (m.tick now).state ≠ m.state) :
    ∃ c since, m.timed = some c ∧ m.condSince = some since ∧ m.span c ≤ now - since ∧
      (m.tick now).state = m.target c := by
  have hmiss : (decide (m.state ≠ .down) && m.missedDown now) = false := by
    rcases hmissed with hmissed | hdown
    · rw [hmissed, Bool.and_false]
    · rw [hdown]
      rfl
  rw [tick_eq, hmiss, if_neg Bool.false_ne_true] at h ⊢
  cases hc : m.timed with
  | none =>
    rw [hc] at h
    exact absurd rfl h
  | some c =>
    rw [hc] at h
    dsimp only at h ⊢
    unfold sustained at h ⊢
    cases hsince : m.condSince with
    | none =>
      rw [hsince] at h
      exact absurd rfl h
    | some since =>
      rw [hsince] at h
      dsimp only at h ⊢
      split at h
      · next hspan => exact ⟨c, since, rfl, rfl, hspan, by rw [if_pos hspan]; rfl⟩
      · exact absurd rfl h

theorem tick_recovers (hs : m.state ≠ .healthy) (ht : (m.tick now).state = .healthy) :
    ∃ since, m.timed = some .below ∧ m.condSince = some since ∧ m.recoverAft ≤ now - since := by
  obtain ⟨c, since, hc, hsince, hspan, htarget⟩ :=
    tick_changes (not_missed_of_tick (by rw [ht]; decide)) (by rw [ht]; exact hs.symm)
  cases c with
  | above =>
    rw [ht, target, if_neg hs] at htarget
    cases htarget
  | below => exact ⟨since, hc, hsince, hspan⟩

end Monitor

/-! ### The timer of a run -/

/-- A tick that saw a condition in state `s`. -/
def TickRecord.holds (s : PathHealth) (r : TickRecord F) : Bool :=
  r.monitor.state = s && r.monitor.timed.isSome

/-- A tick that saw the loss above its bound. -/
def TickRecord.above (r : TickRecord F) : Bool := Float64.lt r.monitor.maxLoss r.monitor.loss

/-- A tick that saw the loss below half of its bound. -/
def TickRecord.below (r : TickRecord F) : Bool := Float64.lt r.monitor.loss r.monitor.recoverLoss

/-- The ticks with `p` at the end of a log, without one in between that lacks it, go back for at
least the span `d` before `now`. -/
def Lasted (p : TickRecord F → Bool) (d : Duration) (now : Time) (log : List (TickRecord F)) : Prop :=
  ∃ r ∈ log.rtakeWhile p, d ≤ now - r.now

instance (p : TickRecord F → Bool) (d : Duration) (now : Time) (log : List (TickRecord F)) :
    Decidable (Lasted p d now log) := inferInstanceAs (Decidable (∃ r ∈ _, _))

/-- The timer was started by a tick, and all ticks since then saw a condition. -/
def Timer (m : Monitor F) (log : List (TickRecord F)) : Prop :=
  ∀ since, m.condSince = some since →
    ∃ r ∈ log.rtakeWhile (TickRecord.holds m.state), r.now = since

namespace Monitor

variable {m : Monitor F}

theorem timer_step {log : List (TickRecord F)} (h : Timer m log) (op : Op F) :
    Timer (m.step op).1 (log ++ (m.step op).2) := by
  intro since hsince
  cases m.timing_step op with
  | cleared hcond =>
    rw [hcond] at hsince
    cases hsince
  | kept hop hstate hcond =>
    have hnil : (m.step op).2 = [] := by
      cases op with
      | tick now => exact absurd rfl (hop now)
      | _ => rfl
    rw [hnil, List.append_nil, hstate]
    exact h since (hcond ▸ hsince)
  | seen now hop hsome hstate hcond =>
    subst hop
    have hholds : TickRecord.holds m.state (⟨now, m⟩ : TickRecord F) = true := by
      simp [TickRecord.holds, hsome]
    rw [hstate, show (m.step (.tick now)).2 = [⟨now, m⟩] from rfl,
      List.rtakeWhile_concat_pos _ _ _ hholds]
    cases hcond' : m.condSince with
    | none =>
      -- the timer starts with this tick
      rw [hcond, hcond'] at hsince
      cases hsince
      exact ⟨⟨now, m⟩, List.mem_append_right _ List.mem_cons_self, rfl⟩
    | some since' =>
      rw [hcond, hcond'] at hsince
      cases hsince
      obtain ⟨r, hr, hnow⟩ := h since' hcond'
      exact ⟨r, List.mem_append_left _ hr, hnow⟩

/-- **The timer of a run** that starts with the timer cleared. -/
theorem timer_run (hcond : m.condSince = none) (ops : List (Op F)) :
    Timer (Run.exec step m ops) (Run.outputs step m ops).flatten := by
  have hstep : ∀ (m : Monitor F) (log : List (TickRecord F)) (op : Op F), Timer m log → True →
      Timer (m.step op).1 (log ++ (m.step op).2) := fun m log op h _ => timer_step h op
  have hstart : Timer m [] := by
    intro since hsince
    rw [hcond] at hsince
    cases hsince
  have hevery : Run.Along step (fun _ _ => True) m ops :=
    Run.along_of_forall step (fun _ _ => trivial) m
  have hrun := Run.exec_induct_outputs hstep hstart hevery
  rwa [List.nil_append] at hrun

theorem timed_above (h : m.timed = some .above) :
    m.state ≠ .down ∧ Float64.lt m.maxLoss m.loss = true := by
  unfold timed at h
  split_ifs at h with habove hbelow
  · simpa using habove
  · cases h

theorem timed_below (h : m.timed = some .below) :
    m.state ≠ .healthy ∧ Float64.lt m.loss m.recoverLoss = true := by
  unfold timed at h
  split_ifs at h with habove hbelow
  · cases h
  · simpa using hbelow

end Monitor

/-! ### Lasting conditions -/

omit [Float64 F] in
theorem mem_rtakeWhile_mono {p q : TickRecord F → Bool} {log : List (TickRecord F)}
    (hpq : ∀ r ∈ log, p r = true → q r = true) {r : TickRecord F} (hr : r ∈ log.rtakeWhile p) :
    r ∈ log.rtakeWhile q := by
  induction log using List.reverseRecOn with
  | nil => exact hr
  | append_singleton log x ih =>
    rw [List.rtakeWhile_concat] at hr ⊢
    split at hr
    · next hx =>
      rw [if_pos (hpq x (by simp) hx)]
      rcases List.mem_append.mp hr with hr | hr
      · exact List.mem_append_left _ (ih (fun y hy => hpq y (List.mem_append_left _ hy)) hr)
      · exact List.mem_append_right _ hr
    · cases hr

/-- Two ticks of a degraded path in a row did not see one condition first and then the other. -/
def Steady (r r' : TickRecord F) : Prop :=
  r.holds .degraded = true → r'.holds .degraded = true → r.monitor.timed = r'.monitor.timed

instance (r r' : TickRecord F) : Decidable (Steady r r') := inferInstanceAs (Decidable (_ → _ → _))

theorem steady_suffix {log : List (TickRecord F)} {x : TickRecord F}
    (hsteady : (log ++ [x]).IsChain Steady) (hx : x.holds .degraded = true) {r : TickRecord F}
    (hr : r ∈ (log ++ [x]).rtakeWhile (TickRecord.holds .degraded)) :
    r ∈ (log ++ [x]).rtakeWhile fun y => decide (y.monitor.timed = x.monitor.timed) := by
  induction log using List.reverseRecOn generalizing x with
  | nil =>
    rw [List.nil_append, List.rtakeWhile_eq_self_iff.mpr (by simpa using hx)] at hr
    rw [List.nil_append, List.rtakeWhile_eq_self_iff.mpr (by simp)]
    exact hr
  | append_singleton log y ih =>
    rw [List.rtakeWhile_concat_pos _ _ _ hx] at hr
    rw [List.rtakeWhile_concat_pos _ _ _ (by simp)]
    rcases List.mem_append.mp hr with hr | hr
    · refine List.mem_append_left _ ?_
      obtain ⟨hchain, -, hlast⟩ := List.isChain_append.mp hsteady
      by_cases hy : y.holds .degraded = true
      · have hsame : y.monitor.timed = x.monitor.timed := hlast y (by simp) x (by simp) hy hx
        rw [← hsame]
        exact ih hchain hy hr
      · rw [List.rtakeWhile_concat_neg _ _ _ hy] at hr
        cases hr
    · exact List.mem_append_right _ hr

namespace Monitor

theorem Lasted.of_timer {m : Monitor F} {log : List (TickRecord F)} (htimer : Timer m log)
    {now since : Time} (hsince : m.condSince = some since) (hsome : m.timed.isSome = true)
    {d : Duration} (hd : d ≤ now - since) {p : TickRecord F → Bool}
    (hp : ∀ r ∈ (log ++ [TickRecord.mk now m]).rtakeWhile (TickRecord.holds m.state),
      r ∈ (log ++ [TickRecord.mk now m]).rtakeWhile p) : Lasted p d now (log ++ [TickRecord.mk now m]) := by
  obtain ⟨r, hr, rfl⟩ := htimer since hsince
  refine ⟨r, hp r ?_, hd⟩
  rw [List.rtakeWhile_concat_pos _ _ _ (by simp [TickRecord.holds, hsome])]
  exact List.mem_append_left _ hr

theorem above_of_holds {r : TickRecord F} (h : r.holds .healthy = true) : r.above = true := by
  rw [TickRecord.holds, Bool.and_eq_true, decide_eq_true_eq] at h
  obtain ⟨c, hc⟩ := Option.isSome_iff_exists.mp h.2
  cases c with
  | above => exact (timed_above hc).2
  | below => exact absurd h.1 (timed_below hc).1

theorem below_of_holds {r : TickRecord F} (h : r.holds .down = true) : r.below = true := by
  rw [TickRecord.holds, Bool.and_eq_true, decide_eq_true_eq] at h
  obtain ⟨c, hc⟩ := Option.isSome_iff_exists.mp h.2
  cases c with
  | above => exact absurd h.1 (timed_above hc).1
  | below => exact (timed_below hc).2

theorem lasted_degraded {m : Monitor F} {log : List (TickRecord F)} (htimer : Timer m log)
    {now since : Time} (hsteady : (log ++ [TickRecord.mk now m]).IsChain Steady) (hs : m.state = .degraded)
    {c : LossCond} (hc : m.timed = some c) (hsince : m.condSince = some since) {d : Duration}
    (hd : d ≤ now - since) {p : TickRecord F → Bool}
    (hp : ∀ r : TickRecord F, r.monitor.timed = some c → p r = true) :
    Lasted p d now (log ++ [TickRecord.mk now m]) := by
  have hsome : m.timed.isSome = true := by rw [hc]; rfl
  refine Lasted.of_timer htimer hsince hsome hd fun r hr => ?_
  have hlast : TickRecord.holds .degraded (⟨now, m⟩ : TickRecord F) = true := by
    simp [TickRecord.holds, hs, hsome]
  rw [hs] at hr
  refine mem_rtakeWhile_mono (fun x _ hx => hp x ?_) (steady_suffix hsteady hlast hr)
  exact (of_decide_eq_true hx).trans hc

/-- **Changes for loss need a lasting condition**, on a path whose estimate does not cross from
one condition to the other between two ticks while it is degraded. -/
theorem transitions_sustained (opts : HealthOptions F) (ops : List (Op F)) (now : Time) :
    let m := Run.exec step (newMonitor opts) ops
    let log := (Run.outputs step (newMonitor opts) ops).flatten ++ [TickRecord.mk now m]
    log.IsChain Steady →
      (m.state = .healthy → (m.tick now).state = .degraded →
        Lasted TickRecord.above m.degradeAft now log) ∧
      (m.state = .degraded → m.missedDown now = false → (m.tick now).state = .down →
        Lasted TickRecord.above m.degradeAft now log) ∧
      (m.state = .degraded → (m.tick now).state = .healthy →
        Lasted TickRecord.below m.recoverAft now log) := by
  intro m log hsteady
  have htimer : Timer m (Run.outputs step (newMonitor opts) ops).flatten := timer_run rfl ops
  refine ⟨fun hs ht => ?_, fun hs hmissed ht => ?_, fun hs ht => ?_⟩
  · obtain ⟨c, since, hc, hsince, hspan, -⟩ :=
      tick_changes (not_missed_of_tick (by rw [ht]; decide)) (by rw [ht, hs]; decide)
    cases c with
    | above =>
      refine Lasted.of_timer htimer hsince (by rw [hc]; rfl) hspan fun r hr => ?_
      rw [hs] at hr
      exact mem_rtakeWhile_mono (fun x _ hx => above_of_holds hx) hr
    | below => exact absurd hs (timed_below hc).1
  · obtain ⟨c, since, hc, hsince, hspan, htarget⟩ :=
      tick_changes (.inl hmissed) (by rw [ht, hs]; decide)
    cases c with
    | above => exact lasted_degraded htimer hsteady hs hc hsince hspan fun r hr => (timed_above hr).2
    | below =>
      rw [ht] at htarget
      cases htarget
  · obtain ⟨since, hc, hsince, hspan⟩ := tick_recovers (by rw [hs]; decide) ht
    exact lasted_degraded htimer hsteady hs hc hsince hspan fun r hr => (timed_below hr).2

end Monitor

end

/-- Options with the defaults, but with an estimate that decays fast. -/
def fastOptions : HealthOptions ℚ where
  maxLoss := 0
  degradeAfter := 0
  recoverAfter := 0
  downAfterMisses := 0
  downGrace := 0
  lossAlphaFast := 0
  lossAlphaSlow := 9 / 10
  jitterAlpha := 0

/-- Two bad windows degrade the path. -/
def degrading : List (Monitor.Op ℚ) := [.observeInBand 1, .observeInBand 1]

/-- The loss stays high, and three seconds later the path is dead. -/
theorem Monitor.transitions_sustained_small :
    let m := Run.exec step (newMonitor fastOptions) (degrading ++ [.tick 0])
    (m.state = .degraded ∧ (m.tick (3 * second)).state = .down) ∧
      Lasted TickRecord.above m.degradeAft (3 * second)
        ((Run.outputs step (newMonitor fastOptions) (degrading ++ [.tick 0])).flatten ++
          [TickRecord.mk (3 * second) m]) := by
  intro m
  have hstates : m.state = .degraded ∧ (m.tick (3 * second)).state = .down := by
    with_unfolding_all decide
  refine ⟨hstates, (transitions_sustained fastOptions (degrading ++ [.tick 0]) (3 * second)
    ?_).2.1 hstates.1 ?_ hstates.2⟩
  all_goals with_unfolding_all decide

/-- **A recovering path dies at once.**  Its loss has been low, and the first tick that sees a
spike takes the time of the recovery for the time of the spike. -/
theorem Monitor.escalates_at_once :
    let ops : List (Op ℚ) := degrading ++ [.observeRaw 0, .tick 0, .observeSample 1 0]
    let m := Run.exec step (newMonitor fastOptions) ops
    let log := (Run.outputs step (newMonitor fastOptions) ops).flatten ++
      [TickRecord.mk (3 * second) m]
    m.state = .degraded ∧ m.missedDown (3 * second) = false ∧
      (m.tick (3 * second)).state = .down ∧ m.degradeAft = 3 * second ∧
      log.map (fun r => (r.now, r.above, r.below)) = [(0, false, true), (3 * second, true, false)] ∧
      ¬ Lasted TickRecord.above m.degradeAft (3 * second) log := by
  with_unfolding_all decide

/-! ### The time a path stays away -/

section
variable {F : Type} [Float64 F]

/-- Whether an operation changes the settings. -/
def Monitor.Op.isReload : Monitor.Op F → Bool
  | .reload _ => true
  | _ => false

namespace Monitor

theorem tick_shape (m : Monitor F) (now : Time) :
    ∃ s c b, m.tick now = { m with state := s, condSince := c, revived := b } := by
  rw [tick_eq]
  split
  · exact ⟨_, _, _, rfl⟩
  · split
    · exact ⟨_, _, _, rfl⟩
    · unfold sustained
      split
      · exact ⟨_, _, _, rfl⟩
      · split <;> exact ⟨_, _, _, rfl⟩

theorem options_step {m : Monitor F} {op : Op F} (hop : op.isReload = false) :
    (m.step op).1.options = m.options := by
  cases op with
  | observeSample loss rtt => exact (m.unmoved_observeSample loss rtt).1
  | noteAlive => exact m.unmoved_noteAlive.1
  | noteMissedProbe now => exact (m.unmoved_noteMissedProbe now).1
  | observeInBand lossRate => exact (m.unmoved_observeInBand lossRate).1
  | observeRaw lossRate => rfl
  | reload opts => cases hop
  | tick now =>
    obtain ⟨s, c, b, hshape⟩ := m.tick_shape now
    show (m.tick now).options = m.options
    rw [hshape]
    rfl

theorem options_exec {m : Monitor F} {ops : List (Op F)}
    (hops : ∀ op ∈ ops, op.isReload = false) : (Run.exec step m ops).options = m.options := by
  have hstep : ∀ (m' : Monitor F) (op : Op F), m'.options = m.options →
      op.isReload = false → (m'.step op).1.options = m.options :=
    fun m' op h hop => (options_step hop).trans h
  exact Run.exec_induct hstep rfl (Run.along_of_forall step hops m)

/-- **The dwell time.**  The tick that brings a path back is the recovery span later than the
first tick after the path left the healthy state; and a dead path comes back only when all ticks
for that long saw little loss. -/
theorem dwell (opts : HealthOptions F) (pre : List (Op F)) (op : Op F) (post : List (Op F))
    (now : Time) (hops : ∀ o ∈ pre ++ op :: post, o.isReload = false) :
    let m₀ := Run.exec step (newMonitor opts) pre
    let m₁ := (m₀.step op).1
    let m := Run.exec step m₁ post
    let ticks := (Run.outputs step m₁ post).flatten ++ [TickRecord.mk now m]
    let log := (Run.outputs step (newMonitor opts) (pre ++ op :: post)).flatten ++
      [TickRecord.mk now m]
    log.Pairwise (fun r r' => r.now ≤ r'.now) →
      (m₀.state = .healthy → m₁.state ≠ .healthy → m.state ≠ .healthy →
        (m.tick now).state = .healthy →
          ∃ first, ticks.head? = some first ∧ (newMonitor opts).recoverAft ≤ now - first.now) ∧
      (m.state = .down → (m.tick now).state = .healthy →
        Lasted TickRecord.below (newMonitor opts).recoverAft now log) := by
  intro m₀ m₁ m ticks log htimes
  have hexec : Run.exec step (newMonitor opts) (pre ++ op :: post) = m := by
    rw [Run.exec_append, Run.exec_cons]
  have hrecover : m.recoverAft = (newMonitor opts).recoverAft := by
    rw [← hexec]
    exact congrArg HealthOptions.recoverAfter (options_exec hops)
  refine ⟨fun hs₀ hs₁ hs ht => ?_, fun hs ht => ?_⟩
  · -- the timer was cleared when the path left, and started by a tick since then
    have hcleared : m₁.condSince = none := condSince_of_state_ne (by rw [hs₀]; exact hs₁)
    obtain ⟨since, -, hsince, hspan⟩ := tick_recovers hs ht
    obtain ⟨r, hr, rfl⟩ := timer_run hcleared post since hsince
    have hmem := List.IsSuffix.subset (List.rtakeWhile_suffix _ _) hr
    have hsuffix : ticks <:+ log := by
      refine ⟨(Run.outputs step (newMonitor opts) pre).flatten ++ (m₀.step op).2, ?_⟩
      simp only [log, ticks, Run.outputs_append, Run.outputs_cons, List.flatten_append,
        List.flatten_cons, List.append_assoc]
      rfl
    have hsorted := htimes.sublist hsuffix.sublist
    cases hticks : (Run.outputs step m₁ post).flatten with
    | nil =>
      rw [hticks] at hmem
      cases hmem
    | cons first rest =>
      refine ⟨first, by simp [ticks, hticks], ?_⟩
      have hle : first.now ≤ r.now := by
        rw [hticks] at hmem
        simp only [ticks, hticks, List.cons_append, List.pairwise_cons] at hsorted
        rcases List.mem_cons.mp hmem with rfl | hmem
        · exact le_refl _
        · exact hsorted.1 r (List.mem_append_left _ hmem)
      rw [← hrecover]
      linarith
  · obtain ⟨since, hc, hsince, hspan⟩ := tick_recovers (by rw [hs]; decide) ht
    have htimer : Timer m (Run.outputs step (newMonitor opts) (pre ++ op :: post)).flatten := by
      rw [← hexec]
      exact timer_run rfl _
    rw [← hrecover]
    refine Lasted.of_timer htimer hsince (by rw [hc]; rfl) hspan fun r hr => ?_
    rw [hs] at hr
    exact mem_rtakeWhile_mono (fun x _ hx => below_of_holds hx) hr

end Monitor

end

/-- The loss falls at once, and ten seconds after the first tick the path is back. -/
theorem Monitor.dwell_small :
    let m := Run.exec step (newMonitor fastOptions) (degrading ++ [.observeRaw 0, .tick 0])
    (m.state = .degraded ∧ (m.tick (10 * second)).state = .healthy) ∧
      ∃ first : TickRecord ℚ, ([TickRecord.mk 0 (Run.exec step (newMonitor fastOptions)
          (degrading ++ [.observeRaw 0])), TickRecord.mk (10 * second) m]).head? = some first ∧
        (newMonitor fastOptions).recoverAft ≤ 10 * second - first.now := by
  intro m
  have hstates : m.state = .degraded ∧ (m.tick (10 * second)).state = .healthy := by
    with_unfolding_all decide
  refine ⟨hstates, ?_⟩
  refine (dwell fastOptions [.observeInBand 1] (.observeInBand 1) [.observeRaw 0, .tick 0]
    (10 * second) (by decide) ?_).1 ?_ ?_ ?_ ?_
  all_goals with_unfolding_all decide

/-! ### Answers of a dead path -/

section
variable {F : Type} [Float64 F]

/-- A weight strictly between 0 and 1, or not a number. -/
def IsFraction (x : F) : Prop :=
  Float64.le x (Float64.ofInt 0) = false ∧ Float64.le (Float64.ofInt 1) x = false

variable (F) in
/-- The law about weighted means: what lies between two numbers that are not below a bound is not
below it, and the default weights are fractions. -/
structure Float64.Blends : Prop where
  fast : IsFraction (Float64.ofInt 4 / Float64.ofInt 10 : F)
  slow : IsFraction (Float64.ofInt 3 / Float64.ofInt 100 : F)
  keeps : ∀ {a h x s : F}, IsFraction a → Float64.lt x h = false → Float64.lt s h = false →
    Float64.lt (x + a * (s - x)) h = false

theorem isFraction_fractionOr {x dflt : F} (h : IsFraction dflt) : IsFraction (fractionOr x dflt) := by
  unfold fractionOr
  split
  · exact h
  · next hx =>
    rw [Bool.or_eq_true, not_or, Bool.not_eq_true, Bool.not_eq_true] at hx
    exact hx

/-- Whether an operation records an answer of the path. -/
def Monitor.Op.isResponse : Monitor.Op F → Bool
  | .noteAlive => true
  | .observeSample _ rtt => decide (rtt > 0)
  | _ => false

/-- A monitor, and whether the path has answered since it was last found dead. -/
structure Watched (F : Type) where
  monitor : Monitor F
  answered : Bool := false

namespace Watched

/-- One operation. -/
def step (w : Watched F) (op : Monitor.Op F) : Watched F × List (TickRecord F) :=
  let r := w.monitor.step op
  ({ monitor := r.1
     answered :=
      if w.monitor.state ≠ .down && r.1.state = .down then false
      else w.answered || op.isResponse }, r.2)

/-- An operation does not bring the estimate of a dead path below half of its bound: the samples
are not below it, and neither is the estimate after new settings. -/
def quiet (m : Monitor F) : Monitor.Op F → Bool
  | .observeSample loss _ => !Float64.lt loss m.recoverLoss
  | .observeInBand lossRate => !Float64.lt lossRate m.recoverLoss
  | .observeRaw lossRate => !Float64.lt lossRate m.recoverLoss
  | .reload opts => !Float64.lt m.loss (m.reload opts).recoverLoss
  | _ => true

/-- The estimate is high when a path is found dead, and nothing but an answer lowers it. -/
def sturdy (w : Watched F) (op : Monitor.Op F) : Bool :=
  (w.monitor.state = .down || (w.monitor.step op).1.state ≠ .down ||
    !Float64.lt w.monitor.loss w.monitor.recoverLoss) &&
  (w.monitor.state ≠ .down || w.answered || op.isResponse || quiet w.monitor op)

/-- The estimate of a dead path that has not answered is high. -/
structure Dead (w : Watched F) : Prop where
  fast : IsFraction w.monitor.alphaFast
  slow : IsFraction w.monitor.alphaSlow
  high : w.monitor.state = .down → w.answered = false →
    Float64.lt w.monitor.loss w.monitor.recoverLoss = false

variable {m : Monitor F} {op : Monitor.Op F}

theorem fractions_step (hfast : IsFraction m.alphaFast) (hslow : IsFraction m.alphaSlow)
    (op : Monitor.Op F) :
    IsFraction (m.step op).1.alphaFast ∧ IsFraction (m.step op).1.alphaSlow := by
  cases hop : op.isReload with
  | false =>
    show IsFraction (m.step op).1.options.lossAlphaFast ∧
      IsFraction (m.step op).1.options.lossAlphaSlow
    rw [Monitor.options_step hop]
    exact ⟨hfast, hslow⟩
  | true =>
    cases op with
    | reload opts => exact ⟨isFraction_fractionOr hfast, isFraction_fractionOr hslow⟩
    | _ => cases hop

theorem blendLoss_high (hF : Float64.Blends F) (hfast : IsFraction m.alphaFast)
    (hslow : IsFraction m.alphaSlow) {h : F} (hloss : Float64.lt m.loss h = false) (sample : F)
    (hsample : Float64.lt sample h = false) : Float64.lt (m.blendLoss sample).loss h = false := by
  unfold Monitor.blendLoss
  dsimp only
  split
  · exact hF.keeps hfast hloss hsample
  · exact hF.keeps hslow hloss hsample

omit [Float64 F] in
theorem loss_noteMissedProbe (m : Monitor F) (now : Time) :
    (m.noteMissedProbe now).loss = m.loss := by
  unfold Monitor.noteMissedProbe
  dsimp only
  split_ifs <;> rfl

theorem loss_tick (m : Monitor F) (now : Time) : (m.tick now).loss = m.loss := by
  obtain ⟨s, c, b, hshape⟩ := m.tick_shape now
  rw [hshape]

theorem recoverLoss_step (hop : op.isReload = false) : (m.step op).1.recoverLoss = m.recoverLoss :=
  congrArg (fun o : HealthOptions F => o.maxLoss * _) (Monitor.options_step hop)

/-- **What keeps the estimate of a dead path high**, an answer apart. -/
theorem high_of_quiet (hF : Float64.Blends F) (hfast : IsFraction m.alphaFast)
    (hslow : IsFraction m.alphaSlow) (hloss : Float64.lt m.loss m.recoverLoss = false)
    (hanswer : op.isResponse = false) (hquiet : quiet m op = true) :
    Float64.lt (m.step op).1.loss (m.step op).1.recoverLoss = false := by
  have hblend := blendLoss_high hF hfast hslow hloss
  cases op with
  | reload opts => exact (Bool.not_eq_true' _).mp hquiet
  | observeSample loss rtt =>
    rw [recoverLoss_step rfl]
    show Float64.lt (m.observeSample loss rtt).loss _ = false
    unfold Monitor.observeSample
    dsimp only
    rw [if_neg (of_decide_eq_false hanswer)]
    exact hblend loss ((Bool.not_eq_true' _).mp hquiet)
  | noteAlive => cases hanswer
  | noteMissedProbe now =>
    rw [recoverLoss_step rfl]
    exact (loss_noteMissedProbe m now).symm ▸ hloss
  | observeInBand lossRate =>
    rw [recoverLoss_step rfl]
    show Float64.lt (m.observeInBand lossRate).loss _ = false
    unfold Monitor.observeInBand
    dsimp only
    split_ifs <;> exact hblend lossRate ((Bool.not_eq_true' _).mp hquiet)
  | observeRaw lossRate => exact hblend lossRate ((Bool.not_eq_true' _).mp hquiet)
  | tick now =>
    rw [recoverLoss_step rfl]
    exact (loss_tick m now).symm ▸ hloss

theorem state_noteAlive (m : Monitor F) : m.noteAlive.state = m.state := by
  unfold Monitor.noteAlive
  dsimp only
  split <;> rfl

theorem estimate_of_found_dead (hs : m.state ≠ .down) (hs' : (m.step op).1.state = .down) :
    (m.step op).1.loss = m.loss ∧ (m.step op).1.recoverLoss = m.recoverLoss := by
  cases op with
  | observeSample loss rtt =>
    refine absurd ?_ hs
    rw [← hs']
    show m.state = (m.observeSample loss rtt).state
    unfold Monitor.observeSample
    dsimp only
    split
    · rw [state_noteAlive]
      rfl
    · rfl
  | noteAlive => exact absurd ((state_noteAlive m).symm.trans hs') hs
  | noteMissedProbe now => exact ⟨loss_noteMissedProbe m now, recoverLoss_step rfl⟩
  | observeInBand lossRate =>
    refine absurd ?_ hs
    change (m.observeInBand lossRate).state = .down at hs'
    unfold Monitor.observeInBand at hs'
    dsimp only at hs'
    split_ifs at hs'
    · cases hs'
    · exact hs'
    · exact hs'
  | observeRaw lossRate => exact absurd hs' hs
  | reload opts => exact absurd hs' hs
  | tick now => exact ⟨loss_tick m now, recoverLoss_step rfl⟩

theorem dead_step (hF : Float64.Blends F) {w : Watched F} (h : w.Dead)
    (hsturdy : w.sturdy op = true) : (w.step op).1.Dead := by
  obtain ⟨hfast, hslow⟩ := fractions_step h.fast h.slow op
  refine ⟨hfast, hslow, ?_⟩
  intro hs' hanswered
  change (w.monitor.step op).1.state = .down at hs'
  show Float64.lt (w.monitor.step op).1.loss (w.monitor.step op).1.recoverLoss = false
  rw [sturdy, Bool.and_eq_true] at hsturdy
  by_cases hs : w.monitor.state = .down
  · have hquiet : (w.answered || op.isResponse) = false := by
      change (if (decide (w.monitor.state ≠ .down) && decide ((w.monitor.step op).1.state = .down))
        then false else w.answered || op.isResponse) = false at hanswered
      rwa [if_neg (by simp [hs])] at hanswered
    rw [Bool.or_eq_false_iff] at hquiet
    have hop := hsturdy.2
    rw [hquiet.1, hquiet.2] at hop
    exact high_of_quiet hF h.fast h.slow (h.high hs hquiet.1) hquiet.2 (by simpa [hs] using hop)
  · obtain ⟨hloss, hrecover⟩ := estimate_of_found_dead hs hs'
    rw [hloss, hrecover]
    simpa [hs, hs'] using hsturdy.1

/-- **A dead path comes back after an answer**, as long as its estimate is high when it is found
dead and nothing but an answer lowers it. -/
theorem revived_answered (hF : Float64.Blends F) (opts : HealthOptions F)
    (ops : List (Monitor.Op F))
    (hops : Run.Along step (fun w op => w.sturdy op = true) { monitor := newMonitor opts } ops)
    (now : Time) :
    let w := Run.exec step { monitor := newMonitor opts } ops
    w.monitor.state = .down → (w.monitor.tick now).state = .healthy → w.answered = true := by
  intro w hs ht
  have hstep : ∀ (w : Watched F) (op : Monitor.Op F), w.Dead → w.sturdy op = true →
      (w.step op).1.Dead := fun w op h hop => dead_step hF h hop
  have hstart : Dead { monitor := newMonitor opts } :=
    ⟨isFraction_fractionOr hF.fast, isFraction_fractionOr hF.slow, fun hdown => by cases hdown⟩
  have hdead : w.Dead := Run.exec_induct hstep hstart hops
  obtain ⟨since, hbelow, -, -⟩ := Monitor.tick_recovers (by rw [hs]; decide) ht
  by_contra hno
  have hhigh := hdead.high hs (Bool.eq_false_of_not_eq_true hno)
  rw [(Monitor.timed_below hbelow).2] at hhigh
  cases hhigh

end Watched

end

/-- Exact arithmetic. -/
theorem blends_rat : Float64.Blends ℚ where
  fast := by
    unfold IsFraction
    with_unfolding_all decide
  slow := by
    unfold IsFraction
    with_unfolding_all decide
  keeps := by
    intro a h x s ha hx hs
    obtain ⟨ha0, ha1⟩ := ha
    have h0 : 0 < a := by simpa [Float64.le, Float64.ofInt] using ha0
    have h1 : a < 1 := by simpa [Float64.le, Float64.ofInt] using ha1
    have hx' : h ≤ x := by simpa [Float64.lt] using hx
    have hs' : h ≤ s := by simpa [Float64.lt] using hs
    have hmean : h ≤ x + a * (s - x) := by nlinarith
    simpa [Float64.lt] using hmean

/-- A path with high loss that is found dead, answers, and comes back. -/
def answering : List (Monitor.Op ℚ) :=
  [.observeSample 1 0, .noteMissedProbe 0, .noteMissedProbe 0, .noteMissedProbe 0, .noteAlive,
    .tick 0]

theorem Watched.revived_answered_small :
    let w := Run.exec step { monitor := newMonitor fastOptions } answering
    (w.monitor.state = .down ∧ (w.monitor.tick (10 * second)).state = .healthy) ∧
      w.answered = true := by
  intro w
  have hstates : w.monitor.state = .down ∧ (w.monitor.tick (10 * second)).state = .healthy := by
    with_unfolding_all decide
  exact ⟨hstates, revived_answered blends_rat fastOptions answering
    (by with_unfolding_all decide) (10 * second) hstates.1 hstates.2⟩

/-- **A dead path comes back without an answer.**  Missed probes alone do not raise the estimate,
and a tick looks at nothing else. -/
theorem Watched.revived_unanswered :
    let w := Run.exec step { monitor := newMonitor fastOptions }
      [.noteMissedProbe 0, .noteMissedProbe 0, .noteMissedProbe 0, .tick 0]
    w.monitor.state = .down ∧ (w.monitor.tick (10 * second)).state = .healthy ∧
      w.answered = false := by
  with_unfolding_all decide

end FlexBraid
