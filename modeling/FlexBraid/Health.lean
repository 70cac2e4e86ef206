import FlexBraid.Lib.GoNum

/-!
# The path monitor

Each path has a monitor: an estimate of its loss that rises fast and decays
slowly, estimates of its round-trip time and jitter, and a circuit breaker with
hysteresis.

The clock readings a call takes are arguments of the call.

## Main definitions

* `Monitor`, `newMonitor` — a monitor and its options.
* `Monitor.observeSample`, `Monitor.noteAlive`, `Monitor.noteMissedProbe`,
  `Monitor.observeInBand`, `Monitor.observeRaw` — what a path reports.
* `Monitor.tick` — the circuit breaker.
* `Monitor.reload` — new options at runtime.
-/

namespace FlexBraid

/-- The state of a path's circuit breaker. -/
inductive PathHealth where
  /-- The path carries traffic normally. -/
  | healthy
  /-- The loss exceeds what coding can repair. -/
  | degraded
  /-- The path is considered dead. -/
  | down
deriving DecidableEq, Repr

/-- The tuning of a monitor; zero values fall back to defaults. -/
structure HealthOptions (F : Type) where
  maxLoss : F
  degradeAfter : Duration
  recoverAfter : Duration
  downAfterMisses : ℤ
  downGrace : Duration
  lossAlphaFast : F
  lossAlphaSlow : F
  jitterAlpha : F

structure Monitor (F : Type) where
  maxLoss : F
  degradeAft : Duration
  recoverAft : Duration
  downAftMiss : ℤ
  downGrace : Duration
  alphaFast : F
  alphaSlow : F
  jitterAlpha : F
  /-- The estimated loss, between 0 and 1. -/
  loss : F
  rtt : Duration := 0
  jitter : Duration := 0
  state : PathHealth := .healthy
  /-- Consecutive unanswered probes. -/
  misses : ℤ := 0
  missSince : Option Time := none
  /-- Since when the current condition has lasted. -/
  condSince : Option Time := none
  /-- Whether a dead path has answered again. -/
  revived : Bool := false
  /-- Consecutive windows with more unrecovered loss than coding repairs. -/
  inBandBad : ℕ := 0

section
variable {F : Type} [Float64 F]

/-- A fraction that must lie strictly between 0 and 1, or its default. -/
def fractionOr (x dflt : F) : F :=
  if Float64.le x (Float64.ofInt 0) || Float64.le (Float64.ofInt 1) x then dflt else x

/-- The share of lost frames, if it is positive. -/
def lossRate (lost received : ℕ) : Option F :=
  if received > 0 then
    let rate : F := Float64.ofInt lost / Float64.ofInt (lost + received)
    if Float64.lt (Float64.ofInt 0) rate then some rate else none
  else none

/-- A monitor for the given options, with the defaults filled in. -/
def newMonitor (opts : HealthOptions F) : Monitor F where
  maxLoss := fractionOr opts.maxLoss (Float64.ofInt 2 / Float64.ofInt 10)
  degradeAft := positiveOr opts.degradeAfter (3 * second)
  recoverAft := positiveOr opts.recoverAfter (10 * second)
  downAftMiss := positiveOr opts.downAfterMisses 3
  downGrace := if opts.downGrace < 0 then 0 else opts.downGrace
  alphaFast := fractionOr opts.lossAlphaFast (Float64.ofInt 4 / Float64.ofInt 10)
  alphaSlow := fractionOr opts.lossAlphaSlow (Float64.ofInt 3 / Float64.ofInt 100)
  jitterAlpha := fractionOr opts.jitterAlpha (Float64.ofInt 1 / Float64.ofInt 10)
  loss := Float64.ofInt 0

namespace Monitor

/-- Apply new options at runtime: those without a value stay as they are, and so do the state, the
estimates and the counters. -/
def reload (m : Monitor F) (opts : HealthOptions F) : Monitor F :=
  { m with
    maxLoss := fractionOr opts.maxLoss m.maxLoss
    degradeAft := positiveOr opts.degradeAfter m.degradeAft
    recoverAft := positiveOr opts.recoverAfter m.recoverAft
    downAftMiss := positiveOr opts.downAfterMisses m.downAftMiss
    downGrace := opts.downGrace
    alphaFast := fractionOr opts.lossAlphaFast m.alphaFast
    alphaSlow := fractionOr opts.lossAlphaSlow m.alphaSlow
    jitterAlpha := fractionOr opts.jitterAlpha m.jitterAlpha }

/-- Move the loss estimate towards a sample: fast upwards, slowly downwards. -/
def blendLoss (m : Monitor F) (sample : F) : Monitor F :=
  { m with
    loss :=
      if Float64.lt m.loss sample then m.loss + m.alphaFast * (sample - m.loss)
      else m.loss + m.alphaSlow * (sample - m.loss) }

/-- Enter a state; the condition timer starts anew. -/
def setState (m : Monitor F) (s : PathHealth) : Monitor F :=
  { m with state := s, condSince := none, revived := false }

/-- Record that the path answered.  The first answer of a dead path resets its
loss. -/
def noteAlive (m : Monitor F) : Monitor F :=
  let m' := { m with misses := 0, missSince := none }
  if m.state = .down && !m.revived then
    { m' with revived := true, loss := Float64.ofInt 0, condSince := none }
  else m'

/-- Record the outcome of a probe: its loss, and its round-trip time if positive. -/
def observeSample (m : Monitor F) (loss : F) (rtt : Duration) : Monitor F :=
  let m := m.blendLoss loss
  if rtt > 0 then
    let delta := |rtt - m.rtt|
    let m' : Monitor F :=
      { m with
        rtt := if m.rtt = 0 then rtt
          else m.rtt + Float64.trunc (m.jitterAlpha * Float64.ofInt (rtt - m.rtt))
        jitter := m.jitter + Float64.trunc (m.jitterAlpha * Float64.ofInt (delta - m.jitter)) }
    m'.noteAlive
  else m

/-- Record an unanswered probe; enough of them in a row mark the path dead, at once
or after the grace period. -/
def noteMissedProbe (m : Monitor F) (now : Time) : Monitor F :=
  let m := { m with misses := m.misses + 1 }
  if m.misses ≥ m.downAftMiss then
    if m.downGrace ≤ 0 then
      if m.state ≠ .down then m.setState .down else m
    else if m.missSince.isNone then { m with missSince := some now }
    else m
  else m

/-- Record the unrecovered loss of a window; two bad windows in a row degrade a
healthy path. -/
def observeInBand (m : Monitor F) (lossRate : F) : Monitor F :=
  let m := m.blendLoss lossRate
  if Float64.lt m.maxLoss lossRate then
    let m := { m with inBandBad := m.inBandBad + 1 }
    if m.inBandBad ≥ 2 && m.state = .healthy then m.setState .degraded else m
  else { m with inBandBad := 0 }

/-- Record the raw loss of a path. -/
def observeRaw (m : Monitor F) (lossRate : F) : Monitor F := m.blendLoss lossRate

/-- A condition that holds now: start its timer, or act when it has lasted. -/
def sustained (m : Monitor F) (now : Time) (d : Duration) (next : PathHealth) : Monitor F :=
  match m.condSince with
  | none => { m with condSince := some now }
  | some since => if now - since ≥ d then m.setState next else m

/-- Whether enough probes were missed, for as long as the grace period asks. -/
def missedDown (m : Monitor F) (now : Time) : Bool :=
  decide (m.misses ≥ m.downAftMiss) &&
    (decide (m.downGrace ≤ 0) ||
      match m.missSince with
      | none => false
      | some since => decide (now - since ≥ m.downGrace))

/-- Half the loss at which a path degrades: the loss below which it recovers. -/
def recoverLoss (m : Monitor F) : F := m.maxLoss * (Float64.ofInt 1 / Float64.ofInt 2)

/-- Advance the circuit breaker. -/
def tick (m : Monitor F) (now : Time) : Monitor F :=
  match m.state with
  | .healthy =>
    if m.missedDown now then m.setState .down
    else if Float64.lt m.maxLoss m.loss then m.sustained now m.degradeAft .degraded
    else { m with condSince := none }
  | .degraded =>
    if m.missedDown now then m.setState .down
    else if Float64.lt m.maxLoss m.loss then m.sustained now m.degradeAft .down
    else if Float64.lt m.loss m.recoverLoss then m.sustained now m.recoverAft .healthy
    else { m with condSince := none }
  | .down =>
    if Float64.lt m.loss m.recoverLoss then m.sustained now m.recoverAft .healthy
    else { m with condSince := none }

end Monitor

end

end FlexBraid
