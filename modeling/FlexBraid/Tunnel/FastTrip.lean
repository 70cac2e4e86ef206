import FlexBraid.Breaker
import FlexBraid.Tunnel.Client
import FlexBraid.Tunnel.Server

/-!
# The fast trip of the circuit breaker

Every 200 ms the health loops read out of a decoder how many coded frames of a path it booked as
lost and as received, and tell the path's monitor the share of the lost ones.  The monitor counts
the windows in a row with more loss than coding repairs, and the second of them degrades a healthy
path at once.

The loops tell the monitor of a window only if something was received in it and something was
lost.  So the counter is about the windows that are reported: a window without loss does not
reset it, and a window in which everything was lost does not raise it.

## Main definitions

* `Window`, `Window.rate`, `Window.booked`, `Window.reported` — what a decoder booked in a window.
* `PathEvent`, `Monitor.handle` — the calls on a path's monitor, window by window.
* `Judged` — a window, and the bound it was measured against.

## Main results

* `Monitor.trips_iff` — **the trip, by the windows reported**: this one and the last one before it
  were bad.
* `Monitor.trips_on_two_bad` — the same by the windows booked, where these were reported, and
  `Monitor.trips_after_clean`, where they were not.
* `Server.health_healthTickPath`, `Client.health_healthTickWan` — a turn of the health loops is a
  sequence of such calls.
-/

namespace FlexBraid

/-- What a decoder booked of a path in one window: its coded frames lost and received. -/
structure Window where
  lost : ℕ
  received : ℕ
deriving DecidableEq, Repr

/-- What happens to the monitor of a path. -/
inductive PathEvent (F : Type) where
  /-- A health loop reads out the coded frames of a window. -/
  | window (w : Window)
  /-- A health loop reads out the pass-through frames of a window. -/
  | rawWindow (w : Window)
  | observeSample (loss : F) (rtt : Duration)
  | noteAlive
  | noteMissedProbe (now : Time)
  | reload (opts : HealthOptions F)
  | tick (now : Time)

/-- A window, and the largest loss that was acceptable when it ended. -/
structure Judged (F : Type) where
  window : Window
  maxLoss : F

section
variable {F : Type} [Float64 F]

namespace Window

variable (F) in
/-- The share of lost frames. -/
def rate (w : Window) : F := Float64.ofInt w.lost / Float64.ofInt (w.lost + w.received)

/-- Whether any frame was booked. -/
def booked (w : Window) : Bool := decide (0 < w.lost + w.received)

variable (F) in
/-- Whether the loops report a window: frames were received in it, and the share of lost ones is
positive. -/
def reported (w : Window) : Bool :=
  decide (0 < w.received) && Float64.lt (Float64.ofInt 0) (w.rate F)

/-- Whether more was lost than is acceptable. -/
def bad (w : Window) (maxLoss : F) : Bool := Float64.lt maxLoss (w.rate F)

theorem lossRate_eq (w : Window) :
    lossRate w.lost w.received = if w.reported F then some (w.rate F) else none := by
  unfold lossRate reported
  by_cases h : 0 < w.received
  · rw [if_pos h, decide_eq_true h, Bool.true_and]
    rfl
  · rw [if_neg h, decide_eq_false h, Bool.false_and]
    rfl

end Window

/-- Whether a window was bad. -/
def Judged.bad (r : Judged F) : Bool := r.window.bad r.maxLoss

def PathEvent.ops : PathEvent F → List (Monitor.Op F)
  | .window w => (lossRate w.lost w.received).toList.map .observeInBand
  | .rawWindow w => (lossRate w.lost w.received).toList.map .observeRaw
  | .observeSample loss rtt => [.observeSample loss rtt]
  | .noteAlive => [.noteAlive]
  | .noteMissedProbe now => [.noteMissedProbe now]
  | .reload opts => [.reload opts]
  | .tick now => [.tick now]

namespace Monitor

/-- What the event says about the path, with the bound of the moment: a window in which a frame
was booked. -/
def judge (m : Monitor F) : PathEvent F → List (Judged F)
  | .window w => if w.booked then [⟨w, m.maxLoss⟩] else []
  | _ => []

/-- One event of a path. -/
def handle (m : Monitor F) (e : PathEvent F) : Monitor F × List (Judged F) :=
  (Run.exec step m e.ops, m.judge e)

theorem handle_window (m : Monitor F) (w : Window) :
    (m.handle (.window w)).1 = if w.reported F then m.observeInBand (w.rate F) else m := by
  change Run.exec step m ((lossRate w.lost w.received).toList.map Op.observeInBand) = _
  rw [w.lossRate_eq]
  split <;> rfl

/-! ### The counter of bad windows -/

theorem inBandBad_noteAlive (m : Monitor F) : m.noteAlive.inBandBad = m.inBandBad := by
  unfold noteAlive
  dsimp only
  split <;> rfl

omit [Float64 F] in
theorem inBandBad_sustained (m : Monitor F) (now : Time) (d : Duration) (next : PathHealth) :
    (m.sustained now d next).inBandBad = m.inBandBad := by
  unfold sustained
  split
  · rfl
  · split <;> rfl

/-- **Only a report of a window counts**; neither a change of the state nor new settings do. -/
theorem inBandBad_step (m : Monitor F) {op : Op F} (hop : ∀ r, op ≠ .observeInBand r) :
    (m.step op).1.inBandBad = m.inBandBad := by
  cases op with
  | observeSample loss rtt =>
    change (m.observeSample loss rtt).inBandBad = _
    unfold observeSample
    dsimp only
    split
    · rw [inBandBad_noteAlive]
      rfl
    · rfl
  | noteAlive => exact m.inBandBad_noteAlive
  | noteMissedProbe now =>
    change (m.noteMissedProbe now).inBandBad = _
    unfold noteMissedProbe
    dsimp only
    split_ifs <;> rfl
  | observeInBand r => exact absurd rfl (hop r)
  | observeRaw r => rfl
  | reload opts => rfl
  | tick now =>
    change (m.tick now).inBandBad = _
    rw [tick_eq]
    split
    · rfl
    · split
      · rfl
      · exact inBandBad_sustained _ _ _ _

theorem inBandBad_observeInBand (m : Monitor F) (r : F) :
    (m.observeInBand r).inBandBad = if Float64.lt m.maxLoss r then m.inBandBad + 1 else 0 := by
  unfold observeInBand
  change (if Float64.lt m.maxLoss r = true then _ else _ : Monitor F).inBandBad = _
  split
  · dsimp only
    split <;> rfl
  · rfl

theorem inBandBad_handle (m : Monitor F) {e : PathEvent F} (he : ∀ w, e ≠ .window w) :
    (m.handle e).1.inBandBad = m.inBandBad := by
  have hops : ∀ op ∈ e.ops, ∀ r, op ≠ .observeInBand r := by
    intro op hop r h
    subst h
    cases e with
    | window w => exact he w rfl
    | rawWindow w => simp [PathEvent.ops] at hop
    | observeSample loss rtt => simp [PathEvent.ops] at hop
    | noteAlive => simp [PathEvent.ops] at hop
    | noteMissedProbe now => simp [PathEvent.ops] at hop
    | reload opts => simp [PathEvent.ops] at hop
    | tick now => simp [PathEvent.ops] at hop
  have hstep : ∀ (m' : Monitor F) (op : Op F), m'.inBandBad = m.inBandBad →
      (∀ r, op ≠ .observeInBand r) → (m'.step op).1.inBandBad = m.inBandBad :=
    fun m' _ h hop => (m'.inBandBad_step hop).trans h
  exact Run.exec_induct hstep rfl (Run.along_of_forall step hops m)

/-! ### Runs -/

def lastReported (log : List (Judged F)) : Option (Judged F) :=
  (log.filter fun r => r.window.reported F).getLast?

/-- The counter says whether the last window reported was bad. -/
def Counted (m : Monitor F) (log : List (Judged F)) : Prop :=
  0 < m.inBandBad ↔ ∃ r ∈ lastReported log, r.bad = true

theorem booked_of_reported {w : Window} (h : w.reported F = true) : w.booked = true := by
  rw [Window.reported, Bool.and_eq_true, decide_eq_true_eq] at h
  rw [Window.booked, decide_eq_true_eq]
  omega

theorem lastReported_window {w : Window} (h : w.reported F = true) (m : Monitor F)
    (log : List (Judged F)) :
    lastReported (log ++ (m.handle (.window w)).2) = some ⟨w, m.maxLoss⟩ := by
  change lastReported (log ++ if w.booked = true then [⟨w, m.maxLoss⟩] else []) = _
  rw [if_pos (booked_of_reported h), lastReported, List.filter_append]
  simp [h]

theorem lastReported_of_not {e : PathEvent F} (h : ∀ w, e = .window w → w.reported F = false)
    (m : Monitor F) (log : List (Judged F)) :
    lastReported (log ++ (m.handle e).2) = lastReported log := by
  have hout : (m.handle e).2.filter (fun r => r.window.reported F) = [] := by
    change (m.judge e).filter _ = []
    unfold judge
    split
    · next w =>
      split
      · simp [h w rfl]
      · rfl
    · rfl
  rw [lastReported, List.filter_append, hout, List.append_nil, lastReported]

theorem counted_handle {m : Monitor F} {log : List (Judged F)} (h : Counted m log)
    (e : PathEvent F) : Counted (m.handle e).1 (log ++ (m.handle e).2) := by
  -- the two kinds of windows, and everything else
  by_cases he : ∃ w, e = .window w
  · obtain ⟨w, rfl⟩ := he
    by_cases hrep : w.reported F = true
    · rw [Counted, handle_window, if_pos hrep, lastReported_window hrep, inBandBad_observeInBand]
      simp only [Option.mem_some_iff, exists_eq_left']
      change _ ↔ Float64.lt m.maxLoss (w.rate F) = true
      cases Float64.lt m.maxLoss (w.rate F) <;> simp
    · have hnot : ∀ w', PathEvent.window (F := F) w = .window w' → w'.reported F = false := by
        rintro w' ⟨⟩
        exact Bool.eq_false_iff.mpr hrep
      rw [Counted, lastReported_of_not hnot, handle_window, if_neg hrep]
      exact h
  · have hne : ∀ w, e ≠ .window w := fun w hw => he ⟨w, hw⟩
    rw [Counted, lastReported_of_not (fun w hw => absurd hw (hne w)), inBandBad_handle m hne]
    exact h

/-- **The counter of a run**: it says whether the last window reported was bad. -/
theorem counted_run (opts : HealthOptions F) (es : List (PathEvent F)) :
    Counted (Run.exec handle (newMonitor opts) es)
      (Run.outputs handle (newMonitor opts) es).flatten := by
  have hstep : ∀ (m : Monitor F) (log : List (Judged F)) (e : PathEvent F), Counted m log → True →
      Counted (m.handle e).1 (log ++ (m.handle e).2) := fun _ _ e h _ => counted_handle h e
  have hstart : Counted (newMonitor opts) ([] : List (Judged F)) := by
    simp [Counted, lastReported, newMonitor]
  exact Run.exec_induct_outputs hstep hstart
    (Run.along_of_forall handle (fun _ _ => trivial) _)

theorem state_observeInBand {m : Monitor F} (hs : m.state = .healthy) (r : F) :
    (m.observeInBand r).state = .degraded ↔ Float64.lt m.maxLoss r = true ∧ 0 < m.inBandBad := by
  unfold observeInBand
  change (if Float64.lt m.maxLoss r = true then _ else _ : Monitor F).state = _ ↔ _
  split
  · next hbad =>
    dsimp only
    split
    · next htrip =>
      simp only [Bool.and_eq_true, decide_eq_true_eq] at htrip
      have hpos : 0 < m.inBandBad := by
        have htwo : m.inBandBad + 1 ≥ 2 := htrip.1
        omega
      exact ⟨fun _ => ⟨hbad, hpos⟩, fun _ => rfl⟩
    · -- the first bad window of a row only counts
      next hcalm =>
      constructor
      · intro h
        change m.state = .degraded at h
        rw [hs] at h
        cases h
      · rintro ⟨-, hpos⟩
        refine absurd ?_ hcalm
        simp only [Bool.and_eq_true, decide_eq_true_eq]
        exact ⟨show m.inBandBad + 1 ≥ 2 by omega, hs⟩
  · next hgood =>
    constructor
    · intro h
      change m.state = .degraded at h
      rw [hs] at h
      cases h
    · exact fun h => absurd h.1 hgood

/-- **The trip, by the windows reported.**  A healthy path is degraded at the end of a window
exactly if this window is reported and bad, and so was the last one reported before. -/
theorem trips_iff (opts : HealthOptions F) (es : List (PathEvent F)) (w : Window)
    (hs : (Run.exec handle (newMonitor opts) es).state = .healthy) :
    ((Run.exec handle (newMonitor opts) es).handle (.window w)).1.state = .degraded ↔
      w.reported F = true ∧ w.bad (Run.exec handle (newMonitor opts) es).maxLoss = true ∧
        ∃ r ∈ lastReported (Run.outputs handle (newMonitor opts) es).flatten, r.bad = true := by
  have hcount := counted_run opts es
  rw [Counted] at hcount
  rw [handle_window, ← hcount]
  split
  · next hrep => exact (state_observeInBand hs _).trans (by simp [hrep, Window.bad])
  · -- the monitor does not hear of the window
    next hrep => simp [hs, hrep]

/-- A path that is healthy before a window in which frames were booked is degraded by it exactly
if this window and the one booked before it were bad, as long as the one before was reported and
this one was if it was bad. -/
theorem trips_on_two_bad (opts : HealthOptions F) (es : List (PathEvent F)) (w : Window) :
    let m := Run.exec handle (newMonitor opts) es
    let log := (Run.outputs handle (newMonitor opts) es).flatten
    m.state = .healthy → w.booked = true → (w.bad m.maxLoss = true → w.reported F = true) →
      (∀ r ∈ log.getLast?, r.window.reported F = true) →
      ((m.handle (.window w)).1.state = .degraded ↔
        w.bad m.maxLoss = true ∧ ∃ r ∈ log.getLast?, r.bad = true) := by
  intro m log hs _ hnow hprev
  have hlast : lastReported log = log.getLast? := by
    rcases List.eq_nil_or_concat log with hnil | ⟨front, r, hconcat⟩
    · rw [hnil]
      rfl
    · rw [hconcat] at hprev ⊢
      have hr : r.window.reported F = true := hprev r (by simp)
      rw [lastReported, List.concat_eq_append, List.filter_append]
      simp [hr]
  rw [trips_iff opts es w hs, hlast]
  exact ⟨fun h => h.2, fun h => ⟨hnow h.1, h⟩⟩

end Monitor

end

/-! ### Windows that are not reported -/

namespace Monitor

/-- Two windows in a row lose half of their frames. -/
theorem trips_on_two_bad_small :
    let es : List (PathEvent ℚ) := [.window ⟨1, 1⟩, .tick 0]
    let m := Run.exec handle (newMonitor fastOptions) es
    let log := (Run.outputs handle (newMonitor fastOptions) es).flatten
    m.state = .healthy ∧
      ((m.handle (.window ⟨1, 1⟩)).1.state = .degraded ↔
        Window.bad ⟨1, 1⟩ m.maxLoss = true ∧ ∃ r ∈ log.getLast?, r.bad = true) := by
  intro es m log
  have hs : m.state = .healthy := by decide +kernel
  exact ⟨hs, trips_on_two_bad fastOptions es ⟨1, 1⟩ hs (by decide +kernel)
    (fun _ => by decide +kernel) (by decide +kernel)⟩

/-- **Two bad windows with a clean one between them degrade the path**: the clean one is not
reported.  **Two windows in which everything is lost do not**: neither is reported. -/
theorem trips_after_clean :
    let clean : List (PathEvent ℚ) :=
      [.window ⟨1, 1⟩, .tick 0, .window ⟨0, 5⟩, .tick (200 * millisecond)]
    let m := Run.exec handle (newMonitor fastOptions) clean
    let log := (Run.outputs handle (newMonitor fastOptions) clean).flatten
    let silent : List (PathEvent ℚ) := [.window ⟨5, 0⟩, .tick 0]
    let m' := Run.exec handle (newMonitor fastOptions) silent
    let log' := (Run.outputs handle (newMonitor fastOptions) silent).flatten
    (m.state = .healthy ∧ log.map (fun r => (r.window, r.bad)) = [(⟨1, 1⟩, true), (⟨0, 5⟩, false)] ∧
        Window.bad ⟨1, 1⟩ m.maxLoss = true ∧ (m.handle (.window ⟨1, 1⟩)).1.state = .degraded) ∧
      (m'.state = .healthy ∧ log'.map (fun r => (r.window, r.bad)) = [(⟨5, 0⟩, true)] ∧
        Window.bad ⟨5, 0⟩ m'.maxLoss = true ∧ (m'.handle (.window ⟨5, 0⟩)).1.state = .healthy) := by
  decide +kernel

end Monitor

/-! ### The health loops -/

section
variable {F C : Type} [Float64 F] {RS : ReedSolomon C} {P : Primitives}

/-- What the counters read out of a decoder say. -/
def Window.ofStats {D : Type} (stats : D × ℕ × ℕ) : Window := ⟨stats.2.1, stats.2.2⟩

/-- The events of a path in one turn of the monitors: the windows, and the tick. -/
def turnEvents (w raw : Window) (now : Time) : List (PathEvent F) :=
  [.window w, .rawWindow raw, .tick now]

theorem exec_turnEvents (m : Monitor F) (w raw : Window) (now : Time) :
    Run.exec Monitor.handle m (turnEvents w raw now) = ((((lossRate raw.lost raw.received).map
        (((lossRate w.lost w.received).map m.observeInBand).getD m).observeRaw).getD
          (((lossRate w.lost w.received).map m.observeInBand).getD m)).tick now) := by
  have hwin : (m.handle (.window w)).1 =
      ((lossRate w.lost w.received).map m.observeInBand).getD m := by
    rw [Monitor.handle_window, w.lossRate_eq]
    split <;> rfl
  have hraw : ∀ m : Monitor F, (m.handle (.rawWindow raw)).1 =
      ((lossRate raw.lost raw.received).map m.observeRaw).getD m := by
    intro m
    change Run.exec Monitor.step m ((lossRate raw.lost raw.received).toList.map _) = _
    cases (lossRate raw.lost raw.received : Option F) <;> rfl
  rw [turnEvents, Run.exec_cons, Run.exec_cons, hwin, hraw]
  rfl

def watchdogEvents (ps : PathState F) (now : Time) (interval : Duration) : List (PathEvent F) :=
  let silence := now - ps.lastArrive
  if silence > 3 * interval then
    List.replicate (min (silence / interval - 2) 4).toNat (.noteMissedProbe now) ++
      [.observeSample (Float64.ofInt 1) 0]
  else []

theorem exec_watchdogEvents (ps : PathState F) (now : Time) (interval : Duration) :
    Run.exec Monitor.handle ps.health (watchdogEvents ps now interval) =
      Server.watchdog ps now interval := by
  have hmisses : ∀ (n : ℕ) (m : Monitor F),
      Run.exec Monitor.handle m (List.replicate n (.noteMissedProbe now)) =
        (List.range n).foldl (fun m _ => m.noteMissedProbe now) m := by
    intro n
    induction n with
    | zero => exact fun m => rfl
    | succ n ih =>
      intro m
      rw [List.replicate_succ', Run.exec_append, ih, List.range_succ, List.foldl_append]
      rfl
  unfold watchdogEvents Server.watchdog
  dsimp only
  split
  · rw [Run.exec_append, hmisses]
    rfl
  · rfl

/-- **A turn of the server's monitors**: the watchdog, the windows the decoder booked, the tick. -/
theorem Server.health_healthTickPath (env : ServerEnv F P) (now : Time) (id : UInt64)
    {acc : SessState F × Decoder F C × F} {pathKey : String} {ps : PathState F}
    (hps : acc.1.paths.lookup pathKey = some ps) :
    let stream := acc.2.1.takeStreamStats id pathKey
    let raw := stream.1.takePathStats id pathKey
    ((healthTickPath env now id acc pathKey).1.paths.lookup pathKey).map PathState.health =
      some (Run.exec Monitor.handle ps.health
        (watchdogEvents ps now env.probeInterval ++
          turnEvents (Window.ofStats stream) (Window.ofStats raw) now)) := by
  intro stream raw
  rw [healthTickPath, hps, Run.exec_append, exec_watchdogEvents, exec_turnEvents]
  dsimp only
  rw [AList.lookup_set, if_pos rfl, Option.map_some]
  -- the branches of the loop on what is reported are the maps of the events
  cases hw : (lossRate (F := F) (Window.ofStats stream).lost (Window.ofStats stream).received) <;>
    cases hraw : (lossRate (F := F) (Window.ofStats raw).lost (Window.ofStats raw).received) <;>
    (simp only [Window.ofStats, stream, raw] at hw hraw; simp [hw, hraw])

namespace Client

variable {c : Client F RS P} {i : ℕ} {w : WanLink F}

omit [Float64 F] in
theorem run_updateHealth (f : Monitor F → Monitor F) (c : Client F RS P) :
    (updateHealth i f : CliProg RS F P Unit).run c =
      ((), { c with wans := c.wans.modify i fun w => { w with health := f w.health } }, []) :=
  Prog.run_modify _ c

omit [Float64 F] in
theorem run_takeStats {j : ℕ} {d : Decoder F C} (hd : c.decs[j]? = some d)
    (take : Decoder F C → Decoder F C × ℕ × ℕ) :
    (takeStats (some j) take : CliProg RS F P (ℕ × ℕ)).run c =
      ((take d).2, { c with decs := c.decs.set j (take d).1 }, []) := by
  simp [takeStats, hd]

theorem wans_feedLoss (i : ℕ) (now : Time) (slot : Option ℕ) (c : Client F RS P) :
    ((feedLoss i now slot : CliProg RS F P Unit).run c).2.1.wans = c.wans := by
  simp only [feedLoss, useEnc, Prog.run_bind, Prog.run_read, Prog.run_atomic, Prog.run_pure]
  split <;> rfl

/-- **A turn of the client's monitors**: the windows the decoder booked, and the tick. -/
theorem health_healthTickWan (now : Time) (hw : c.wans[i]? = some w) {j : ℕ} {d : Decoder F C}
    (hdec : w.dec = some j) (hd : c.decs[j]? = some d) :
    let stream := d.takeStreamStats c.sess.id w.cfg.id
    let raw := stream.1.takePathStats c.sess.id w.cfg.id
    (((healthTickWan now i : CliProg RS F P Unit).run c).2.1.wans[i]?).map WanLink.health =
      some (Run.exec Monitor.handle w.health
        (turnEvents (Window.ofStats stream) (Window.ofStats raw) now)) := by
  intro stream raw
  have hlt : j < c.decs.length := (List.getElem?_eq_some_iff.mp hd).1
  have hset : ∀ d' : Decoder F C, (c.decs.set j d')[j]? = some d' := fun _ =>
    List.getElem?_set_self hlt
  rw [exec_turnEvents, healthTickWan]
  simp only [Prog.run_bind, Prog.run_read, hw, hdec, Option.map_some, Option.getD_some,
    Option.bind_some, run_takeStats hd, run_updateHealth, tickHealth, Prog.run_modify,
    wans_feedLoss]
  rw [run_takeStats (hset _)]
  simp [hw, stream, raw, Window.ofStats]

end Client

end

end FlexBraid
