import FlexBraid.Fec.Batches

/-!
# How long an encoder holds its frames

An encoder is ticked with a period.  A block is flushed by the first tick that finds its
timeout over, and so no frame waits longer than the timeout and one period after the first
frame of its block.

## Main definitions

* `Encoder.Paced` — the calls of an encoder whose ticks come with a period.
* `Encoder.Waiting` — when the pending frames were started, and when they are due.

## Main results

* `Encoder.waiting_run` — it holds after every paced run.
* `Encoder.returned_in_time` — a frame is returned within the timeout and one period.
-/

namespace FlexBraid

namespace Encoder

variable {F C : Type} {RS : ReedSolomon C}

/-- The last clock reading of a call. -/
def Call.time : Call F → Time
  | .push _ start _ => start
  | .tick now => now
  | .setLossRate now _ => now

/-- The calls of an encoder from the instant `clock` on: the clock does not go back, and the
ticks come at `due` and then with the period. -/
def Paced (period : Duration) : Time → Time → List (Call F) → Prop
  | _, _, [] => True
  | clock, due, .push now start _ :: calls =>
    clock ≤ now ∧ now ≤ start ∧ start ≤ due ∧ Paced period start due calls
  | clock, due, .tick now :: calls =>
    clock ≤ now ∧ now = due ∧ Paced period due (due + period) calls
  | clock, due, .setLossRate now _ :: calls =>
    clock ≤ now ∧ now ≤ due ∧ Paced period now due calls

instance decidablePaced (period : Duration) :
    ∀ (clock due : Time) (calls : List (Call F)), Decidable (Paced period clock due calls)
  | _, _, [] => inferInstanceAs (Decidable True)
  | clock, due, .push now start _ :: calls =>
    have := decidablePaced period start due calls
    inferInstanceAs (Decidable (clock ≤ now ∧ now ≤ start ∧ start ≤ due ∧ _))
  | clock, due, .tick now :: calls =>
    have := decidablePaced period due (due + period) calls
    inferInstanceAs (Decidable (clock ≤ now ∧ now = due ∧ _))
  | clock, due, .setLossRate now _ :: calls =>
    have := decidablePaced period now due calls
    inferInstanceAs (Decidable (clock ≤ now ∧ now ≤ due ∧ _))

/-! ### When a block was started -/

variable [Float64 F]

theorem blockStart_push (e : Encoder F RS) (now start : Time) (f : Frame) :
    (e.push now start f).1.pending = [] ∨
      (e.push now start f).1.blockStart =
        if e.pending.length = 0 then some start else e.blockStart := by
  unfold push
  split
  · next hoff => exact .inl (e.idle hoff)
  · dsimp only
    split
    · exact .inl rfl
    · split
      · right
        change (if (e.refresh now).pending.length = 0 then some start
          else (e.refresh now).blockStart) = _
        rw [(e.refresh_eq now).2.1, (e.refresh_eq now).2.2.2]
      · left
        unfold emitBlock
        dsimp only
        split <;> rfl

theorem blockStart_tick (e : Encoder F RS) (now : Time) : (e.tick now).1.pending = [] ∨
      (e.tick now).1.blockStart = e.blockStart ∧ (e.tick now).1.pending = e.pending ∧
        before now (e.blockStart.map (· + e.params.blockTimeout)) = true := by
  obtain ⟨hparams, hpending, -, hstart⟩ := e.refresh_eq now
  unfold tick
  split
  · next hoff => exact .inl (e.idle hoff)
  · dsimp only
    split
    · exact .inl rfl
    · split
      · next hnil => exact .inl (List.eq_nil_of_length_eq_zero hnil)
      · split
        · next hbefore =>
          rw [hstart, hparams] at hbefore
          exact .inr ⟨hstart, hpending, hbefore⟩
        · exact .inl rfl

theorem blockStart_setLossRate (e : Encoder F RS) (now : Time) (rate : F) :
    (e.setLossRate now rate).blockStart = e.blockStart ∧
      (e.setLossRate now rate).pending = e.pending := by
  unfold setLossRate
  exact ⟨(refresh_eq _ now).2.2.2, (refresh_eq _ now).2.1⟩

/-! ### Whole runs -/

/-- The pending frames of an encoder with the timeout `bt`, seen at `clock`: the next tick is
`due` within a period, and within the timeout and a period after the start of the block. -/
structure Waiting (bt period : Duration) (clock due : Time) (e : Encoder F RS) : Prop where
  timeout : e.params.blockTimeout = bt
  next : due ≤ clock + period
  started : e.pending ≠ [] → ∃ start, e.blockStart = some start ∧ start ≤ clock ∧
    due ≤ start + bt + period

section
variable {bt period : Duration} {clock due : Time} {e : Encoder F RS}

variable {now start : Time}

theorem Waiting.push (h : Waiting bt period clock due e) (hbt : 0 ≤ bt) (hnow : clock ≤ now)
    (hstart : now ≤ start) (f : Frame) : Waiting bt period start due (e.push now start f).1 := by
  have hclock := hnow.trans hstart
  refine ⟨by rw [(e.batched_push now start f).1, h.timeout], h.next.trans (by gcongr), ?_⟩
  intro hne
  have hstart := (e.blockStart_push now start f).resolve_left hne
  rw [hstart]
  split
  · exact ⟨start, rfl, le_rfl, by linarith [h.next]⟩
  · next hlen =>
    obtain ⟨s, hs, hle, hdue⟩ := h.started fun hnil => hlen (by rw [hnil]; rfl)
    exact ⟨s, hs, hle.trans hclock, hdue⟩

theorem Waiting.tick (h : Waiting bt period clock due e) (hclock : clock ≤ due) :
    Waiting bt period due (due + period) (e.tick due).1 := by
  refine ⟨by rw [(e.batched_tick due).1, h.timeout], le_rfl, ?_⟩
  intro hne
  obtain ⟨hstart, hpending, hbefore⟩ := (e.blockStart_tick due).resolve_left hne
  rw [hpending] at hne
  obtain ⟨s, hs, hle, -⟩ := h.started hne
  rw [hs, h.timeout, Option.map_some, before_some, decide_eq_true_eq] at hbefore
  exact ⟨s, hstart.trans hs, hle.trans hclock, by linarith⟩

theorem Waiting.setLossRate (h : Waiting bt period clock due e) (hclock : clock ≤ now) (rate : F) :
    Waiting bt period now due (e.setLossRate now rate) := by
  refine ⟨by rw [(e.batched_setLossRate now rate).1, h.timeout], h.next.trans (by gcongr), ?_⟩
  obtain ⟨hstart, hpending⟩ := e.blockStart_setLossRate now rate
  rw [hstart, hpending]
  intro hne
  obtain ⟨s, hs, hle, hdue⟩ := h.started hne
  exact ⟨s, hs, hle.trans hclock, hdue⟩

/-- Every paced run leaves its pending frames with a tick in time. -/
theorem waiting_run (hbt : 0 ≤ bt) {calls rest : List (Call F)}
    (h : Waiting bt period clock due e) (hpaced : Paced period clock due (calls ++ rest)) :
    ∃ clock' due', Waiting bt period clock' due' (Run.exec step e calls) ∧
      Paced period clock' due' rest := by
  induction calls generalizing e clock due with
  | nil => exact ⟨clock, due, h, hpaced⟩
  | cons c calls ih =>
    cases c with
    | push now start f =>
      obtain ⟨h1, h2, -, hrest⟩ := hpaced
      exact ih (h.push hbt h1 h2 f) hrest
    | tick now =>
      obtain ⟨h1, rfl, hrest⟩ := hpaced
      exact ih (h.tick h1) hrest
    | setLossRate now rate =>
      obtain ⟨h1, -, hrest⟩ := hpaced
      exact ih (h.setLossRate h1 rate) hrest

/-- A block is flushed within its timeout and a period, by a push or by a tick, unless the run
ends before. -/
theorem flushed_in_time {calls : List (Call F)} (hbt : e.params.blockTimeout = bt)
    (hne : e.pending ≠ []) (hstart : e.blockStart = some start) (hdue : due ≤ start + bt + period)
    (hpaced : Paced period clock due calls) : (∀ c ∈ calls, c.time ≤ start + bt + period) ∨
      ∃ mid rest, calls = mid ++ rest ∧ (∀ c ∈ mid, c.time ≤ start + bt + period) ∧
        (Run.exec step e mid).pending = [] := by
  induction calls generalizing e clock due with
  | nil => exact .inl fun c hc => by cases hc
  | cons c calls ih =>
    -- the call comes in time, and the block is still the same unless it was flushed
    obtain ⟨htime, hnext⟩ : c.time ≤ start + bt + period ∧ ((e.step c).1.pending = [] ∨
        ∃ clock' due', (e.step c).1.pending ≠ [] ∧ (e.step c).1.blockStart = some start ∧
          due' ≤ start + bt + period ∧ Paced period clock' due' calls) := by
      cases c with
      | push now s f =>
        obtain ⟨-, -, hs, hrest⟩ := hpaced
        refine ⟨hs.trans hdue, ?_⟩
        rcases eq_or_ne (e.step (.push now s f)).1.pending [] with hnil | hkept
        · exact .inl hnil
        · refine .inr ⟨s, due, hkept, ?_, hdue, hrest⟩
          have hlen : ¬ e.pending.length = 0 := fun h => hne (List.eq_nil_of_length_eq_zero h)
          rw [step, (e.blockStart_push now s f).resolve_left hkept, if_neg hlen, hstart]
      | tick now =>
        obtain ⟨-, rfl, hrest⟩ := hpaced
        refine ⟨hdue, ?_⟩
        rcases e.blockStart_tick now with hnil | ⟨hsame, hpending, hbefore⟩
        · exact .inl hnil
        · rw [hstart, hbt, Option.map_some, before_some, decide_eq_true_eq] at hbefore
          refine .inr ⟨now, now + period, ?_, hsame.trans hstart, by linarith, hrest⟩
          rw [step, hpending]
          exact hne
      | setLossRate now rate =>
        obtain ⟨-, hs, hrest⟩ := hpaced
        obtain ⟨hsame, hpending⟩ := e.blockStart_setLossRate now rate
        refine ⟨hs.trans hdue, .inr ⟨now, due, ?_, hsame.trans hstart, hdue, hrest⟩⟩
        rw [step, hpending]
        exact hne
    rcases hnext with hnil | ⟨clock', due', hne', hstart', hdue', hrest⟩
    · exact .inr ⟨[c], calls, rfl, by simpa using htime, hnil⟩
    · have hbt' : (e.step c).1.params.blockTimeout = bt := by rw [(e.batched_step c).1, hbt]
      rcases ih hbt' hne' hstart' hdue' hrest with hall | ⟨mid, rest, rfl, hmid, hnil⟩
      · exact .inl (List.forall_mem_cons.mpr ⟨htime, hall⟩)
      · exact .inr ⟨c :: mid, rest, rfl, List.forall_mem_cons.mpr ⟨htime, hmid⟩, hnil⟩

/-- **Frames are returned in time.**  When a paced run goes on for the timeout and a period
after a push, then by that time all frames pushed so far were returned, the pushed one
included. -/
theorem returned_in_time (hnil : e.pending = []) (hbt : 0 ≤ e.params.blockTimeout)
    (hdue : due ≤ clock + period) {before after : List (Call F)} {f : Frame}
    (hpaced : Paced period clock due (before ++ .push now start f :: after))
    (hlong : ∃ c ∈ after, start + e.params.blockTimeout + period < c.time) :
    ∃ mid rest, after = mid ++ rest ∧ (∀ c ∈ mid, c.time ≤ start + e.params.blockTimeout + period) ∧
      (Run.exec step e (before ++ .push now start f :: mid)).pending = [] := by
  have hwait : Waiting e.params.blockTimeout period clock due e :=
    ⟨rfl, hdue, fun h => absurd hnil h⟩
  obtain ⟨clock', due', hbefore, hclock, hle, -, hafter⟩ := waiting_run hbt hwait hpaced
  have hpush := hbefore.push hbt hclock hle f
  set e' := Run.exec step e before with he'
  rcases eq_or_ne (e'.push now start f).1.pending [] with hempty | hne
  · refine ⟨[], after, rfl, by simp, ?_⟩
    rw [Run.exec_append, ← he']
    exact hempty
  · obtain ⟨s, hs, hstart, hdue'⟩ := hpush.started hne
    rcases flushed_in_time hpush.timeout hne hs hdue' hafter with hall | ⟨mid, rest, rfl, hmid, hflushed⟩
    · obtain ⟨c, hc, hlate⟩ := hlong
      have := hall c hc
      exact absurd hlate (by linarith)
    · refine ⟨mid, rest, rfl, fun c hc => (hmid c hc).trans (by gcongr), ?_⟩
      rw [Run.exec_append, ← he']
      exact hflushed

end

end Encoder

end FlexBraid
