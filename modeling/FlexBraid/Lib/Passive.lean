import FlexBraid.Lib.Prog

/-!
# Turns that can be left out

A thread whose actions change nothing and emit nothing, as long as some property of the shared
state holds, is not noticed by the other threads.  This is a fact about two runs: one with the
thread's turn, whose actions may come anywhere between those of the others, and one without it.

## Main definitions

* `Prog.Passive K Q` — where `K` holds, the actions of a program do nothing; its result satisfies
  `Q`.
* `Pool.without t` — a sequence of events without the actions of a thread.
* `Pool.Shadow` — two pools that agree but for a thread that is passive in one and idle in the
  other.

## Main results

* `Prog.Passive.bind`, `Prog.passive_atomic`, `Prog.passive_read` — the rules of passive programs.
* `Pool.shadow_exec` — the two pools stay so.
* `Pool.passive_turn` — **a passive turn can be left out** of a run.
-/

namespace Prog

variable {S O α β : Type} {K : S → Prop} {Q : α → Prop}

/-- Where `K` holds the actions of the program change nothing and emit nothing; it ends with a
result that satisfies `Q`. -/
def Passive (K : S → Prop) (Q : α → Prop) : Prog S O α → Prop
  | .ret a => Q a
  | .act f k => ∀ s, K s → f s = (s, []) ∧ (k s).Passive K Q

theorem passive_pure {a : α} (h : Q a) : (pure a : Prog S O α).Passive K Q := h

theorem Passive.bind {R : β → Prop} {p : Prog S O α} {g : α → Prog S O β} (h : p.Passive K Q)
    (hg : ∀ a, Q a → (g a).Passive K R) : (p >>= g).Passive K R := by
  show (p.bind g).Passive K R
  induction p with
  | ret a => exact hg a h
  | act f k ih =>
    intro s hs
    exact ⟨(h s hs).1, ih s (h s hs).2⟩

theorem passive_atomic {f : S → α × S × List O}
    (h : ∀ s, K s → (f s).2 = (s, []) ∧ Q (f s).1) : (atomic f).Passive K Q := h

theorem passive_read {f : S → α} (h : ∀ s, K s → Q (f s)) : (read f : Prog S O α).Passive K Q :=
  passive_atomic fun s hs => ⟨rfl, h s hs⟩

theorem passive_look (f : S → α) : (read f : Prog S O α).Passive K fun _ => True :=
  passive_read fun _ _ => trivial

end Prog

namespace Pool

variable {T C S O : Type} [DecidableEq T] {halted : S → Bool} {body : T → C → Prog S O Unit}
  {K : S → Prop} {t : T} {p q : Pool T S O}

theorem thread_update_self (s : S) (thread : T → Prog S O Unit) (r : Prog S O Unit) :
    (⟨s, Function.update thread t r⟩ : Pool T S O).thread t = r := Function.update_self t r thread

theorem thread_update_of_ne {u : T} (hu : u ≠ t) (s : S) (thread : T → Prog S O Unit)
    (r : Prog S O Unit) : (⟨s, Function.update thread t r⟩ : Pool T S O).thread u = thread u :=
  Function.update_of_ne hu r thread

theorem exec_halted (h : halted p.state = true) (es : List (Event T C)) :
    Run.exec (step halted body) p es = p ∧ (Run.outputs (step halted body) p es).flatten = [] := by
  have hstep : ∀ e, step halted body p e = (p, []) := fun e => if_pos h
  induction es with
  | nil => exact ⟨rfl, rfl⟩
  | cons e es ih =>
    rw [Run.exec_cons, Run.outputs_cons, hstep e]
    exact ih

/-- Whether an event is an action of the thread. -/
def Event.isSched (t : T) : Event T C → Bool
  | .start _ _ => false
  | .sched u => u = t

/-- The events but the actions of a thread. -/
def without (t : T) (es : List (Event T C)) : List (Event T C) := es.filter fun e => !e.isSched t

/-- The pools agree, but for a thread that is idle in the second and passive in the first. -/
structure Shadow (K : S → Prop) (t : T) (p q : Pool T S O) : Prop where
  state : p.state = q.state
  others : ∀ u, u ≠ t → p.thread u = q.thread u
  idle : q.busy t = false
  passive : (p.thread t).Passive K fun _ => True

omit [DecidableEq T] in
theorem thread_of_not_busy (h : p.busy t = false) : p.thread t = .ret () := by
  unfold busy at h
  cases hthread : p.thread t with
  | ret a => rfl
  | act f k =>
    rw [hthread] at h
    cases h

omit [DecidableEq T] in
theorem Shadow.eq (h : Shadow K t p q) (hp : p.busy t = false) : p = q := by
  have hthread : p.thread = q.thread := by
    funext u
    by_cases hu : u = t
    · rw [hu, thread_of_not_busy hp, thread_of_not_busy h.idle]
    · exact h.others u hu
  cases p
  cases q
  exact congrArg₂ Pool.mk h.state hthread

variable (halted body) in
theorem Shadow.sched (h : Shadow K t p q) (hK : K q.state) :
    Shadow K t (step halted body p (.sched t)).1 q ∧ (step halted body p (.sched t)).2 = [] := by
  rw [step]
  split
  · exact ⟨h, rfl⟩
  · cases hthread : p.thread t with
    | ret a =>
      simp only [stepEvent, hthread]
      exact ⟨h, trivial⟩
    | act f k =>
      have hpassive := h.passive
      rw [hthread] at hpassive
      obtain ⟨hf, hk⟩ := hpassive p.state (h.state ▸ hK)
      simp only [stepEvent, hthread, hf]
      refine ⟨⟨h.state, fun u hu => ?_, h.idle, ?_⟩, trivial⟩
      · rw [thread_update_of_ne hu, h.others u hu]
      · rwa [thread_update_self]

variable (halted body) in
/-- Another event of the two pools. -/
theorem Shadow.event (h : Shadow K t p q) {e : Event T C} (hstart : ∀ c, e ≠ .start t c)
    (hsched : e ≠ .sched t) : Shadow K t (step halted body p e).1 (step halted body q e).1 ∧
      (step halted body p e).2 = (step halted body q e).2 := by
  -- replacing another thread by the same program
  have hupdate : ∀ (u : T) (s : S) (r : Prog S O Unit), u ≠ t →
      Shadow K t ⟨s, Function.update p.thread u r⟩ ⟨s, Function.update q.thread u r⟩ := by
    intro u s r hu
    refine ⟨rfl, fun v hv => ?_, ?_, ?_⟩
    · by_cases hvu : v = u
      · rw [hvu, thread_update_self, thread_update_self]
      · rw [thread_update_of_ne hvu, thread_update_of_ne hvu, h.others v hv]
    · unfold busy
      rw [thread_update_of_ne hu.symm]
      exact h.idle
    · rw [thread_update_of_ne hu.symm]
      exact h.passive
  rw [step, step, h.state]
  split
  · exact ⟨h, rfl⟩
  · cases e with
    | start u c =>
      have hu : u ≠ t := fun hu => hstart c (hu ▸ rfl)
      rw [stepEvent, stepEvent, h.others u hu]
      cases q.thread u with
      | ret a => exact ⟨h.state ▸ hupdate u q.state (body u c) hu, rfl⟩
      | act f k => exact ⟨h, rfl⟩
    | sched u =>
      have hu : u ≠ t := fun hu => hsched (hu ▸ rfl)
      rw [stepEvent, stepEvent, h.others u hu, h.state]
      cases q.thread u with
      | ret a => exact ⟨h, rfl⟩
      | act f k => exact ⟨hupdate u _ _ hu, rfl⟩

/-- The pools stay so, as long as `K` holds without the thread. -/
theorem shadow_exec (h : Shadow K t p q)
    (hK : ∀ es, K (Run.exec (step halted body) q es).state) {es : List (Event T C)}
    (hstart : ∀ c, .start t c ∉ es) :
    Shadow K t (Run.exec (step halted body) p es) (Run.exec (step halted body) q (without t es)) ∧
      (Run.outputs (step halted body) p es).flatten =
        (Run.outputs (step halted body) q (without t es)).flatten := by
  induction es generalizing p q with
  | nil => exact ⟨h, rfl⟩
  | cons e es ih =>
    have hrest : ∀ c, .start t c ∉ es := fun c hc => hstart c (List.mem_cons_of_mem e hc)
    by_cases hsched : e = .sched t
    · subst hsched
      obtain ⟨hnext, hout⟩ := h.sched halted body (hK [])
      obtain ⟨hend, houts⟩ := ih hnext hK hrest
      have hwithout : without t (.sched t :: es) = without t es :=
        List.filter_cons_of_neg (by simp [Event.isSched])
      rw [Run.exec_cons, Run.outputs_cons, List.flatten_cons, hout, List.nil_append, hwithout]
      exact ⟨hend, houts⟩
    · have hevent : ∀ c, e ≠ .start t c := fun c hc => hstart c (hc ▸ List.mem_cons_self)
      obtain ⟨hnext, hout⟩ := h.event halted body hevent hsched
      obtain ⟨hend, houts⟩ := ih hnext (fun es => hK (e :: es)) hrest
      have hkeep : e.isSched t = false := by
        cases e with
        | start u c => rfl
        | sched u => exact decide_eq_false fun hu => hsched (hu ▸ rfl)
      have hwithout : without t (e :: es) = e :: without t es :=
        List.filter_cons_of_pos (by rw [hkeep]; rfl)
      rw [hwithout, Run.exec_cons, Run.exec_cons, Run.outputs_cons, Run.outputs_cons,
        List.flatten_cons, List.flatten_cons, hout, houts]
      exact ⟨hend, rfl⟩

/-- **A passive turn can be left out.**  If an idle thread takes a turn whose actions do nothing
where `K` holds, and `K` holds in every run of the pool, then at each point of the turn the shared
state and what was emitted are those of the run without it; when the turn has ended, so is the
whole pool. -/
theorem passive_turn {c : C} (hidle : p.busy t = false)
    (hK : ∀ es, K (Run.exec (step halted body) p es).state)
    (hbody : (body t c).Passive K fun _ => True) {es : List (Event T C)}
    (hstart : ∀ c, .start t c ∉ es) :
    let turn := Run.exec (step halted body) p (.start t c :: es)
    let rest := Run.exec (step halted body) p (without t es)
    turn.state = rest.state ∧
      (Run.outputs (step halted body) p (.start t c :: es)).flatten =
        (Run.outputs (step halted body) p (without t es)).flatten ∧
      (turn.busy t = false → turn = rest) := by
  have hbegin : Shadow K t (step halted body p (.start t c)).1 p ∧
      (step halted body p (.start t c)).2 = [] := by
    have hthread := thread_of_not_busy hidle
    rw [step]
    split
    · exact ⟨⟨rfl, fun _ _ => rfl, hidle, hthread ▸ trivial⟩, rfl⟩
    · simp only [stepEvent, hthread]
      refine ⟨⟨rfl, fun u hu => thread_update_of_ne hu _ _ _, hidle, ?_⟩, trivial⟩
      rwa [thread_update_self]
  obtain ⟨hend, houts⟩ := shadow_exec hbegin.1 hK hstart
  intro turn rest
  refine ⟨hend.state, ?_, hend.eq⟩
  rw [Run.outputs_cons, List.flatten_cons, hbegin.2, List.nil_append, houts]

end Pool
