import Mathlib.Algebra.Group.PUnit
import Mathlib.Data.Finsupp.Basic
import FlexBraid.Lib.Run

/-!
# Concurrent programs of atomic actions

A program is a sequence of atomic actions on a shared state, where each action may
emit outputs and the rest of the program may depend on the state the action saw.
A program can be run without interruption (`run`), or be one of a pool of threads
whose actions interleave (`Pool.step`), until the state halts.

Threads are reasoned about with ownership triples.  `Owns Inv Q p m` says: a thread
that runs `p` and owns the resource `m` keeps the shared invariant at each of its
actions, whatever the other threads own, and ends with a resource that satisfies
`Q`.  Resources are elements of a commutative monoid.

## Main definitions

* `Prog S O α` — programs over states `S` with outputs `O` and result `α`.
* `Prog.run` — the uninterrupted run of a program.
* `Pool`, `Pool.step` — threads that take turns.
* `Prog.Keeps` — a relation that every action keeps.
* `Prog.Owns` — ownership triples.
* `Pool.Lent` — threads to which the environment lends resources for a call.

## Main results

* `Prog.Keeps.run` — what every action keeps, a run keeps.
* `Prog.Owns.bind`, `Prog.Owns.frame`, `Prog.owns_atomic`, `Prog.owns_forM` — the
  rules of the triples.
* `Prog.Owns.run` — what an uninterrupted run does to the invariant.
* `Pool.lent_start`, `Pool.lent_sched`, `Pool.Lent.reclaim` — lending, using and getting
  back a resource.
* `Pool.lent_exec` — what is lent stays lent in a run.
* `Pool.inv_exec` — **the invariant holds in every interleaving** of threads whose
  bodies satisfy their triples.
-/

/-- A program: a result, or an atomic action that changes the state and emits
outputs, followed by the rest of the program. -/
inductive Prog (S O α : Type) where
  | ret (a : α)
  | act (f : S → S × List O) (k : S → Prog S O α)

namespace Prog

variable {S O α β : Type}

/-- Run one program after another. -/
def bind : Prog S O α → (α → Prog S O β) → Prog S O β
  | .ret a, g => g a
  | .act f k, g => .act f fun s => (k s).bind g

instance : Monad (Prog S O) where
  pure := .ret
  bind := .bind

/-- One atomic action with a result. -/
def atomic (f : S → α × S × List O) : Prog S O α :=
  .act (fun s => (f s).2) fun s => .ret (f s).1

def read (f : S → α) : Prog S O α := atomic fun s => (f s, s, [])

/-- Change the state. -/
def modify (f : S → S) : Prog S O Unit := atomic fun s => ((), f s, [])

def emit (o : O) : Prog S O Unit := atomic fun s => ((), s, [o])

/-! ### Uninterrupted runs -/

/-- The uninterrupted run of a program: its result, the state it ends in, and what
it emits. -/
def run : Prog S O α → S → α × S × List O
  | .ret a, s => (a, s, [])
  | .act f k, s =>
    let r := (k s).run (f s).1
    (r.1, r.2.1, (f s).2 ++ r.2.2)

@[simp] theorem run_pure (a : α) (s : S) : (pure a : Prog S O α).run s = (a, s, []) := rfl

@[simp] theorem run_atomic (f : S → α × S × List O) (s : S) : (atomic f).run s = f s := by
  simp [atomic, run]

@[simp] theorem run_read (f : S → α) (s : S) : (read f : Prog S O α).run s = (f s, s, []) :=
  run_atomic _ s

@[simp] theorem run_modify (f : S → S) (s : S) :
    (modify f : Prog S O Unit).run s = ((), f s, []) := run_atomic _ s

@[simp] theorem run_emit (o : O) (s : S) : (emit o : Prog S O Unit).run s = ((), s, [o]) :=
  run_atomic _ s

@[simp] theorem run_bind (p : Prog S O α) (g : α → Prog S O β) (s : S) : (p >>= g).run s =
      (((g (p.run s).1).run (p.run s).2.1).1, ((g (p.run s).1).run (p.run s).2.1).2.1,
        (p.run s).2.2 ++ ((g (p.run s).1).run (p.run s).2.1).2.2) := by
  show (p.bind g).run s = _
  induction p generalizing s with
  | ret a => rfl
  | act f k ih =>
    simp only [bind, run]
    rw [ih s (f s).1, List.append_assoc]

/-! ### What every action keeps -/

/-- A relation between the state before, the outputs, and the state after, that
composes along a run. -/
structure Composes (R : S → List O → S → Prop) : Prop where
  nil : ∀ s, R s [] s
  append : ∀ {s out s' out' s''}, R s out s' → R s' out' s'' → R s (out ++ out') s''

/-- Every action of a program relates the state before it to its outputs and the state
after it. -/
def Keeps (R : S → List O → S → Prop) : Prog S O α → Prop
  | .ret _ => True
  | .act f k => ∀ s, R s (f s).2 (f s).1 ∧ (k s).Keeps R

section
variable {R : S → List O → S → Prop}

theorem keeps_pure (a : α) : (pure a : Prog S O α).Keeps R := trivial

variable {p : Prog S O α}

theorem Keeps.bind {g : α → Prog S O β} (h : p.Keeps R) (hg : ∀ a, (g a).Keeps R) :
    (p >>= g).Keeps R := by
  show (p.bind g).Keeps R
  induction p with
  | ret a => exact hg a
  | act f k ih =>
    intro s
    exact ⟨(h s).1, ih s (h s).2⟩

theorem keeps_atomic {f : S → α × S × List O} (h : ∀ s, R s (f s).2.2 (f s).2.1) :
    (atomic f).Keeps R :=
  fun s => ⟨h s, trivial⟩

theorem keeps_modify {f : S → S} (h : ∀ s, R s [] (f s)) : (modify f : Prog S O Unit).Keeps R :=
  keeps_atomic h

theorem keeps_read (hR : Composes R) (f : S → α) : (read f : Prog S O α).Keeps R :=
  keeps_atomic hR.nil

theorem keeps_forM {body : β → Prog S O Unit} (h : ∀ x, (body x).Keeps R) (xs : List β) :
    (xs.forM body).Keeps R := by
  induction xs with
  | nil => exact keeps_pure ()
  | cons x xs ih => exact (h x).bind fun _ => ih

theorem Keeps.mono {R' : S → List O → S → Prop} (h : p.Keeps R)
    (hR : ∀ s out s', R s out s' → R' s out s') : p.Keeps R' := by
  induction p with
  | ret a => trivial
  | act f k ih =>
    intro s
    exact ⟨hR _ _ _ (h s).1, ih s (h s).2⟩

/-- What every action keeps, an uninterrupted run keeps. -/
theorem Keeps.run (hR : Composes R) (h : p.Keeps R) (s : S) : R s (p.run s).2.2 (p.run s).2.1 := by
  induction p generalizing s with
  | ret a => exact hR.nil s
  | act f k ih => exact hR.append (h s).1 (ih s (h s).2 (f s).1)

end

/-! ### Ownership triples -/

section
variable {M : Type} [AddCommMonoid M] (Inv : S → List O → M → Prop)

/-- A thread that runs the program and owns a resource keeps the invariant at each
of its actions, whatever the other threads own, and ends with a result and a
resource that satisfy `Q`.  The invariant speaks about the state, all outputs so
far, and all that is owned. -/
def Owns (Q : α → M → Prop) : Prog S O α → M → Prop
  | .ret a, m => Q a m
  | .act f k, m => ∀ s out others, Inv s out (m + others) →
      ∃ m', Inv (f s).1 (out ++ (f s).2) (m' + others) ∧ (k s).Owns Q m'

variable {Inv} {Q Q' : α → M → Prop} {m : M}

theorem owns_pure {a : α} (h : Q a m) : Owns Inv Q (pure a : Prog S O α) m := h

variable {p : Prog S O α}

theorem Owns.mono (h : Owns Inv Q p m) (hQ : ∀ a m, Q a m → Q' a m) : Owns Inv Q' p m := by
  induction p generalizing m with
  | ret a => exact hQ a m h
  | act f k ih =>
    intro s out others hinv
    obtain ⟨m', hinv', hk⟩ := h s out others hinv
    exact ⟨m', hinv', ih s hk⟩

/-- The rule of composition. -/
theorem Owns.bind {R : β → M → Prop} {g : α → Prog S O β} (h : Owns Inv Q p m)
    (hg : ∀ a m, Q a m → Owns Inv R (g a) m) : Owns Inv R (p >>= g) m := by
  show Owns Inv R (p.bind g) m
  induction p generalizing m with
  | ret a => exact hg a m h
  | act f k ih =>
    intro s out others hinv
    obtain ⟨m', hinv', hk⟩ := h s out others hinv
    exact ⟨m', hinv', ih s hk⟩

/-- The frame rule: what a program does not use it keeps. -/
theorem Owns.frame (h : Owns Inv Q p m) (r : M) :
    Owns Inv (fun a m' => ∃ m₀, m' = m₀ + r ∧ Q a m₀) p (m + r) := by
  induction p generalizing m with
  | ret a => exact ⟨m, rfl, h⟩
  | act f k ih =>
    intro s out others hinv
    rw [add_assoc] at hinv
    obtain ⟨m', hinv', hk⟩ := h s out (r + others) hinv
    rw [← add_assoc] at hinv'
    exact ⟨m' + r, hinv', ih s hk⟩

/-- The rule of an atomic action. -/
theorem owns_atomic {f : S → α × S × List O}
    (h : ∀ s out others, Inv s out (m + others) →
      ∃ m', Inv (f s).2.1 (out ++ (f s).2.2) (m' + others) ∧ Q (f s).1 m') :
    Owns Inv Q (atomic f) m := h

theorem owns_read {f : S → α} (h : ∀ s out others, Inv s out (m + others) → Q (f s) m) :
    Owns Inv Q (read f : Prog S O α) m := by
  intro s out others hinv
  refine ⟨m, ?_, h s out others hinv⟩
  rwa [List.append_nil]

theorem owns_of_keeps {R : S → List O → S → Prop}
    (hinv : ∀ s o s' out m, R s o s' → Inv s out m → Inv s' (out ++ o) m) (h : p.Keeps R) (m : M) :
    Owns Inv (fun _ m' => m' = m) p m := by
  induction p with
  | ret a => exact rfl
  | act f k ih =>
    intro s out others hs
    exact ⟨m, hinv _ _ _ _ _ (h s).1 hs, ih s (h s).2⟩

theorem owns_true_of_keeps {R : S → List O → S → Prop}
    (hinv : ∀ s o s' out m, R s o s' → Inv s out m → Inv s' (out ++ o) m) (h : p.Keeps R) (m : M) :
    Owns Inv (fun _ _ => True) p m :=
  (owns_of_keeps hinv h m).mono fun _ _ _ => trivial

/-- The resources of an invariant that needs none. -/
def NoShare : Type := PUnit

instance : AddCommMonoid NoShare := PUnit.addCommGroup.toAddCommMonoid

/-- A relation to the start that every action keeps is an invariant without resources. -/
theorem Keeps.owns {R : S → List O → S → Prop} (hR : Composes R) (h : p.Keeps R) (s₀ : S)
    {Q : α → NoShare → Prop} (hQ : ∀ a m, Q a m) (m : NoShare) :
    Owns (fun s out (_ : NoShare) => R s₀ out s) Q p m := by
  induction p with
  | ret a => exact hQ a m
  | act f k ih =>
    intro s out others hs
    exact ⟨m, hR.append hs (h s).1, ih s (h s).2⟩

/-- What an uninterrupted run of a program does to the invariant. -/
theorem Owns.run (h : Owns Inv Q p m) {s : S} {out : List O} (others : M)
    (hinv : Inv s out (m + others)) :
    ∃ m', Inv (p.run s).2.1 (out ++ (p.run s).2.2) (m' + others) ∧ Q (p.run s).1 m' := by
  induction p generalizing m s out with
  | ret a =>
    refine ⟨m, ?_, h⟩
    rwa [Prog.run, List.append_nil]
  | act f k ih =>
    obtain ⟨m₁, hinv₁, hk⟩ := h s out others hinv
    obtain ⟨m', hinv', hQ⟩ := ih s hk hinv₁
    refine ⟨m', ?_, hQ⟩
    rwa [Prog.run, ← List.append_assoc]

theorem Owns.weaken (h : Owns Inv (fun _ _ => True) p m) (r : M) :
    Owns Inv (fun _ _ => True) p (m + r) :=
  (h.frame r).mono fun _ _ _ => trivial

/-- The rule of a loop over a list, with the resource that each element needs. -/
theorem owns_forM {body : β → Prog S O Unit} {need : β → M}
    (h : ∀ x, Owns Inv (fun _ _ => True) (body x) (need x)) (xs : List β) :
    Owns Inv (fun _ _ => True) (xs.forM body) (xs.map need).sum := by
  induction xs with
  | nil => exact owns_pure trivial
  | cons x xs ih =>
    show Owns Inv _ (body x >>= fun _ => xs.forM body) _
    rw [List.map_cons, List.sum_cons]
    refine ((h x).frame _).bind ?_
    rintro _ m ⟨m₀, rfl, -⟩
    rw [add_comm]
    exact ih.weaken m₀

theorem owns_forM_zero {body : β → Prog S O Unit}
    (h : ∀ x, Owns Inv (fun _ _ => True) (body x) 0) (xs : List β) :
    Owns Inv (fun _ _ => True) (xs.forM body) 0 := by
  have hloop := owns_forM h xs
  rwa [List.map_const', List.sum_replicate, nsmul_zero] at hloop

end

end Prog

/-! ### Pools of threads -/

/-- Threads that share a state; a thread that has returned is idle. -/
structure Pool (T S O : Type) where
  state : S
  thread : T → Prog S O Unit

namespace Pool

variable {T C S O : Type}

/-- All threads idle. -/
def idle (s : S) : Pool T S O := ⟨s, fun _ => .ret ()⟩

/-- What the scheduler does: start the body of a call on an idle thread, or let a
thread take its next action. -/
inductive Event (T C : Type) where
  | start (t : T) (c : C)
  | sched (t : T)

/-- Whether a thread has actions to take. -/
def busy (p : Pool T S O) (t : T) : Bool :=
  match p.thread t with
  | .ret _ => false
  | .act _ _ => true

variable [DecidableEq T]

/-- One event of the scheduler; a busy thread cannot be started, and an idle one has
no action to take. -/
def stepEvent (body : T → C → Prog S O Unit) (p : Pool T S O) : Event T C → Pool T S O × List O
  | .start t c =>
    match p.thread t with
    | .ret _ => (⟨p.state, Function.update p.thread t (body t c)⟩, [])
    | .act _ _ => (p, [])
  | .sched t =>
    match p.thread t with
    | .ret _ => (p, [])
    | .act f k => (⟨(f p.state).1, Function.update p.thread t (k p.state)⟩, (f p.state).2)

/-- One event of the scheduler; in a state that has halted nothing happens. -/
def step (halted : S → Bool) (body : T → C → Prog S O Unit) (p : Pool T S O) (e : Event T C) :
    Pool T S O × List O :=
  if halted p.state then (p, []) else stepEvent body p e

section Sound

variable {M : Type} [AddCommMonoid M] {Inv : S → List O → M → Prop}

/-- All that the threads own together. -/
noncomputable def total (own : T →₀ M) : M := own.sum fun _ m => m

/-- The threads own disjoint resources, with which they can go on; all but finitely
many own nothing. -/
def Sound (Inv : S → List O → M → Prop) (p : Pool T S O) (out : List O) : Prop :=
  ∃ own : T →₀ M, Inv p.state out (total own) ∧
    ∀ t, Prog.Owns Inv (fun _ _ => True) (p.thread t) (own t)

omit [DecidableEq T] in
theorem sound_idle {s : S} (h : Inv s [] 0) : Sound Inv (idle s : Pool T S O) [] :=
  ⟨0, h, fun _ => trivial⟩

omit [DecidableEq T] in
theorem total_update (own : T →₀ M) (t : T) (m : M) :
    total (own.update t m) = m + total (own.erase t) := by
  rw [total, Finsupp.update_eq_erase_add_single, Finsupp.sum_add_index' (fun _ => rfl) fun _ _ _ => rfl,
    Finsupp.sum_single_index rfl, add_comm]
  rfl

omit [DecidableEq T] in
theorem total_eq (own : T →₀ M) (t : T) : total own = own t + total (own.erase t) := by
  rw [← total_update, Finsupp.update_self]

/-- The threads own disjoint resources, with which they can go on until they end with a
resource that satisfies their postcondition; the environment keeps `r`, which it can lend
to a thread that it starts. -/
def Lent (Inv : S → List O → M → Prop) (Q : T → M → Prop) (r : M) (p : Pool T S O)
    (out : List O) : Prop :=
  ∃ own : T →₀ M, Inv p.state out (total own + r) ∧
    ∀ t, Prog.Owns Inv (fun _ => Q t) (p.thread t) (own t)

variable {Q : T → M → Prop} {r : M} {p : Pool T S O} {out : List O}

omit [DecidableEq T] in
/-- What the environment keeps it may exchange as far as the invariant allows. -/
theorem Lent.exchange {r' : M} (h : Lent Inv Q r p out)
    (hinv : ∀ m, Inv p.state out (m + r) → Inv p.state out (m + r')) : Lent Inv Q r' p out := by
  obtain ⟨own, hown, hthreads⟩ := h
  exact ⟨own, hinv _ hown, hthreads⟩

variable {t : T} {halted : S → Bool} {body : T → C → Prog S O Unit}

theorem lent_update {own : T →₀ M} (hown : ∀ t, Prog.Owns Inv (fun _ => Q t) (p.thread t) (own t))
    {s' : S} {out' : List O} {q : Prog S O Unit} {m : M} {Q' : M → Prop}
    (hinv : Inv s' out' (m + (total (own.erase t) + r))) (hq : Prog.Owns Inv (fun _ => Q') q m) :
    Lent Inv (Function.update Q t Q') r ⟨s', Function.update p.thread t q⟩ out' := by
  refine ⟨own.update t m, ?_, fun i => ?_⟩
  · rwa [total_update, add_assoc]
  · show Prog.Owns Inv (fun _ => Function.update Q t Q' i) (Function.update p.thread t q i) _
    rw [Finsupp.coe_update]
    by_cases hi : i = t
    · subst hi
      rwa [Function.update_self, Function.update_self, Function.update_self]
    · rw [Function.update_of_ne hi, Function.update_of_ne hi, Function.update_of_ne hi]
      exact hown i

/-- The next action of a thread. -/
theorem lent_sched (body : T → C → Prog S O Unit) (h : Lent Inv Q r p out) (t : T) :
    Lent Inv Q r (stepEvent body p (.sched t)).1 (out ++ (stepEvent body p (.sched t)).2) := by
  obtain ⟨own, hinv, hown⟩ := h
  cases hthread : p.thread t with
  | ret a =>
    simp only [stepEvent, hthread, List.append_nil]
    exact ⟨own, hinv, hown⟩
  | act f k =>
    simp only [stepEvent, hthread]
    have ht := hown t
    rw [hthread] at ht
    rw [total_eq own t, add_assoc] at hinv
    obtain ⟨m', hinv', hk⟩ := ht p.state out _ hinv
    have hnext := lent_update hown hinv' hk
    rwa [Function.update_eq_self] at hnext

/-- The environment starts a call on an idle thread and lends it what it needs. -/
theorem lent_start (body : T → C → Prog S O Unit) (Q' : M → Prop) {c : C} {loan : M}
    (h : Lent Inv Q (loan + r) p out) (hbody : Prog.Owns Inv (fun _ => Q') (body t c) loan)
    (hup : ∀ m m', Q' m → Q' (m + m')) {a : Unit} (hidle : p.thread t = .ret a) :
    Lent Inv (Function.update Q t Q') r (stepEvent body p (.start t c)).1
      (out ++ (stepEvent body p (.start t c)).2) := by
  obtain ⟨own, hinv, hown⟩ := h
  simp only [stepEvent, hidle, List.append_nil]
  -- what the thread has left from its last call goes unused
  refine lent_update hown ?_ ((hbody.frame (own t)).mono ?_)
  · rwa [total_eq own t, add_comm (own t), add_assoc, ← add_assoc (own t), add_comm (own t),
      add_left_comm] at hinv
  · rintro _ m ⟨m₀, rfl, hm₀⟩
    exact hup m₀ (own t) hm₀

/-- A thread that has ended gives back its loan, or what it made of it. -/
theorem Lent.reclaim {loan : M} {a : Unit} (h : Lent Inv Q r p out) (hret : p.thread t = .ret a)
    (hloan : ∀ m m', Q t m → Inv p.state out (m + m') → Inv p.state out (loan + m')) :
    Lent Inv (Function.update Q t fun _ => True) (loan + r) p out := by
  obtain ⟨own, hinv, hown⟩ := h
  have ht := hown t
  rw [hret] at ht
  rw [total_eq own t, add_assoc] at hinv
  have hback := hloan _ _ ht hinv
  rw [add_left_comm, ← zero_add (_ + _)] at hback
  have hnext := lent_update hown hback
    (show Prog.Owns Inv (fun _ _ => True) (.ret a) 0 from trivial)
  rwa [← hret, Function.update_eq_self] at hnext

omit [DecidableEq T] in
theorem Lent.mono {Q' : T → M → Prop} (h : Lent Inv Q r p out) (hQ : ∀ t m, Q t m → Q' t m) :
    Lent Inv Q' r p out := by
  obtain ⟨own, hinv, hown⟩ := h
  exact ⟨own, hinv, fun t => (hown t).mono fun _ m => hQ t m⟩

omit [DecidableEq T] in
theorem lent_iff_sound : Lent Inv (fun _ _ => True) 0 p out ↔ Sound Inv p out := by
  simp only [Lent, Sound, add_zero]

theorem lent_step {e : Event T C} (hbody : ∀ t c, e = .start t c →
      Q t = (fun _ => True) ∧ Prog.Owns Inv (fun _ _ => True) (body t c) 0)
    (h : Lent Inv Q r p out) :
    Lent Inv Q r (step halted body p e).1 (out ++ (step halted body p e).2) := by
  rw [step]
  split
  · rwa [List.append_nil]
  · cases e with
    | start t c =>
      cases hthread : p.thread t with
      | act f k =>
        simp only [stepEvent, hthread, List.append_nil]
        exact h
      | ret a =>
        obtain ⟨hQ, hc⟩ := hbody t c rfl
        rw [← zero_add r] at h
        have hnext := lent_start body (fun _ => True) h hc (fun _ _ _ => trivial) hthread
        rwa [← hQ, Function.update_eq_self] at hnext
    | sched t => exact lent_sched body h t

/-- A run keeps the loans, if the calls that it starts need none. -/
theorem lent_exec {es : List (Event T C)} (hbody : ∀ t c, .start t c ∈ es →
      Q t = (fun _ => True) ∧ Prog.Owns Inv (fun _ _ => True) (body t c) 0)
    (h : Lent Inv Q r p out) : Lent Inv Q r (Run.exec (step halted body) p es)
      (out ++ (Run.outputs (step halted body) p es).flatten) := by
  have halong : Run.Along (step halted body) (fun _ e => ∀ t c, e = .start t c →
      Q t = (fun _ => True) ∧ Prog.Owns Inv (fun _ _ => True) (body t c) 0) p es := by
    refine Run.along_of_forall _ (fun e he => ?_) p
    rintro t c rfl
    exact hbody t c he
  exact Run.exec_induct_outputs (fun _ _ _ h he => lent_step he h) h halong

theorem sound_step {e : Event T C}
    (hbody : ∀ t c, e = .start t c → Prog.Owns Inv (fun _ _ => True) (body t c) 0) {p : Pool T S O}
    {out : List O} (h : Sound Inv p out) :
    Sound Inv (step halted body p e).1 (out ++ (step halted body p e).2) := by
  rw [← lent_iff_sound] at h ⊢
  exact lent_step (fun t c he => ⟨rfl, hbody t c he⟩) h

/-- **The invariant holds in every interleaving** of threads whose bodies satisfy
their triples. -/
theorem inv_exec {s : S} (hs : Inv s [] 0) (es : List (Event T C))
    (hbody : ∀ t c, .start t c ∈ es → Prog.Owns Inv (fun _ _ => True) (body t c) 0) :
    ∃ m, Inv (Run.exec (step halted body) (idle s) es).state
      (Run.outputs (step halted body) (idle s) es).flatten m := by
  have hstart : Lent Inv (fun _ _ => True) 0 (idle s : Pool T S O) [] :=
    lent_iff_sound.mpr (sound_idle hs)
  obtain ⟨own, hinv, -⟩ := lent_exec (fun t c hc => ⟨rfl, hbody t c hc⟩) hstart
  exact ⟨_, hinv⟩

end Sound

end Pool
