import Mathlib.Data.List.Basic

/-!
# Runs of a state machine with outputs

A machine is a function `step : S → E → S × List O`: it consumes one event and
returns the next state and what it emits.  `exec` is the state after a sequence
of events, `states` the state after each of them, `outputs` what each of them
emitted, and `Along P` says that every event of the sequence meets the condition `P`
in the state it is taken in.

## Main results

* `exec_induct` — an invariant of every step whose condition holds is an
  invariant of every run whose steps all meet it.
* `exec_induct_outputs` — the same for a relation between the state and the outputs.
* `exec_append`, `outputs_append`, `along_append` — runs compose.
* `tally_balance` — what every step balances, a run balances.
* `outputs_eq_of_sim` — two machines that simulate each other emit the same.
* `exec_map` — a map of the states that commutes with the steps commutes with the runs.
* `inert_of_step` — an event that does nothing in its state is inert: it can be left
  out of the run.
-/

namespace Run

variable {S E O : Type}

/-- The state after a sequence of events. -/
def exec (step : S → E → S × List O) : S → List E → S
  | s, [] => s
  | s, e :: es => exec step (step s e).1 es

/-- What each event of a sequence emits. -/
def outputs (step : S → E → S × List O) : S → List E → List (List O)
  | _, [] => []
  | s, e :: es => (step s e).2 :: outputs step (step s e).1 es

/-- The state each event of a sequence leads to. -/
def states (step : S → E → S × List O) : S → List E → List S
  | _, [] => []
  | s, e :: es => (step s e).1 :: states step (step s e).1 es

/-- Every event of a sequence meets `P` in the state it is taken in. -/
def Along (step : S → E → S × List O) (P : S → E → Prop) : S → List E → Prop
  | _, [] => True
  | s, e :: es => P s e ∧ Along step P (step s e).1 es

variable (step : S → E → S × List O)

@[simp] theorem exec_nil (s : S) : exec step s [] = s := rfl

@[simp] theorem exec_cons (s : S) (e : E) (es : List E) :
    exec step s (e :: es) = exec step (step s e).1 es := rfl

@[simp] theorem outputs_nil (s : S) : outputs step s [] = [] := rfl

@[simp] theorem outputs_cons (s : S) (e : E) (es : List E) :
    outputs step s (e :: es) = (step s e).2 :: outputs step (step s e).1 es := rfl

@[simp] theorem along_nil (P : S → E → Prop) (s : S) : Along step P s [] := trivial

@[simp] theorem along_cons (P : S → E → Prop) (s : S) (e : E) (es : List E) :
    Along step P s (e :: es) ↔ P s e ∧ Along step P (step s e).1 es := Iff.rfl

instance decidableAlong {P : S → E → Prop} [∀ s e, Decidable (P s e)] :
    ∀ (s : S) (es : List E), Decidable (Along step P s es)
  | _, [] => inferInstanceAs (Decidable True)
  | s, e :: es =>
    have : Decidable (Along step P (step s e).1 es) := decidableAlong _ es
    inferInstanceAs (Decidable (P s e ∧ Along step P (step s e).1 es))

theorem exec_append (s : S) (es es' : List E) :
    exec step s (es ++ es') = exec step (exec step s es) es' := by
  induction es generalizing s with
  | nil => rfl
  | cons e es ih => rw [List.cons_append, exec_cons, exec_cons, ih]

theorem outputs_append (s : S) (es es' : List E) :
    outputs step s (es ++ es') = outputs step s es ++ outputs step (exec step s es) es' := by
  induction es generalizing s with
  | nil => rfl
  | cons e es ih =>
    rw [List.cons_append, outputs_cons, outputs_cons, exec_cons, ih, List.cons_append]

theorem along_append (P : S → E → Prop) (s : S) (es es' : List E) :
    Along step P s (es ++ es') ↔ Along step P s es ∧ Along step P (exec step s es) es' := by
  induction es generalizing s with
  | nil => simp
  | cons e es ih => rw [List.cons_append, along_cons, along_cons, exec_cons, ih, and_assoc]

theorem along_of_forall {P : E → Prop} {es : List E} (h : ∀ e ∈ es, P e) (s : S) :
    Along step (fun _ => P) s es := by
  induction es generalizing s with
  | nil => trivial
  | cons e es ih =>
    obtain ⟨he, hes⟩ := List.forall_mem_cons.mp h
    exact ⟨he, ih hes _⟩

variable {step}

theorem Along.mono {P Q : S → E → Prop} {s : S} {es : List E} (h : Along step P s es)
    (hPQ : ∀ s e, P s e → Q s e) : Along step Q s es := by
  induction es generalizing s with
  | nil => trivial
  | cons e es ih => exact ⟨hPQ s e h.1, ih h.2⟩

/-- A run that meets two conditions meets both at every step. -/
theorem Along.and {P Q : S → E → Prop} {s : S} {es : List E} (h : Along step P s es)
    (h' : Along step Q s es) : Along step (fun s e => P s e ∧ Q s e) s es := by
  induction es generalizing s with
  | nil => trivial
  | cons e es ih => exact ⟨⟨h.1, h'.1⟩, ih h.2 h'.2⟩

/-- **The invariant rule.**  What holds at the start and is kept by every step
that meets `P` holds after every run whose steps all meet `P`. -/
theorem exec_induct {P : S → E → Prop} {Inv : S → Prop}
    (hstep : ∀ s e, Inv s → P s e → Inv (step s e).1) {s : S} {es : List E}
    (hs : Inv s) (hP : Along step P s es) : Inv (exec step s es) := by
  induction es generalizing s with
  | nil => exact hs
  | cons e es ih => exact ih (hstep s e hs hP.1) hP.2

theorem exec_induct' {Inv : S → Prop} (hstep : ∀ s e, Inv s → Inv (step s e).1) {s : S}
    (es : List E) (hs : Inv s) : Inv (exec step s es) := by
  induction es generalizing s with
  | nil => exact hs
  | cons e es ih => exact ih (hstep s e hs)

/-- The invariant rule for a relation between the state and all that was emitted. -/
theorem exec_induct_outputs {P : S → E → Prop} {Inv : S → List O → Prop}
    (hstep : ∀ s out e, Inv s out → P s e → Inv (step s e).1 (out ++ (step s e).2)) {s : S}
    {out : List O} {es : List E} (hs : Inv s out) (hP : Along step P s es) :
    Inv (exec step s es) (out ++ (outputs step s es).flatten) := by
  induction es generalizing s out with
  | nil => rwa [outputs_nil, List.flatten_nil, List.append_nil]
  | cons e es ih =>
    rw [outputs_cons, List.flatten_cons, ← List.append_assoc]
    exact ih (hstep s out e hs hP.1) hP.2

/-- **The invariant rule for a ghost**: a state of the machine with a record that its steps update,
and that does not disturb them. -/
theorem foldl_induct {G : Type} {record : S × G → E → S × G} {P : S → E → Prop} {I : S × G → Prop}
    (hfst : ∀ w e, (record w e).1 = (step w.1 e).1)
    (hstep : ∀ w e, I w → P w.1 e → I (record w e)) {w : S × G} {es : List E} (hw : I w)
    (hP : Along step P w.1 es) : I (es.foldl record w) := by
  induction es generalizing w with
  | nil => exact hw
  | cons e es ih => exact ih (hstep w e hw hP.1) ((hfst w e).symm ▸ hP.2)

theorem foldl_fst {G : Type} {record : S × G → E → S × G} (w : S × G) (es : List E)
    (hfst : ∀ w e, (record w e).1 = (step w.1 e).1) : (es.foldl record w).1 = exec step w.1 es := by
  induction es generalizing w with
  | nil => rfl
  | cons e es ih => rw [List.foldl_cons, ih, hfst, exec_cons]

/-- **The simulation rule.**  Two machines whose steps emit the same from related states,
and lead to related states, emit the same over every run. -/
theorem outputs_eq_of_sim {T : Type} {step' : T → E → T × List O} {R : S → T → Prop}
    (hstep : ∀ s t e, R s t → (step s e).2 = (step' t e).2 ∧ R (step s e).1 (step' t e).1) {s : S}
    {t : T} (h : R s t) (es : List E) : outputs step s es = outputs step' t es := by
  induction es generalizing s t with
  | nil => rfl
  | cons e es ih =>
    obtain ⟨hout, hnext⟩ := hstep s t e h
    rw [outputs_cons, outputs_cons, hout, ih hnext]

section Map

variable {T E' O' : Type} {step' : T → E' → T × List O'} {φ : S → T} {f : E → E'} {g : O → O'}
  {I : S → Prop}

/-- **The homomorphism rule.**  A map of the states that commutes with every step from a state
where the invariant `I` holds commutes with the runs from such a state. -/
theorem exec_map (hI : ∀ s e, I s → I (step s e).1)
    (hstep : ∀ s e, I s → step' (φ s) (f e) = (φ (step s e).1, (step s e).2.map g)) {s : S}
    (hs : I s) (es : List E) : exec step' (φ s) (es.map f) = φ (exec step s es) ∧
      outputs step' (φ s) (es.map f) = (outputs step s es).map (List.map g) := by
  induction es generalizing s with
  | nil => exact ⟨rfl, rfl⟩
  | cons e es ih =>
    obtain ⟨hexec, houtputs⟩ := ih (hI s e hs)
    rw [List.map_cons, exec_cons, outputs_cons, hstep s e hs]
    exact ⟨hexec, congrArg _ houtputs⟩

end Map

/-! ### What a run adds up to -/

variable (step) in
/-- The sum of a weight over the events of a sequence, each in the state it is taken in. -/
def tally (w : S → E → ℕ) : S → List E → ℕ
  | _, [] => 0
  | s, e :: es => w s e + tally w (step s e).1 es

variable (step) in
@[simp] theorem tally_cons (w : S → E → ℕ) (s : S) (e : E) (es : List E) :
    tally step w s (e :: es) = w s e + tally step w (step s e).1 es := rfl

/-- **The balance rule.**  If what a step takes in, with what the state holds, is what it gives out
with what the next state holds, then so it is for a run. -/
theorem tally_balance {P : S → E → Prop} {held : S → ℕ} {w w' : S → E → ℕ}
    (hstep : ∀ s e, P s e → w s e + held s = w' s e + held (step s e).1) {s : S} {es : List E}
    (hP : Along step P s es) :
    tally step w s es + held s = tally step w' s es + held (exec step s es) := by
  induction es generalizing s with
  | nil => rfl
  | cons e es ih =>
    have hhead := hstep s e hP.1
    have htail := ih hP.2
    rw [tally_cons, tally_cons, exec_cons]
    omega

/-! ### Events that do nothing -/

variable (step) in
@[simp] theorem length_outputs (s : S) (es : List E) : (outputs step s es).length = es.length := by
  induction es generalizing s with
  | nil => rfl
  | cons e es ih => rw [outputs_cons, List.length_cons, List.length_cons, ih]

variable (step) in
/-- An event inserted between two parts of a run is not noticed: neither the state at
the end nor an output of another event depends on it. -/
def Inert (s : S) (pre : List E) (e : E) (post : List E) : Prop :=
  exec step s (pre ++ e :: post) = exec step s (pre ++ post) ∧
    ∃ before after, before.length = pre.length ∧
      outputs step s (pre ++ post) = before ++ after ∧
      outputs step s (pre ++ e :: post) = before ++ [] :: after

theorem inert_of_step {s : S} {pre : List E} {e : E}
    (h : step (exec step s pre) e = (exec step s pre, [])) (post : List E) :
    Inert step s pre e post := by
  refine ⟨?_, outputs step s pre, outputs step (exec step s pre) post, length_outputs step s pre,
    outputs_append step s pre post, ?_⟩
  · rw [exec_append, exec_append, exec_cons, h]
  · rw [outputs_append, outputs_cons, h]

end Run
