import FlexBraid.Lib.HashRing
import FlexBraid.Lib.Run
import FlexBraid.Scheduler

/-!
# The paths a scheduler picks

A scheduler is told which paths there are and in which state, and is asked for paths.  What it was
told adds up to a registry: the names with their states, in order of registration.  Whatever is
asked in between, the answers are names of paths that are registered and not dead.

With flow affinity the answer comes from a ring of hashes that is built when it is first asked for
and kept until the version counter says that the usable paths may have changed.  A ring that is
consulted is the ring of the paths usable at that moment, so the flows of a path stay with it as
long as it is usable, and the flows of the other paths do not notice it come and go.

## Main definitions

* `Registry`, `Registry.after` — what a scheduler was told.
* `Scheduler.Op`, `Scheduler.step` — a scheduler as a machine.
* `virtualNodes`, `placed` — the nodes of the paths on the ring.
* `Scheduler.RingCurrent` — a ring that passes for current is.

## Main results

* `Scheduler.registry_exec` — **the paths of a scheduler are those of the registry.**
* `Scheduler.picks_live` — no dead path is picked.
* `Scheduler.flows_stay` — only the flows of a path move when it goes or comes.
-/

namespace FlexBraid

/-! ### What a scheduler is told -/

/-- The registered paths and their states, in order of registration. -/
abbrev Registry := List (String × PathHealth)

namespace Registry

/-- Register a path; it is healthy at first. -/
def add (r : Registry) (id : String) : Registry :=
  if id ∈ r.map Prod.fst then r else r ++ [(id, .healthy)]

/-- Drop a path. -/
def remove (r : Registry) (id : String) : Registry := r.filter fun e => e.1 ≠ id

/-- Change the state of a path. -/
def report (r : Registry) (id : String) (st : PathHealth) : Registry :=
  r.map fun e => if e.1 = id then (id, st) else e

/-- The paths that are not dead. -/
def live (r : Registry) : List String := (r.filter fun e => e.2 ≠ .down).map Prod.fst

end Registry

inductive Scheduler.Op (F : Type) where
  | addPath (id : String) (capacityMbps : F)
  | removePath (id : String)
  | onState (id : String) (st : PathHealth) (loss : F)
  | pick (payload : Bytes) (draw : F)
  | pickWRR

/-- What a call says about the paths. -/
def Registry.tell {F : Type} (r : Registry) : Scheduler.Op F → Registry
  | .addPath id _ => r.add id
  | .removePath id => r.remove id
  | .onState id st _ => r.report id st
  | .pick .. => r
  | .pickWRR => r

/-- What a scheduler was told. -/
def Registry.after {F : Type} (ops : List (Scheduler.Op F)) : Registry := ops.foldl Registry.tell []

namespace Scheduler

variable {F : Type} [Float64 F]

/-- One call, with the answer to a question. -/
def step (s : Scheduler F) : Op F → Scheduler F × List (Option String)
  | .addPath id capacity => (s.addPath id capacity, [])
  | .removePath id => (s.removePath id, [])
  | .onState id st loss => (s.onState id st loss, [])
  | .pick payload draw => ((s.pick payload draw).1, [(s.pick payload draw).2])
  | .pickWRR => (s.pickWRR.1, [s.pickWRR.2])

def registry (s : Scheduler F) : Registry := s.paths.map fun p => (p.id, p.state)

/-! ### What the calls do -/

omit [Float64 F] in
theorem fst_registry (s : Scheduler F) : s.registry.map Prod.fst = s.paths.map SchedPath.id := by
  rw [registry, List.map_map]
  rfl

omit [Float64 F] in
theorem live_registry (s : Scheduler F) : s.registry.live = s.usable.map SchedPath.id := by
  rw [Registry.live, registry, List.filter_map, List.map_map, usable]
  rfl

/-- Two schedulers with the same paths in the same states and the same ring; capacities, losses
and accumulators may differ. -/
structure SameView (s s' : Scheduler F) : Prop where
  opts : s'.opts = s.opts
  registry : s'.registry = s.registry
  ring : s'.ring = s.ring
  ringPaths : s'.ringPaths = s.ringPaths
  lastRingVer : s'.lastRingVer = s.lastRingVer
  ringVer : s'.ringVer = s.ringVer

omit [Float64 F] in
theorem SameView.trans {s s' s'' : Scheduler F} (h : s.SameView s') (h' : s'.SameView s'') :
    s.SameView s'' :=
  ⟨h'.opts.trans h.opts, h'.registry.trans h.registry, h'.ring.trans h.ring,
    h'.ringPaths.trans h.ringPaths, h'.lastRingVer.trans h.lastRingVer, h'.ringVer.trans h.ringVer⟩

omit [Float64 F] in
theorem sameView_mapPaths (s : Scheduler F) {f : SchedPath F → SchedPath F}
    (hf : ∀ p, (f p).id = p.id) (hstate : ∀ p, (f p).state = p.state) :
    s.SameView (s.mapPaths f hf) := by
  refine ⟨rfl, ?_, rfl, rfl, rfl, rfl⟩
  change (s.paths.map f).map _ = _
  rw [List.map_map]
  apply List.map_congr_left
  intro p _
  rw [Function.comp_apply, hf, hstate]

omit [Float64 F] in
theorem sameView_update (s : Scheduler F) (id : String) {f : SchedPath F → SchedPath F}
    (hf : ∀ p, (f p).id = p.id) (hstate : ∀ p, (f p).state = p.state) :
    s.SameView (s.update id f hf) := by
  apply sameView_mapPaths
  intro p
  split
  · exact hstate p
  · rfl

theorem sameView_credit (s : Scheduler F) : s.SameView s.credit := by
  apply sameView_mapPaths
  intro p
  split <;> rfl

/-- How the path of a frame is picked. -/
inductive Picked (s : Scheduler F) (payload : Bytes) (draw : F) :
    Scheduler F × Option String → Prop
  | nothing (husable : s.usable = []) : Picked s payload draw (s, none)
  | standby {first : SchedPath F} {rest : List (SchedPath F)} (husable : s.usable = first :: rest)
      (hmode : s.opts.mode = .standby) :
      Picked s payload draw (s, some ((s.usable.find? fun p => p.state = .healthy).getD first).id)
  | ring (hash : UInt64) (husable : s.usable ≠ []) (hmode : s.opts.mode = .lb)
      (haffinity : s.opts.affinity = .flow) (hhash : parseInnerHash payload = some hash) :
      Picked s payload draw ((s.pickRing hash s.usable).1, some (s.pickRing hash s.usable).2)
  | weighted {first : SchedPath F} {rest : List (SchedPath F)} (husable : s.usable = first :: rest)
      (hmode : s.opts.mode = .lb)
      (hother : s.opts.affinity = .flow → parseInnerHash payload = none) :
      Picked s payload draw (s, some (s.pickWeighted first rest draw).id)

/-- **The ways to pick a path.** -/
theorem picked_pick (s : Scheduler F) (payload : Bytes) (draw : F) :
    s.Picked payload draw (s.pick payload draw) := by
  rw [pick]
  split
  · next husable => exact .nothing husable
  · next first rest husable =>
    split
    · next hmode =>
      rw [← husable]
      exact .standby husable hmode
    · next hash hmode haffinity hhash =>
      rw [← husable]
      exact .ring hash (by rw [husable]; exact List.cons_ne_nil _ _) hmode haffinity hhash
    · next hmode hnot =>
      refine .weighted husable hmode fun haffinity => Option.eq_none_iff_forall_not_mem.mpr ?_
      exact fun hash hhash => hnot hash haffinity hhash

theorem foldl_accumulate_mem (s : Scheduler F) (l : List (SchedPath F)) (acc : F × SchedPath F) :
    (l.foldl s.accumulate acc).2.id = acc.2.id ∨
      (l.foldl s.accumulate acc).2.id ∈ l.map SchedPath.id := by
  induction l generalizing acc with
  | nil => exact .inl rfl
  | cons p l ih =>
    have hstep : (s.accumulate acc p).2.id = acc.2.id ∨ (s.accumulate acc p).2.id = p.id := by
      unfold accumulate
      dsimp only
      split_ifs <;> simp
    rw [List.foldl_cons, List.map_cons]
    rcases ih (s.accumulate acc p) with h | h
    · rw [h]
      exact hstep.imp_right fun h => by rw [h]; exact List.mem_cons_self
    · exact .inr (List.mem_cons_of_mem _ h)

/-- **The weighted round-robin** counts, and answers with a usable path if there is one. -/
theorem pickWRR_cases (s : Scheduler F) : (s.usable = [] ∧ s.pickWRR = (s, none)) ∨
      ∃ s' id, s.SameView s' ∧ id ∈ s.usable.map SchedPath.id ∧ s.pickWRR = (s', some id) := by
  rw [pickWRR]
  split
  · next husable => exact .inl ⟨husable, rfl⟩
  · next first rest husable =>
    right
    dsimp only
    have hbest : ((first :: rest).foldl s.accumulate (Float64.ofInt 0, first)).2.id ∈
        s.usable.map SchedPath.id := by
      rw [husable]
      rcases s.foldl_accumulate_mem (first :: rest) (Float64.ofInt 0, first) with h | h
      · rw [h]
        exact List.mem_cons_self
      · exact h
    split
    · exact ⟨s.credit, _, s.sameView_credit, hbest, rfl⟩
    · exact ⟨_, _, s.sameView_credit.trans (sameView_update _ _ _ (by intro _; rfl)), hbest, rfl⟩

/-! ### The paths are those of the registry -/

theorem registry_addPath (s : Scheduler F) (id : String) (capacity : F) :
    (s.addPath id capacity).registry = s.registry.add id := by
  rw [addPath, Registry.add, fst_registry]
  split
  · exact (sameView_update s id _ (by intro _; rfl)).registry
  · change (s.paths ++ [_]).map _ = _
    rw [List.map_append]
    rfl

section
omit [Float64 F]

theorem eraseP_eq_filter {l : List (SchedPath F)} (hnd : (l.map SchedPath.id).Nodup) (id : String) :
    l.eraseP (fun p => p.id = id) = l.filter fun p => p.id ≠ id := by
  induction l with
  | nil => rfl
  | cons p l ih =>
    rw [List.map_cons, List.nodup_cons] at hnd
    by_cases hp : p.id = id
    · rw [List.eraseP_cons_of_pos (by simpa using hp), List.filter_cons_of_neg (by simpa using hp),
        eq_comm, List.filter_eq_self]
      intro q hq
      rw [decide_eq_true_eq]
      intro hid
      exact hnd.1 (hp.trans hid.symm ▸ List.mem_map_of_mem hq)
    · rw [List.eraseP_cons_of_neg (by simpa using hp), List.filter_cons_of_pos (by simpa using hp),
        ih hnd.2]

theorem registry_removePath (s : Scheduler F) (id : String) :
    (s.removePath id).registry = s.registry.remove id := by
  rw [removePath, Registry.remove, registry, registry, List.filter_map]
  split
  · change (s.paths.eraseP _).map _ = _
    rw [eraseP_eq_filter s.nodup_ids]
    rfl
  · next h =>
    congr 1
    rw [eq_comm, List.filter_eq_self]
    intro p hp
    rw [Function.comp_apply, decide_eq_true_eq]
    rintro rfl
    exact h (List.mem_map_of_mem hp)

theorem registry_onState (s : Scheduler F) (id : String) (st : PathHealth) (loss : F) :
    (s.onState id st loss).registry = s.registry.report id st := by
  rw [onState, Registry.report, registry, registry, List.map_map]
  split
  · change (s.paths.map _).map _ = _
    rw [List.map_map]
    apply List.map_congr_left
    intro p _
    simp only [Function.comp_apply]
    split
    · next h =>
      dsimp only
      rw [h]
    · rfl
  · next h =>
    apply List.map_congr_left
    intro p hp
    rw [Function.comp_apply, if_neg]
    rintro rfl
    exact h (List.mem_map_of_mem hp)

theorem registry_pickRing (s : Scheduler F) (hash : UInt64) (us : List (SchedPath F)) :
    (s.pickRing hash us).1.registry = s.registry ∧ (s.pickRing hash us).1.opts = s.opts := by
  rw [pickRing]
  dsimp only
  split <;> exact ⟨rfl, rfl⟩

end

/-- **One call** leaves the paths of the registry, and the options as they were. -/
theorem registry_step (s : Scheduler F) (op : Op F) :
    (s.step op).1.registry = s.registry.tell op ∧ (s.step op).1.opts = s.opts := by
  cases op with
  | addPath id capacity =>
    refine ⟨s.registry_addPath id capacity, ?_⟩
    change (s.addPath id capacity).opts = _
    rw [addPath]
    split <;> rfl
  | removePath id =>
    refine ⟨s.registry_removePath id, ?_⟩
    change (s.removePath id).opts = _
    rw [removePath]
    split <;> rfl
  | onState id st loss =>
    refine ⟨s.registry_onState id st loss, ?_⟩
    change (s.onState id st loss).opts = _
    rw [onState]
    split <;> rfl
  | pick payload draw =>
    change (s.pick payload draw).1.registry = s.registry ∧ _
    change _ ∧ (s.pick payload draw).1.opts = _
    have hpick := s.picked_pick payload draw
    generalize s.pick payload draw = r at hpick ⊢
    cases hpick with
    | nothing => exact ⟨rfl, rfl⟩
    | standby => exact ⟨rfl, rfl⟩
    | ring hash => exact s.registry_pickRing hash _
    | weighted => exact ⟨rfl, rfl⟩
  | pickWRR =>
    change s.pickWRR.1.registry = s.registry ∧ s.pickWRR.1.opts = _
    obtain ⟨-, h⟩ | ⟨s', id, hview, -, h⟩ := s.pickWRR_cases
    · rw [h]
      exact ⟨rfl, rfl⟩
    · rw [h]
      exact ⟨hview.registry, hview.opts⟩

/-- **The paths of a scheduler are those of the registry.** -/
theorem registry_exec (s : Scheduler F) (ops : List (Op F)) :
    (Run.exec step s ops).registry = ops.foldl Registry.tell s.registry ∧
      (Run.exec step s ops).opts = s.opts := by
  induction ops generalizing s with
  | nil => exact ⟨rfl, rfl⟩
  | cons op ops ih =>
    obtain ⟨hreg, hopts⟩ := s.registry_step op
    rw [Run.exec_cons, (ih _).1, (ih _).2, hreg, List.foldl_cons]
    exact ⟨rfl, hopts⟩

end Scheduler

/-! ### The ring -/

/-- The nodes of a path on the ring. -/
def virtualNodes (id : String) : List UInt32 :=
  (List.range 64).map fun v => fnv1a id.toUTF8.toList (UInt32.ofNat v)

/-- The nodes of paths on the ring and whose they are, in the order in which they are placed. -/
def placed (ids : List String) : List (UInt32 × String) :=
  ids.flatMap fun id => (virtualNodes id).map fun n => (n, id)

theorem placed_append (a b : List String) : placed (a ++ b) = placed a ++ placed b :=
  List.flatMap_append

theorem mem_placed {ids : List String} {n : UInt32} {id : String} :
    (n, id) ∈ placed ids ↔ id ∈ ids ∧ n ∈ virtualNodes id := by
  simp only [placed, List.mem_flatMap, List.mem_map, Prod.mk.injEq]
  constructor
  · rintro ⟨id', hid, n', hn, rfl, rfl⟩
    exact ⟨hid, hn⟩
  · rintro ⟨hid, hn⟩
    exact ⟨id, hid, n, hn, rfl, rfl⟩

theorem fst_placed (ids : List String) : (placed ids).map Prod.fst = ids.flatMap virtualNodes := by
  simp [placed, List.map_flatMap, Function.comp_def]

theorem placed_ne_nil {ids : List String} (h : ids ≠ []) : (placed ids).map Prod.fst ≠ [] := by
  obtain ⟨id, rest, rfl⟩ := List.exists_cons_of_ne_nil h
  rw [fst_placed, List.flatMap_cons]
  simp [virtualNodes]

namespace Scheduler

variable {F : Type} [Float64 F]

/-- The ring of a scheduler is that of the given paths: their nodes in ascending order, each with
the path that placed it last. -/
structure RingOf (ids : List String) (s : Scheduler F) : Prop where
  ring : s.ring = some (((placed ids).map Prod.fst).insertionSort (· ≤ ·))
  owners : ∀ n, s.ringPaths.lookup n = HashRing.owner (placed ids) n

omit [Float64 F] in
theorem ringOf_buildRing (s : Scheduler F) (us : List (SchedPath F)) :
    (s.buildRing us).RingOf (us.map SchedPath.id) := by
  have hnodes : placed (us.map SchedPath.id) = us.flatMap fun p =>
      (List.range 64).map fun v => (fnv1a p.id.toUTF8.toList (UInt32.ofNat v), p.id) := by
    rw [placed, List.flatMap_map]
    simp only [virtualNodes, List.map_map]
    rfl
  constructor
  · rw [hnodes]
    rfl
  · intro n
    rw [hnodes]
    exact HashRing.lookup_foldl_insert _ n

variable {s : Scheduler F}

omit [Float64 F] in
theorem RingOf.owns {ids : List String} (h : s.RingOf ids) (hne : ids ≠ []) (hash : UInt32) :
    HashRing.Owns (placed ids) hash
      (s.ringPaths.getD (((s.ring.getD []).find? fun n => hash ≤ n).getD ((s.ring.getD []).headD 0))
        "") := by
  have hperm := List.perm_insertionSort (· ≤ ·) ((placed ids).map Prod.fst)
  have hnil : ((placed ids).map Prod.fst).insertionSort (· ≤ ·) ≠ [] := by
    intro h0
    rw [h0] at hperm
    exact placed_ne_nil hne hperm.nil_eq.symm
  rw [h.ring, Option.getD_some]
  have hsucc := HashRing.isSucc_find (List.pairwise_insertionSort (· ≤ ·) _) hnil hash 0
  refine ⟨_, hsucc.mono (fun m hm => hperm.mem_iff.mpr hm) (hperm.mem_iff.mp hsucc.mem), ?_⟩
  obtain ⟨id, hid⟩ := Option.isSome_iff_exists.mp
    (HashRing.isSome_owner (hperm.mem_iff.mp hsucc.mem))
  rw [AList.getD, h.owners, hid]
  rfl

/-- A ring that passes for current is the ring of the usable paths. -/
structure RingCurrent (s : Scheduler F) : Prop where
  built : s.lastRingVer ≤ s.ringVer
  current : s.ring.isSome = true → s.lastRingVer = s.ringVer → s.RingOf s.registry.live

omit [Float64 F] in
theorem RingCurrent.raise {s' : Scheduler F} (h : s.RingCurrent)
    (hlast : s'.lastRingVer = s.lastRingVer) (hver : s'.ringVer = s.ringVer + 1) :
    s'.RingCurrent := by
  have hbuilt := h.built
  exact ⟨by omega, fun _ heq => by omega⟩

omit [Float64 F] in
theorem RingCurrent.keep {s' : Scheduler F} (h : s.RingCurrent) (hview : s.SameView s') :
    s'.RingCurrent := by
  constructor
  · rw [hview.lastRingVer, hview.ringVer]
    exact h.built
  · intro hsome heq
    rw [hview.ring] at hsome
    rw [hview.lastRingVer, hview.ringVer] at heq
    obtain ⟨hring, howners⟩ := h.current hsome heq
    rw [hview.registry]
    exact ⟨hview.ring.trans hring, fun n => by rw [hview.ringPaths]; exact howners n⟩

omit [Float64 F] in
/-- **A ring that is consulted is the ring of the usable paths.** -/
theorem RingCurrent.pickRing (h : s.RingCurrent) (hash : UInt64) :
    (s.pickRing hash s.usable).1.RingOf s.registry.live ∧
      (s.pickRing hash s.usable).1.RingCurrent := by
  rw [Scheduler.pickRing]
  dsimp only
  split
  · have hof : (s.buildRing s.usable).RingOf s.registry.live := by
      rw [live_registry]
      exact ringOf_buildRing s s.usable
    exact ⟨hof, le_rfl, fun _ _ => hof⟩
  · next hcur =>
    simp only [Bool.or_eq_true, Option.isNone_iff_eq_none, decide_eq_true_eq, not_or, ne_eq,
      not_not] at hcur
    exact ⟨h.current (Option.isSome_iff_ne_none.mpr hcur.1) hcur.2, h⟩

theorem ringCurrent_step (h : s.RingCurrent) (op : Op F) : (s.step op).1.RingCurrent := by
  cases op with
  | addPath id capacity =>
    change (s.addPath id capacity).RingCurrent
    rw [addPath]
    split
    · -- a new capacity does not change what is usable
      exact h.keep (sameView_update s id _ (by intro _; rfl))
    · exact h.raise rfl rfl
  | removePath id =>
    change (s.removePath id).RingCurrent
    rw [removePath]
    split
    · exact h.raise rfl rfl
    · exact h
  | onState id st loss =>
    change (s.onState id st loss).RingCurrent
    rw [onState]
    split
    · exact h.raise rfl rfl
    · exact h
  | pick payload draw =>
    change (s.pick payload draw).1.RingCurrent
    have hpick := s.picked_pick payload draw
    generalize s.pick payload draw = r at hpick ⊢
    cases hpick with
    | nothing => exact h
    | standby => exact h
    | ring hash => exact (h.pickRing hash).2
    | weighted => exact h
  | pickWRR =>
    change s.pickWRR.1.RingCurrent
    obtain ⟨-, hpick⟩ | ⟨s', id, hview, -, hpick⟩ := s.pickWRR_cases
    · rw [hpick]
      exact h
    · rw [hpick]
      exact h.keep hview

/-- **The version counter notices every change of the usable paths.** -/
theorem ringCurrent_exec (opts : SchedulerOptions) (ops : List (Op F)) :
    (Run.exec step (new opts : Scheduler F) ops).RingCurrent := by
  have hstart : (new opts : Scheduler F).RingCurrent := ⟨le_rfl, fun h => by simp [new] at h⟩
  have hstep : ∀ (s : Scheduler F) (op : Op F), s.RingCurrent → (s.step op).1.RingCurrent :=
    fun _ op h => ringCurrent_step h op
  exact Run.exec_induct' hstep ops hstart

/-! ### The answers -/

theorem pickWeighted_mem (s : Scheduler F) (first : SchedPath F) (rest : List (SchedPath F))
    (draw : F) : s.pickWeighted first rest draw ∈ first :: rest := by
  have htake : ∀ (last : SchedPath F) (l : List (SchedPath F)) (r : F),
      s.takeWeights last l r = last ∨ s.takeWeights last l r ∈ l := by
    intro last l
    induction l with
    | nil => exact fun r => .inl rfl
    | cons p l ih =>
      intro r
      rw [takeWeights]
      split
      · exact .inr List.mem_cons_self
      · exact (ih _).imp_right fun h => List.mem_cons_of_mem _ h
  rw [pickWeighted]
  split
  · exact List.mem_cons_self
  · rcases htake ((first :: rest).getLast (List.cons_ne_nil _ _)) (first :: rest)
      (draw * s.totalWeight (first :: rest)) with h | h
    · rw [h]
      exact List.getLast_mem _
    · exact h

omit [Float64 F] in
theorem owns_pickRing (h : s.RingCurrent) (husable : s.usable ≠ []) (hash : UInt64) :
    HashRing.Owns (placed s.registry.live) hash.toUInt32 (s.pickRing hash s.usable).2 := by
  have hne : s.registry.live ≠ [] := by
    rw [live_registry]
    exact fun h0 => husable (List.map_eq_nil_iff.mp h0)
  exact (h.pickRing hash).1.owns hne hash.toUInt32

/-- An answer is one of the paths `live`, and there is none only if there are no such paths. -/
structure Answers (live : List String) (answer : Option String) : Prop where
  sound : ∀ id, answer = some id → id ∈ live
  none_iff : answer = none ↔ live = []

theorem answers_some {live : List String} {id : String} (h : id ∈ live) :
    Answers live (some id) := by
  refine ⟨?_, ?_⟩
  · rintro id' ⟨⟩
    exact h
  · constructor
    · intro h0
      cases h0
    · rintro rfl
      cases h

theorem answers_none {live : List String} (h : live = []) : Answers live none :=
  ⟨fun id hid => (Option.some_ne_none id hid.symm).elim, fun _ => h, fun _ => rfl⟩

/-- **An answer is a live path.** -/
theorem answers_pick (h : s.RingCurrent) (payload : Bytes) (draw : F) :
    Answers s.registry.live (s.pick payload draw).2 := by
  have hpick := s.picked_pick payload draw
  generalize s.pick payload draw = r at hpick ⊢
  cases hpick with
  | nothing husable =>
    apply answers_none
    rw [live_registry, husable]
    rfl
  | @standby first rest husable hmode =>
    apply answers_some
    rw [live_registry]
    apply List.mem_map_of_mem
    cases hfind : s.usable.find? fun p => p.state = .healthy with
    | none =>
      rw [husable]
      exact List.mem_cons_self
    | some p => exact List.mem_of_find?_eq_some hfind
  | ring hash husable hmode haffinity hhash =>
    obtain ⟨n, -, howner⟩ := owns_pickRing h husable hash
    exact answers_some (mem_placed.mp (HashRing.mem_of_owner howner)).1
  | @weighted first rest husable hmode hother =>
    apply answers_some
    rw [live_registry, husable]
    exact List.mem_map_of_mem (s.pickWeighted_mem first rest draw)

theorem answers_pickWRR (s : Scheduler F) : Answers s.registry.live s.pickWRR.2 := by
  rw [live_registry]
  obtain ⟨husable, h⟩ | ⟨s', id, -, hmem, h⟩ := s.pickWRR_cases
  · rw [h, husable]
    exact answers_none rfl
  · rw [h]
    exact answers_some hmem

theorem pick_standby (hmode : s.opts.mode = .standby) {id : String}
    (hfind : s.registry.find? (fun e => e.2 = .healthy) = some (id, .healthy)) (payload : Bytes)
    (draw : F) : (s.pick payload draw).2 = some id := by
  obtain ⟨p, hp, hid⟩ : ∃ p, s.paths.find? (fun p => p.state = .healthy) = some p ∧ p.id = id := by
    rw [registry, List.find?_map, Option.map_eq_some_iff] at hfind
    obtain ⟨p, hp, heq⟩ := hfind
    exact ⟨p, hp, congrArg Prod.fst heq⟩
  -- a healthy path is usable, so that the search may leave the dead ones out
  have husable : s.usable.find? (fun p => p.state = .healthy) = some p := by
    rw [usable, List.find?_filter, ← hp]
    congr 1
    funext q
    cases q.state <;> rfl
  have hpick := s.picked_pick payload draw
  generalize s.pick payload draw = r at hpick ⊢
  cases hpick with
  | nothing h0 =>
    rw [h0] at husable
    cases husable
  | standby =>
    rw [husable]
    exact congrArg some hid
  | ring hash h0 hlb =>
    rw [hmode] at hlb
    cases hlb
  | weighted h0 hlb =>
    rw [hmode] at hlb
    cases hlb

/-- Whether the answer comes from the ring. -/
def consults (s : Scheduler F) (payload : Bytes) : Prop :=
  s.usable ≠ [] ∧ s.opts.mode = .lb ∧ s.opts.affinity = .flow ∧
    (parseInnerHash payload).isSome = true

theorem pick_flow (h : s.RingCurrent) {payload : Bytes} (hcons : s.consults payload) (draw : F) :
    (s.pick payload draw).1.RingOf s.registry.live ∧
      ∃ hash id, parseInnerHash payload = some hash ∧ (s.pick payload draw).2 = some id ∧
        HashRing.Owns (placed s.registry.live) hash.toUInt32 id := by
  obtain ⟨husable, hmode, haffinity, hsome⟩ := hcons
  have hpick := s.picked_pick payload draw
  generalize s.pick payload draw = r at hpick ⊢
  cases hpick with
  | nothing h0 => exact absurd h0 husable
  | standby h0 hstandby =>
    rw [hmode] at hstandby
    cases hstandby
  | ring hash _ _ _ hhash =>
    exact ⟨(h.pickRing hash).1, hash, _, hhash, rfl, owns_pickRing h husable hash⟩
  | weighted h0 _ hother =>
    rw [hother haffinity] at hsome
    cases hsome

/-- Whatever a scheduler was told and asked, it never picks a dead path: the answers are live
paths as long as there are any, in standby mode the first healthy path is picked, and a ring that
is consulted is the ring of the live paths. -/
theorem picks_live (opts : SchedulerOptions) (ops : List (Op F)) (payload : Bytes) (draw : F) :
    let s := Run.exec step (new opts : Scheduler F) ops
    let paths := Registry.after ops
    Answers paths.live (s.pick payload draw).2 ∧ Answers paths.live s.pickWRR.2 ∧
      (opts.mode = .standby → ∀ id, paths.find? (fun e => e.2 = .healthy) = some (id, .healthy) →
        (s.pick payload draw).2 = some id) ∧
      (s.consults payload → (s.pick payload draw).1.RingOf paths.live) := by
  intro s paths
  have hring : s.RingCurrent := ringCurrent_exec opts ops
  obtain ⟨hreg, hopts⟩ : s.registry = paths ∧ s.opts = opts := registry_exec (new opts) ops
  rw [← hreg, ← hopts]
  exact ⟨answers_pick hring payload draw, s.answers_pickWRR,
    fun hmode id hfind => pick_standby hmode hfind payload draw,
    fun hcons => (pick_flow hring hcons draw).1⟩

/-- A dead path and two degraded or healthy ones, in standby mode. -/
theorem picks_live_small :
    let ops : List (Op ℚ) := [.addPath "wan1" 100, .addPath "wan2" 20, .addPath "wan3" 20,
      .onState "wan1" .down 1, .onState "wan2" .degraded 0]
    let s := Run.exec step (new { mode := .standby } : Scheduler ℚ) ops
    (Registry.after ops).live = ["wan2", "wan3"] ∧ Answers ["wan2", "wan3"] s.pickWRR.2 ∧
      (s.pick [] 0).2 = some "wan3" := by
  intro ops s
  have hlive : (Registry.after ops).live = ["wan2", "wan3"] := by decide
  obtain ⟨-, hwrr, hstandby, -⟩ := picks_live (F := ℚ) { mode := .standby } ops [] 0
  rw [hlive] at hwrr
  exact ⟨hlive, hwrr, hstandby rfl "wan3" (by decide)⟩

end Scheduler

/-! ### Flows that stay -/

namespace Registry

theorem live_append (a b : Registry) : live (a ++ b) = live a ++ live b := by
  rw [live, List.filter_append, List.map_append]
  rfl

theorem live_cons (id : String) (st : PathHealth) (r : Registry) :
    live ((id, st) :: r) = (if st = .down then [] else [id]) ++ live r := by
  cases st <;> rfl

theorem report_of_not_mem {r : Registry} {id : String} (h : id ∉ r.map Prod.fst) (st : PathHealth) :
    r.report id st = r := by
  refine (List.map_congr_left fun e he => ?_).trans (List.map_id r)
  rw [if_neg]
  · rfl
  · rintro rfl
    exact h (List.mem_map_of_mem he)

theorem report_split {r : Registry} (hnd : (r.map Prod.fst).Nodup) {id : String}
    (h : id ∈ r.map Prod.fst) (st : PathHealth) :
    ∃ a st₀ b, r = a ++ (id, st₀) :: b ∧ r.report id st = a ++ (id, st) :: b := by
  obtain ⟨⟨id', st₀⟩, he, rfl⟩ := List.mem_map.mp h
  obtain ⟨a, b, rfl⟩ := List.append_of_mem he
  rw [List.map_append, List.map_cons, List.nodup_append, List.nodup_cons] at hnd
  obtain ⟨-, ⟨hb, -⟩, hab⟩ := hnd
  have ha : id' ∉ a.map Prod.fst := fun h0 => hab id' h0 id' List.mem_cons_self rfl
  refine ⟨a, st₀, b, rfl, ?_⟩
  have hrep := report_of_not_mem ha st
  have hrep' := report_of_not_mem hb st
  unfold report at hrep hrep' ⊢
  rw [List.map_append, List.map_cons, hrep, hrep']
  dsimp only
  rw [if_pos rfl]

end Registry

theorem owns_without {pre post : List String} {id o o' : String} {h : UInt32}
    (hfull : HashRing.Owns (placed (pre ++ id :: post)) h o)
    (hrest : HashRing.Owns (placed (pre ++ post)) h o') : o = id ∨ o' = o := by
  by_cases ho : o = id
  · exact .inl ho
  · right
    have hsplit : placed (pre ++ id :: post) = placed pre ++ placed [id] ++ placed post := by
      rw [← placed_append, ← placed_append, List.append_assoc]
      rfl
    rw [hsplit] at hfull
    have hstay := hfull.remove fun e he h0 => ho (by
      obtain ⟨n, id'⟩ := e
      rw [← h0]
      exact List.mem_singleton.mp (mem_placed.mp he).1)
    rw [← placed_append] at hstay
    exact hrest.unique hstay

namespace Scheduler

variable {F : Type} [Float64 F]

omit [Float64 F] in
theorem owns_buildRing (s : Scheduler F) {us : List (SchedPath F)} (hne : us ≠ []) (hash : UInt64) :
    HashRing.Owns (placed (us.map SchedPath.id)) hash.toUInt32
      ((s.buildRing us).pickRing hash us).2 := by
  have hids : us.map SchedPath.id ≠ [] := fun h0 => hne (List.map_eq_nil_iff.mp h0)
  rw [pickRing]
  dsimp only
  split
  · exact (ringOf_buildRing _ us).owns hids _
  · exact (ringOf_buildRing s us).owns hids _

/-- **Only the flows of a path move when it goes or comes.**  A ring without the path maps every
hash as the ring with it does, unless that one maps it to the path.  So when a path goes down,
the answers for a flow stay the same unless the flow was on it, and when it comes back they stay
the same or are this path. -/
theorem flows_stay (opts : SchedulerOptions) (ops : List (Op F)) (id : String) (st : PathHealth)
    (loss : F) (payload : Bytes) (draw draw' : F) :
    (∀ (s s' : Scheduler F) (pre post : List (SchedPath F)) (p : SchedPath F) (hash : UInt64),
      pre ++ post ≠ [] →
      ((s.buildRing (pre ++ p :: post)).pickRing hash (pre ++ p :: post)).2 = p.id ∨
        ((s'.buildRing (pre ++ post)).pickRing hash (pre ++ post)).2 =
          ((s.buildRing (pre ++ p :: post)).pickRing hash (pre ++ p :: post)).2) ∧
    (let s := Run.exec step (new opts : Scheduler F) ops
     let s' := s.onState id st loss
     s.consults payload → s'.consults payload →
       (s'.pick payload draw').2 = (s.pick payload draw).2 ∨
         (st = .down ∧ (s.pick payload draw).2 = some id) ∨
         (st ≠ .down ∧ (s'.pick payload draw').2 = some id)) := by
  refine ⟨fun s s' pre post p hash hne => ?_, ?_⟩
  · have hcons : pre ++ p :: post ≠ [] := by simp
    have hfull := s.owns_buildRing hcons hash
    have hrest := s'.owns_buildRing hne hash
    rw [List.map_append, List.map_cons] at hfull
    rw [List.map_append] at hrest
    exact owns_without hfull hrest
  · intro s s' hcons hcons'
    have hring : s.RingCurrent := ringCurrent_exec opts ops
    have hring' : s'.RingCurrent := ringCurrent_step hring (.onState id st loss)
    obtain ⟨-, hash, o, hhash, ho, howns⟩ := pick_flow hring hcons draw
    obtain ⟨-, hash', o', hhash', ho', howns'⟩ := pick_flow hring' hcons' draw'
    obtain rfl : hash = hash' := Option.some.inj (hhash.symm.trans hhash')
    rw [ho, ho', Option.some.injEq, Option.some.injEq, Option.some.injEq]
    rw [registry_onState] at howns'
    by_cases hmem : id ∈ s.registry.map Prod.fst
    · have hnd : (s.registry.map Prod.fst).Nodup := by
        rw [fst_registry]
        exact s.nodup_ids
      obtain ⟨a, st₀, b, hreg, hrep⟩ := Registry.report_split hnd hmem st
      rw [hreg, Registry.live_append, Registry.live_cons] at howns
      rw [hrep, Registry.live_append, Registry.live_cons] at howns'
      by_cases hst₀ : st₀ = .down <;> by_cases hst : st = .down
      · rw [if_pos hst₀] at howns
        rw [if_pos hst] at howns'
        exact .inl (howns'.unique howns)
      · -- the path comes back
        rw [if_pos hst₀] at howns
        rw [if_neg hst] at howns'
        exact (owns_without howns' howns).elim (fun h => .inr (.inr ⟨hst, h⟩)) fun h => .inl h.symm
      · -- the path goes down
        rw [if_neg hst₀] at howns
        rw [if_pos hst] at howns'
        exact (owns_without howns howns').elim (fun h => .inr (.inl ⟨hst, h⟩)) .inl
      · rw [if_neg hst₀] at howns
        rw [if_neg hst] at howns'
        exact .inl (howns'.unique howns)
    · rw [Registry.report_of_not_mem hmem] at howns'
      exact .inl (howns'.unique howns)

/-- An inner IPv4 packet without a payload. -/
def smallFlow : Bytes := 0x45 :: List.replicate 19 0

/-- One of two paths goes down. -/
theorem flows_stay_small :
    let s := Run.exec step (new { affinity := .flow } : Scheduler ℚ)
      [.addPath "wan1" 100, .addPath "wan2" 20]
    let s' := s.onState "wan1" .down 1
    s.consults smallFlow ∧ s'.consults smallFlow ∧
      ((s'.pick smallFlow 0).2 = (s.pick smallFlow 0).2 ∨
        (PathHealth.down = .down ∧ (s.pick smallFlow 0).2 = some "wan1") ∨
        (PathHealth.down ≠ .down ∧ (s'.pick smallFlow 0).2 = some "wan1")) := by
  intro s s'
  have hcons : s.consults smallFlow :=
    ⟨List.ne_nil_of_length_pos (by decide), rfl, rfl, by decide⟩
  have hcons' : s'.consults smallFlow :=
    ⟨List.ne_nil_of_length_pos (by decide), by decide, by decide,
      by decide⟩
  exact ⟨hcons, hcons', (flows_stay { affinity := .flow } [.addPath "wan1" 100, .addPath "wan2" 20]
    "wan1" .down 1 smallFlow 0 0).2 hcons hcons'⟩

end Scheduler

end FlexBraid
