import FlexBraid.Health
import FlexBraid.Lib.BigEndian
import FlexBraid.Lib.GoMap

/-!
# The path scheduler

The scheduler picks a path for each frame or block: by weight, by a consistent
hash of the inner flow, or the first healthy path in standby mode.  Dead paths are
never candidates.

The random draw of a weighted pick is an argument of the call.

## Main definitions

* `Scheduler` — the registered paths, in order of registration; their names are
  distinct.
* `Scheduler.addPath`, `Scheduler.removePath`, `Scheduler.onState` — what the tunnel reports.
* `Scheduler.pick`, `Scheduler.pickWRR` — the path of the next block, and of the
  next frame of a cross-path block.
-/

namespace FlexBraid

/-- Load balancing over all paths, or one active path. -/
inductive SchedulerMode where
  | lb
  | standby
deriving DecidableEq, Repr

/-- Whether every frame is scheduled on its own or with its flow. -/
inductive Affinity where
  | packet
  | flow
deriving DecidableEq, Repr

/-- What the weight of a path is. -/
inductive BalanceBy where
  | capacity
  | fec
  | roundrobin
deriving DecidableEq, Repr

structure SchedulerOptions where
  mode : SchedulerMode := .lb
  affinity : Affinity := .packet
  balanceBy : BalanceBy := .capacity

structure SchedPath (F : Type) where
  id : String
  /-- The effective capacity. -/
  capacity : F
  state : PathHealth := .healthy
  loss : F
  /-- The accumulator of the smooth weighted round-robin. -/
  rr : F

/-- The paths of a client or of a session. -/
structure Scheduler (F : Type) where
  opts : SchedulerOptions
  /-- The paths in order of registration. -/
  paths : List (SchedPath F) := []
  /-- The consistent-hash ring, once built. -/
  ring : Option (List UInt32) := none
  ringPaths : GoMap UInt32 String := ∅
  lastRingVer : ℕ := 0
  /-- Changes with everything that may change the usable paths. -/
  ringVer : ℕ := 0
  nodup_ids : (paths.map SchedPath.id).Nodup

/-- The FNV-1a hash of a path's name and the index of a virtual node. -/
def fnv1a (id : Bytes) (v : UInt32) : UInt32 :=
  ((id.foldl (fun h b => (h ^^^ b.toUInt32) * 16777619) 2166136261) ^^^ v) * 16777619

/-- The hash of an inner IPv4 packet's addresses and ports; none if the payload is not
such a packet. -/
def parseInnerHash (payload : Bytes) : Option UInt64 :=
  if payload.length < 20 then none
  else if payload.getD 0 0 >>> 4 ≠ 4 then none
  else
    let ihl := (payload.getD 0 0 &&& 0x0f).toNat * 4
    if ihl < 20 || payload.length < ihl then none
    else
      let proto := payload.getD 9 0
      let base := ((uint32 (payload.drop 12)).toUInt64 <<< 32) |||
        (uint32 (payload.drop 16)).toUInt64
      if (proto = 6 || proto = 17) && payload.length ≥ ihl + 4 then
        some (base ^^^ ((uint16 (payload.drop ihl)).toUInt64 <<< 16) ^^^
          (uint16 (payload.drop (ihl + 2))).toUInt64)
      else some base

namespace Scheduler

variable {F : Type} [Float64 F]

/-- A scheduler without paths. -/
def new (opts : SchedulerOptions) : Scheduler F :=
  { opts := opts, paths := [], nodup_ids := List.nodup_nil }

/-- The names of the paths. -/
def ids (s : Scheduler F) : List String := s.paths.map SchedPath.id

/-- Change the paths, not their names. -/
def mapPaths (s : Scheduler F) (f : SchedPath F → SchedPath F) (hf : ∀ p, (f p).id = p.id) :
    Scheduler F :=
  { s with
    paths := s.paths.map f
    nodup_ids := by
      rw [List.map_map, show SchedPath.id ∘ f = SchedPath.id from funext hf]
      exact s.nodup_ids }

/-- Change the path with the given name. -/
def update (s : Scheduler F) (id : String) (f : SchedPath F → SchedPath F)
    (hf : ∀ p, (f p).id = p.id) : Scheduler F :=
  s.mapPaths (fun p => if p.id = id then f p else p) fun p => by
    split
    · exact hf p
    · rfl

/-- Register a path, or change its capacity. -/
def addPath (s : Scheduler F) (id : String) (capacityMbps : F) : Scheduler F :=
  if hid : id ∈ s.paths.map SchedPath.id then
    s.update id (fun p => { p with capacity := capacityMbps }) fun _ => rfl
  else
    let p : SchedPath F :=
      { id := id, capacity := capacityMbps, loss := Float64.ofInt 0, rr := Float64.ofInt 0 }
    { s with
      paths := s.paths ++ [p]
      ringVer := s.ringVer + 1
      nodup_ids := by
        rw [List.map_append, List.nodup_append]
        refine ⟨s.nodup_ids, List.nodup_singleton _, ?_⟩
        rintro a ha b hb rfl
        rw [List.map_singleton, List.mem_singleton] at hb
        subst hb
        exact hid ha }

def removePath (s : Scheduler F) (id : String) : Scheduler F :=
  if id ∈ s.paths.map SchedPath.id then
    { s with
      paths := s.paths.eraseP fun p => p.id = id
      ringVer := s.ringVer + 1
      nodup_ids := s.nodup_ids.sublist (List.eraseP_sublist.map _) }
  else s

/-- Record the state and the loss of a path. -/
def onState (s : Scheduler F) (id : String) (st : PathHealth) (loss : F) : Scheduler F :=
  if id ∈ s.paths.map SchedPath.id then
    let s' := s.update id (fun p => { p with state := st, loss := loss }) fun _ => rfl
    { s' with ringVer := s.ringVer + 1 }
  else s

/-- The paths that can carry traffic, in order. -/
def usable (s : Scheduler F) : List (SchedPath F) := s.paths.filter fun p => p.state ≠ .down

/-- The weight of a path: a token one while it is degraded. -/
def weight (s : Scheduler F) (p : SchedPath F) : F :=
  match p.state with
  | .down => Float64.ofInt 0
  | .degraded => Float64.ofInt 2 / Float64.ofInt 10
  | .healthy =>
    if s.opts.balanceBy = .roundrobin || Float64.le p.capacity (Float64.ofInt 0) then
      Float64.ofInt 1
    else p.capacity

/-- The sum of the weights, in order. -/
def totalWeight (s : Scheduler F) (paths : List (SchedPath F)) : F :=
  paths.foldl (fun total p => total + s.weight p) (Float64.ofInt 0)

/-- The loop of `pickWeighted`: take the weights off the draw until it is used up. -/
def takeWeights (s : Scheduler F) (last : SchedPath F) : List (SchedPath F) → F → SchedPath F
  | [], _ => last
  | p :: rest, r =>
    let r' := r - s.weight p
    if Float64.le r' (Float64.ofInt 0) then p else s.takeWeights last rest r'

/-- Pick a path by weight, with a draw between 0 and 1. -/
def pickWeighted (s : Scheduler F) (first : SchedPath F) (rest : List (SchedPath F)) (draw : F) :
    SchedPath F :=
  let total := s.totalWeight (first :: rest)
  if Float64.le total (Float64.ofInt 0) then first
  else s.takeWeights ((first :: rest).getLast (List.cons_ne_nil _ _)) (first :: rest) (draw * total)

/-- Place 64 virtual nodes per usable path on the ring. -/
def buildRing (s : Scheduler F) (usable : List (SchedPath F)) : Scheduler F :=
  let nodes := usable.flatMap fun p =>
    (List.range 64).map fun v => (fnv1a p.id.toUTF8.toList (UInt32.ofNat v), p.id)
  { s with
    ring := some ((nodes.map Prod.fst).insertionSort (· ≤ ·))
    ringPaths := nodes.foldl (fun m n => m.insert n.1 n.2) ∅
    lastRingVer := s.ringVer }

/-- Pick a path by the consistent hash, rebuilding the ring when it is out of date. -/
def pickRing (s : Scheduler F) (h : UInt64) (usable : List (SchedPath F)) :
    Scheduler F × String :=
  let s' := if s.ring.isNone || s.lastRingVer ≠ s.ringVer then s.buildRing usable else s
  let ring := s'.ring.getD []
  let node := (ring.find? fun n => h.toUInt32 ≤ n).getD (ring.headD 0)
  (s', s'.ringPaths.getD node "")

/-- Pick the path of a frame with the given payload; none when no path is usable. -/
def pick (s : Scheduler F) (payload : Bytes) (draw : F) : Scheduler F × Option String :=
  match s.usable with
  | [] => (s, none)
  | first :: rest =>
    match s.opts.mode, s.opts.affinity, parseInnerHash payload with
    | .standby, _, _ =>
      (s, some (((first :: rest).find? fun p => p.state = .healthy).getD first).id)
    | .lb, .flow, some h =>
      let r := s.pickRing h (first :: rest)
      (r.1, some r.2)
    | .lb, _, _ => (s, some (s.pickWeighted first rest draw).id)

/-- One path in the loop of `pickWRR`: it accumulates its weight, and is the best so
far if it has more than the best.  The accumulator holds the total and the best. -/
def accumulate (s : Scheduler F) (acc : F × SchedPath F) (p : SchedPath F) : F × SchedPath F :=
  let w := s.weight p
  let p' := { p with rr := p.rr + w }
  -- the first path is the best from the start, and only then meets itself
  let best := if p.id = acc.2.id then p' else acc.2
  (acc.1 + w, if Float64.lt best.rr p'.rr then p' else best)

/-- Add the weights of the usable paths to their accumulators. -/
def credit (s : Scheduler F) : Scheduler F :=
  s.mapPaths (fun p => if p.state ≠ .down then { p with rr := p.rr + s.weight p } else p)
    fun p => by split <;> rfl

/-- Pick the path of the next frame of a cross-path block: smooth weighted
round-robin over the usable paths. -/
def pickWRR (s : Scheduler F) : Scheduler F × Option String :=
  match s.usable with
  | [] => (s, none)
  | first :: rest =>
    let r := (first :: rest).foldl s.accumulate (Float64.ofInt 0, first)
    let total := r.1
    let best := r.2.id
    if Float64.le total (Float64.ofInt 0) then (s.credit, some best)
    else (s.credit.update best (fun p => { p with rr := p.rr - total }) fun _ => rfl, some best)

/-! ### The names of the paths -/

omit [Float64 F] in
@[simp] theorem ids_mapPaths (s : Scheduler F) {f : SchedPath F → SchedPath F}
    (hf : ∀ p, (f p).id = p.id) : (s.mapPaths f hf).ids = s.ids := by
  show (s.paths.map f).map SchedPath.id = s.ids
  rw [List.map_map, show SchedPath.id ∘ f = SchedPath.id from funext hf]
  rfl

omit [Float64 F] in
@[simp] theorem ids_update (s : Scheduler F) (id : String) {f : SchedPath F → SchedPath F}
    (hf : ∀ p, (f p).id = p.id) : (s.update id f hf).ids = s.ids := ids_mapPaths s _

theorem mem_ids_addPath {s : Scheduler F} {id : String} {capacity : F} {key : String} :
    key ∈ (s.addPath id capacity).ids ↔ key = id ∨ key ∈ s.ids := by
  rw [addPath]
  split
  · next hid =>
    rw [ids_update]
    exact ⟨.inr, fun h => h.elim (fun heq => heq ▸ hid) fun h => h⟩
  · show key ∈ (s.paths ++ [_]).map SchedPath.id ↔ _
    rw [List.map_append, List.mem_append, List.map_singleton, List.mem_singleton, or_comm]
    rfl

omit [Float64 F] in
@[simp] theorem ids_onState (s : Scheduler F) (id : String) (st : PathHealth) (loss : F) :
    (s.onState id st loss).ids = s.ids := by
  rw [onState]
  split
  · exact ids_update (f := fun p => { p with state := st, loss := loss }) s id fun _ => rfl
  · rfl

@[simp] theorem ids_pick (s : Scheduler F) (payload : Bytes) (draw : F) :
    (s.pick payload draw).1.ids = s.ids := by
  rw [pick]
  split
  · rfl
  · split
    · rfl
    · rw [pickRing]
      dsimp only
      split <;> rfl
    · rfl

@[simp] theorem ids_credit (s : Scheduler F) : s.credit.ids = s.ids := by
  rw [credit, ids_mapPaths]

@[simp] theorem ids_pickWRR (s : Scheduler F) : s.pickWRR.1.ids = s.ids := by
  rw [pickWRR]
  split
  · rfl
  · dsimp only
    split
    · exact s.ids_credit
    · rw [ids_update, ids_credit]

end Scheduler

end FlexBraid
