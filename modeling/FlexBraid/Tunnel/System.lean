import FlexBraid.Tunnel.Client
import FlexBraid.Tunnel.Server

/-!
# One server and its clients

A server and any number of client processes; a client that is restarted is another
process.  An event is one of the server, or one of the goroutines of a client.  The log
keeps everything that was emitted, so what the network can deliver and what was sealed
under a key can be read off it.

## Main definitions

* `System`, `System.new`, `System.step` — the system.

## Main results

* `System.client_exec`, `System.server_exec` — a run of the system is a run of each of
  its parts.
* `System.log_exec` — the log is what was emitted.
-/

namespace FlexBraid

/-- What a system emits. -/
inductive SystemOut (κ : Type) (P : Primitives) where
  | server (o : ServerOut P)
  | client (i : κ) (o : ClientOut P)
deriving DecidableEq

/-- What happens in a system: an event of the server, or one of the goroutines `T` of a
client. -/
inductive SystemEvent (F κ T : Type) where
  | server (e : Server.Event F)
  | client (i : κ) (e : Pool.Event T (Client.Call F))

/-- A server, its clients, and everything they have emitted. -/
structure System (F : Type) {C : Type} (RS : ReedSolomon C) (P : Primitives) (κ T : Type) where
  server : Server F RS P
  client : κ → Pool T (Client F RS P) (ClientOut P)
  log : List (SystemOut κ P) := []

/-- The output of the server, if it is one. -/
def SystemOut.ofServer {κ : Type} {P : Primitives} : SystemOut κ P → Option (ServerOut P)
  | .server o => some o
  | .client _ _ => none

/-- The output of the given client, if it is one. -/
def SystemOut.ofClient {κ : Type} [DecidableEq κ] {P : Primitives} (i : κ) :
    SystemOut κ P → Option (ClientOut P)
  | .server _ => none
  | .client j o => if j = i then some o else none

def SystemEvent.ofServer {F κ T : Type} : SystemEvent F κ T → Option (Server.Event F)
  | .server e => some e
  | .client _ _ => none

/-- The event of the given client, if it is one. -/
def SystemEvent.ofClient {F κ T : Type} [DecidableEq κ] (i : κ) :
    SystemEvent F κ T → Option (Pool.Event T (Client.Call F))
  | .server _ => none
  | .client j e => if j = i then some e else none

namespace System

variable {F C : Type} [Float64 F] {RS : ReedSolomon C} {P : Primitives} {κ T : Type}
  [DecidableEq κ] [DecidableEq T] (senv : ServerEnv F P) (cenv : κ → ClientEnv F P)

/-- A new server and new clients. -/
def new (c : κ → Client F RS P) : System F RS P κ T :=
  { server := newServer RS senv, client := fun i => Pool.idle (c i) }

/-- One event of a system. -/
def step (s : System F RS P κ T) : SystemEvent F κ T → System F RS P κ T × List (SystemOut κ P)
  | .server e =>
    let r := s.server.step senv e
    ({ s with server := r.1, log := s.log ++ r.2.map .server }, r.2.map .server)
  | .client i e =>
    let r := Client.step (cenv i) (s.client i) e
    ({ s with client := Function.update s.client i r.1, log := s.log ++ r.2.map (.client i) },
      r.2.map (.client i))

variable {s : System F RS P κ T}

/-! ### The parts of a run -/

theorem log_exec (es : List (SystemEvent F κ T)) : (Run.exec (step senv cenv) s es).log =
      s.log ++ (Run.outputs (step senv cenv) s es).flatten := by
  induction es generalizing s with
  | nil => simp
  | cons e es ih =>
    rw [Run.exec_cons, ih, Run.outputs_cons, List.flatten_cons, ← List.append_assoc]
    cases e <;> rfl

omit [DecidableEq κ] in
theorem filterMap_ofServer_map (out : List (ServerOut P)) :
    (out.map (.server : ServerOut P → SystemOut κ P)).filterMap SystemOut.ofServer = out := by
  rw [List.filterMap_map]
  exact List.filterMap_some

omit [DecidableEq κ] in
theorem filterMap_ofServer_client (i : κ) (out : List (ClientOut P)) :
    (out.map (.client i : ClientOut P → SystemOut κ P)).filterMap SystemOut.ofServer = [] := by
  rw [List.filterMap_map]
  exact List.filterMap_eq_nil_iff.mpr fun _ _ => rfl

theorem filterMap_ofClient_map (i j : κ) (out : List (ClientOut P)) :
    (out.map (.client j : ClientOut P → SystemOut κ P)).filterMap (SystemOut.ofClient i) =
      if j = i then out else [] := by
  rw [List.filterMap_map]
  by_cases h : j = i
  · rw [if_pos h, show SystemOut.ofClient i ∘ (.client j : ClientOut P → SystemOut κ P) = some from
      funext fun _ => if_pos h]
    exact List.filterMap_some
  · rw [if_neg h]
    exact List.filterMap_eq_nil_iff.mpr fun _ _ => if_neg h

theorem filterMap_ofClient_server (i : κ) (out : List (ServerOut P)) :
    (out.map (.server : ServerOut P → SystemOut κ P)).filterMap (SystemOut.ofClient i) = [] := by
  rw [List.filterMap_map]
  exact List.filterMap_eq_nil_iff.mpr fun _ _ => rfl

omit [DecidableEq κ] in
theorem mem_ofServer {o : ServerOut P} {log : List (SystemOut κ P)} (h : .server o ∈ log) :
    o ∈ log.filterMap SystemOut.ofServer := List.mem_filterMap.mpr ⟨_, h, rfl⟩

theorem mem_ofClient {i : κ} {o : ClientOut P} {log : List (SystemOut κ P)} (h : .client i o ∈ log) :
    o ∈ log.filterMap (SystemOut.ofClient i) := List.mem_filterMap.mpr ⟨_, h, if_pos rfl⟩

/-- A run of the system is a run of its server. -/
theorem server_exec (es : List (SystemEvent F κ T)) :
    (Run.exec (step senv cenv) s es).server =
        Run.exec (Server.step senv) s.server (es.filterMap SystemEvent.ofServer) ∧
      (Run.exec (step senv cenv) s es).log.filterMap SystemOut.ofServer =
        s.log.filterMap SystemOut.ofServer ++
          (Run.outputs (Server.step senv) s.server (es.filterMap SystemEvent.ofServer)).flatten := by
  induction es generalizing s with
  | nil => simp
  | cons e es ih =>
    obtain ⟨hstate, hlog⟩ := ih (s := (step senv cenv s e).1)
    rw [Run.exec_cons, hstate, hlog]
    cases e with
    | server e =>
      refine ⟨rfl, ?_⟩
      show (s.log ++ _).filterMap _ ++ _ = _
      rw [List.filterMap_append, filterMap_ofServer_map, List.append_assoc]
      rfl
    | client i e =>
      refine ⟨rfl, ?_⟩
      show (s.log ++ _).filterMap _ ++ _ = _
      rw [List.filterMap_append, filterMap_ofServer_client, List.append_nil]
      rfl

/-- A run of the system is a run of each of its clients. -/
theorem client_exec (i : κ) (es : List (SystemEvent F κ T)) :
    (Run.exec (step senv cenv) s es).client i =
        Run.exec (Client.step (cenv i)) (s.client i) (es.filterMap (SystemEvent.ofClient i)) ∧
      (Run.exec (step senv cenv) s es).log.filterMap (SystemOut.ofClient i) =
        s.log.filterMap (SystemOut.ofClient i) ++ (Run.outputs (Client.step (cenv i)) (s.client i)
          (es.filterMap (SystemEvent.ofClient i))).flatten := by
  induction es generalizing s with
  | nil => simp
  | cons e es ih =>
    obtain ⟨hstate, hlog⟩ := ih (s := (step senv cenv s e).1)
    rw [Run.exec_cons, hstate, hlog]
    cases e with
    | server e =>
      refine ⟨rfl, ?_⟩
      show (s.log ++ _).filterMap _ ++ _ = _
      rw [List.filterMap_append, filterMap_ofClient_server, List.append_nil]
      rfl
    | client j e =>
      have hclient : (step senv cenv s (.client j e)).1.client i =
          Function.update s.client j (Client.step (cenv j) (s.client j) e).1 i := rfl
      have hnew : (step senv cenv s (.client j e)).1.log =
          s.log ++ (Client.step (cenv j) (s.client j) e).2.map (.client j) := rfl
      rw [hclient, hnew, List.filterMap_append, filterMap_ofClient_map, List.filterMap_cons]
      by_cases hj : j = i
      · subst hj
        have hof : SystemEvent.ofClient j (.client j e : SystemEvent F κ T) = some e := if_pos rfl
        rw [hof, Function.update_self, if_pos rfl, Run.exec_cons, Run.outputs_cons,
          List.flatten_cons, List.append_assoc]
        exact ⟨rfl, rfl⟩
      · have hof : SystemEvent.ofClient i (.client j e : SystemEvent F κ T) = none := if_neg hj
        rw [hof, Function.update_of_ne (Ne.symm hj), if_neg hj, List.append_nil]
        exact ⟨rfl, rfl⟩

end System

end FlexBraid
