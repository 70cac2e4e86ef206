import FlexBraid.Tunnel.Server
import FlexBraid.Tunnel.SessRules

/-!
# What one event does to a server

An event of a server runs at most one program, on one session of the table; or it
creates a session, or it is a turn of the monitors or of the sweep.  `Server.Turn` lists
the cases, and everything about runs of a server goes back to it.

## Main definitions

* `Server.Creation` — a handshake that creates a session.
* `Server.Turn` — what an event does.

## Main results

* `Server.turn_step` — **an event does one of these things.**
-/

namespace FlexBraid

variable {F C : Type} [Float64 F] {RS : ReedSolomon C} {P : Primitives}

/-- An output that has nothing to do with the frames of a session: inner datagrams and
sockets. -/
def ServerOut.Inner : ServerOut P → Prop
  | .egress _ _ => True
  | .dialEgress _ => True
  | .closeEgress _ => True
  | _ => False

/-- Whether an output reports a new session. -/
def ServerOut.isPut : ServerOut P → Bool
  | .putSession _ => true
  | _ => false

namespace Server

/-- A handshake creates a session: it is authentic, there is room, its number is new,
and the session key comes from the key exchange. -/
structure Creation (env : ServerEnv F P) (s : Server F RS P) (now : Time) (fresh : Fresh)
    (d : Bytes) (hdr f : Frame) (sess : ServerSession F RS P) : Prop where
  header : Frame.decodeHeader d = .ok hdr
  first : hdr.hasFlag flagFirst = true
  authentic : ∃ plain, env.baseAEAD.openFrame .clientToServer d = .ok plain ∧
    Frame.decode plain = .ok f
  absent : s.mgr.get hdr.sessionID = none
  room : s.mgr.count < maxSessions
  check : (s.mgr.checkFirstReplay fresh.order now hdr.sessionID hdr.seq).2 = true
  keys : ∃ sPriv shared aead enc, fresh.key = some sPriv ∧
    ecdhShared P sPriv.bytes ((f.payload.drop 4).take publicKeySize) = .ok shared ∧
    newAEAD P (derivePFSKey P env.psk shared hdr.sessionID) env.cfg.crypto.cipher = .ok aead ∧
    newEncoder RS env.fecParams = .ok enc ∧
    sess = newServerSession now hdr.sessionID aead enc (sPriv.pub P)

variable {now : Time} {fresh : Fresh} {d : Bytes} {hdr : Frame} {sess : ServerSession F RS P}
  {addr : Addr}

theorem Creation.id {env : ServerEnv F P} {s : Server F RS P} {f : Frame}
    (h : Creation env s now fresh d hdr f sess) : sess.id = hdr.sessionID := by
  obtain ⟨sPriv, shared, aead, enc, -, -, -, -, rfl⟩ := h.keys
  rfl

/-- The server after the replay check of a handshake. -/
def checked (s : Server F RS P) (now : Time) (fresh : Fresh) (hdr : Frame) : Server F RS P :=
  { s with mgr := (s.mgr.checkFirstReplay fresh.order now hdr.sessionID hdr.seq).1 }

/-- What an event does to a server. -/
inductive Turn (env : ServerEnv F P) (s : Server F RS P) :
    Event F → Server F RS P → List (ServerOut P) → Prop
  /-- No session is touched, nor its paths. -/
  | idle {e : Event F} {s' : Server F RS P} {out : List (ServerOut P)}
      (hsessions : s'.mgr.sessions = s.mgr.sessions) (hstates : s'.states = s.states)
      (hout : ∀ o ∈ out, o.Inner) : Turn env s e s' out
  /-- A session runs a program. -/
  | call {e : Event F} {sess : ServerSession F RS P} (c : SessCall F) {dec : Option (Decoder F C)}
      {out : List (ServerOut P)} (hc : ∀ st, c ≠ .paths st) (hget : s.mgr.get sess.id = some sess)
      (hout : ∀ o ∈ out, o.Inner) :
      Turn env s e { (s.onSession sess (c.body env)).2.1 with fecDec := dec }
        ((s.onSession sess (c.body env)).2.2 ++ out)
  /-- A session is created, and accepts the handshake that created it. -/
  | create {now : Time} {fresh : Fresh} {addr : Addr} {d : Bytes} {ua : UDPAddr} {hdr f : Frame}
      {sess : ServerSession F RS P} (hnew : Creation env s now fresh d hdr f sess) :
      Turn env s (.datagram now fresh addr d)
        (openSession env (s.checked now fresh hdr) now hdr.seq ua f.payload sess).1
        (.dialEgress sess.id ::
          (openSession env (s.checked now fresh hdr) now hdr.seq ua f.payload sess).2)
  /-- The monitors turn for a session. -/
  | monitor {id : UInt64} {now : Time} {σ : IterOrder String} {st : SessState F}
      {sess : ServerSession F RS P} {dec : Decoder F C} (hst : s.states.lookup id = some st)
      (hget : s.mgr.get id = some sess) (hdec : s.fecDec = some dec) :
      Turn env s (.healthTick id now σ) (s.healthTick env now id σ) []
  /-- Idle sessions are dropped. -/
  | expire (now : Time) :
      Turn env s (.expire now) { s with mgr := (s.mgr.expire now sessionTTL).1 }
        ((s.mgr.expire now sessionTTL).2.map .closeEgress)
  /-- The paths of dropped sessions are dropped. -/
  | drop : Turn env s .dropStates s.dropStates []

variable {env : ServerEnv F P} {s : Server F RS P} {e : Event F}

theorem Turn.nothing : Turn env s e s [] := .idle rfl rfl fun _ ho => by cases ho

variable (RS env) in
/-- What a key exchange yields: a session and its socket, or at most a socket that is
closed again. -/
theorem createSession_cases (now : Time) (fresh : Fresh) (id : UInt64) (payload : Bytes) :
    (∃ out, createSession env now fresh id payload =
        ((none, out) : Option (ServerSession F RS P) × List (ServerOut P)) ∧
        (out = [] ∨ out = [.dialEgress id, .closeEgress id])) ∨
      ∃ sPriv shared aead enc, fresh.key = some sPriv ∧
        ecdhShared P sPriv.bytes ((payload.drop 4).take publicKeySize) = .ok shared ∧
        newAEAD P (derivePFSKey P env.psk shared id) env.cfg.crypto.cipher = .ok aead ∧
        newEncoder RS env.fecParams = .ok enc ∧ createSession env now fresh id payload =
          (some (newServerSession now id aead enc (sPriv.pub P)), [.dialEgress id]) := by
  rw [createSession]
  split
  · exact .inl ⟨_, rfl, .inl rfl⟩
  · dsimp only
    split
    · exact .inl ⟨_, rfl, .inl rfl⟩
    · next sPriv hkey =>
      split
      · exact .inl ⟨_, rfl, .inl rfl⟩
      · next shared hshared =>
        split
        · exact .inl ⟨_, rfl, .inl rfl⟩
        · split
          · next aead enc haead henc =>
            exact .inr ⟨sPriv, shared, aead, enc, hkey, hshared, haead, henc, rfl⟩
          · exact .inl ⟨_, rfl, .inr rfl⟩

theorem turn_firstOfNew {f : Frame} (ua : UDPAddr) (hheader : Frame.decodeHeader d = .ok hdr)
    (hfirst : hdr.hasFlag flagFirst = true)
    (hopen : ∃ plain, env.baseAEAD.openFrame .clientToServer d = .ok plain ∧
      Frame.decode plain = .ok f) (hnone : s.mgr.get hdr.sessionID = none) :
    Turn env s (.datagram now fresh addr d)
      (s.firstOfNew env now fresh hdr.sessionID hdr.seq ua f.payload).1
      (s.firstOfNew env now fresh hdr.sessionID hdr.seq ua f.payload).2 := by
  rw [firstOfNew]
  split
  · exact .nothing
  · next hroom =>
    dsimp only
    split
    · exact .idle rfl rfl fun _ ho => by cases ho
    · next hcheck =>
      rw [Bool.not_eq_true, Bool.not_eq_false'] at hcheck
      rcases createSession_cases RS env now fresh hdr.sessionID f.payload with
        ⟨out, hcreate, hout⟩ | ⟨sPriv, shared, aead, enc, hkey, hshared, haead, henc, hcreate⟩
      · rw [hcreate]
        refine .idle rfl rfl ?_
        rcases hout with rfl | rfl <;> simp [ServerOut.Inner]
      · rw [hcreate]
        exact .create ⟨hheader, hfirst, hopen, hnone, not_le.mp hroom, hcheck,
          sPriv, shared, aead, enc, hkey, hshared, haead, henc, rfl⟩

theorem turn_onSession (c : SessCall F) (hc : ∀ st, c ≠ .paths st)
    (hget : s.mgr.get sess.id = some sess) :
    Turn env s e (s.onSession sess (c.body env)).2.1 (s.onSession sess (c.body env)).2.2 := by
  rw [← List.append_nil (s.onSession sess (c.body env)).2.2]
  exact .call c hc hget fun _ ho => by cases ho

omit [Float64 F] in
theorem forwardDecoded_inner (s : Server F RS P) (frames : List Frame) :
    ∀ o ∈ s.forwardDecoded frames, o.Inner := by
  intro o ho
  rw [forwardDecoded, List.mem_filterMap] at ho
  obtain ⟨f, -, hf⟩ := ho
  obtain ⟨-, -, rfl⟩ := Option.map_eq_some_iff.mp hf
  trivial

variable (env) in
theorem onSession_data (s : Server F RS P) (sess : ServerSession F RS P) (now : Time) (seq : UInt32)
    (addr : Addr) (plain : Bytes) :
    (s.onSession sess ((SessCall.data now seq addr plain).body env)).2 =
      (s.onSession sess (acceptData env now seq addr plain)).2 := by
  simp only [onSession, SessCall.body, Prog.run_bind, Prog.run_pure, List.append_nil]

theorem turn_handleFirst (hheader : Frame.decodeHeader d = .ok hdr)
    (hfirst : hdr.hasFlag flagFirst = true) :
    Turn env s (.datagram now fresh addr d) (s.handleFirst env now fresh hdr addr d).1
      (s.handleFirst env now fresh hdr addr d).2 := by
  unfold handleFirst
  split
  · exact .nothing
  · next ua =>
    split
    · exact .nothing
    · next plain hopen =>
      split
      · exact .nothing
      · next f hdecode =>
        split
        · next hnone => exact turn_firstOfNew ua hheader hfirst ⟨plain, hopen, hdecode⟩ hnone
        · next sess hsome =>
          exact turn_onSession (.first now hdr.seq ua f.payload) (by simp) (Manager.get_self hsome)

theorem turn_call {c : SessCall F} {s' : Server F RS P} {out out' : List (ServerOut P)}
    (hrun : (s.onSession sess (c.body env)).2 = (s', out)) (hc : ∀ st, c ≠ .paths st)
    (hget : s.mgr.get sess.id = some sess) (hout : ∀ o ∈ out', o.Inner)
    (dec : Option (Decoder F C)) : Turn env s e { s' with fecDec := dec } (out ++ out') := by
  have hturn : Turn env s e { (s.onSession sess (c.body env)).2.1 with fecDec := dec }
      ((s.onSession sess (c.body env)).2.2 ++ out') := .call c hc hget hout
  rwa [hrun] at hturn

theorem turn_handleData :
    Turn env s e (s.handleData env now hdr addr d).1 (s.handleData env now hdr addr d).2 := by
  rw [handleData]
  split
  · exact .nothing
  · next sess hsome =>
    split
    · exact .nothing
    · next plain hopen =>
      have hself := Manager.get_self hsome
      have hdata := onSession_data env s sess now hdr.seq addr plain
      split
      · next s' out hrun =>
        rw [hrun] at hdata
        have hturn : Turn env s e s' (out ++ []) :=
          turn_call hdata (by simp) hself (by simp) s'.fecDec
        rwa [List.append_nil] at hturn
      · next f s' out hrun =>
        rw [hrun] at hdata
        exact turn_call hdata (by simp) hself (forwardDecoded_inner _ _) _

theorem turn_onSessionOf (id : UInt64) (c : SessCall F) (hc : ∀ st, c ≠ .paths st) :
    Turn env s e (s.onSessionOf id (c.body env)).1 (s.onSessionOf id (c.body env)).2 := by
  rw [onSessionOf]
  split
  · exact .nothing
  · next sess hsome => exact turn_onSession c hc (Manager.get_self hsome)

variable (env s e) in
/-- **What an event does.** -/
theorem turn_step : Turn env s e (s.step env e).1 (s.step env e).2 := by
  rw [step]
  split
  · exact .nothing
  · cases e with
    | datagram now fresh addr d =>
      rw [stepEvent, handleClientFrame]
      split
      · exact .nothing
      · next hdr hhdr =>
        split
        · next hflag => exact turn_handleFirst hhdr hflag
        · exact turn_handleData
    | egress id now start draw payload =>
      exact turn_onSessionOf id (.egress now start draw payload) (by simp)
    | encTick id now draw =>
      exact turn_onSessionOf id (.fecTick now draw) (by simp)
    | decTick now σ => exact .idle rfl rfl (forwardDecoded_inner _ _)
    | healthTick id now σ =>
      rw [stepEvent]
      cases hst : s.states.lookup id with
      | none =>
        rw [healthTick, hst]
        exact .nothing
      | some st =>
        cases hget : s.mgr.get id with
        | none =>
          rw [healthTick, hst, hget]
          exact .nothing
        | some sess =>
          cases hdec : s.fecDec with
          | none =>
            rw [healthTick, hst, hget, hdec]
            exact .nothing
          | some dec => exact .monitor hst hget hdec
    | expire now => exact .expire now
    | expireFirsts now => exact .idle rfl rfl fun _ ho => by cases ho
    | dropStates => exact .drop

end Server

end FlexBraid
