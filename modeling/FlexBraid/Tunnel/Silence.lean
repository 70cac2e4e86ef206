import FlexBraid.Tunnel.Bounds
import FlexBraid.Tunnel.Inert

/-!
# Keepalives after silence

A keepalive that comes after a long gap is meant to count as loss if nothing else came in on its
path either.  The gap is measured against the arrival time of the path, and the receive loop has
renewed that time for the keepalive itself before the gap is measured.  So a keepalive never counts
as loss, however long its path was silent.

All clock readings of one call are one instant.

## Main definitions

* `Server.pathAt` — a path of a session.
* `Server.Keepalive` — an authentic keepalive of a session, with a new number.

## Main results

* `keepalive_books_no_loss` — **a keepalive is a good sample** for the monitor of its path, after
  any run.
* `silence_not_booked` — also when nothing came in for a minute.
-/

namespace FlexBraid

open Run

section
variable {F C : Type} [Float64 F] {RS : ReedSolomon C} {P : Primitives}

theorem ServerEnv.probeInterval_pos (env : ServerEnv F P) : 0 < env.probeInterval := by
  unfold probeInterval positiveOr
  split
  · decide
  next hpos => exact not_le.mp hpos

namespace SessView

variable (env : ServerEnv F P)

/-- A path after a keepalive that was no loss. -/
def alive (ps : PathState F) (now : Time) : PathState F :=
  { ps with
    health := ps.health.noteAlive.observeSample (Float64.ofInt 0) 0
    lastArrive := now
    lastKeepalive := now }

theorem keepaliveHealth_heard (ps : PathState F) (now : Time) :
    keepaliveHealth { ps with lastArrive := now } now env.probeInterval =
      ps.health.noteAlive.observeSample (Float64.ofInt 0) 0 := by
  have hheard : ¬ now - now > 2 * env.probeInterval := by
    rw [sub_self]
    exact not_lt.mpr (Int.mul_nonneg (by decide) env.probeInterval_pos.le)
  unfold keepaliveHealth
  dsimp only
  rw [decide_eq_false hheard, Bool.and_false, if_neg Bool.false_ne_true]

theorem lookup_registerPath (v : SessView F RS P) (now : Time) (ua : UDPAddr) {ps : PathState F}
    (hps : (v.stateFor env).paths.lookup ua.toText = some ps) :
    ((v.registerPath env now ua []).stateFor env).paths.lookup ua.toText =
      some { ps with lastArrive := now } := by
  rw [registerPath]
  dsimp only
  rw [hps]
  simp only [registerPath.finish, List.length_nil, stateFor, Option.getD_some]
  rw [if_neg (by decide), AList.lookup_set, if_pos rfl]

theorem lookup_observeKeepalive (v : SessView F RS P) (now : Time) {pathKey : String}
    {ps : PathState F}
    (hps : (v.stateFor env).paths.lookup pathKey = some { ps with lastArrive := now }) :
    (v.observeKeepalive env now pathKey).st.bind (fun st => st.paths.lookup pathKey) =
      some (alive ps now) := by
  rw [observeKeepalive]
  dsimp only
  rw [hps]
  dsimp only [Option.bind_some]
  rw [AList.lookup_set, if_pos rfl, keepaliveHealth_heard, alive]

end SessView

namespace Server

open SessView

variable {env : ServerEnv F P} {s : Server F RS P} {sess : ServerSession F RS P}

def pathAt (s : Server F RS P) (id : UInt64) (pathKey : String) : Option (PathState F) :=
  (s.states.lookup id).bind fun st => st.paths.lookup pathKey

/-- The datagram is an authentic keepalive of a session, with a new number. -/
structure Keepalive (s : Server F RS P) (sess : ServerSession F RS P) (d : Bytes) : Prop where
  opens : ∃ hdr plain f, Frame.decodeHeader d = .ok hdr ∧ hdr.hasFlag flagFirst = false ∧
    s.mgr.get hdr.sessionID = some sess ∧ sess.replay.seen hdr.seq = false ∧
    sess.aead.openFrame .clientToServer d = .ok plain ∧ Frame.decode plain = .ok f ∧
    f.hasFlag flagKeepalive = true

omit [Float64 F] in
theorem st_sendPong (ua : UDPAddr) (ts : Bytes) (v : SessView F RS P) :
    ((sendPong ua ts).run v).2.1.st = v.st := by
  have hkey : ∀ (f : Frame) (aead : AEAD P) (w : SessView F RS P),
      ((sendToAddrKey ua f aead).run w).2.1 = w := by
    intro f aead w
    unfold sendToAddrKey
    split
    · rfl
    · split
      · rfl
      · rw [Prog.run_atomic]
  simp only [sendPong, sendToAddr, nextSeq, Prog.run_bind, Prog.run_read, Prog.run_atomic]
  rw [hkey]

theorem acceptData_keepalive {v : SessView F RS P} {seq : UInt32} {ua : UDPAddr} {plain : Bytes}
    {f : Frame} {ps : PathState F} (hseen : v.sess.replay.seen seq = false)
    (hdecode : Frame.decode plain = .ok f) (hflag : f.hasFlag flagKeepalive = true)
    (hps : (v.stateFor env).paths.lookup ua.toText = some ps) (now : Time) :
    ((acceptData env now seq (.udp ua) plain).run v).1 = none ∧
      ((acceptData env now seq (.udp ua) plain).run v).2.1.st.bind
        (fun st => st.paths.lookup ua.toText) = some (alive ps now) := by
  have hnew : (v.sess.replay.checkAndMark seq).2 = true := by
    rw [ReplayWindow.checkAndMark_snd, hseen]
    rfl
  simp only [acceptData, checkReplay, touch, refreshPath, route, hdecode, hflag, hnew,
    Prog.run_bind, Prog.run_atomic, Prog.run_modify, Prog.run_pure, if_true]
  refine ⟨trivial, ?_⟩
  rw [st_sendPong]
  exact lookup_observeKeepalive env _ now (lookup_registerPath env _ now ua hps)

/-- **A keepalive is a good sample.**  In every state of a server, so after every history, an
authentic keepalive on a path that the server knows clears the missed probes of the monitor and
gives it a sample without loss, whatever time has passed since the last keepalive and the last
frame. -/
theorem keepalive_books_no_loss {d : Bytes} (h : s.Keepalive sess d) (now : Time) (fresh : Fresh)
    (ua : UDPAddr) {ps : PathState F} (hps : s.pathAt sess.id ua.toText = some ps) :
    (s.handleClientFrame env now fresh (.udp ua) d).1.pathAt sess.id ua.toText = some { ps with
        health := ps.health.noteAlive.observeSample (Float64.ofInt 0) 0
        lastArrive := now
        lastKeepalive := now } := by
  obtain ⟨hdr, plain, f, hhdr, hfirst, hget, hseen, hopen, hdecode, hflag⟩ := h.opens
  obtain ⟨st, hst, hpath⟩ := Option.bind_eq_some_iff.mp hps
  have hstate : (SessView.stateFor env ⟨sess, s.states.lookup sess.id⟩).paths.lookup ua.toText =
      some ps := by
    rw [stateFor, hst]
    exact hpath
  obtain ⟨hnone, hafter⟩ := acceptData_keepalive hseen hdecode hflag hstate now
  obtain ⟨st', hst', hpath'⟩ := Option.bind_eq_some_iff.mp hafter
  have hserver : (s.handleClientFrame env now fresh (.udp ua) d).1 =
      (s.onSession sess (acceptData env now hdr.seq (.udp ua) plain)).2.1 := by
    have hres : (s.onSession sess (acceptData env now hdr.seq (.udp ua) plain)).1 = none := hnone
    rw [handleClientFrame, hhdr]
    dsimp only
    rw [hfirst, if_neg Bool.false_ne_true, handleData, hget]
    dsimp only
    rw [hopen]
    dsimp only
    split
    next heq => rw [heq]
    next heq =>
      rw [heq] at hres
      cases hres
  rw [hserver, pathAt, lookup_states_onSession, if_pos rfl, hst', Option.some_or, Option.bind_some]
  exact hpath'

end Server

end

namespace Server

/-! ### A silent path -/

/-- The small server with a session. -/
def openedServer : Server ℚ smallCodes smallPrimitives :=
  (smallServer.step smallServerEnv
    (.datagram second (smallFresh (smallKey 2)) smallAddr honestFirst)).1

def openedKey : AEAD smallPrimitives := ((openedServer.mgr.get 5).map (·.aead)).getD smallBaseAEAD

def openedKeepalive (seq : UInt32) : Bytes :=
  smallDatagram openedKey .clientToServer
    { flags := flagKeepalive, sessionID := 5, seq := seq, payload := List.replicate 8 0 }

set_option maxRecDepth 2000

theorem keepalive_opened :
    ∃ sess, openedServer.Keepalive sess (openedKeepalive 2) ∧ sess.id = 5 := by
  have hfacts : ((openedServer.mgr.get 5).map fun sess => (sess.aead, sess.replay.seen 2)) =
      some (openedKey, false) := by with_unfolding_all decide
  obtain ⟨sess, hget, hsess⟩ := Option.map_eq_some_iff.mp hfacts
  obtain ⟨haead, hseen⟩ := Prod.mk.inj hsess
  have hname : sess.id = 5 := openedServer.mgr.named _ _ hget
  let f : Frame := { version := protocolVersion, flags := flagKeepalive, sessionID := 5, seq := 2
                     payload := List.replicate 8 0 }
  have hhdr : Frame.decodeHeader (openedKeepalive 2) = .ok { f with payload := [] } := by
    decide
  have hopen : openedKey.openFrame .clientToServer (openedKeepalive 2) =
      .ok (f.header ++ f.payload) := by with_unfolding_all decide
  have hdecode : Frame.decode (f.header ++ f.payload) = .ok f := by decide
  refine ⟨sess, ⟨_, _, f, hhdr, by decide, hget, hseen, ?_, hdecode, by decide⟩, hname⟩
  rw [haead]
  exact hopen

/-- The monitor of its path has no loss. -/
theorem keepalive_books_no_loss_small :
    ∃ ps, (openedServer.handleClientFrame smallServerEnv (2 * second) (smallFresh (smallKey 3))
        smallAddr (openedKeepalive 2)).1.pathAt 5 "192.0.2.1:40000" = some ps ∧
      ps.health.misses = 0 := by
  obtain ⟨sess, hkeepalive, hname⟩ := keepalive_opened
  have hpath : ((openedServer.pathAt 5 "192.0.2.1:40000").map fun ps =>
      ((ps.health.noteAlive.observeSample 0 0).misses : ℤ)) = some 0 := by
    with_unfolding_all decide
  obtain ⟨ps, hps, hmisses⟩ := Option.map_eq_some_iff.mp hpath
  rw [← hname] at hps ⊢
  exact ⟨_, keepalive_books_no_loss hkeepalive (2 * second) (smallFresh (smallKey 3))
    ⟨"192.0.2.1", 40000⟩ hps, hmisses⟩

/-- A keepalive one second after the handshake, and one a minute later. -/
def silentMinute : List (Event ℚ) :=
  [.datagram (2 * second) (smallFresh (smallKey 3)) smallAddr (openedKeepalive 2),
    .datagram (62 * second) (smallFresh (smallKey 3)) smallAddr (openedKeepalive 3)]

/-- **A minute of silence is not booked**: the probe interval is a second, and the monitor of the
path has neither a missed probe nor loss afterwards. -/
theorem silence_not_booked : smallServerEnv.probeInterval = second ∧
      ((exec (step smallServerEnv) openedServer silentMinute).pathAt 5 "192.0.2.1:40000").map
        (fun ps => (ps.lastKeepalive, ps.health.misses, ps.health.loss)) =
      some (62 * second, 0, 0) := by
  decide +kernel

end Server

end FlexBraid
