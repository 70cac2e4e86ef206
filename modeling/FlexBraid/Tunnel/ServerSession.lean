import FlexBraid.Lib.Prog
import FlexBraid.Session
import FlexBraid.Tunnel.Config

/-!
# What the server does for one session

The server keeps for each session the paths its client uses: their addresses,
their monitors and a scheduler.  The functions of this module act on one session
and its paths.  Those that more than one goroutine runs at a time (the receive
loop, the egress reader of the session, the tick loops) are programs of atomic
actions; an action is what the code does under one lock or with one atomic
operation.  The lock that keeps the frames of a batch together on the wire
(`sendMu`) is left out: the interleavings of the model include those it forbids.

The clock readings and the random draw of a call are arguments of the call.

## Main definitions

* `ServerEnv` — what the server is built from and never changes.
* `SessState`, `PathState` — the paths of a session.
* `SessView` — a session with its paths.
* `SessView.registerPath`, `SessView.observeKeepalive` — the bookkeeping of a path.
* `Server.sendToSession`, `Server.sendPong`, `Server.sendAck`, `Server.egressRead`,
  `Server.fecTick` — the senders.
* `Server.acceptFirst`, `Server.acceptData` — what an authentic frame does.
-/

namespace FlexBraid

def maxPathsPerSession : ℕ := 16

/-- What a server is built from. -/
structure ServerEnv (F : Type) (P : Primitives) where
  cfg : Config F
  psk : Bytes
  baseAEAD : AEAD P
  fecParams : Params F
  /-- The announce that every acknowledgement carries. -/
  ann : Bytes

/-- One path of a client, as the server sees it. -/
structure PathState (F : Type) where
  addr : UDPAddr
  capacity : F
  health : Monitor F
  /-- When the last frame of any kind came in; 0 for never. -/
  lastArrive : Time := 0
  /-- When the last keepalive came in; 0 for never. -/
  lastKeepalive : Time := 0
  /-- The counter of the pass-through frames sent on the path. -/
  pathSeq : UInt32 := 0

/-- The paths of a session. -/
structure SessState (F : Type) where
  sched : Scheduler F
  paths : GoMap String (PathState F) := ∅
  /-- The address heard last. -/
  lastSeen : Option UDPAddr := none

/-- A session with its paths; they are created on first use. -/
structure SessView (F : Type) {C : Type} (RS : ReedSolomon C) (P : Primitives) where
  sess : ServerSession F RS P
  st : Option (SessState F)

/-- What a server emits: a record of each sealed frame, datagrams to clients and to
the inner peer, and what happens to the socket and the table entry of a session. -/
inductive ServerOut (P : Primitives) where
  | sealed (id : UInt64) (aead : AEAD P) (plain : Bytes)
  | send (addr : UDPAddr) (datagram : Bytes)
  | egress (id : UInt64) (payload : Bytes)
  | dialEgress (id : UInt64)
  | closeEgress (id : UInt64)
  | putSession (id : UInt64)
deriving DecidableEq

section
variable {F C : Type} [Float64 F] {RS : ReedSolomon C} {P : Primitives}

/-- The paths of a session that has none yet. -/
def ServerEnv.newState (env : ServerEnv F P) : SessState F where
  sched := Scheduler.new
    { mode := env.cfg.scheduler.mode, affinity := .packet, balanceBy := env.cfg.scheduler.balanceBy }

/-- The probe period, in whole seconds. -/
def ServerEnv.probeInterval (env : ServerEnv F P) : Duration :=
  positiveOr (Float64.trunc env.cfg.health.probeInterval * second) defaultProbeInterval

/-- The scheduling weight of a declared capacity. -/
def ServerEnv.effectiveCapacityFor (env : ServerEnv F P) (capMbps : F) : F :=
  effectiveCapacity
    { id := "", capacityMbps := Float64.trunc capMbps, weight := Float64.ofInt 0 }
    env.fecParams env.cfg.scheduler.balanceBy

def ServerEnv.newPath (env : ServerEnv F P) (now : Time) (ua : UDPAddr) : PathState F where
  addr := ua
  capacity := Float64.ofInt 1
  health := newMonitor (healthOptions env.cfg.health (monitorMaxLoss env.fecParams))
  lastArrive := now

/-- The capacity that a handshake declares, within the configured limit. -/
def ServerEnv.declaredCapacity (env : ServerEnv F P) (payload : Bytes) : F :=
  let capMbps : F := Float64.ofInt (uint32 payload).toNat
  let cap := env.cfg.scheduler.capacityCapMbps
  if Float64.lt (Float64.ofInt 0) cap && Float64.lt cap capMbps then cap else capMbps

namespace SessView

variable (env : ServerEnv F P)

/-- The paths of the session, created if needed. -/
def stateFor (v : SessView F RS P) : SessState F := v.st.getD env.newState

/-- Take over the capacity a handshake declares, if it changed. -/
def declare (st : SessState F) (pathKey : String) (ps : PathState F) (payload : Bytes) :
    SessState F :=
  let capMbps := env.declaredCapacity payload
  if Float64.lt capMbps ps.capacity || Float64.lt ps.capacity capMbps then
    { st with
      paths := st.paths.set pathKey { ps with capacity := capMbps }
      sched := st.sched.addPath pathKey (env.effectiveCapacityFor capMbps) }
  else st

/-- Create or refresh one of the client's paths; the payload of a handshake carries
the declared capacity, other frames pass none. -/
def registerPath (v : SessView F RS P) (now : Time) (ua : UDPAddr) (payload : Bytes) :
    SessView F RS P :=
  let pathKey := ua.toText
  let st := { v.stateFor env with lastSeen := some ua }
  match st.paths.lookup pathKey with
  | none =>
    -- the path cap: only known paths are served
    if st.paths.size ≥ maxPathsPerSession then { v with st := some st }
    else
      let ps := env.newPath now ua
      let st := { st with
        paths := st.paths.set pathKey ps
        sched := st.sched.addPath pathKey (Float64.ofInt 1) }
      finish v pathKey ua ps st payload
  | some ps =>
    let ps := { ps with lastArrive := now }
    finish v pathKey ua ps { st with paths := st.paths.set pathKey ps } payload
where
  /-- The end of `registerPath`: the declared capacity and the return address. -/
  finish (v : SessView F RS P) (pathKey : String) (ua : UDPAddr) (ps : PathState F)
      (st : SessState F) (payload : Bytes) : SessView F RS P :=
    { st := some (if payload.length ≥ 4 then declare env st pathKey ps payload else st)
      sess := { v.sess with endpoints := v.sess.endpoints.set pathKey ua } }

/-- The monitor of a path after a keepalive: a gap counts as loss only if nothing
else came in either.  A stored time is never the zero time, so the first keepalive is
measured against the epoch. -/
def keepaliveHealth (ps : PathState F) (now : Time) (interval : Duration) : Monitor F :=
  let health := ps.health.noteAlive
  let gap := now - ps.lastKeepalive
  if gap > 2 * interval && now - ps.lastArrive > 2 * interval then
    let missed := min (gap / interval - 1) 8
    ((List.range missed.toNat).foldl (fun m _ => m.noteMissedProbe now) health).observeSample
      (Float64.ofInt 1) 0
  else health.observeSample (Float64.ofInt 0) 0

/-- Feed the monitor of a path from a keepalive. -/
def observeKeepalive (v : SessView F RS P) (now : Time) (pathKey : String) : SessView F RS P :=
  let st := v.stateFor env
  match st.paths.lookup pathKey with
  | none => { v with st := some st }
  | some ps =>
    let ps := { ps with
      health := keepaliveHealth ps now env.probeInterval
      lastKeepalive := now }
    { v with st := some { st with paths := st.paths.set pathKey ps } }

/-- The address for the next block: that of the path the scheduler picks, or the one
heard last. -/
def pickPath (v : SessView F RS P) (draw : F) : Option UDPAddr × SessView F RS P :=
  let st := v.stateFor env
  let r := st.sched.pick [] draw
  let addr := match r.2.bind st.paths.lookup with
    | some ps => some ps.addr
    | none => st.lastSeen
  (addr, { v with st := some { st with sched := r.1 } })

/-- The address for the next frame of a cross-path block. -/
def pickCrossPath (v : SessView F RS P) : Option UDPAddr × SessView F RS P :=
  let st := v.stateFor env
  let r := st.sched.pickWRR
  ((r.2.bind st.paths.lookup).map PathState.addr, { v with st := some { st with sched := r.1 } })

/-- Stamp a pass-through frame with the counter of its path. -/
def stampPathSeq (v : SessView F RS P) (addr : UDPAddr) (f : Frame) :
    Frame × SessView F RS P :=
  let st := v.stateFor env
  match st.paths.lookup addr.toText with
  | none => (f, { v with st := some st })
  | some ps =>
    let paths := st.paths.set addr.toText { ps with pathSeq := ps.pathSeq + 1 }
    ({ f with blockSeq := ps.pathSeq }, { v with st := some { st with paths := paths } })

end SessView

variable (RS) in
/-- A program on one session. -/
abbrev SessProg (F : Type) (P : Primitives) (α : Type) := Prog (SessView F RS P) (ServerOut P) α

namespace Server

/-! ### The senders -/

/-- The next sequence number of the session. -/
def nextSeq : SessProg RS F P UInt32 :=
  Prog.atomic fun v =>
    (wireSeq (v.sess.seq + 1), { v with sess := { v.sess with seq := v.sess.seq + 1 } }, [])

/-- Seal a frame and send it to an address. -/
def sendToAddrKey (addr : UDPAddr) (f : Frame) (aead : AEAD P) : SessProg RS F P Unit :=
  match f.encode with
  | .error _ => pure ()
  | .ok plain =>
    match aead.sealFrame .serverToClient plain with
    | .error _ => pure ()
    | .ok datagram =>
      Prog.atomic fun v => ((), v, [.sealed v.sess.id aead plain, .send addr datagram])

/-- Seal a frame with the session key and send it to an address. -/
def sendToAddr (addr : UDPAddr) (f : Frame) : SessProg RS F P Unit := do
  let aead ← Prog.read (·.sess.aead)
  sendToAddrKey addr f aead

variable (env : ServerEnv F P)

/-- Answer a keepalive on its path, with the same payload. -/
def sendPong (ua : UDPAddr) (ts : Bytes) : SessProg RS F P Unit := do
  let id ← Prog.read (·.sess.id)
  let seq ← nextSeq
  sendToAddr ua { flags := flagPong, sessionID := id, seq := seq, payload := ts }

/-- Answer a handshake on its path: the server's public key and the announce, under
the base key. -/
def sendAck (ua : UDPAddr) : SessProg RS F P Unit := do
  let sess ← Prog.read (·.sess)
  let seq ← nextSeq
  sendToAddrKey ua
    { flags := flagControl ||| flagKex, sessionID := sess.id, seq := seq
      payload := sess.serverPub ++ env.ann } env.baseAEAD

/-- A parity frame gets its number when it is sent; a data frame has had its own since
before it was coded. -/
def numberParity (f : Frame) : SessProg RS F P Frame :=
  if f.hasFlag flagFECParity then do
    let seq ← nextSeq
    pure { f with seq := seq }
  else pure f

/-- The address of the next frame of a batch. -/
def addrFor (oneAddr : Option UDPAddr) : SessProg RS F P (Option UDPAddr) :=
  if env.fecParams.crossPath then
    Prog.atomic fun v => ((v.pickCrossPath env).1, (v.pickCrossPath env).2, [])
  else pure oneAddr

/-- A pass-through frame gets the counter of its path. -/
def stampPass (addr : UDPAddr) (f : Frame) : SessProg RS F P Frame :=
  if f.hasFlag flagPassSeq then
    Prog.atomic fun v => ((v.stampPathSeq env addr f).1, (v.stampPathSeq env addr f).2, [])
  else pure f

def sendFrame (oneAddr : Option UDPAddr) (f : Frame) : SessProg RS F P Unit := do
  let f ← numberParity f
  let addr ← addrFor env oneAddr
  match addr with
  | none => pure ()
  | some addr => do
    let f ← stampPass env addr f
    sendToAddr addr f

/-- Send a batch: on one path, or in cross-path mode each frame on the next one. -/
def sendToSession (draw : F) (frames : List Frame) : SessProg RS F P Unit :=
  if frames = [] then pure ()
  else if env.fecParams.crossPath then frames.forM (sendFrame env none)
  else do
    let addr ← Prog.atomic fun v => ((v.pickPath env draw).1, (v.pickPath env draw).2, [])
    match addr with
    | none => pure ()
    | some addr => frames.forM (sendFrame env (some addr))

/-- Give a frame to the encoder. -/
def encPush (now start : Time) (f : Frame) : SessProg RS F P (List Frame) :=
  Prog.atomic fun v =>
    ((v.sess.enc.push now start f).2,
      { v with sess := { v.sess with enc := (v.sess.enc.push now start f).1 } }, [])

/-- Relay a datagram of the inner peer: number it, code it, send what comes out. -/
def egressRead (now start : Time) (draw : F) (payload : Bytes) : SessProg RS F P Unit :=
  if (payload.length : ℤ) > env.cfg.mtu then pure ()
  else do
    let id ← Prog.read (·.sess.id)
    let seq ← nextSeq
    let frames ← encPush now start { sessionID := id, seq := seq, payload := payload }
    sendToSession env draw frames

/-- Flush the block being filled if its time is over. -/
def fecTick (now : Time) (draw : F) : SessProg RS F P Unit := do
  let frames ← Prog.atomic fun v =>
    ((v.sess.enc.tick now).2, { v with sess := { v.sess with enc := (v.sess.enc.tick now).1 } }, [])
  sendToSession env draw frames

/-- Give the encoder the loss of the session's worst path. -/
def setLossRate (now : Time) (rate : F) : SessProg RS F P Unit :=
  Prog.modify fun v => { v with sess := { v.sess with enc := v.sess.enc.setLossRate now rate } }

/-! ### Authentic frames -/

/-- Check and mark the number of a frame. -/
def checkReplay (seq : UInt32) : SessProg RS F P Bool :=
  Prog.atomic fun v =>
    ((v.sess.replay.checkAndMark seq).2,
      { v with sess := { v.sess with replay := (v.sess.replay.checkAndMark seq).1 } }, [])

/-- Record that an authentic frame came in. -/
def touch (now : Time) : SessProg RS F P Unit :=
  Prog.modify fun v => { v with sess := { v.sess with lastSeen := now } }

/-- The end of a handshake, for a session that exists. -/
def acceptFirst (now : Time) (seq : UInt32) (ua : UDPAddr) (payload : Bytes) :
    SessProg RS F P Unit := do
  if ← checkReplay seq then
    touch now
    Prog.modify fun v => v.registerPath env now ua payload
    sendAck env ua

/-- Keep the path of a frame fresh. -/
def refreshPath (now : Time) : Addr → SessProg RS F P Unit
  | .other => pure ()
  | .udp ua => Prog.modify fun v => v.registerPath env now ua []

/-- Answer a keepalive; a frame with inner data is for the decoder. -/
def route (now : Time) (addr : Addr) (f : Frame) : SessProg RS F P (Option Frame) :=
  if f.hasFlag flagKeepalive then
    match addr with
    | .other => pure none
    | .udp ua => do
      Prog.modify fun v => v.observeKeepalive env now ua.toText
      sendPong ua f.payload
      pure none
  else if f.payload.length = 0 then pure none
  else pure (some f)

/-- A frame that the session key opened: the frame for the decoder, if it carries
inner data. -/
def acceptData (now : Time) (seq : UInt32) (addr : Addr) (plain : Bytes) :
    SessProg RS F P (Option Frame) := do
  if ← checkReplay seq then
    match Frame.decode plain with
    | .error _ => pure none
    | .ok f => do
      touch now
      refreshPath env now addr
      route env now addr f
  else pure none

end Server

end

end FlexBraid
