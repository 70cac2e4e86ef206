import FlexBraid.Fec.Decoder
import FlexBraid.Tunnel.ServerSession

/-!
# The tunnel server

The server takes in the datagrams of all clients.  A frame is authenticated before
anything else happens: the handshake under the base key, everything else under the
key of its session.  The decoder for inner data is shared by all sessions.

`Server.step` is the server as a machine: its events are the datagrams that come
in, the datagrams of the inner peer, and the turns of the tick and sweep loops.  A
loop over all sessions is one event per session, so that other events can come in
between.  A panic in the decoder stops the machine.

## Main definitions

* `Server`, `newServer` — the server.
* `Server.handleClientFrame` — one datagram from a client.
* `Server.healthTick` — one turn of the monitors.
* `Server.step` — the machine.
-/

namespace FlexBraid

/-- Sessions without authentic traffic are dropped after this time. -/
def sessionTTL : Duration := 5 * minute

/-- The largest number of sessions. -/
def maxSessions : ℕ := 1024

/-- The state of a server.  No decoder means that it panicked. -/
structure Server (F : Type) {C : Type} (RS : ReedSolomon C) (P : Primitives) where
  mgr : Manager F RS P := newManager
  states : GoMap UInt64 (SessState F) := ∅
  fecDec : Option (Decoder F C)

/-- Why a server cannot be built. -/
inductive TunnelError (F : Type) where
  | deriveKey (e : CryptoError)
  | cipher (e : CryptoError)
  | fec (e : FecConfigError F)

def TunnelError.text {F : Type} [ToString F] : TunnelError F → String
  | .deriveKey e => "derive key: " ++ e.text
  | .cipher e => "cipher: " ++ e.text
  | .fec e => e.text

/-- What a handshake takes from outside: the generated key, if any, whether the
socket for the session can be opened, and the order in which the handshake table is
searched. -/
structure Fresh where
  key : Option PrivateKey
  dialed : Bool
  order : IterOrder UInt64

section
variable {F C : Type} [Float64 F] {RS : ReedSolomon C} {P : Primitives}

variable (P) in
/-- What a server is built from, for a validated configuration. -/
def newServerEnv (codec : AnnounceCodec F) (cfg : Config F) : Except (TunnelError F) (ServerEnv F P) :=
  let psk := stringBytes cfg.crypto.key
  match deriveKey P psk with
  | .error e => .error (.deriveKey e)
  | .ok baseKey =>
    match newAEAD P baseKey cfg.crypto.cipher with
    | .error e => .error (.cipher e)
    | .ok baseAEAD =>
      match fecParamsFor cfg none with
      | .error e => .error (.fec e)
      | .ok params =>
        .ok { cfg := cfg, psk := psk, baseAEAD := baseAEAD, fecParams := params
              ann := codec.marshal { version := announceVersion, mtu := cfg.mtu, fec := cfg.fec } }

variable (RS) in
/-- A server without sessions. -/
def newServer (env : ServerEnv F P) : Server F RS P := { fecDec := some (newDecoder env.fecParams) }

namespace Server

variable (env : ServerEnv F P)

/-- Run a program on a session of the table. -/
def onSession {α : Type} (s : Server F RS P) (sess : ServerSession F RS P)
    (p : SessProg RS F P α) : α × Server F RS P × List (ServerOut P) :=
  let r := p.run ⟨sess, s.states.lookup sess.id⟩
  let v := r.2.1
  (r.1,
    { s with
      mgr := s.mgr.put v.sess
      states := match v.st with
        | none => s.states
        | some st => s.states.set sess.id st },
    r.2.2)

/-! ### Handshakes -/

/-- The session that a handshake asks for, if the key exchange succeeds; the socket
is opened on the way, and closed again on failure. -/
def createSession (now : Time) (fresh : Fresh) (id : UInt64) (payload : Bytes) :
    Option (ServerSession F RS P) × List (ServerOut P) :=
  if payload.length < 4 + publicKeySize then (none, [])
  else
    let clientPub := (payload.drop 4).take publicKeySize
    match fresh.key with
    | none => (none, [])
    | some sPriv =>
      match ecdhShared P sPriv.bytes clientPub with
      | .error _ => (none, [])
      | .ok shared =>
        if !fresh.dialed then (none, [])
        else
          match newAEAD P (derivePFSKey P env.psk shared id) env.cfg.crypto.cipher,
              newEncoder RS env.fecParams with
          | .ok aead, .ok enc =>
            (some (newServerSession now id aead enc (sPriv.pub P)), [.dialEgress id])
          | _, _ => (none, [.dialEgress id, .closeEgress id])

/-- Store a new session and accept the handshake that created it. -/
def openSession (s : Server F RS P) (now : Time) (seq : UInt32) (ua : UDPAddr) (payload : Bytes)
    (sess : ServerSession F RS P) : Server F RS P × List (ServerOut P) :=
  let s := { s with mgr := s.mgr.put sess }
  let r := s.onSession sess (acceptFirst env now seq ua payload)
  (r.2.1, .putSession sess.id :: r.2.2)

/-- A handshake for a session that does not exist: the replay check comes before
anything is created. -/
def firstOfNew (s : Server F RS P) (now : Time) (fresh : Fresh) (id : UInt64) (seq : UInt32)
    (ua : UDPAddr) (payload : Bytes) : Server F RS P × List (ServerOut P) :=
  if s.mgr.count ≥ maxSessions then (s, [])
  else
    let check := s.mgr.checkFirstReplay fresh.order now id seq
    let s := { s with mgr := check.1 }
    if !check.2 then (s, [])
    else
      match createSession env now fresh id payload with
      | (none, out) => (s, out)
      | (some sess, out) =>
        let r := s.openSession env now seq ua payload sess
        (r.1, out ++ r.2)

/-- A handshake. -/
def handleFirst (s : Server F RS P) (now : Time) (fresh : Fresh) (hdr : Frame) (addr : Addr)
    (datagram : Bytes) : Server F RS P × List (ServerOut P) :=
  match addr with
  | .other => (s, [])
  | .udp ua =>
    match env.baseAEAD.openFrame .clientToServer datagram with
    | .error _ => (s, [])
    | .ok plain =>
      match Frame.decode plain with
      | .error _ => (s, [])
      | .ok f =>
        match s.mgr.get hdr.sessionID with
        | none => s.firstOfNew env now fresh hdr.sessionID hdr.seq ua f.payload
        | some sess => (s.onSession sess (acceptFirst env now hdr.seq ua f.payload)).2

/-! ### Inner data -/

/-- Write decoded datagrams to the sockets of their sessions. -/
def forwardDecoded (s : Server F RS P) (frames : List Frame) : List (ServerOut P) :=
  frames.filterMap fun f => (s.mgr.get f.sessionID).map fun _ => .egress f.sessionID f.payload

/-- The name of a path in the decoder. -/
def pathKey : Addr → String
  | .udp ua => ua.toText
  | .other => ""

/-- Give a frame to the decoder and forward what it returns. -/
def decode (s : Server F RS P) (now : Time) (path : String) (f : Frame) :
    Server F RS P × List (ServerOut P) :=
  let r := Decoder.step RS s.fecDec (.push now path f)
  let s := { s with fecDec := r.1 }
  (s, s.forwardDecoded r.2)

/-- A frame under the key of its session. -/
def handleData (s : Server F RS P) (now : Time) (hdr : Frame) (addr : Addr) (datagram : Bytes) :
    Server F RS P × List (ServerOut P) :=
  match s.mgr.get hdr.sessionID with
  | none => (s, [])
  | some sess =>
    match sess.aead.openFrame .clientToServer datagram with
    | .error _ => (s, [])
    | .ok plain =>
      match s.onSession sess (acceptData env now hdr.seq addr plain) with
      | (none, s, out) => (s, out)
      | (some f, s, out) =>
        let r := s.decode now (pathKey addr) f
        (r.1, out ++ r.2)

/-- One datagram from a client. -/
def handleClientFrame (s : Server F RS P) (now : Time) (fresh : Fresh) (addr : Addr)
    (datagram : Bytes) : Server F RS P × List (ServerOut P) :=
  match Frame.decodeHeader datagram with
  | .error _ => (s, [])
  | .ok hdr =>
    if hdr.hasFlag flagFirst then s.handleFirst env now fresh hdr addr datagram
    else s.handleData env now hdr addr datagram

/-! ### The tick loops -/

/-- The silence watchdog: a path on which nothing arrives is dead, whatever its loss
estimate says. -/
def watchdog (ps : PathState F) (now : Time) (interval : Duration) : Monitor F :=
  let silence := now - ps.lastArrive
  if silence > 3 * interval then
    let missed := min (silence / interval - 2) 4
    ((List.range missed.toNat).foldl (fun m _ => m.noteMissedProbe now) ps.health).observeSample
      (Float64.ofInt 1) 0
  else ps.health

/-- One path in a turn of the monitors.  The accumulator holds the paths, the decoder
and the largest loss so far. -/
def healthTickPath (now : Time) (id : UInt64) (acc : SessState F × Decoder F C × F)
    (pathKey : String) : SessState F × Decoder F C × F :=
  match acc.1.paths.lookup pathKey with
  | none => acc
  | some ps =>
    let health := watchdog ps now env.probeInterval
    let (dec, lost, received) := acc.2.1.takeStreamStats id pathKey
    let health := match lossRate lost received with
      | none => health
      | some rate => health.observeInBand rate
    let (dec, rawLost, rawRecv) := dec.takePathStats id pathKey
    let health := match lossRate rawLost rawRecv with
      | none => health
      | some rate => health.observeRaw rate
    let health := health.tick now
    ({ acc.1 with
        paths := acc.1.paths.set pathKey { ps with health := health }
        sched := acc.1.sched.onState pathKey health.state health.loss },
      dec, if Float64.lt acc.2.2 health.loss then health.loss else acc.2.2)

/-- A turn of the monitors for one session, for an order of its paths. -/
def healthTick (s : Server F RS P) (now : Time) (id : UInt64) (σ : IterOrder String) :
    Server F RS P :=
  match s.states.lookup id, s.mgr.get id, s.fecDec with
  | some st, some sess, some dec =>
    let r := (σ.visit st.paths.keys).foldl (healthTickPath env now id) (st, dec, Float64.ofInt 0)
    { mgr := s.mgr.put { sess with enc := sess.enc.setLossRate now r.2.2 }
      states := s.states.set id r.1
      fecDec := some r.2.1 }
  | _, _, _ => s

/-- Drop the paths of the sessions that are gone. -/
def dropStates (s : Server F RS P) : Server F RS P :=
  { s with states := s.states.keep fun id _ => (s.mgr.get id).isSome }

/-! ### The machine -/

/-- What happens to a server. -/
inductive Event (F : Type) where
  /-- A datagram from a client. -/
  | datagram (now : Time) (fresh : Fresh) (addr : Addr) (d : Bytes)
  /-- A datagram from the inner peer, for a session. -/
  | egress (id : UInt64) (now start : Time) (draw : F) (payload : Bytes)
  /-- The encoder tick of a session. -/
  | encTick (id : UInt64) (now : Time) (draw : F)
  /-- The decoder tick. -/
  | decTick (now : Time) (σ : IterOrder BlockKey)
  /-- The monitors of a session. -/
  | healthTick (id : UInt64) (now : Time) (σ : IterOrder String)
  /-- The three parts of the sweep. -/
  | expire (now : Time)
  | expireFirsts (now : Time)
  | dropStates

/-- Run a program on the session with the given name, if there is one. -/
def onSessionOf (s : Server F RS P) (id : UInt64) (p : SessProg RS F P Unit) :
    Server F RS P × List (ServerOut P) :=
  match s.mgr.get id with
  | none => (s, [])
  | some sess => (s.onSession sess p).2

/-- One event of a server that has not panicked. -/
def stepEvent (s : Server F RS P) : Event F → Server F RS P × List (ServerOut P)
  | .datagram now fresh addr d => s.handleClientFrame env now fresh addr d
  | .egress id now start draw payload => s.onSessionOf id (egressRead env now start draw payload)
  | .encTick id now draw => s.onSessionOf id (fecTick env now draw)
  | .decTick now σ =>
    let r := Decoder.step RS s.fecDec (.tick σ now)
    let s := { s with fecDec := r.1 }
    (s, s.forwardDecoded r.2)
  | .healthTick id now σ => (s.healthTick env now id σ, [])
  | .expire now =>
    let r := s.mgr.expire now sessionTTL
    ({ s with mgr := r.1 }, r.2.map .closeEgress)
  | .expireFirsts now => ({ s with mgr := s.mgr.expireFirsts now sessionTTL }, [])
  | .dropStates => (s.dropStates, [])

/-- One event of a server; after a panic there are none. -/
def step (s : Server F RS P) (e : Event F) : Server F RS P × List (ServerOut P) :=
  if s.fecDec.isNone then (s, []) else s.stepEvent env e

end Server

end

/-! ### A small server -/

/-- What a server with the small configuration is built from. -/
def smallServerEnv : ServerEnv ℚ smallPrimitives where
  cfg := smallConfig
  psk := stringBytes "psk"
  baseAEAD := smallBaseAEAD
  fecParams := { dataShards := 0, parityShards := 0, blockTimeout := 0 }
  ann := stringBytes smallAnnounceText

example : ((newServerEnv smallPrimitives smallJson smallConfig).toOption.map fun env =>
      (env.psk, env.baseAEAD, env.fecParams, env.ann)) =
    some (smallServerEnv.psk, smallServerEnv.baseAEAD, smallServerEnv.fecParams,
      smallServerEnv.ann) := by
  decide +kernel

def smallServer : Server ℚ smallCodes smallPrimitives := newServer smallCodes smallServerEnv

/-- A client's handshake. -/
def smallFirst (id : UInt64) (seq : UInt32) (key : PrivateKey) : Frame :=
  { flags := flagFirst, sessionID := id, seq := seq
    payload := putUint32 100 ++ key.pub smallPrimitives }

/-- What a handshake takes from outside, with the given key. -/
def smallFresh (key : PrivateKey) : Fresh := ⟨some key, true, IterOrder.plain⟩

/-- Where the client's datagrams come from. -/
def smallAddr : Addr := .udp ⟨"192.0.2.1", 40000⟩

end FlexBraid
