import FlexBraid.Fec.Decoder
import FlexBraid.Lib.Prog
import FlexBraid.Session
import FlexBraid.Tunnel.Config
import FlexBraid.Tunnel.Delivery

/-!
# The tunnel client

The client relays the inner traffic over its WANs.  One goroutine reads the inner
socket; every WAN has one that sends handshakes, one that probes and one that
receives; two more turn the codecs and the monitors.  Each of their turns is a
program of atomic actions: what the code does under one lock or with one atomic
operation.  The lock that keeps a batch together on its WAN (`sendMu`) is left out:
the interleavings of the model include those it forbids.

A codec slot holds a pointer.  Slots are replaced as a whole, and a goroutine may go
on with the codec it took from a slot before, so the codecs live in two lists and a
slot is an index into them, or nothing for a nil pointer.  A call on a nil pointer
panics, like a decoder that slices out of range, and a panic ends the client.

Clock readings, the random draw and the order in which maps are searched are
arguments of a turn.

## Main definitions

* `ClientEnv`, `newClientEnv` — what a client is built from and never changes.
* `Client`, `newClient` — the client.
* `Client.handshake`, `Client.keepaliveTick`, `Client.ingress`, `Client.recv`,
  `Client.fecTick`, `Client.healthTick` — the turns of its goroutines.
* `Client.handleKexAck`, `Client.applyAnnounce` — the end of the key exchange.
* `Client.step` — the client as a pool of goroutines.
-/

namespace FlexBraid

/-- How many WANs a client may have. -/
def maxWANs : ℕ := 16

structure WanLink (F : Type) where
  cfg : WanConfig F
  /-- The slot of the encoder. -/
  enc : Option ℕ
  /-- The slot of the decoder. -/
  dec : Option ℕ
  health : Monitor F
  /-- The counter of the pass-through frames sent. -/
  pathSeq : UInt32 := 0
  /-- When the last valid frame came in; 0 for never. -/
  lastRx : Time := 0
  /-- Whether the last probe is unanswered. -/
  probeOut : Bool := false
  /-- The round trip of the last answered probe. -/
  probeRTT : Duration := 0

/-- What a client is built from. -/
structure ClientEnv (F : Type) (P : Primitives) where
  cfg : Config F
  psk : Bytes
  baseAEAD : AEAD P
  /-- The client's ephemeral private key. -/
  clientPriv : PrivateKey
  json : AnnounceCodec F

structure Client (F : Type) {C : Type} (RS : ReedSolomon C) (P : Primitives) where
  sess : ClientSession
  wans : List (WanLink F)
  sched : Scheduler F
  delivery : DeliveryBuffer
  /-- The session key, once it is published. -/
  sessAEAD : Option (AEAD P) := none
  crossPath : Bool := false
  /-- The slots of the codecs that all WANs share in cross-path mode. -/
  xenc : Option ℕ := none
  xdec : Option ℕ := none
  /-- The largest inner datagram. -/
  mtu : ℤ
  /-- The coding section that the server announced. -/
  adoptedFEC : Option (FecConfig F) := none
  encs : List (Encoder F RS) := []
  decs : List (Decoder F C) := []
  crashed : Bool := false

/-- What a client emits: a record of each sealed frame, of what an encoder returns and
of the calls of the delivery buffer; datagrams to the server, and frames whose
payloads go to the inner peer. -/
inductive ClientOut (P : Primitives) where
  | sealed (aead : AEAD P) (plain : Bytes)
  | send (wan : ℕ) (datagram : Bytes)
  | coded (enc : ℕ) (frames : List Frame)
  | pushed (given returned : List Frame)
  | skipped (returned : List Frame)
  | write (addr : UDPAddr) (f : Frame)
deriving DecidableEq

/-- Why a client cannot be built. -/
inductive ClientError (F : Type) where
  | noWAN
  | tooManyWANs (n : ℕ)
  | deriveKey (e : CryptoError)
  | cipher (e : CryptoError)
  | fec (e : FecConfigError F)
  | crossEncoder (e : FecError)
  | wanEncoder (wan : String) (e : FecError)

def ClientError.text {F : Type} [ToString F] : ClientError F → String
  | .noWAN => "client requires at least one WAN"
  | .tooManyWANs n => "too many WANs: " ++ toString n ++ " (max " ++ toString maxWANs ++ ")"
  | .deriveKey e => "derive key: " ++ e.text
  | .cipher e => "cipher: " ++ e.text
  | .fec e => e.text
  | .crossEncoder e => "cross-path fec encoder: " ++ e.text
  | .wanEncoder wan e => "wan " ++ wan ++ " fec encoder: " ++ e.text

/-- Why a client rejects an announce. -/
inductive AnnounceError (F : Type) where
  | missing
  | malformed
  | version (v : ℤ)
  | fec (e : FecConfigError F)
  | adoptCrossPath (e : FecError)
  | adopt (wan : String) (e : FecError)

/-- The text of an announce error; that of the JSON library is appended to the second. -/
def AnnounceError.text {F : Type} [ToString F] : AnnounceError F → String
  | .missing => "server sent no parameters block (server too old?)"
  | .malformed => "malformed server parameters: "
  | .version v =>
      "unsupported server parameters version " ++ toString v ++ " (this client speaks v" ++
        toString announceVersion ++ ")"
  | .fec e => "server FEC parameters invalid: " ++ e.text
  | .adoptCrossPath e => "adopt server cross-path FEC: " ++ e.text
  | .adopt wan e => "adopt server FEC for " ++ wan ++ ": " ++ e.text

section
variable {F C : Type} [Float64 F] {RS : ReedSolomon C} {P : Primitives}

/-! ### Construction -/

variable (P) in
/-- What a client is built from, for a validated configuration and a generated key. -/
def newClientEnv (json : AnnounceCodec F) (cfg : Config F) (clientPriv : PrivateKey) :
    Except (ClientError F) (ClientEnv F P) :=
  if cfg.wans.length = 0 then .error .noWAN
  else if cfg.wans.length > maxWANs then .error (.tooManyWANs cfg.wans.length)
  else
    let psk := stringBytes cfg.crypto.key
    match deriveKey P psk with
    | .error e => .error (.deriveKey e)
    | .ok baseKey =>
      match newAEAD P baseKey cfg.crypto.cipher with
      | .error e => .error (.cipher e)
      | .ok baseAEAD =>
        .ok { cfg := cfg, psk := psk, baseAEAD := baseAEAD, clientPriv := clientPriv, json := json }

def ClientEnv.probeInterval (env : ClientEnv F P) : Duration :=
  positiveOr (Float64.trunc (env.cfg.health.probeInterval * Float64.ofInt second))
    defaultProbeInterval

namespace Client

/-- A client with the given name before its WANs are set up. -/
def blank (env : ClientEnv F P) (id : UInt64) : Client F RS P where
  sess := newClientWithID id
  wans := []
  sched := Scheduler.new
    { mode := env.cfg.scheduler.mode, affinity := env.cfg.scheduler.affinity
      balanceBy := env.cfg.scheduler.balanceBy }
  delivery := newDeliveryBuffer (env.cfg.delivery.gapTimeoutMS * millisecond)
    env.cfg.delivery.maxPending
  mtu := env.cfg.mtu

/-- Put new codecs on the lists. -/
def addCodecs (c : Client F RS P) (enc : Encoder F RS) (p : Params F) : Client F RS P :=
  { c with encs := c.encs ++ [enc], decs := c.decs ++ [newDecoder p] }

/-- The codecs that all WANs share in cross-path mode. -/
def setUpCross (env : ClientEnv F P) (c : Client F RS P) : Except (ClientError F) (Client F RS P) :=
  if env.cfg.fec.mode = .crosspath then
    match fecParamsFor env.cfg env.cfg.wans.head? with
    | .error e => .error (.fec e)
    | .ok p =>
      match newEncoder RS p with
      | .error e => .error (.crossEncoder e)
      | .ok enc =>
        .ok { c.addCodecs enc p with
              crossPath := true, xenc := some c.encs.length, xdec := some c.decs.length }
  else .ok c

/-- Set up one WAN. -/
def addWan (env : ClientEnv F P) (c : Client F RS P) (wcfg : WanConfig F) :
    Except (ClientError F) (Client F RS P) :=
  match fecParamsFor env.cfg (some wcfg) with
  | .error e => .error (.fec e)
  | .ok p =>
    let link (enc dec : Option ℕ) : WanLink F :=
      { cfg := wcfg, enc := enc, dec := dec
        health := newMonitor (healthOptions env.cfg.health (fecCompensableLoss p)) }
    let sched := c.sched.addPath wcfg.id (effectiveCapacity wcfg p env.cfg.scheduler.balanceBy)
    if c.crossPath then .ok { c with wans := c.wans ++ [link c.xenc c.xdec], sched := sched }
    else
      match newEncoder RS p with
      | .error e => .error (.wanEncoder wcfg.id e)
      | .ok enc =>
        .ok { c.addCodecs enc p with
              wans := c.wans ++ [link (some c.encs.length) (some c.decs.length)], sched := sched }

end Client

variable (RS) in
/-- A client with the given name. -/
def newClient (env : ClientEnv F P) (id : UInt64) : Except (ClientError F) (Client F RS P) :=
  (Client.setUpCross env (Client.blank env id)).bind fun c =>
    env.cfg.wans.foldlM (Client.addWan env) c

/-- A new client depends on the configuration alone. -/
theorem newClient_of_cfg (env env' : ClientEnv F P) (h : env.cfg = env'.cfg) (id : UInt64) :
    newClient RS env id = newClient RS env' id := by
  cases env
  cases env'
  cases h
  rfl

variable (RS) in
/-- A program of a client. -/
abbrev CliProg (F : Type) (P : Primitives) (α : Type) := Prog (Client F RS P) (ClientOut P) α

namespace Client

/-! ### The announce -/

variable (env : ClientEnv F P)

/-- Adopt the announced parameters in cross-path mode: one codec for all WANs. -/
def adoptCross (c : Client F RS P) (p : Params F) :
    Except (AnnounceError F) Unit × Client F RS P :=
  match newEncoder RS p with
  | .error e => (.error (.adoptCrossPath e), { c with xenc := none })
  | .ok enc =>
    let xenc := some c.encs.length
    let xdec := some c.decs.length
    (.ok (),
      { c.addCodecs enc p with
        xenc := xenc, xdec := xdec
        wans := c.wans.map fun w => { w with enc := xenc, dec := xdec } })

/-- Adopt the announced parameters for one WAN; its own redundancy ceiling stays. -/
def adoptWan (tmp : Config F) (c : Client F RS P) (i : ℕ) :
    Except (AnnounceError F) Unit × Client F RS P :=
  match fecParamsFor tmp (env.cfg.wans[i]?) with
  | .error e => (.error (.fec e), c)
  | .ok p =>
    match newEncoder RS p with
    | .error e =>
      (.error (.adopt (((env.cfg.wans[i]?).map WanConfig.id).getD "") e),
        { c with wans := c.wans.modify i fun w => { w with enc := none } })
    | .ok enc =>
      (.ok (),
        { c.addCodecs enc p with
          wans := c.wans.modify i fun w =>
            { w with enc := some c.encs.length, dec := some c.decs.length } })

/-- Adopt the announced parameters for the WANs in turn, up to the first error. -/
def adoptWans (tmp : Config F) : Client F RS P → List ℕ → Except (AnnounceError F) Unit × Client F RS P
  | c, [] => (.ok (), c)
  | c, i :: is =>
    match c.adoptWan env tmp i with
    | (.error e, c) => (.error e, c)
    | (.ok _, c) => c.adoptWans tmp is

/-- The announced coding section with the default ceiling filled in. -/
def normalize (f : FecConfig F) : FecConfig F :=
  if f.enabled && Float64.le f.maxLossPct (Float64.ofInt 0) &&
      Float64.le (Float64.ofInt 0) f.maxLossPct then
    { f with maxLossPct := Float64.ofInt defaultMaxLossPct }
  else f

/-- Rebuild the codecs for an announce.  The mode is taken over first, and codecs
replaced before an error stay replaced. -/
def adoptCodecs (c : Client F RS P) (ann : ServerAnnounce F) :
    Except (AnnounceError F) Unit × Client F RS P :=
  let annFEC := normalize ann.fec
  let tmp := { env.cfg with fec := annFEC, mtu := ann.mtu }
  let c := { c with crossPath := annFEC.mode = .crosspath }
  if c.crossPath then
    match fecParamsFor tmp none with
    | .error e => (.error (.fec e), c)
    | .ok p => c.adoptCross p
  else c.adoptWans env tmp (List.range c.wans.length)

/-- Adopt the server's coding parameters and MTU. -/
def applyAnnounce (c : Client F RS P) (data : Bytes) :
    Except (AnnounceError F) Unit × Client F RS P :=
  if data.length = 0 then (.error .missing, c)
  else
    match env.json.unmarshal data with
    | none => (.error .malformed, c)
    | some ann =>
      if ann.version ≠ announceVersion then (.error (.version ann.version), c)
      else
        match c.adoptCodecs env ann with
        | (.error e, c) => (.error e, c)
        | (.ok _, c) => (.ok (), { c with mtu := ann.mtu, adoptedFEC := some (normalize ann.fec) })

/-! ### The senders -/

/-- A panic. -/
def panic : CliProg RS F P Unit := Prog.modify fun c => { c with crashed := true }

def updateWan (i : ℕ) (f : WanLink F → WanLink F) : CliProg RS F P Unit :=
  Prog.modify fun c => { c with wans := c.wans.modify i f }

/-- The next sequence number of the session. -/
def nextSeq : CliProg RS F P UInt32 :=
  Prog.atomic fun c =>
    (wireSeq (c.sess.seq + 1), { c with sess := { c.sess with seq := c.sess.seq + 1 } }, [])

/-- The session key, if it is published. -/
def getSessionAEAD : CliProg RS F P (Option (AEAD P)) := Prog.read (·.sessAEAD)

/-- Publish the session key, once. -/
def setSessionAEAD (aead : AEAD P) : CliProg RS F P Unit :=
  Prog.modify fun c => if c.sessAEAD.isSome then c else { c with sessAEAD := some aead }

/-- Call an encoder. -/
def useEnc (slot : Option ℕ) (call : Encoder F RS → Encoder F RS × List Frame) :
    CliProg RS F P (List Frame) :=
  Prog.atomic fun c =>
    match slot.bind fun i => (c.encs[i]?).map fun e => (i, e) with
    | none => ([], { c with crashed := true }, [])
    | some (i, e) =>
      ((call e).2, { c with encs := c.encs.set i (call e).1 }, [.coded i (call e).2])

/-- Call a decoder. -/
def useDec (slot : Option ℕ) (call : Decoder.Call) : CliProg RS F P (List Frame) :=
  Prog.atomic fun c =>
    match slot.bind fun i => (c.decs[i]?).map fun d => (i, Decoder.step RS (some d) call) with
    | some (i, some d, frames) => (frames, { c with decs := c.decs.set i d }, [])
    | _ => ([], { c with crashed := true }, [])

/-- A pass-through frame gets the counter of its WAN. -/
def stampPass (i : ℕ) (f : Frame) : CliProg RS F P Frame :=
  if f.hasFlag flagPassSeq then
    Prog.atomic fun c =>
      (((c.wans[i]?).map fun w => { f with blockSeq := w.pathSeq }).getD f,
        { c with wans := c.wans.modify i fun w => { w with pathSeq := w.pathSeq + 1 } }, [])
  else pure f

/-- Seal a frame and hand it to a WAN. -/
def transmit (i : ℕ) (f : Frame) (aead : AEAD P) : CliProg RS F P Unit :=
  match f.encode with
  | .error _ => pure ()
  | .ok plain =>
    match aead.sealFrame .clientToServer plain with
    | .error _ => pure ()
    | .ok datagram => Prog.atomic fun c => ((), c, [.sealed aead plain, .send i datagram])

/-- Send a frame on a WAN. -/
def sendLocked (i : ℕ) (f : Frame) (aead : AEAD P) : CliProg RS F P Unit := do
  let f ← stampPass i f
  transmit i f aead

/-- A parity frame gets its number when it is sent. -/
def numberParity (f : Frame) : CliProg RS F P Frame :=
  if f.hasFlag flagFECParity then do
    let seq ← nextSeq
    pure { f with seq := seq }
  else pure f

/-- Send one frame of a batch on its WAN. -/
def sendFrame (i : ℕ) (aead : AEAD P) (f : Frame) : CliProg RS F P Unit := do
  let f ← numberParity f
  sendLocked i f aead

/-- Send a batch on its WAN. -/
def sendEncoded (i : ℕ) (frames : List Frame) : CliProg RS F P Unit := do
  let aead ← getSessionAEAD
  match aead with
  | none => pure ()
  | some aead => frames.forM (sendFrame i aead)

/-- Do something with the WAN of the given name; the scheduler knows no others. -/
def onWan (id : String) (p : ℕ → CliProg RS F P Unit) : CliProg RS F P Unit := do
  let i ← Prog.read fun c => c.wans.findIdx? fun w => w.cfg.id = id
  match i with
  | none => panic
  | some i => p i

/-- Send one frame of a cross-path block on the next WAN. -/
def sendCrossFrame (aead : AEAD P) (f : Frame) : CliProg RS F P Unit := do
  let f ← numberParity f
  let id ← Prog.atomic fun c => (c.sched.pickWRR.2, { c with sched := c.sched.pickWRR.1 }, [])
  match id with
  | none => pure ()
  | some id => onWan id fun i => sendLocked i f aead

/-- Spread a cross-path block over the WANs. -/
def sendCrossEncoded (frames : List Frame) : CliProg RS F P Unit := do
  let aead ← getSessionAEAD
  match aead with
  | none => pure ()
  | some aead => frames.forM (sendCrossFrame aead)

/-- One handshake on a WAN: its capacity and the client's public key, under the base
key. -/
def handshake (i : ℕ) : CliProg RS F P Unit := do
  let c ← Prog.read fun c => (c.sess.id, ((c.wans[i]?).map fun w => w.cfg.capacityMbps).getD 0)
  let seq ← nextSeq
  sendLocked i
    { flags := flagFirst, sessionID := c.1, seq := seq
      payload := putUint32 (UInt32.ofInt c.2) ++ env.clientPriv.pub P } env.baseAEAD

/-- One probe on a WAN; none before the key exchange is done. -/
def keepaliveSend (i : ℕ) (now : Time) : CliProg RS F P Unit := do
  let aead ← getSessionAEAD
  match aead with
  | none => pure ()
  | some aead => do
    let id ← Prog.read (·.sess.id)
    let seq ← nextSeq
    sendLocked i
      { flags := flagKeepalive, sessionID := id, seq := seq
        payload := putUint64 (UInt64.ofInt (now / millisecond)) } aead
    updateWan i fun w => { w with probeOut := true }

/-- Change the monitor of a WAN. -/
def updateHealth (i : ℕ) (f : Monitor F → Monitor F) : CliProg RS F P Unit :=
  updateWan i fun w => { w with health := f w.health }

/-- Book an unanswered probe: it is lost only if nothing else came in. -/
def bookSilence (i : ℕ) (now : Time) : CliProg RS F P Unit := do
  let lastRx ← Prog.read fun c => ((c.wans[i]?).map WanLink.lastRx).getD 0
  if now - lastRx > 2 * env.probeInterval then do
    updateHealth i fun m => m.noteMissedProbe now
    updateHealth i fun m => m.observeSample (Float64.ofInt 1) 0
  else updateHealth i fun m => m.observeSample (Float64.ofInt 0) 0

def bookProbe (i : ℕ) (now : Time) : CliProg RS F P Unit := do
  let probe ← Prog.read fun c => ((c.wans[i]?).map fun w => (w.probeOut, w.probeRTT)).getD (false, 0)
  if probe.1 then bookSilence env i now
  else updateHealth i fun m => m.observeSample (Float64.ofInt 0) probe.2

/-- A turn of the probes of a WAN. -/
def keepaliveTick (i : ℕ) (now : Time) : CliProg RS F P Unit := do
  bookProbe env i now
  keepaliveSend i now

/-- Code a datagram for all WANs, or for the one the scheduler picks. -/
def encode (now start : Time) (draw : F) (f : Frame) : CliProg RS F P Unit := do
  let cross ← Prog.read fun c => (c.crossPath, c.xenc)
  if cross.1 then do
    let frames ← useEnc cross.2 fun e => e.push now start f
    if frames = [] then pure () else sendCrossEncoded frames
  else do
    let id ← Prog.atomic fun c =>
      ((c.sched.pick f.payload draw).2, { c with sched := (c.sched.pick f.payload draw).1 }, [])
    match id with
    | none => pure ()
    | some id => onWan id fun i => do
      let slot ← Prog.read fun c => (c.wans[i]?).bind WanLink.enc
      let frames ← useEnc slot fun e => e.push now start f
      sendEncoded i frames

/-- Number a datagram of the inner peer and code it; before the key exchange is done it
is dropped. -/
def relay (now start : Time) (draw : F) (payload : Bytes) : CliProg RS F P Unit := do
  let aead ← getSessionAEAD
  match aead with
  | none => pure ()
  | some _ => do
    let id ← Prog.read (·.sess.id)
    let seq ← nextSeq
    encode now start draw { sessionID := id, seq := seq, payload := payload }

/-- Adopt the latest address of the inner peer. -/
def roam (addr : UDPAddr) : CliProg RS F P Unit := do
  let prev ← Prog.read (·.sess.wgAddr)
  if prev.map UDPAddr.toText = some addr.toText then pure ()
  else Prog.modify fun c => { c with sess := { c.sess with wgAddr := some addr } }

/-- A datagram from the inner peer. -/
def ingress (now start : Time) (addr : UDPAddr) (draw : F) (payload : Bytes) :
    CliProg RS F P Unit := do
  roam addr
  let mtu ← Prog.read (·.mtu)
  if (payload.length : ℤ) > mtu then pure () else relay now start draw payload

/-! ### The receivers -/

/-- Write decoded datagrams to the inner peer, if it is known. -/
def deliverToWG (frames : List Frame) : CliProg RS F P Unit := do
  let addr ← Prog.read (·.sess.wgAddr)
  match addr with
  | none => pure ()
  | some addr => frames.forM fun f => Prog.emit (.write addr f)

/-- Give decoded frames to the delivery buffer and deliver what it returns. -/
def deliverPush (now : Time) (τ : IterOrder UInt32) (frames : List Frame) : CliProg RS F P Unit := do
  let returned ← Prog.atomic fun c =>
    ((c.delivery.push τ now frames).2, { c with delivery := (c.delivery.push τ now frames).1 },
      [.pushed frames (c.delivery.push τ now frames).2])
  deliverToWG returned

/-- Turn the gap timer of the delivery buffer and deliver what it returns. -/
def deliverTick (now : Time) (τ : IterOrder UInt32) : CliProg RS F P Unit := do
  let returned ← Prog.atomic fun c =>
    ((c.delivery.tick τ now).2, { c with delivery := (c.delivery.tick τ now).1 },
      [.skipped (c.delivery.tick τ now).2])
  deliverToWG returned

/-- The payload of an authentic acknowledgement for the session. -/
def openAck (id : UInt64) (datagram : Bytes) : Option Bytes :=
  match env.baseAEAD.openFrame .serverToClient datagram with
  | .error _ => none
  | .ok plain =>
    match Frame.decode plain with
    | .error _ => none
    | .ok f =>
      if f.sessionID ≠ id then none
      else if f.payload.length < publicKeySize then none
      else some f.payload

/-- The session key for the server's public key at the head of a payload. -/
def sessionKey (id : UInt64) (payload : Bytes) : Option (AEAD P) :=
  match ecdhShared P env.clientPriv.bytes (payload.take publicKeySize) with
  | .error _ => none
  | .ok shared => (newAEAD P (derivePFSKey P env.psk shared id) env.cfg.crypto.cipher).toOption

/-- Adopt the announce, then publish the key; a rejected announce ends the attempt. -/
def establish (aead : AEAD P) (data : Bytes) : CliProg RS F P Bool := do
  let adopted ← Prog.atomic fun c =>
    ((c.applyAnnounce env data).1.isOk, (c.applyAnnounce env data).2, [])
  if adopted then do
    setSessionAEAD aead
    pure true
  else pure false

/-- An acknowledgement of the key exchange.  The key is published only after the codecs
are rebuilt; an acknowledgement that finds a key published is a duplicate. -/
def handleKexAck (datagram : Bytes) : CliProg RS F P Bool := do
  let id ← Prog.read (·.sess.id)
  match openAck env id datagram with
  | none => pure false
  | some payload => do
    let ready ← getSessionAEAD
    match ready, sessionKey env id payload with
    | some _, _ => pure true
    | none, none => pure false
    | none, some aead => establish env aead (payload.drop publicKeySize)

/-- Record that a valid frame came in. -/
def touch (i : ℕ) (now : Time) : CliProg RS F P Unit := updateWan i fun w => { w with lastRx := now }

/-- Check and mark the number of a frame. -/
def checkReplay (seq : UInt32) : CliProg RS F P Bool :=
  Prog.atomic fun c =>
    ((c.sess.replay.checkAndMark seq).2,
      { c with sess := { c.sess with replay := (c.sess.replay.checkAndMark seq).1 } }, [])

/-- Authenticate a frame, then check its number. -/
def verify (aead : AEAD P) (datagram : Bytes) : CliProg RS F P (Option Frame) :=
  match aead.openFrame .serverToClient datagram with
  | .error _ => pure none
  | .ok plain =>
    match Frame.decode plain with
    | .error _ => pure none
    | .ok f => do
      let fresh ← checkReplay f.seq
      pure (if fresh then some f else none)

/-- Open a frame of the session. -/
def openAndVerify (hdr : Frame) (datagram : Bytes) : CliProg RS F P (Option Frame) := do
  let id ← Prog.read (·.sess.id)
  if hdr.sessionID ≠ id then pure none
  else do
    let aead ← getSessionAEAD
    match aead with
    | none => pure none
    | some aead => verify aead datagram

/-- The answer to a probe: it carries the time the probe was sent. -/
def handlePong (i : ℕ) (now : Time) (f : Frame) : CliProg RS F P Unit :=
  if f.payload.length ≠ 8 then pure ()
  else updateWan i fun w =>
    { w with probeRTT := now - (uint64 f.payload).toInt64.toInt * millisecond, probeOut := false }

/-- Route a valid frame: an answer to a probe, or inner data for the decoder. -/
def route (i : ℕ) (now : Time) (τ : IterOrder UInt32) (f : Frame) : CliProg RS F P Unit :=
  if f.hasFlag flagPong then handlePong i now f
  else if f.hasFlag flagControl || f.hasFlag flagKeepalive || f.payload.length = 0 then pure ()
  else do
    let wan ← Prog.read fun c => ((c.wans[i]?).bind WanLink.dec, ((c.wans[i]?).map (·.cfg.id)).getD "")
    let frames ← useDec wan.1 (.push now wan.2 f)
    deliverPush now τ frames

/-- An acknowledgement on a WAN. -/
def recvAck (i : ℕ) (now : Time) (datagram : Bytes) : CliProg RS F P Unit := do
  let ok ← handleKexAck env datagram
  if ok then touch i now else pure ()

/-- Any other frame on a WAN. -/
def recvFrame (i : ℕ) (now : Time) (τ : IterOrder UInt32) (hdr : Frame) (datagram : Bytes) :
    CliProg RS F P Unit := do
  let f ← openAndVerify hdr datagram
  match f with
  | none => pure ()
  | some f => do
    touch i now
    route i now τ f

/-- A datagram from the server on a WAN. -/
def recv (i : ℕ) (now : Time) (τ : IterOrder UInt32) (datagram : Bytes) : CliProg RS F P Unit :=
  match Frame.decodeHeader datagram with
  | .error _ => pure ()
  | .ok hdr => do
    let id ← Prog.read (·.sess.id)
    if hdr.sessionID = id && hdr.hasFlag flagKex then recvAck env i now datagram
    else recvFrame i now τ hdr datagram

/-! ### The tick loops -/

/-- The codecs of one WAN in a turn of the codecs. -/
def tickWan (now : Time) (σ : IterOrder BlockKey) (τ : IterOrder UInt32) (i : ℕ) :
    CliProg RS F P Unit := do
  let slots ← Prog.read fun c => ((c.wans[i]?).bind WanLink.enc, (c.wans[i]?).bind WanLink.dec)
  let frames ← useEnc slots.1 fun e => e.tick now
  sendEncoded i frames
  let decoded ← useDec slots.2 (.tick σ now)
  deliverPush now τ decoded

/-- The shared codecs in a turn of the codecs. -/
def tickCross (now : Time) (σ : IterOrder BlockKey) (τ : IterOrder UInt32) (xenc xdec : Option ℕ) :
    CliProg RS F P Unit := do
  let frames ← useEnc xenc fun e => e.tick now
  sendCrossEncoded frames
  let decoded ← useDec xdec (.tick σ now)
  deliverPush now τ decoded

def tickCodecs (now : Time) (σ : IterOrder BlockKey) (τ : IterOrder UInt32) :
    CliProg RS F P Unit := do
  let c ← Prog.read fun c => (c.crossPath, c.xenc, c.xdec, c.wans.length)
  if c.1 then tickCross now σ τ c.2.1 c.2.2.1
  else (List.range c.2.2.2).forM (tickWan now σ τ)

/-- A turn of the codecs and of the delivery buffer. -/
def fecTick (now : Time) (σ : IterOrder BlockKey) (τ : IterOrder UInt32) : CliProg RS F P Unit := do
  tickCodecs now σ τ
  deliverTick now τ

/-- Read the counters out of a decoder. -/
def takeStats (slot : Option ℕ) (take : Decoder F C → Decoder F C × ℕ × ℕ) :
    CliProg RS F P (ℕ × ℕ) :=
  Prog.atomic fun c =>
    match slot.bind fun i => (c.decs[i]?).map fun d => (i, take d) with
    | none => ((0, 0), { c with crashed := true }, [])
    | some (i, d, stats) => (stats, { c with decs := c.decs.set i d }, [])

/-- Feed the loss estimate of a WAN to its encoder. -/
def feedLoss (i : ℕ) (now : Time) (slot : Option ℕ) : CliProg RS F P Unit := do
  let loss ← Prog.read fun c => ((c.wans[i]?).map fun w => w.health.loss).getD (Float64.ofInt 0)
  let _ ← useEnc slot fun e => (e.setLossRate now loss, [])
  pure ()

/-- Turn the monitor of a WAN and tell the scheduler. -/
def tickHealth (i : ℕ) (now : Time) : CliProg RS F P Unit := do
  updateHealth i fun m => m.tick now
  Prog.modify fun c =>
    { c with
      sched := ((c.wans[i]?).map fun w =>
        c.sched.onState w.cfg.id w.health.state w.health.loss).getD c.sched }

/-- One WAN in a turn of the monitors. -/
def healthTickWan (now : Time) (i : ℕ) : CliProg RS F P Unit := do
  let wan ← Prog.read fun c =>
    (c.sess.id, ((c.wans[i]?).map (·.cfg.id)).getD "", (c.wans[i]?).bind WanLink.enc,
      (c.wans[i]?).bind WanLink.dec)
  let inBand ← takeStats wan.2.2.2 fun d => d.takeStreamStats wan.1 wan.2.1
  updateHealth i fun m => ((lossRate inBand.1 inBand.2).map m.observeInBand).getD m
  let raw ← takeStats wan.2.2.2 fun d => d.takePathStats wan.1 wan.2.1
  updateHealth i fun m => ((lossRate raw.1 raw.2).map m.observeRaw).getD m
  feedLoss i now wan.2.2.1
  tickHealth i now

/-- A turn of the monitors. -/
def healthTick (now : Time) : CliProg RS F P Unit := do
  let n ← Prog.read fun c => c.wans.length
  (List.range n).forM (healthTickWan now)

/-! ### The client as a pool of goroutines -/

/-- The turns of the goroutines. -/
inductive Call (F : Type) where
  | handshake (wan : ℕ)
  | keepaliveSend (wan : ℕ) (now : Time)
  | keepaliveTick (wan : ℕ) (now : Time)
  | ingress (now start : Time) (addr : UDPAddr) (draw : F) (payload : Bytes)
  | recv (wan : ℕ) (now : Time) (τ : IterOrder UInt32) (datagram : Bytes)
  | fecTick (now : Time) (σ : IterOrder BlockKey) (τ : IterOrder UInt32)
  | healthTick (now : Time)

/-- The program of a turn. -/
def body : Call F → CliProg RS F P Unit
  | .handshake i => handshake env i
  | .keepaliveSend i now => keepaliveSend i now
  | .keepaliveTick i now => keepaliveTick env i now
  | .ingress now start addr draw payload => ingress now start addr draw payload
  | .recv i now τ datagram => recv env i now τ datagram
  | .fecTick now σ τ => fecTick now σ τ
  | .healthTick now => healthTick now

/-- One event of a client with goroutines `T`; a panic ends it. -/
def step {T : Type} [DecidableEq T] :
    Pool T (Client F RS P) (ClientOut P) → Pool.Event T (Call F) →
      Pool T (Client F RS P) (ClientOut P) × List (ClientOut P) :=
  Pool.step Client.crashed fun _ c => body env c

end Client

end

/-! ### A small client -/

/-- What a client with the small configuration is built from. -/
def smallClientEnv : ClientEnv ℚ smallPrimitives where
  cfg := smallConfig
  psk := stringBytes "psk"
  baseAEAD := smallBaseAEAD
  clientPriv := smallKey 7
  json := smallJson

example : ((newClientEnv smallPrimitives smallJson smallConfig (smallKey 7)).toOption.map fun env =>
      (env.psk, env.baseAEAD, env.clientPriv)) =
    some (smallClientEnv.psk, smallClientEnv.baseAEAD, smallClientEnv.clientPriv) := by
  decide +kernel

/-- The client with the small configuration and the given name. -/
def smallClientNamed (id : UInt64) : Client ℚ smallCodes smallPrimitives :=
  match newClient smallCodes smallClientEnv id with
  | .ok c => c
  | .error _ => Client.blank smallClientEnv id

theorem newClient_smallClientNamed {id : UInt64}
    (hok : (newClient smallCodes smallClientEnv id).isOk = true) :
    newClient smallCodes smallClientEnv id = .ok (smallClientNamed id) := by
  rw [smallClientNamed]
  cases h : newClient smallCodes smallClientEnv id with
  | ok c => rfl
  | error e =>
    rw [h] at hok
    cases hok

/-- The client with the small configuration and the name 5. -/
def smallClient : Client ℚ smallCodes smallPrimitives := smallClientNamed 5

theorem newClient_small : newClient smallCodes smallClientEnv 5 = .ok smallClient :=
  newClient_smallClientNamed (by decide +kernel)

end FlexBraid
