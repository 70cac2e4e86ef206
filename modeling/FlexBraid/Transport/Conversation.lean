import FlexBraid.Lib.GoMap
import FlexBraid.Lib.Run
import FlexBraid.Transport.FakeTcp

/-!
# A FakeTCP conversation

Both ends of a FakeTCP transport count sequence numbers as TCP does.  A sender goes on by the
length of what it sent, or by one.  A receiver acknowledges what follows the segment it got: after
a SYN that is the next number, whatever the segment carries, and the first segment of either end
carries a frame.

The socket is open and writing to it succeeds; a segment that is too long for a datagram is not
sent.  The random numbers and the source address that routing picks are arguments.

## Main definitions

* `FakeTcp.send`, `FakeTcp.sendTo`, `FakeTcp.recv` — the calls of a transport.
* `FakeTcpLink.step` — a client and a server, with the segments on the way between them.
* `Flight` — the segments on their way follow each other up to the counter of the sender.

## Main results

* `conversation_walks` — **the acknowledged number is that of the next segment**, unless the
  segment received was a SYN with more than one byte.
* `conversation_drifts` — the first frame of a client is acknowledged short.
-/

namespace FlexBraid

open Run

/-! ### The transport -/

/-- The counters of one remote end. -/
structure PeerState where
  mySeq : UInt32
  peerSeq : UInt32 := 0
  sent : Bool := false
deriving DecidableEq

/-- The key of a remote end: the server of a client, or the address of a client. -/
inductive PeerKey where
  | server
  | addr (a : EchoAddr)
deriving DecidableEq

inductive FakeTcpError where
  | notOpen
  | badPeerAddress (id : String)
deriving DecidableEq

/-- The text of an error; the address follows the second. -/
def FakeTcpError.text : FakeTcpError → String
  | notOpen => "faketcp: not open"
  | badPeerAddress id => "faketcp[" ++ id ++ "]: bad peer address "

/-- The state of a transport, a client or a server. -/
structure FakeTcp where
  id : String := ""
  srv : Bool := false
  clientSrcIP : IPv4 := ⟨0, 0, 0, 0⟩
  clientDstIP : IPv4 := ⟨0, 0, 0, 0⟩
  clientSrcPort : UInt16 := 0
  clientDstPort : UInt16 := 0
  serverPort : UInt16 := 0
  peers : GoMap PeerKey PeerState := ∅

/-- How far a segment moves the sequence number of its sender. -/
def seqAdvance (dataLen : ℕ) : UInt32 := if dataLen > 0 then UInt32.ofNat dataLen else 1

namespace FakeTcp

/-- The flags of the next segment: the first starts the handshake. -/
def flagsFor (st : PeerState) (first : UInt8) : UInt8 :=
  if st.sent then tcpFlagPSH ||| tcpFlagACK else first

/-- Send a frame to the server. -/
def send (f : FakeTcp) (ident : UInt16) (b : Bytes) : Except FakeTcpError (FakeTcp × Bytes) :=
  match f.peers.lookup .server with
  | none => .error .notOpen
  | some st =>
    .ok ({ f with
        peers := f.peers.insert .server
          { st with sent := true, mySeq := st.mySeq + seqAdvance b.length } },
      buildSegment f.clientSrcIP f.clientDstIP f.clientSrcPort f.clientDstPort st.mySeq st.peerSeq
        (flagsFor st tcpFlagSYN) ident b)

/-- Send a frame to a client, from the address that routing picks; a client that is not known yet
starts with a random number. -/
def sendTo (f : FakeTcp) (addr : Option EchoAddr) (srcIP : IPv4) (draw : UInt32) (ident : UInt16)
    (b : Bytes) : Except FakeTcpError (FakeTcp × Bytes) :=
  match addr with
  | none => .error (.badPeerAddress f.id)
  | some ua =>
    let st := (f.peers.lookup (.addr ua)).getD ⟨draw, 0, false⟩
    .ok ({ f with
        peers := f.peers.insert (.addr ua)
          { st with sent := true, mySeq := st.mySeq + seqAdvance b.length } },
      buildSegment srcIP ua.ip f.serverPort ua.port st.mySeq st.peerSeq
        (flagsFor st (tcpFlagSYN ||| tcpFlagACK)) ident b)

/-- What the peer is expected to send next. -/
def ackFor (s : ParsedSegment) : UInt32 :=
  if s.syn then s.seq + 1 else s.seq + UInt32.ofNat (max 1 s.payload.length)

/-- Note what a peer is expected to send next; a peer that is not known yet gets its counters. -/
def heard (f : FakeTcp) (key : PeerKey) (draw ack : UInt32) : FakeTcp :=
  let st := (f.peers.lookup key).getD ⟨draw, 0, false⟩
  { f with peers := f.peers.insert key { st with peerSeq := ack } }

/-- Take in one datagram: a frame with its source, or nothing. -/
def recv (f : FakeTcp) (draw : UInt32) (b : Bytes) :
    Option (FakeTcp × Option (Bytes × EchoAddr)) :=
  match parseSegment b with
  | none => none
  | some none => some (f, none)
  | some (some s) =>
    if (if f.srv then s.dstPort ≠ f.serverPort
        else s.dstPort ≠ f.clientSrcPort ∨ s.src.ip ≠ f.clientDstIP) then
      some (f, none)
    else
      some (f.heard (if f.srv then .addr s.src else .server) draw (ackFor s),
        some (s.payload, s.src))

end FakeTcp

/-! ### A client and a server -/

/-- A client and a server, and the segments on the way between them, in order. -/
structure FakeTcpLink where
  client : FakeTcp
  server : FakeTcp
  up : List Bytes := []
  down : List Bytes := []

/-- What happens at the two ends: one of them sends a frame, or takes in the next segment on its
way. -/
inductive FakeTcpEvent where
  | send (ident : UInt16) (b : Bytes)
  | sendTo (draw : UInt32) (ident : UInt16) (b : Bytes)
  | serverRecv (draw : UInt32)
  | clientRecv (draw : UInt32)

namespace FakeTcpLink

/-- The address of the client, as the server sees it. -/
def peer (l : FakeTcpLink) : EchoAddr := ⟨l.client.clientSrcIP, l.client.clientSrcPort⟩

/-- The address of the server, as the client sees it. -/
def host (l : FakeTcpLink) : EchoAddr := ⟨l.client.clientDstIP, l.client.clientDstPort⟩

/-- A segment goes on its way if a datagram can carry it. -/
def carry (flight : List Bytes) (seg : Bytes) : List Bytes :=
  if seg.length ≤ 65535 then flight ++ [seg] else flight

/-- One event, without loss; none after a panic.  A receive call with no segment on the way
blocks.  The payloads that are returned can be seen. -/
def step : Option FakeTcpLink → FakeTcpEvent → Option FakeTcpLink × List Bytes
  | none, _ => (none, [])
  | some l, .send ident b =>
    match l.client.send ident b with
    | .error _ => (some l, [])
    | .ok (client, seg) => (some { l with client := client, up := carry l.up seg }, [])
  | some l, .sendTo draw ident b =>
    match l.server.sendTo (some l.peer) l.host.ip draw ident b with
    | .error _ => (some l, [])
    | .ok (server, seg) => (some { l with server := server, down := carry l.down seg }, [])
  | some l, .serverRecv draw =>
    match l.up with
    | [] => (some l, [])
    | seg :: rest =>
      match l.server.recv draw seg with
      | none => (none, [])
      | some (server, none) => (some { l with server := server, up := rest }, [])
      | some (server, some (b, _)) => (some { l with server := server, up := rest }, [b])
  | some l, .clientRecv draw =>
    match l.down with
    | [] => (some l, [])
    | seg :: rest =>
      match l.client.recv draw seg with
      | none => (none, [])
      | some (client, none) => (some { l with client := client, down := rest }, [])
      | some (client, some (b, _)) => (some { l with client := client, down := rest }, [b])

end FakeTcpLink

/-! ### Segments on their way -/

/-- The sequence number of a segment. -/
def seqOf (seg : Bytes) : UInt32 := uint32 (seg.drop 24)

/-- The sequence number of the next segment: the first on its way, or what the sender will send
next. -/
def nextSeq (flight : List Bytes) (mySeq : UInt32) : UInt32 :=
  (flight.head?.map seqOf).getD mySeq

/-- The segments of one direction follow each other, from the next one to arrive up to the
counter of the sender. -/
def Flight (src dst : EchoAddr) : UInt32 → List Bytes → UInt32 → Prop
  | lo, [], hi => lo = hi
  | lo, seg :: rest, hi => ∃ ack flags ident payload,
      flags &&& (tcpFlagRST ||| tcpFlagFIN) = 0 ∧
      ipHdrLen + tcpHdrLen + payload.length ≤ 65535 ∧
      seg = buildSegment src.ip dst.ip src.port dst.port lo ack flags ident payload ∧
      Flight src dst (lo + seqAdvance payload.length) rest hi

section
variable {src dst : EchoAddr} {lo hi : UInt32} {flight : List Bytes}

theorem Flight.nextSeq_eq (h : Flight src dst lo flight hi) : nextSeq flight hi = lo := by
  cases flight with
  | nil => exact h.symm
  | cons seg rest =>
    obtain ⟨ack, flags, ident, payload, -, -, rfl, -⟩ := h
    exact uint32_put lo []

theorem Flight.concat (h : Flight src dst lo flight hi) {flags : UInt8} {payload : Bytes}
    (hflags : flags &&& (tcpFlagRST ||| tcpFlagFIN) = 0)
    (hlen : ipHdrLen + tcpHdrLen + payload.length ≤ 65535) (ack : UInt32) (ident : UInt16) :
    Flight src dst lo
      (flight ++ [buildSegment src.ip dst.ip src.port dst.port hi ack flags ident payload])
      (hi + seqAdvance payload.length) := by
  induction flight generalizing lo with
  | nil =>
    cases h
    exact ⟨ack, flags, ident, payload, hflags, hlen, rfl, rfl⟩
  | cons seg rest ih =>
    obtain ⟨ack', flags', ident', payload', hflags', hlen', hseg, hrest⟩ := h
    exact ⟨ack', flags', ident', payload', hflags', hlen', hseg, ih hrest⟩

/-- The counter of a sender goes on behind the segments on their way; an end without counters has
none on the way. -/
def Sends (src dst : EchoAddr) (st? : Option PeerState) (flight : List Bytes) : Prop :=
  match st? with
  | none => flight = []
  | some st => ∃ lo, Flight src dst lo flight st.mySeq

theorem Sends.getD {st? : Option PeerState} (h : Sends src dst st? flight) (draw : UInt32) :
    ∃ lo, Flight src dst lo flight (st?.getD ⟨draw, 0, false⟩).mySeq := by
  cases st? with
  | none =>
    cases h
    exact ⟨draw, rfl⟩
  | some st => exact h

/-- A segment for this end is taken in. -/
theorem Sends.recv {st? : Option PeerState} {seg : Bytes} (h : Sends src dst st? (seg :: flight))
    (f : FakeTcp) (draw : UInt32) (hdst : if f.srv then dst.port = f.serverPort
      else dst.port = f.clientSrcPort ∧ src.ip = f.clientDstIP) :
    ∃ s st, parseSegment seg = some (some s) ∧ st? = some st ∧
      s.seq + seqAdvance s.payload.length = nextSeq flight st.mySeq ∧
      f.recv draw seg = some (f.heard (if f.srv then .addr src else .server) draw
        (FakeTcp.ackFor s), some (s.payload, src)) ∧ Sends src dst st? flight := by
  cases st? with
  | none => cases h
  | some st =>
    obtain ⟨lo, ack, flags, ident, payload, hflags, hlen, rfl, hrest⟩ := h
    have hparse := parseSegment_built ident src.ip dst.ip src.port dst.port lo ack hflags hlen
    refine ⟨_, st, hparse, rfl, hrest.nextSeq_eq.symm, ?_, _, hrest⟩
    rw [FakeTcp.recv, hparse]
    dsimp only
    rw [if_neg]
    cases hsrv : f.srv with
    | true =>
      rw [hsrv, if_pos rfl] at hdst
      simp [hdst]
    | false =>
      rw [hsrv, if_neg Bool.false_ne_true] at hdst
      simp [hdst.1, hdst.2]

end

theorem length_buildSegment (src dst : IPv4) (srcPort dstPort : UInt16) (seq ack : UInt32)
    (flags : UInt8) (ident : UInt16) (payload : Bytes) :
    (buildSegment src dst srcPort dstPort seq ack flags ident payload).length =
      ipHdrLen + tcpHdrLen + payload.length := by
  rw [buildSegment, List.length_append, length_ipHeader, length_tcpSegment, Nat.add_assoc]

theorem flagsFor_ok (st : PeerState) {first : UInt8}
    (hfirst : first &&& (tcpFlagRST ||| tcpFlagFIN) = 0) :
    FakeTcp.flagsFor st first &&& (tcpFlagRST ||| tcpFlagFIN) = 0 := by
  unfold FakeTcp.flagsFor
  split
  · decide
  · exact hfirst

/-- A receiver and a sender agree on how far a segment goes, unless it is a SYN with more than one
byte. -/
theorem ackFor_eq {s : ParsedSegment} (h : s.syn = true → s.payload.length ≤ 1) :
    FakeTcp.ackFor s = s.seq + seqAdvance s.payload.length := by
  unfold FakeTcp.ackFor seqAdvance
  cases hsyn : s.syn with
  | true =>
    have hle := h hsyn
    rw [if_pos rfl]
    split
    · have hone : s.payload.length = 1 := by omega
      rw [hone]
      rfl
    · rfl
  | false =>
    rw [if_neg Bool.false_ne_true]
    split
    next hpos => rw [max_eq_right hpos]
    next hzero =>
      rw [max_eq_left (by omega)]
      rfl

/-! ### One event -/

namespace FakeTcpLink

/-- A client and a server that know each other, and the counters of both. -/
structure Conversing (l : FakeTcpLink) : Prop where
  client : l.client.srv = false
  server : l.server.srv = true
  port : l.server.serverPort = l.client.clientDstPort
  opened : (l.client.peers.lookup .server).isSome
  up : Sends l.peer l.host (l.client.peers.lookup .server) l.up
  down : Sends l.host l.peer (l.server.peers.lookup (.addr l.peer)) l.down

/-- The frame of an event fits into a datagram. -/
def Fits : FakeTcpEvent → Prop
  | .send _ b | .sendTo _ _ b => ipHdrLen + tcpHdrLen + b.length ≤ 65535
  | _ => True

variable {l : FakeTcpLink}

variable {seg : Bytes}

theorem carry_eq {flight : List Bytes} (h : seg.length ≤ 65535) :
    carry flight seg = flight ++ [seg] := if_pos h

theorem Conversing.send (h : l.Conversing) (ident : UInt16) {b : Bytes}
    (hlen : ipHdrLen + tcpHdrLen + b.length ≤ 65535) :
    ∃ l', step (some l) (.send ident b) = (some l', []) ∧ l'.Conversing := by
  obtain ⟨st, hst⟩ := Option.isSome_iff_exists.mp h.opened
  have hup := h.up
  rw [hst] at hup
  obtain ⟨lo, hflight⟩ := hup
  simp only [step, FakeTcp.send, hst]
  refine ⟨_, rfl, h.client, h.server, h.port, ?_, ?_, h.down⟩
  · simp [AList.lookup_insert]
  · dsimp only
    rw [carry_eq (by rw [length_buildSegment]; exact hlen), AList.lookup_insert]
    exact ⟨lo, hflight.concat (flagsFor_ok st (by decide)) hlen st.peerSeq ident⟩

theorem Conversing.sendTo (h : l.Conversing) (draw : UInt32) (ident : UInt16) {b : Bytes}
    (hlen : ipHdrLen + tcpHdrLen + b.length ≤ 65535) :
    ∃ l', step (some l) (.sendTo draw ident b) = (some l', []) ∧ l'.Conversing := by
  obtain ⟨lo, hflight⟩ := h.down.getD draw
  simp only [step, FakeTcp.sendTo]
  refine ⟨_, rfl, h.client, h.server, h.port, h.opened, h.up, ?_⟩
  dsimp only
  change Sends l.host l.peer
    (AList.lookup (PeerKey.addr l.peer) (l.server.peers.insert (PeerKey.addr l.peer) _)) _
  rw [carry_eq (by rw [length_buildSegment]; exact hlen), AList.lookup_insert]
  refine ⟨lo, ?_⟩
  rw [h.port]
  exact hflight.concat (flagsFor_ok _ (by decide)) hlen _ ident

theorem heard_lookup (f : FakeTcp) (key : PeerKey) (draw ack : UInt32) :
    (f.heard key draw ack).peers.lookup key =
      some { (f.peers.lookup key).getD ⟨draw, 0, false⟩ with peerSeq := ack } := by
  rw [FakeTcp.heard, AList.lookup_insert]

theorem sends_heard {src dst : EchoAddr} {f : FakeTcp} {key : PeerKey} {flight : List Bytes}
    (h : Sends src dst (f.peers.lookup key) flight) (draw ack : UInt32) :
    Sends src dst ((f.heard key draw ack).peers.lookup key) flight := by
  rw [heard_lookup]
  exact h.getD draw

theorem Conversing.serverRecv (h : l.Conversing) (draw : UInt32) {rest : List Bytes}
    (hup : l.up = seg :: rest) :
    ∃ s st, parseSegment seg = some (some s) ∧ l.client.peers.lookup .server = some st ∧
      s.seq + seqAdvance s.payload.length = nextSeq rest st.mySeq ∧
      step (some l) (.serverRecv draw) = (some { l with
        server := l.server.heard (.addr l.peer) draw (FakeTcp.ackFor s)
        up := rest }, [s.payload]) ∧ Conversing { l with
        server := l.server.heard (.addr l.peer) draw (FakeTcp.ackFor s)
        up := rest } := by
  have hsends := h.up
  rw [hup] at hsends
  obtain ⟨s, st, hparse, hst, hnext, hrecv, hrest⟩ := hsends.recv l.server draw
    (by rw [h.server, if_pos rfl]; exact h.port.symm)
  rw [h.server, if_pos rfl] at hrecv
  refine ⟨s, st, hparse, hst, hnext, ?_, h.client, h.server, h.port, h.opened, hrest,
    sends_heard h.down draw _⟩
  rw [step, hup]
  dsimp only
  rw [hrecv]

theorem Conversing.clientRecv (h : l.Conversing) (draw : UInt32) {rest : List Bytes}
    (hdown : l.down = seg :: rest) :
    ∃ s st, parseSegment seg = some (some s) ∧ l.server.peers.lookup (.addr l.peer) = some st ∧
      s.seq + seqAdvance s.payload.length = nextSeq rest st.mySeq ∧
      step (some l) (.clientRecv draw) = (some { l with
        client := l.client.heard .server draw (FakeTcp.ackFor s)
        down := rest }, [s.payload]) ∧ Conversing { l with
        client := l.client.heard .server draw (FakeTcp.ackFor s)
        down := rest } := by
  have hsends := h.down
  rw [hdown] at hsends
  obtain ⟨s, st, hparse, hst, hnext, hrecv, hrest⟩ := hsends.recv l.client draw
    (by rw [h.client, if_neg Bool.false_ne_true]; exact ⟨rfl, rfl⟩)
  rw [h.client, if_neg Bool.false_ne_true] at hrecv
  refine ⟨s, st, hparse, hst, hnext, ?_, h.client, h.server, h.port, by rw [heard_lookup]; rfl,
    sends_heard h.up draw _, hrest⟩
  rw [step, hdown]
  dsimp only
  rw [hrecv]

/-! ### Runs -/

/-- A link that has just been opened: the server does not know the client yet, and no segment is
on its way. -/
structure Opened (l : FakeTcpLink) : Prop where
  client : l.client.srv = false
  server : l.server.srv = true
  port : l.server.serverPort = l.client.clientDstPort
  dialled : ∃ seq, l.client.peers.lookup .server = some ⟨seq, 0, false⟩
  unknown : l.server.peers.lookup (.addr l.peer) = none
  up : l.up = []
  down : l.down = []

theorem Opened.conversing (h : l.Opened) : l.Conversing := by
  obtain ⟨seq, hseq⟩ := h.dialled
  refine ⟨h.client, h.server, h.port, by rw [hseq]; rfl, ?_, ?_⟩
  · rw [hseq, h.up]
    exact ⟨seq, rfl⟩
  · rw [h.unknown, h.down]
    rfl

theorem Conversing.step (h : l.Conversing) {e : FakeTcpEvent} (he : Fits e) :
    ∃ l', (FakeTcpLink.step (some l) e).1 = some l' ∧ l'.Conversing := by
  cases e with
  | send ident b =>
    obtain ⟨l', hstep, hl'⟩ := h.send ident he
    exact ⟨l', by rw [hstep], hl'⟩
  | sendTo draw ident b =>
    obtain ⟨l', hstep, hl'⟩ := h.sendTo draw ident he
    exact ⟨l', by rw [hstep], hl'⟩
  | serverRecv draw =>
    cases hup : l.up with
    | nil => exact ⟨l, by simp [FakeTcpLink.step, hup], h⟩
    | cons seg rest =>
      obtain ⟨s, st, -, -, -, hstep, hl'⟩ := h.serverRecv draw hup
      exact ⟨_, by rw [hstep], hl'⟩
  | clientRecv draw =>
    cases hdown : l.down with
    | nil => exact ⟨l, by simp [FakeTcpLink.step, hdown], h⟩
    | cons seg rest =>
      obtain ⟨s, st, -, -, -, hstep, hl'⟩ := h.clientRecv draw hdown
      exact ⟨_, by rw [hstep], hl'⟩

theorem Conversing.run (h : l.Conversing) {es : List FakeTcpEvent} (hes : ∀ e ∈ es, Fits e) :
    ∃ l', exec FakeTcpLink.step (some l) es = some l' ∧ l'.Conversing := by
  induction es generalizing l with
  | nil => exact ⟨l, rfl, h⟩
  | cons e es ih =>
    obtain ⟨he, hes⟩ := List.forall_mem_cons.mp hes
    obtain ⟨l₁, hstep, hl₁⟩ := h.step he
    rw [exec_cons, hstep]
    exact ih hl₁ hes

/-- **The acknowledged number is that of the next segment.**  Whatever the two ends of a link have
sent and received, taking in the next segment returns its payload, and what the receiver will
acknowledge is the sequence number of the segment that follows, on its way or yet to be sent.  This
holds for every segment that is not a SYN with more than one byte. -/
theorem conversation_walks (hl : l.Opened) {es : List FakeTcpEvent} (hes : ∀ e ∈ es, Fits e) :
    ∃ l', exec step (some l) es = some l' ∧ (∀ seg rest draw, l'.up = seg :: rest → ∃ s l'' rcv snd,
        parseSegment seg = some (some s) ∧
        step (some l') (.serverRecv draw) = (some l'', [s.payload]) ∧
        l''.server.peers.lookup (.addr l''.peer) = some rcv ∧
        l''.client.peers.lookup .server = some snd ∧ l''.up = rest ∧
        ((s.syn = true → s.payload.length ≤ 1) → rcv.peerSeq = nextSeq l''.up snd.mySeq)) ∧
      (∀ seg rest draw, l'.down = seg :: rest → ∃ s l'' rcv snd, parseSegment seg = some (some s) ∧
        step (some l') (.clientRecv draw) = (some l'', [s.payload]) ∧
        l''.client.peers.lookup .server = some rcv ∧
        l''.server.peers.lookup (.addr l''.peer) = some snd ∧ l''.down = rest ∧
        ((s.syn = true → s.payload.length ≤ 1) → rcv.peerSeq = nextSeq l''.down snd.mySeq)) := by
  obtain ⟨l', hexec, h⟩ := hl.conversing.run hes
  refine ⟨l', hexec, fun seg rest draw hup => ?_, fun seg rest draw hdown => ?_⟩
  · obtain ⟨s, st, hparse, hst, hnext, hstep, -⟩ := h.serverRecv draw hup
    refine ⟨s, _, _, st, hparse, hstep, heard_lookup .., hst, rfl, fun hsyn => ?_⟩
    rw [← hnext]
    exact ackFor_eq hsyn
  · obtain ⟨s, st, hparse, hst, hnext, hstep, -⟩ := h.clientRecv draw hdown
    refine ⟨s, _, _, st, hparse, hstep, heard_lookup .., hst, rfl, fun hsyn => ?_⟩
    rw [← hnext]
    exact ackFor_eq hsyn

/-- A link with small numbers. -/
def small : FakeTcpLink where
  client :=
    { clientSrcIP := ⟨10, 0, 0, 1⟩
      clientDstIP := ⟨10, 0, 0, 2⟩
      clientSrcPort := 4000
      clientDstPort := 443
      peers := (∅ : GoMap PeerKey PeerState).insert .server ⟨100, 0, false⟩ }
  server := { srv := true, serverPort := 443 }

theorem opened_small : small.Opened :=
  ⟨rfl, rfl, rfl, ⟨100, by decide⟩, rfl, rfl, rfl⟩

/-- Two frames of a client, of one byte and of three. -/
theorem conversation_walks_small :
    small.Opened ∧ ∃ l', exec step (some small) [.send 7 [1], .send 8 [1, 2, 3]] = some l' := by
  have hfits : ∀ e ∈ [FakeTcpEvent.send 7 [1], .send 8 [1, 2, 3]], Fits e := by
    simp [Fits, ipHdrLen, tcpHdrLen]
  obtain ⟨l', hexec, -⟩ := conversation_walks opened_small hfits
  exact ⟨opened_small, l', hexec⟩

/-- What the server will acknowledge to the client, and what the client will send next. -/
def ackAndNext (l : FakeTcpLink) : Option UInt32 × Option UInt32 :=
  ((l.server.peers.lookup (.addr l.peer)).map (·.peerSeq),
    (l.client.peers.lookup .server).map (·.mySeq))

/-- **The first frame is acknowledged short**: the client goes on by ten, the server acknowledges
one. -/
theorem conversation_drifts :
    ((exec step (some small) [.send 7 (List.replicate 10 0), .serverRecv 5]).map ackAndNext) =
      some (some 101, some 110) := by
  decide

end FakeTcpLink

end FlexBraid
