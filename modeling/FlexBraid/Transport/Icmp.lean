import FlexBraid.Lib.GoMap
import FlexBraid.Lib.OnesComplement
import FlexBraid.Lib.Run

/-!
# The ICMP transport

Data rides in the payloads of ICMP echo packets.  A client sends a frame as an echo request,
whose checksum is corrupt on purpose so that the kernel of the server does not answer it.  A
server can only reply: what it sends to a peer waits in a queue, and the next request of the
peer drains the queue into the reply.

A call that slices or indexes past the end of a packet panics; such a call returns `none`.
The sockets are open, and the calls on them succeed.

## Main definitions

* `buildEcho`, `parseEcho` — the packets.
* `IcmpServer.sendTo`, `IcmpServer.recv` — the calls of a server.
* `IcmpClient.send`, `IcmpClient.recv` — the calls of a client.
* `IcmpLink.step` — a client and a server, with the packets on the way between them.

## Main results

* `marker_reported` — the mark of a request is seen, unless its words sum up to a multiple of
  65535.
-/

namespace FlexBraid

open OnesComplement

/-! ### Packets -/

def icmpTypeEchoReply : UInt8 := 0

def icmpTypeEchoRequest : UInt8 := 8

/-- The length of an IPv4 header without options. -/
def ipHdrLen : ℕ := 20

/-- The length of an ICMP echo header. -/
def icmpHdrLen : ℕ := 8

/-- An IPv4 address. -/
structure IPv4 where
  a : UInt8
  b : UInt8
  c : UInt8
  d : UInt8
deriving DecidableEq

def IPv4.bytes (ip : IPv4) : Bytes := [ip.a, ip.b, ip.c, ip.d]

/-- The address of a peer, the part of a `net.UDPAddr` that this transport fills in. -/
structure EchoAddr where
  ip : IPv4
  port : UInt16 := 0
deriving DecidableEq

/-- An echo packet: type, code, checksum, identifier, sequence number, and the payload. -/
def echoPacket (typ code : UInt8) (csum id seq : UInt16) (payload : Bytes) : Bytes :=
  typ :: code :: (putUint16 csum ++ (putUint16 id ++ (putUint16 seq ++ payload)))

/-- Build an echo packet, with a checksum that is mangled on request. -/
def buildEcho (typ : UInt8) (id : UInt16) (seq : UInt32) (payload : Bytes) (corruptCS : Bool) :
    Bytes :=
  let csum := checksum (echoPacket typ 0 0 id seq.toUInt16 payload)
  echoPacket typ 0 (if corruptCS then ~~~ csum else csum) id seq.toUInt16 payload

/-- What is read from an echo packet. -/
structure Echo where
  payload : Bytes
  src : EchoAddr
  rtype : UInt8
  id : UInt16
  csOK : Bool
deriving DecidableEq

/-- Read an IPv4 datagram.  Anything but a whole echo packet is not accepted; the checksum is
reported, not enforced. -/
def parseEcho (b : Bytes) : Option (Option Echo) :=
  if b.length < ipHdrLen + icmpHdrLen then some none
  else if b.getD 0 0 >>> 4 ≠ 4 then some none
  else
    let ihl := (b.getD 0 0 &&& 0x0f).toNat * 4
    if ihl < ipHdrLen ∨ b.length < ihl + icmpHdrLen then some none
    else if b.getD 9 0 ≠ 1 then some none
    else if uint16 (b.drop 6) &&& 0x1fff ≠ 0 then some none
    else
      let total := (uint16 (b.drop 2)).toNat
      let total := if total = 0 ∨ b.length < total then b.length else total
      -- the slice panics when the total length lies within the IP header
      if total < ihl then none
      else
        let icmp := (b.take total).drop ihl
        match icmp.head? with
        | none => none
        | some rtype =>
          if rtype ≠ icmpTypeEchoRequest ∧ rtype ≠ icmpTypeEchoReply then some none
          else if icmp.length < icmpHdrLen then none
          else
            some (some
              { payload := icmp.drop icmpHdrLen
                src := ⟨⟨b.getD 12 0, b.getD 13 0, b.getD 14 0, b.getD 15 0⟩, 0⟩
                rtype := rtype
                id := uint16 (icmp.drop 4)
                csOK := decide (checksum icmp = 0) })

/-- The offset of the ICMP header in a datagram. -/
def reqICMPOffset (b : Bytes) : Option ℕ :=
  if b.length < ipHdrLen then none
  else
    let ihl := (b.getD 0 0 &&& 0x0f).toNat * 4
    if ihl < ipHdrLen ∨ b.length < ihl + icmpHdrLen then none else some ihl

/-- The reply to a request packet: its header with the type flipped and the checksum
recomputed, and the payload. -/
def echoReply (icmp reply : Bytes) : Bytes :=
  let packet (csum : UInt16) : Bytes :=
    icmpTypeEchoReply :: icmp.getD 1 0 ::
      (putUint16 csum ++ ((icmp.take icmpHdrLen).drop 4 ++ reply))
  packet (checksum (packet 0))

/-! ### The server -/

inductive IcmpError where
  | badPeerAddress (id : String)
  | badRequest
deriving DecidableEq

/-- The text of an error; the address follows the first. -/
def IcmpError.text : IcmpError → String
  | badPeerAddress id => "icmp[" ++ id ++ "]: bad peer address "
  | badRequest => "icmp: bad request packet"

/-- How much data may wait for a peer. -/
def maxQueuePerPeer : ℤ := 2 ^ 20

/-- How much data one reply holds. -/
def maxReply : ℕ := 1472 - icmpHdrLen

/-- The state of a server: the data that waits for each peer, and its size. -/
structure IcmpServer where
  id : String := ""
  replyQueue : GoMap EchoAddr (List Bytes) := ∅
  queueBytes : GoMap EchoAddr ℤ := ∅

namespace IcmpServer

/-- Drop the oldest data that waits for a peer when `n` more bytes are too many. -/
def makeRoom (s : IcmpServer) (key : EchoAddr) (n : ℕ) : IcmpServer :=
  if s.queueBytes.getD key 0 + n > maxQueuePerPeer then
    match s.replyQueue.getD key [] with
    | [] => s
    | p :: q =>
      { s with
        queueBytes := s.queueBytes.insert key (s.queueBytes.getD key 0 - p.length)
        replyQueue := s.replyQueue.insert key q }
  else s

/-- Queue a frame for a peer; it is refused for anything but an IPv4 address. -/
def sendTo (s : IcmpServer) (addr : Option EchoAddr) (b : Bytes) : Except IcmpError IcmpServer :=
  match addr with
  | none => .error (.badPeerAddress s.id)
  | some key =>
    let s' := s.makeRoom key b.length
    .ok { s' with
      replyQueue := s'.replyQueue.insert key (s'.replyQueue.getD key [] ++ [b])
      queueBytes := s'.queueBytes.insert key (s'.queueBytes.getD key 0 + b.length) }

/-- Put queued frames together, up to the first that does not fit any more. -/
def gather : Bytes → List Bytes → Bytes
  | reply, [] => reply
  | reply, p :: q =>
    if reply.length + p.length > maxReply then reply else gather (reply ++ p) q

/-- What one datagram leads to: nothing, a reply and the payload returned, or an error. -/
inductive Served where
  | ignored
  | answered (payload : Bytes) (src : EchoAddr) (reply : Bytes)
  | failed (err : IcmpError)

/-- Take in one datagram.  Only a request with an invalid checksum is answered, with what
waits for its source; whatever does not fit into the reply is gone. -/
def recv (s : IcmpServer) (b : Bytes) : Option (IcmpServer × Served) :=
  match parseEcho b with
  | none => none
  | some none => some (s, .ignored)
  | some (some e) =>
    if e.rtype ≠ icmpTypeEchoRequest ∨ e.csOK then some (s, .ignored)
    else
      let s' := { s with
        replyQueue := s.replyQueue.insert e.src []
        queueBytes := s.queueBytes.insert e.src 0 }
      let reply := gather [] (s.replyQueue.getD e.src [])
      match reqICMPOffset b with
      | none => some (s', .failed .badRequest)
      | some off => some (s', .answered e.payload e.src (echoReply (b.drop off) reply))

end IcmpServer

/-! ### The client -/

structure IcmpClient where
  clientDstIP : IPv4
  myID : UInt16
  mySeq : UInt32 := 0

namespace IcmpClient

/-- Send a frame as an echo request. -/
def send (c : IcmpClient) (b : Bytes) : IcmpClient × Bytes :=
  let c' := { c with mySeq := c.mySeq + 1 }
  (c', buildEcho icmpTypeEchoRequest c.myID c'.mySeq b true)

/-- Take in one datagram: the payload of a valid reply of the server, or nothing. -/
def recv (c : IcmpClient) (b : Bytes) : Option (Option (Bytes × EchoAddr)) :=
  match parseEcho b with
  | none => none
  | some none => some none
  | some (some e) =>
    if e.rtype ≠ icmpTypeEchoReply ∨ e.csOK = false ∨ e.id ≠ c.myID ∨ e.src.ip ≠ c.clientDstIP then
      some none
    else some (some (e.payload, e.src))

end IcmpClient

/-! ### A client and a server -/

/-- The fields of an IPv4 header that the transport does not look at. -/
structure IPHeader where
  tos : UInt8 := 0
  ident : UInt16 := 0
  dontFragment : Bool := false
  ttl : UInt8 := 64
  csum : UInt16 := 0

/-- The datagram a raw socket reads: an IPv4 header without options, and the ICMP packet. -/
def IPHeader.datagram (h : IPHeader) (src dst : IPv4) (pkt : Bytes) : Bytes :=
  0x45 :: h.tos :: (putUint16 (UInt16.ofNat (ipHdrLen + pkt.length)) ++ (putUint16 h.ident ++
    ((if h.dontFragment then 0x40 else 0) :: 0 :: h.ttl :: 1 ::
      (putUint16 h.csum ++ (src.bytes ++ (dst.bytes ++ pkt))))))

/-- A client and a server, and the packets on the way between them, in order. -/
structure IcmpLink where
  clientIP : IPv4
  client : IcmpClient
  server : IcmpServer := {}
  requests : List Bytes := []
  replies : List Bytes := []

/-- The address of the client, as the server sees it. -/
def IcmpLink.peer (l : IcmpLink) : EchoAddr := ⟨l.clientIP, 0⟩

/-- The frames that wait for the client. -/
def IcmpLink.queue (l : IcmpLink) : List Bytes := l.server.replyQueue.getD l.peer []

/-- What happens at the two ends: the server queues a frame, the client sends a request, or
one of them takes in the next packet on its way. -/
inductive IcmpEvent where
  | sendTo (b : Bytes)
  | send (b : Bytes)
  | serverRecv (ip : IPHeader)
  | clientRecv (ip : IPHeader)

/-- What can be seen: a frame was queued, or a receive call of the client returned. -/
inductive IcmpOutput where
  | queued (b : Bytes)
  | returned (b : Bytes)
deriving DecidableEq

namespace IcmpLink

/-- One event, without loss; none after a panic.  A receive call with no packet on the way
blocks, and a packet that is too large for a datagram is not sent. -/
def step : Option IcmpLink → IcmpEvent → Option IcmpLink × List IcmpOutput
  | none, _ => (none, [])
  | some l, .sendTo b =>
    match l.server.sendTo (some l.peer) b with
    | .error _ => (some l, [])
    | .ok server => (some { l with server := server }, [.queued b])
  | some l, .send b =>
    let (client, pkt) := l.client.send b
    (some { l with
      client := client
      requests := if ipHdrLen + pkt.length ≤ 65535 then l.requests ++ [pkt] else l.requests }, [])
  | some l, .serverRecv ip =>
    match l.requests with
    | [] => (some l, [])
    | pkt :: rest =>
      match l.server.recv (ip.datagram l.clientIP l.client.clientDstIP pkt) with
      | none => (none, [])
      | some (server, .answered _ _ reply) =>
        (some { l with server := server, requests := rest, replies := l.replies ++ [reply] }, [])
      | some (server, _) => (some { l with server := server, requests := rest }, [])
  | some l, .clientRecv ip =>
    match l.replies with
    | [] => (some l, [])
    | pkt :: rest =>
      match l.client.recv (ip.datagram l.client.clientDstIP l.clientIP pkt) with
      | none => (none, [])
      | some none => (some { l with replies := rest }, [])
      | some (some (b, _)) => (some { l with replies := rest }, [.returned b])

end IcmpLink

/-! ### Packets read back -/

theorem length_echoPacket (typ code : UInt8) (csum id seq : UInt16) (payload : Bytes) :
    (echoPacket typ code csum id seq payload).length = icmpHdrLen + payload.length := by
  simp only [echoPacket, List.length_cons, List.length_append, length_putUint16, icmpHdrLen]
  omega

theorem length_datagram (h : IPHeader) (src dst : IPv4) (pkt : Bytes) :
    (h.datagram src dst pkt).length = ipHdrLen + pkt.length := by
  simp only [IPHeader.datagram, IPv4.bytes, List.length_cons, List.length_append, length_putUint16,
    List.length_nil, ipHdrLen]
  omega

theorem putUint16_eq (x : UInt16) :
    putUint16 x = [UInt8.ofNat (x.toNat / 256), UInt8.ofNat x.toNat] := by
  simp [putUint16, beBytes]

theorem ihl_datagram (h : IPHeader) (src dst : IPv4) (pkt : Bytes) :
    ((h.datagram src dst pkt).getD 0 0 &&& 0x0f).toNat * 4 = ipHdrLen :=
  (rfl : ((0x45 : UInt8) &&& 0x0f).toNat * 4 = ipHdrLen)

theorem drop_datagram (h : IPHeader) (src dst : IPv4) (pkt : Bytes) :
    (h.datagram src dst pkt).drop ipHdrLen = pkt := by
  simp [IPHeader.datagram, putUint16_eq, IPv4.bytes, ipHdrLen]

variable {payload : Bytes}

/-- **A packet is read back** from the datagram that carries it. -/
theorem parseEcho_datagram (h : IPHeader) (src dst : IPv4) {typ : UInt8} (code : UInt8)
    (csum id seq : UInt16) (htyp : typ = icmpTypeEchoRequest ∨ typ = icmpTypeEchoReply)
    (hlen : ipHdrLen + icmpHdrLen + payload.length ≤ 65535) :
    parseEcho (h.datagram src dst (echoPacket typ code csum id seq payload)) =
      some (some ⟨payload, ⟨src, 0⟩, typ, id,
        decide (checksum (echoPacket typ code csum id seq payload) = 0)⟩) := by
  generalize hpkt : echoPacket typ code csum id seq payload = pkt
  have hplen : pkt.length = icmpHdrLen + payload.length := by rw [← hpkt, length_echoPacket]
  have hdlen := length_datagram h src dst pkt
  have htotal : (uint16 ((h.datagram src dst pkt).drop 2)).toNat = ipHdrLen + pkt.length :=
    (congrArg UInt16.toNat (uint16_put _ _)).trans
      (UInt16.toNat_ofNat_of_lt (by rw [hplen]; unfold UInt16.size; omega))
  have hfrag : uint16 ((h.datagram src dst pkt).drop 6) &&& 0x1fff = 0 := by
    show uint16 [if h.dontFragment then 0x40 else 0, 0] &&& 0x1fff = 0
    cases h.dontFragment <;> decide
  have hsrc : (⟨(h.datagram src dst pkt).getD 12 0, (h.datagram src dst pkt).getD 13 0,
      (h.datagram src dst pkt).getD 14 0, (h.datagram src dst pkt).getD 15 0⟩ : IPv4) = src := rfl
  have hicmp : ((h.datagram src dst pkt).take (ipHdrLen + pkt.length)).drop ipHdrLen = pkt := by
    rw [← hdlen, List.take_length, drop_datagram]
  have hhead : pkt.head? = some typ := by rw [← hpkt]; rfl
  have hpay : pkt.drop icmpHdrLen = payload := by rw [← hpkt]; rfl
  have hid : uint16 (pkt.drop 4) = id := hpkt ▸ uint16_put id (putUint16 seq ++ payload)
  unfold parseEcho
  rw [hdlen, if_neg (by omega), if_neg (by show ¬ (0x45 : UInt8) >>> 4 ≠ 4; decide)]
  dsimp only
  rw [ihl_datagram, if_neg (by omega), show (h.datagram src dst pkt).getD 9 0 = 1 from rfl, if_neg (by decide), hfrag,
    if_neg (by decide), htotal, ite_self, if_neg (by omega), hicmp, hhead, hsrc]
  dsimp only
  rw [if_neg (by rcases htyp with rfl | rfl <;> decide), if_neg (by omega), hpay, hid]

/-! ### Requests and replies -/

/-- An echo packet with its checksum filled in. -/
def sealedEcho (typ : UInt8) (id seq : UInt16) (payload : Bytes) : Bytes :=
  echoPacket typ 0 (checksum (echoPacket typ 0 0 id seq payload)) id seq payload

/-- The packet is a reply to the client `id` that carries `payload`. -/
def IsReply (id : UInt16) (pkt payload : Bytes) : Prop :=
  payload.length ≤ maxReply ∧ ∃ seq, pkt = sealedEcho icmpTypeEchoReply id seq payload

theorem echoReply_request (csum id seq : UInt16) (payload reply : Bytes) :
    echoReply (echoPacket icmpTypeEchoRequest 0 csum id seq payload) reply =
      sealedEcho icmpTypeEchoReply id seq reply := by
  have hhdr : ((echoPacket icmpTypeEchoRequest 0 csum id seq payload).take icmpHdrLen).drop 4 =
      putUint16 id ++ putUint16 seq := by simp [echoPacket, putUint16_eq, icmpHdrLen]
  rw [echoReply, hhdr]
  simp only [List.append_assoc]
  rfl

/-- **A reply is accepted** by its client. -/
theorem recv_reply (c : IcmpClient) (h : IPHeader) (dst : IPv4) {pkt : Bytes}
    (hreply : IsReply c.myID pkt payload) :
    c.recv (h.datagram c.clientDstIP dst pkt) = some (some (payload, ⟨c.clientDstIP, 0⟩)) := by
  obtain ⟨hlen, seq, rfl⟩ := hreply
  have hsize : ipHdrLen + icmpHdrLen + payload.length ≤ 65535 := by
    unfold maxReply icmpHdrLen at hlen
    unfold ipHdrLen icmpHdrLen
    omega
  have hvalid : checksum (sealedEcho icmpTypeEchoReply c.myID seq payload) = 0 := by
    apply checksum_sealed
    simp only [List.length_append, length_putUint16]
    unfold ipHdrLen icmpHdrLen at hsize
    omega
  rw [IcmpClient.recv, sealedEcho, parseEcho_datagram h _ _ _ _ _ _ (.inr rfl) hsize, ← sealedEcho,
    hvalid]
  simp

/-- Whether the checksum of a request is valid by accident. -/
def validByAccident (id : UInt16) (seq : UInt32) (payload : Bytes) : Prop :=
  checksum (buildEcho icmpTypeEchoRequest id seq payload true) = 0

instance (id : UInt16) (seq : UInt32) (payload : Bytes) :
    Decidable (validByAccident id seq payload) := inferInstanceAs (Decidable (_ = _))

/-- The packet is a request of the client `id` that a datagram can carry. -/
def IsRequest (id : UInt16) (pkt : Bytes) (seq : UInt32) (payload : Bytes) : Prop :=
  pkt = buildEcho icmpTypeEchoRequest id seq payload true ∧
    ipHdrLen + icmpHdrLen + payload.length ≤ 65535

/-- **A request is answered** with what waits for its source, unless its checksum is valid by
accident. -/
theorem recv_request (s : IcmpServer) (h : IPHeader) (src dst : IPv4) {id : UInt16} {pkt : Bytes}
    {seq : UInt32} (hreq : IsRequest id pkt seq payload) :
    (validByAccident id seq payload ∧ s.recv (h.datagram src dst pkt) = some (s, .ignored)) ∨
      (¬ validByAccident id seq payload ∧ s.recv (h.datagram src dst pkt) = some ({ s with
              replyQueue := s.replyQueue.insert ⟨src, 0⟩ []
              queueBytes := s.queueBytes.insert ⟨src, 0⟩ 0 },
            .answered payload ⟨src, 0⟩ (sealedEcho icmpTypeEchoReply id seq.toUInt16
              (IcmpServer.gather [] (s.replyQueue.getD ⟨src, 0⟩ []))))) := by
  obtain ⟨rfl, hlen⟩ := hreq
  have hparse : parseEcho (h.datagram src dst (buildEcho icmpTypeEchoRequest id seq payload true)) =
      some (some ⟨payload, ⟨src, 0⟩, icmpTypeEchoRequest, id,
        decide (validByAccident id seq payload)⟩) :=
    parseEcho_datagram h src dst 0 _ id seq.toUInt16 (.inl rfl) hlen
  have hoff : reqICMPOffset (h.datagram src dst
      (buildEcho icmpTypeEchoRequest id seq payload true)) = some ipHdrLen := by
    have hdlen : (h.datagram src dst (buildEcho icmpTypeEchoRequest id seq payload true)).length =
        ipHdrLen + (icmpHdrLen + payload.length) := by
      rw [length_datagram, buildEcho, length_echoPacket]
    unfold reqICMPOffset
    rw [hdlen, if_neg (by omega)]
    dsimp only
    rw [ihl_datagram, if_neg (by omega)]
  by_cases hacc : validByAccident id seq payload
  · refine .inl ⟨hacc, ?_⟩
    rw [IcmpServer.recv, hparse]
    dsimp only
    rw [if_pos (.inr (decide_eq_true hacc))]
  · refine .inr ⟨hacc, ?_⟩
    rw [IcmpServer.recv, hparse, hoff]
    dsimp only
    rw [if_neg (by simp [hacc]), drop_datagram, buildEcho, echoReply_request]

/-- The sum of the words of a request without its checksum. -/
def requestSum (id : UInt16) (seq : UInt32) (payload : Bytes) : ℕ :=
  2048 + id.toNat + seq.toNat % 65536 + wordSum payload

theorem wordSum_request (id : UInt16) (seq : UInt32) (payload : Bytes) :
    wordSum (echoPacket icmpTypeEchoRequest 0 0 id seq.toUInt16 payload) =
      requestSum id seq payload := by
  rw [echoPacket, requestSum, wordSum, wordSum_put, wordSum_put, wordSum_put, UInt32.toNat_toUInt16]
  change 8 * 256 + 0 + (0 + _) = _
  omega

section
variable (id : UInt16) (seq : UInt32) {payload : Bytes}

theorem validByAccident_iff (hlen : ipHdrLen + icmpHdrLen + payload.length ≤ 65535) :
    validByAccident id seq payload ↔ requestSum id seq payload % 65535 = 0 := by
  have hroom : (putUint16 id ++ (putUint16 seq.toUInt16 ++ payload)).length + 4 ≤ 65535 := by
    simp only [List.length_append, length_putUint16]
    unfold ipHdrLen icmpHdrLen at hlen
    omega
  have hpos : requestSum id seq payload ≠ 0 := by
    unfold requestSum
    omega
  rw [validByAccident]
  refine (checksum_marked hroom).trans ?_
  rw [← echoPacket, wordSum_request]
  exact and_iff_right hpos

theorem checksum_buildEcho (typ : UInt8) (hlen : ipHdrLen + icmpHdrLen + payload.length ≤ 65535) :
    checksum (buildEcho typ id seq payload false) = 0 := by
  apply checksum_sealed
  simp only [List.length_append, length_putUint16]
  unfold ipHdrLen icmpHdrLen at hlen
  omega

/-- **The mark of a request**: with it the packet does not verify and is reported so, unless its
words sum up to a multiple of 65535; without it the packet verifies. -/
theorem marker_reported (h : IPHeader) (src dst : IPv4)
    (hlen : ipHdrLen + icmpHdrLen + payload.length ≤ 65535) :
    (checksum (buildEcho icmpTypeEchoRequest id seq payload true) ≠ 0 ↔
      requestSum id seq payload % 65535 ≠ 0) ∧
    parseEcho (h.datagram src dst (buildEcho icmpTypeEchoRequest id seq payload true)) =
      some (some ⟨payload, ⟨src, 0⟩, icmpTypeEchoRequest, id,
        decide (requestSum id seq payload % 65535 = 0)⟩) ∧
    checksum (buildEcho icmpTypeEchoRequest id seq payload false) = 0 ∧
    parseEcho (h.datagram src dst (buildEcho icmpTypeEchoRequest id seq payload false)) =
      some (some ⟨payload, ⟨src, 0⟩, icmpTypeEchoRequest, id, true⟩) := by
  have hmarked : checksum (buildEcho icmpTypeEchoRequest id seq payload true) = 0 ↔
      requestSum id seq payload % 65535 = 0 := validByAccident_iff id seq hlen
  have hsealed := checksum_buildEcho id seq icmpTypeEchoRequest hlen
  refine ⟨not_congr hmarked, ?_, hsealed, ?_⟩
  · rw [buildEcho, parseEcho_datagram h src dst 0 _ id seq.toUInt16 (.inl rfl) hlen, ← buildEcho,
      decide_eq_decide.mpr hmarked]
  · rw [buildEcho, parseEcho_datagram h src dst 0 _ id seq.toUInt16 (.inl rfl) hlen, ← buildEcho,
      decide_eq_true hsealed]

/-- The first request of a client, with a payload of two bytes. -/
theorem marker_reported_first : checksum (buildEcho icmpTypeEchoRequest 1024 1 [1, 2] true) ≠ 0 :=
  (marker_reported 1024 1 {} ⟨10, 0, 0, 1⟩ ⟨10, 0, 0, 2⟩ (by decide)).1.mpr (by decide)

/-- **A marked request that verifies**: its words sum up to 65535. -/
theorem marker_missed : checksum (buildEcho icmpTypeEchoRequest 1024 1 [0xf3, 0xfe] true) = 0 ∧
      parseEcho (IPHeader.datagram {} ⟨10, 0, 0, 1⟩ ⟨10, 0, 0, 2⟩
        (buildEcho icmpTypeEchoRequest 1024 1 [0xf3, 0xfe] true)) =
      some (some ⟨[0xf3, 0xfe], ⟨⟨10, 0, 0, 1⟩, 0⟩, icmpTypeEchoRequest, 1024, true⟩) := by
  decide

/-- **Of three requests in a row one is answered**: their sequence numbers differ by one, so
the checksum of at most two of them is valid by accident. -/
theorem request_accepted (hlen : ipHdrLen + icmpHdrLen + payload.length ≤ 65535) :
    ¬ (validByAccident id (seq + 1) payload ∧ validByAccident id (seq + 1 + 1) payload ∧
      validByAccident id (seq + 1 + 1 + 1) payload) := by
  rw [validByAccident_iff id _ hlen, validByAccident_iff id _ hlen, validByAccident_iff id _ hlen]
  simp only [requestSum]
  rintro ⟨h1, h2, h3⟩
  have hnext : ∀ s : UInt32, (s + 1).toNat % 65536 = (s.toNat % 65536 + 1) % 65536 := by
    intro s
    rw [UInt32.toNat_add]
    change (s.toNat + 1) % 2 ^ 32 % 65536 = _
    omega
  rw [hnext] at h1 h2 h3
  rw [hnext] at h2 h3
  rw [hnext] at h3
  generalize 2048 + id.toNat = c at *
  generalize wordSum payload = w at *
  have hx : seq.toNat % 65536 < 65536 := Nat.mod_lt _ (by decide)
  generalize seq.toNat % 65536 = x at *
  omega

end

end FlexBraid
