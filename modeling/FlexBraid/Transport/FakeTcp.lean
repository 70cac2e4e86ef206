import FlexBraid.Transport.RawSocket

/-!
# FakeTCP segments

Frames ride in the payloads of segments that look like those of a TCP connection.  A segment is
built with its IPv4 header, both with a checksum, and read from the datagram a raw socket hands
over.

The random identifier of a datagram is an argument.

## Main definitions

* `buildSegment`, `parseSegment` — the two directions.
* `ipChecksum`, `checksumWithPseudo` — the checksums, `pseudoSum` the sum behind the second.

## Main results

* `parseSegment_buildSegment` — **a segment is read back as it was built**, and its checksums
  verify.
-/

namespace FlexBraid

open OnesComplement

/-! ### Segments -/

def tcpFlagFIN : UInt8 := 0x01

def tcpFlagSYN : UInt8 := 0x02

def tcpFlagRST : UInt8 := 0x04

def tcpFlagPSH : UInt8 := 0x08

def tcpFlagACK : UInt8 := 0x10

/-- The length of a TCP header without options. -/
def tcpHdrLen : ℕ := 20

/-- The checksum of an IPv4 header. -/
def ipChecksum (b : Bytes) : UInt16 := checksum b

/-- The sum of a segment and its pseudo-header: the addresses, the protocol and the length. -/
def pseudoSum (src dst : IPv4) (tcp : Bytes) : ℕ :=
  wordSum src.bytes + wordSum dst.bytes + 6 + tcp.length + wordSum tcp

def checksumWithPseudo (src dst : IPv4) (tcp : Bytes) : UInt16 := sumCheck (pseudoSum src dst tcp)

def tcpChecksum (src dst : IPv4) (tcp : Bytes) : UInt16 := checksumWithPseudo src dst tcp

def validTCPChecksum (src dst : IPv4) (tcp : Bytes) : Bool :=
  if tcp.length < tcpHdrLen then false else checksumWithPseudo src dst tcp == 0

/-- The IPv4 header of a segment: no options, no fragments, protocol TCP. -/
def ipHeader (total id csum : UInt16) (src dst : IPv4) : Bytes :=
  0x45 :: 0 :: (putUint16 total ++ (putUint16 id ++ (0 :: 0 :: 64 :: 6 ::
    (putUint16 csum ++ (src.bytes ++ dst.bytes)))))

/-- The TCP header, with a data offset of 20 bytes and the largest window, and the payload. -/
def tcpSegment (srcPort dstPort : UInt16) (seq ack : UInt32) (flags : UInt8) (csum : UInt16)
    (payload : Bytes) : Bytes :=
  putUint16 srcPort ++ (putUint16 dstPort ++ (putUint32 seq ++ (putUint32 ack ++
    (0x50 :: flags :: (putUint16 65535 ++ (putUint16 csum ++ (0 :: 0 :: payload)))))))

def buildSegment (src dst : IPv4) (srcPort dstPort : UInt16) (seq ack : UInt32) (flags : UInt8)
    (id : UInt16) (payload : Bytes) : Bytes :=
  let total := UInt16.ofNat (ipHdrLen + tcpHdrLen + payload.length)
  let ipSum := ipChecksum (ipHeader total id 0 src dst)
  let tcpSum := tcpChecksum src dst (tcpSegment srcPort dstPort seq ack flags 0 payload)
  ipHeader total id ipSum src dst ++ tcpSegment srcPort dstPort seq ack flags tcpSum payload

/-- What is read from a segment. -/
structure ParsedSegment where
  payload : Bytes
  src : EchoAddr
  dstPort : UInt16
  syn : Bool
  seq : UInt32
deriving DecidableEq

/-- Read the segment inside a datagram.  One that resets or ends a connection is not accepted,
nor one with a wrong checksum. -/
def parseTCP (src dst : IPv4) (tcp : Bytes) : Option (Option ParsedSegment) := do
  let dstPort ← uint16At tcp 2
  let flags : UInt8 ← tcp[13]?
  if flags &&& (tcpFlagRST ||| tcpFlagFIN) ≠ 0 then some none
  else if !validTCPChecksum src dst tcp then some none
  else do
    let doff : UInt8 ← tcp[12]?
    let off := (doff >>> 4).toNat * 4
    if off < tcpHdrLen ∨ tcp.length < off then some none
    else do
      let seq ← uint32At tcp 4
      let payload ← GoSlice.tail tcp off
      let srcPort ← uint16At tcp 0
      some (some ⟨payload, ⟨src, srcPort⟩, dstPort, decide (flags &&& tcpFlagSYN ≠ 0), seq⟩)

/-- Read a datagram from the raw socket. -/
def parseSegment (b : Bytes) : Option (Option ParsedSegment) := do
  match ← openIPv4 ipHdrLen tcpHdrLen 6 b with
  | none => some none
  | some ip => do
    let dst ← ipAt b 16
    parseTCP ip.src dst ip.inner

/-! ### Checksums -/

section
variable (total id csum : UInt16) (src dst : IPv4) (srcPort dstPort : UInt16) (seq ack : UInt32)
  (flags : UInt8) (payload : Bytes)

@[simp] theorem length_ipHeader : (ipHeader total id csum src dst).length = ipHdrLen := by
  simp [ipHeader, IPv4.bytes, ipHdrLen]

@[simp] theorem length_tcpSegment :
    (tcpSegment srcPort dstPort seq ack flags csum payload).length = tcpHdrLen + payload.length := by
  simp only [tcpSegment, List.length_cons, List.length_append, length_putUint16, length_putUint32,
    tcpHdrLen]
  omega

theorem wordSum_ipHeader : wordSum (ipHeader total id csum src dst) =
      wordSum (ipHeader total id 0 src dst) + csum.toNat := by
  simp only [ipHeader, wordSum, wordSum_put]
  change _ = _ + (_ + (_ + (_ + (_ + (0 + _))))) + _
  omega

theorem pseudoSum_tcpSegment :
    pseudoSum src dst (tcpSegment srcPort dstPort seq ack flags csum payload) =
      pseudoSum src dst (tcpSegment srcPort dstPort seq ack flags 0 payload) + csum.toNat := by
  rw [pseudoSum, pseudoSum, length_tcpSegment, length_tcpSegment]
  simp only [tcpSegment, wordSum, wordSum_put, wordSum_put32]
  change _ = _ + (_ + (_ + (_ + (_ + (_ + (_ + (0 + _))))))) + _
  omega

theorem wordSum_ipHeader_lt : wordSum (ipHeader total id csum src dst) + 65535 < 2 ^ 32 :=
  wordSum_lt (by rw [length_ipHeader]; decide)

theorem pseudoSum_lt {src dst : IPv4} {tcp : Bytes} (h : tcp.length ≤ 65515) :
    pseudoSum src dst tcp + 65535 < 2 ^ 32 := by
  have hsrc := wordSum_le src.bytes
  have hdst := wordSum_le dst.bytes
  have htcp := wordSum_le tcp
  simp only [IPv4.bytes, List.length_cons, List.length_nil] at hsrc hdst
  simp only [pseudoSum, IPv4.bytes]
  omega

theorem ipChecksum_sealed :
    ipChecksum (ipHeader total id (ipChecksum (ipHeader total id 0 src dst)) src dst) = 0 := by
  rw [ipChecksum, checksum_eq, wordSum_ipHeader]
  exact sumCheck_sealed (wordSum_ipHeader_lt total id 0 src dst)

theorem tcpChecksum_sealed {payload : Bytes} (h : ipHdrLen + tcpHdrLen + payload.length ≤ 65535) :
    checksumWithPseudo src dst (tcpSegment srcPort dstPort seq ack flags
      (tcpChecksum src dst (tcpSegment srcPort dstPort seq ack flags 0 payload)) payload) = 0 := by
  rw [checksumWithPseudo, pseudoSum_tcpSegment]
  apply sumCheck_sealed
  apply pseudoSum_lt
  rw [length_tcpSegment]
  unfold ipHdrLen at h
  omega

end

/-! ### Segments read back -/

section
variable (id csum : UInt16) (src dst : IPv4) (srcPort dstPort : UInt16) (seq ack : UInt32)
  {flags : UInt8} {payload : Bytes}

theorem headerLen_ipHeader (total id csum : UInt16) (src dst : IPv4) (tcp : Bytes) :
    headerLen (ipHeader total id csum src dst ++ tcp) = ipHdrLen :=
  (rfl : ((0x45 : UInt8) &&& 0x0f).toNat * 4 = ipHdrLen)

theorem wholeIPv4_ipHeader (total : UInt16) (tcp : Bytes) (h : tcpHdrLen ≤ tcp.length) :
    WholeIPv4 ipHdrLen tcpHdrLen 6 (ipHeader total id csum src dst ++ tcp) := by
  have hlen : (ipHeader total id csum src dst ++ tcp).length = ipHdrLen + tcp.length := by
    rw [List.length_append, length_ipHeader]
  have hhdr := headerLen_ipHeader total id csum src dst tcp
  exact ⟨by omega, (by decide : (0x45 : UInt8) >>> 4 = 4), hhdr.ge, by rw [hhdr]; omega, rfl,
    (by decide : uint16 [0, 0] &&& 0x1fff = 0)⟩

theorem openIPv4_ipHeader {tcp : Bytes} (h : tcpHdrLen ≤ tcp.length)
    (hlen : ipHdrLen + tcp.length ≤ 65535) : openIPv4 ipHdrLen tcpHdrLen 6
        (ipHeader (UInt16.ofNat (ipHdrLen + tcp.length)) id csum src dst ++ tcp) =
      some (some ⟨src, ipHdrLen, tcp⟩) := by
  generalize htotal : UInt16.ofNat (ipHdrLen + tcp.length) = total
  rw [openIPv4_of_whole (wholeIPv4_ipHeader id csum src dst total tcp h)]
  generalize hb : ipHeader total id csum src dst ++ tcp = b
  have hblen : b.length = ipHdrLen + tcp.length := by
    rw [← hb, List.length_append, length_ipHeader]
  have hhdr : headerLen b = ipHdrLen := hb ▸ headerLen_ipHeader total id csum src dst tcp
  have hsrc : IPv4.ofBytes ((b.drop 12).take 4) = src := by rw [← hb]; rfl
  have hdeclared : (uint16 (b.drop 2)).toNat = ipHdrLen + tcp.length := by
    have hread : uint16 (b.drop 2) = total := hb ▸ uint16_put total []
    rw [hread, ← htotal]
    exact UInt16.toNat_ofNat_of_lt (by unfold UInt16.size; omega)
  have htot : totalLen b = ipHdrLen + tcp.length := by
    rw [totalLen, hdeclared, hblen]
    exact ite_self _
  have hinner : (b.take (ipHdrLen + tcp.length)).drop ipHdrLen = tcp := by
    rw [← hblen, List.take_length, ← hb, List.drop_left' (length_ipHeader ..)]
  rw [hhdr, htot, GoSlice.sub_eq (by omega) (by omega), hinner, hsrc, Option.map_some]

theorem parseTCP_tcpSegment {csum : UInt16} (hflags : flags &&& (tcpFlagRST ||| tcpFlagFIN) = 0)
    (hsum : checksumWithPseudo src dst
      (tcpSegment srcPort dstPort seq ack flags csum payload) = 0) :
    parseTCP src dst (tcpSegment srcPort dstPort seq ack flags csum payload) =
      some (some ⟨payload, ⟨src, srcPort⟩, dstPort, decide (flags &&& tcpFlagSYN ≠ 0), seq⟩) := by
  have hlen := length_tcpSegment csum srcPort dstPort seq ack flags payload
  unfold tcpHdrLen at hlen
  have hdst : uint16At (tcpSegment srcPort dstPort seq ack flags csum payload) 2 = some dstPort :=
    (uint16At_eq (by omega)).trans (congrArg some (uint16_put dstPort []))
  have hsrc : uint16At (tcpSegment srcPort dstPort seq ack flags csum payload) 0 = some srcPort :=
    (uint16At_eq (by omega)).trans (congrArg some (uint16_put srcPort []))
  have hseq : uint32At (tcpSegment srcPort dstPort seq ack flags csum payload) 4 = some seq :=
    (uint32At_eq (by omega)).trans (congrArg some (uint32_put seq []))
  have h13 : (tcpSegment srcPort dstPort seq ack flags csum payload)[13]? = some flags := rfl
  have h12 : (tcpSegment srcPort dstPort seq ack flags csum payload)[12]? = some 0x50 := rfl
  have hpay : (tcpSegment srcPort dstPort seq ack flags csum payload).drop tcpHdrLen = payload := rfl
  generalize tcpSegment srcPort dstPort seq ack flags csum payload = tcp at *
  have hvalid : validTCPChecksum src dst tcp = true := by
    rw [validTCPChecksum, if_neg (by unfold tcpHdrLen; omega), hsum]
    rfl
  have hoff : ((0x50 : UInt8) >>> 4).toNat * 4 = tcpHdrLen := rfl
  unfold parseTCP
  rw [hdst, h13]
  dsimp only [Option.bind_eq_bind, Option.bind_some]
  rw [if_neg (not_not.mpr hflags), hvalid, h12]
  dsimp only [Option.bind_some]
  rw [hoff, if_neg (by decide), if_neg (by unfold tcpHdrLen; omega), hseq,
    GoSlice.tail_eq (by unfold tcpHdrLen; omega), hpay, hsrc]
  rfl

theorem ipAt_ipHeader (total id csum : UInt16) (src dst : IPv4) (tcp : Bytes) :
    ipAt (ipHeader total id csum src dst ++ tcp) 16 = some dst := by
  exact ipAt_eq (by rw [List.length_append, length_ipHeader]; unfold ipHdrLen; omega)

theorem parseSegment_built (hflags : flags &&& (tcpFlagRST ||| tcpFlagFIN) = 0)
    (hlen : ipHdrLen + tcpHdrLen + payload.length ≤ 65535) :
    parseSegment (buildSegment src dst srcPort dstPort seq ack flags id payload) = some (some
        ⟨payload, ⟨src, srcPort⟩, dstPort, decide (flags &&& tcpFlagSYN ≠ 0), seq⟩) := by
  have htcp := length_tcpSegment (tcpChecksum src dst (tcpSegment srcPort dstPort seq ack flags 0
    payload)) srcPort dstPort seq ack flags payload
  rw [parseSegment, buildSegment, Nat.add_assoc, ← htcp,
    openIPv4_ipHeader _ _ _ _ (by omega) (by omega), ipAt_ipHeader]
  exact parseTCP_tcpSegment src dst srcPort dstPort seq ack hflags
    (tcpChecksum_sealed src dst srcPort dstPort seq ack flags hlen)

/-- **A segment is read back** as it was built: the payload, the addresses, the sequence number
and the SYN flag.  Both checksums verify, and no sum overflows, whatever stands in the checksum
fields. -/
theorem parseSegment_buildSegment (hflags : flags &&& (tcpFlagRST ||| tcpFlagFIN) = 0)
    (hlen : ipHdrLen + tcpHdrLen + payload.length ≤ 65535) :
    let seg := buildSegment src dst srcPort dstPort seq ack flags id payload
    parseSegment seg =
        some (some
          ⟨payload, ⟨src, srcPort⟩, dstPort, decide (flags &&& tcpFlagSYN ≠ 0), seq⟩) ∧
      ipChecksum (seg.take ipHdrLen) = 0 ∧
      checksumWithPseudo src dst (seg.drop ipHdrLen) = 0 ∧
      (∀ total csum, wordSum (ipHeader total id csum src dst) < 2 ^ 32) ∧
      ∀ csum, pseudoSum src dst (tcpSegment srcPort dstPort seq ack flags csum payload) <
        2 ^ 32 := by
  refine ⟨parseSegment_built id src dst srcPort dstPort seq ack hflags hlen, ?_, ?_,
    fun total csum => ?_, fun csum => ?_⟩
  · rw [buildSegment, List.take_left' (length_ipHeader ..)]
    exact ipChecksum_sealed _ _ src dst
  · rw [buildSegment, List.drop_left' (length_ipHeader ..)]
    exact tcpChecksum_sealed src dst srcPort dstPort seq ack flags hlen
  · exact (Nat.le_add_right ..).trans_lt (wordSum_ipHeader_lt total id csum src dst)
  · have hlt : (tcpSegment srcPort dstPort seq ack flags csum payload).length ≤ 65515 := by
      rw [length_tcpSegment]
      unfold ipHdrLen at hlen
      omega
    exact (Nat.le_add_right ..).trans_lt (pseudoSum_lt hlt)

/-- The first segment of a connection, with a payload of three bytes. -/
theorem parseSegment_first : tcpFlagSYN &&& (tcpFlagRST ||| tcpFlagFIN) = 0 ∧
      ipChecksum ((buildSegment ⟨10, 0, 0, 1⟩ ⟨10, 0, 0, 2⟩ 4000 443 0xfffffffe 0 tcpFlagSYN 7
        [1, 2, 3]).take ipHdrLen) = 0 :=
  ⟨by decide, (parseSegment_buildSegment 7 ⟨10, 0, 0, 1⟩ ⟨10, 0, 0, 2⟩ 4000 443 0xfffffffe 0
    (by decide) (by decide)).2.1⟩

end

end FlexBraid
