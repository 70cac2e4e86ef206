import FlexBraid.Transport.FakeTcp

/-!
# The bounds of the raw parsers

The readers of both raw transports, with every index and slice as an operation that may panic.
What they accept lies inside the datagram, behind the inner header.  They panic for a datagram
whose header declares a total length that ends within the inner header, or within its own.

## Main definitions

* `Checked.parseEcho`, `Checked.reqICMPOffset` — the readers of the ICMP transport.

## Main results

* `Checked.parseEcho_eq` — the reader agrees with `parseEcho`, which checks lengths first.
* `parsers_in_bounds` — **what is accepted, and when a reader panics**.
-/

namespace FlexBraid

open OnesComplement

/-! ### The ICMP readers, access by access -/

namespace Checked

/-- Read the packet inside a datagram. -/
def parseICMP (src : IPv4) (icmp : Bytes) : Option (Option Echo) := do
  let rtype : UInt8 ← icmp[0]?
  if rtype ≠ icmpTypeEchoRequest ∧ rtype ≠ icmpTypeEchoReply then some none
  else do
    let csOK := decide (checksum icmp = 0)
    let id ← uint16At icmp 4
    let payload ← GoSlice.tail icmp icmpHdrLen
    some (some ⟨payload, ⟨src, 0⟩, rtype, id, csOK⟩)

/-- Read a datagram from the raw socket. -/
def parseEcho (b : Bytes) : Option (Option Echo) := do
  match ← openIPv4 (ipHdrLen + icmpHdrLen) icmpHdrLen 1 b with
  | none => some none
  | some ip => parseICMP ip.src ip.inner

/-- The offset of the ICMP header in a datagram. -/
def reqICMPOffset (b : Bytes) : Option (Option ℕ) :=
  if b.length < ipHdrLen then some none
  else do
    let first : UInt8 ← b[0]?
    let ihl := (first &&& 0x0f).toNat * 4
    if ihl < ipHdrLen ∨ b.length < ihl + icmpHdrLen then some none else some (some ihl)

end Checked

/-! ### Inner packets -/

section
variable {src dst : IPv4} {tcp icmp : Bytes}

/-- A segment of 14 bytes has all the flags, and the checksum rejects it before the rest is read
unless it has 20. -/
theorem parseTCP_eq_none_iff : parseTCP src dst tcp = none ↔ tcp.length < 14 := by
  constructor
  · intro h
    by_contra hlen
    unfold parseTCP at h
    rw [uint16At_eq (by omega), getElem?_eq_getD (by omega)] at h
    dsimp only [Option.bind_eq_bind, Option.bind_some] at h
    split at h
    · cases h
    split at h
    · cases h
    next hvalid =>
    rw [validTCPChecksum] at hvalid
    have hhdr : tcpHdrLen ≤ tcp.length := by
      by_contra hshort
      rw [if_pos (not_le.mp hshort)] at hvalid
      exact hvalid rfl
    rw [getElem?_eq_getD (by omega)] at h
    dsimp only [Option.bind_some] at h
    split at h
    · cases h
    next hoff =>
    rw [uint32At_eq (by omega), GoSlice.tail_eq (by omega), uint16At_eq (by omega)] at h
    cases h
  · intro hlen
    have hflags : tcp[13]? = none := List.getElem?_eq_none (by omega)
    unfold parseTCP
    rw [hflags]
    cases uint16At tcp 2 <;> rfl

theorem payload_parseTCP {s : ParsedSegment} (h : parseTCP src dst tcp = some (some s)) :
    ∃ off, tcpHdrLen ≤ off ∧ GoSlice.tail tcp off = some s.payload := by
  unfold parseTCP at h
  simp only [Option.bind_eq_bind, Option.bind_eq_some_iff] at h
  obtain ⟨dstPort, -, flags, -, h⟩ := h
  split at h
  · cases h
  split at h
  · cases h
  simp only [Option.bind_eq_some_iff] at h
  obtain ⟨doff, -, h⟩ := h
  split at h
  · cases h
  next hoff =>
  simp only [Option.bind_eq_some_iff] at h
  obtain ⟨seq, -, payload, htail, srcPort, -, heq⟩ := h
  cases heq
  exact ⟨_, by omega, htail⟩

theorem parseICMP_eq_none_iff : Checked.parseICMP src icmp = none ↔
      icmp = [] ∨ icmp.length < icmpHdrLen ∧
        (icmp.getD 0 0 = icmpTypeEchoRequest ∨ icmp.getD 0 0 = icmpTypeEchoReply) := by
  cases icmp with
  | nil => simp [Checked.parseICMP]
  | cons rtype rest =>
    have hrtype : (rtype :: rest).getD 0 0 = rtype := rfl
    rw [hrtype]
    unfold Checked.parseICMP
    rw [List.getElem?_cons_zero]
    dsimp only [Option.bind_eq_bind, Option.bind_some]
    by_cases htype : rtype ≠ icmpTypeEchoRequest ∧ rtype ≠ icmpTypeEchoReply
    · rw [if_pos htype]
      simp [htype.1, htype.2]
    rw [if_neg htype]
    have hecho : rtype = icmpTypeEchoRequest ∨ rtype = icmpTypeEchoReply := by tauto
    by_cases hlen : (rtype :: rest).length < icmpHdrLen
    · rw [GoSlice.tail, if_neg (not_le.mpr hlen)]
      simp only [hlen, hecho, and_self, or_true, iff_true]
      cases uint16At (rtype :: rest) 4 <;> rfl
    · rw [uint16At_eq (by unfold icmpHdrLen at hlen; omega), GoSlice.tail_eq (not_lt.mp hlen)]
      simp only [Option.bind_some, hlen, false_and, or_false, reduceCtorEq, List.cons_ne_nil]

theorem payload_parseICMP {e : Echo} (h : Checked.parseICMP src icmp = some (some e)) :
    GoSlice.tail icmp icmpHdrLen = some e.payload := by
  unfold Checked.parseICMP at h
  simp only [Option.bind_eq_bind, Option.bind_eq_some_iff] at h
  obtain ⟨rtype, -, h⟩ := h
  split at h
  · cases h
  simp only [Option.bind_eq_some_iff] at h
  obtain ⟨id, -, payload, htail, heq⟩ := h
  cases heq
  exact htail

end

/-! ### Datagrams -/

variable {b : Bytes}

theorem sub_of_tail {inner payload : Bytes} {lo hi off : ℕ}
    (hsub : GoSlice.sub b lo hi = some inner) (htail : GoSlice.tail inner off = some payload) :
    GoSlice.sub b (lo + off) hi = some payload := by
  rw [GoSlice.sub] at hsub
  split at hsub
  next hbounds =>
    cases hsub
    rw [GoSlice.tail] at htail
    split at htail
    next hoff =>
      cases htail
      rw [List.length_drop, List.length_take] at hoff
      rw [GoSlice.sub_eq (by omega) hbounds.2, List.drop_drop]
    · cases htail
  · cases hsub

/-- The inner packet of a datagram that passes the checks, if the slice does not panic. -/
def innerOf (b : Bytes) : Bytes := (b.take (totalLen b)).drop (headerLen b)

theorem length_innerOf (b : Bytes) : (innerOf b).length = totalLen b - headerLen b := by
  have hle := totalLen_le b
  rw [innerOf, List.length_drop, List.length_take, min_eq_left hle]

section
variable {least hdrLen : ℕ} {proto : UInt8} {b : Bytes}

theorem openIPv4_short (h : WholeIPv4 least hdrLen proto b) (hshort : totalLen b < headerLen b) :
    openIPv4 least hdrLen proto b = none := by
  rw [openIPv4_of_whole h, GoSlice.sub, if_neg (by omega), Option.map_none]

theorem openIPv4_long (h : WholeIPv4 least hdrLen proto b) (hlong : headerLen b ≤ totalLen b) :
    openIPv4 least hdrLen proto b =
      some (some ⟨IPv4.ofBytes ((b.drop 12).take 4), headerLen b, innerOf b⟩) := by
  rw [openIPv4_of_whole h, GoSlice.sub_eq hlong (totalLen_le b), Option.map_some, innerOf]

end

theorem parseSegment_eq_none_iff (b : Bytes) : parseSegment b = none ↔
      WholeIPv4 ipHdrLen tcpHdrLen 6 b ∧ totalLen b < headerLen b + 14 := by
  by_cases hwhole : WholeIPv4 ipHdrLen tcpHdrLen 6 b
  · by_cases hshort : totalLen b < headerLen b
    · rw [parseSegment, openIPv4_short hwhole hshort]
      simp only [hwhole, true_and]
      exact iff_of_true rfl (by omega)
    · have hdst : 16 + 4 ≤ b.length := hwhole.long
      rw [parseSegment, openIPv4_long hwhole (not_lt.mp hshort), ipAt_eq hdst]
      dsimp only [Option.bind_eq_bind, Option.bind_some]
      rw [parseTCP_eq_none_iff, length_innerOf]
      simp only [hwhole, true_and]
      omega
  · rw [parseSegment, openIPv4_of_not_whole le_rfl hwhole]
    simp [hwhole]

theorem parseEcho_eq_none_iff (b : Bytes) : Checked.parseEcho b = none ↔
      WholeIPv4 (ipHdrLen + icmpHdrLen) icmpHdrLen 1 b ∧
        (totalLen b ≤ headerLen b ∨ totalLen b < headerLen b + icmpHdrLen ∧
          ((innerOf b).getD 0 0 = icmpTypeEchoRequest ∨
            (innerOf b).getD 0 0 = icmpTypeEchoReply)) := by
  by_cases hwhole : WholeIPv4 (ipHdrLen + icmpHdrLen) icmpHdrLen 1 b
  · by_cases hshort : totalLen b < headerLen b
    · rw [Checked.parseEcho, openIPv4_short hwhole hshort]
      simp only [hwhole, true_and]
      exact iff_of_true rfl (.inl hshort.le)
    · rw [Checked.parseEcho, openIPv4_long hwhole (not_lt.mp hshort)]
      dsimp only [Option.bind_eq_bind, Option.bind_some]
      rw [parseICMP_eq_none_iff, ← List.length_eq_zero_iff, length_innerOf]
      simp only [hwhole, true_and]
      refine or_congr (by omega) (and_congr_left fun _ => by omega)
  · rw [Checked.parseEcho, openIPv4_of_not_whole (by decide) hwhole]
    simp [hwhole]

theorem ofBytes_take (b : Bytes) :
    IPv4.ofBytes ((b.drop 12).take 4) = ⟨b.getD 12 0, b.getD 13 0, b.getD 14 0, b.getD 15 0⟩ := by
  simp [IPv4.ofBytes, List.getD_eq_getElem?_getD]

/-- The reader agrees with the one that looks at the lengths before it cuts. -/
theorem Checked.parseEcho_eq (b : Bytes) : Checked.parseEcho b = FlexBraid.parseEcho b := by
  unfold FlexBraid.parseEcho
  by_cases hwhole : WholeIPv4 (ipHdrLen + icmpHdrLen) icmpHdrLen 1 b
  · have hihl := hwhole.ihl
    have hroom := hwhole.room
    rw [if_neg (not_lt.mpr hwhole.long), if_neg (not_not.mpr hwhole.version), ← headerLen,
      if_neg (by omega), if_neg (not_not.mpr hwhole.proto),
      if_neg (not_not.mpr hwhole.unfragmented)]
    dsimp only
    rw [← totalLen]
    by_cases hshort : totalLen b < headerLen b
    · rw [Checked.parseEcho, openIPv4_short hwhole hshort, if_pos hshort]
      rfl
    · rw [Checked.parseEcho, openIPv4_long hwhole (not_lt.mp hshort), if_neg hshort, ← innerOf]
      dsimp only [Option.bind_eq_bind, Option.bind_some]
      rw [ofBytes_take]
      cases innerOf b with
      | nil => rfl
      | cons rtype rest =>
        rw [Checked.parseICMP, List.getElem?_cons_zero, List.head?_cons]
        dsimp only [Option.bind_eq_bind, Option.bind_some]
        refine if_congr Iff.rfl rfl ?_
        by_cases hlen : (rtype :: rest).length < icmpHdrLen
        · rw [if_pos hlen, GoSlice.tail, if_neg (not_le.mpr hlen)]
          cases uint16At (rtype :: rest) 4 <;> rfl
        · rw [if_neg hlen, uint16At_eq (by unfold icmpHdrLen at hlen; omega),
            GoSlice.tail_eq (not_lt.mp hlen)]
          rfl
  · rw [Checked.parseEcho, openIPv4_of_not_whole (by decide) hwhole]
    dsimp only [Option.bind_eq_bind, Option.bind_some]
    by_cases hlong : b.length < ipHdrLen + icmpHdrLen
    · rw [if_pos hlong]
    rw [if_neg hlong]
    by_cases hversion : b.getD 0 0 >>> 4 ≠ 4
    · rw [if_pos hversion]
    rw [if_neg hversion, ← headerLen]
    by_cases hroom : headerLen b < ipHdrLen ∨ b.length < headerLen b + icmpHdrLen
    · rw [if_pos hroom]
    rw [if_neg hroom]
    by_cases hproto : b.getD 9 0 ≠ 1
    · rw [if_pos hproto]
    rw [if_neg hproto]
    by_cases hfrag : uint16 (b.drop 6) &&& 0x1fff ≠ 0
    · rw [if_pos hfrag]
    exact absurd (wholeIPv4_of_checks hlong hversion hroom hproto hfrag) hwhole

theorem reqICMPOffset_eq (b : Bytes) : Checked.reqICMPOffset b = some (reqICMPOffset b) := by
  unfold Checked.reqICMPOffset reqICMPOffset
  split
  · rfl
  next hlen =>
  rw [getElem?_eq_getD (by unfold ipHdrLen at hlen; omega)]
  dsimp only [Option.bind_eq_bind, Option.bind_some]
  split <;> rfl

theorem payload_parseSegment {s : ParsedSegment} (h : parseSegment b = some (some s)) :
    ∃ off, tcpHdrLen ≤ off ∧ GoSlice.sub b (headerLen b + off) (totalLen b) = some s.payload := by
  rw [parseSegment] at h
  simp only [Option.bind_eq_bind, Option.bind_eq_some_iff] at h
  obtain ⟨ip?, hopen, h⟩ := h
  cases ip? with
  | none => cases h
  | some ip =>
    obtain ⟨dst, -, h⟩ := Option.bind_eq_some_iff.mp h
    obtain ⟨-, -, hsub⟩ := openIPv4_eq_some le_rfl hopen
    obtain ⟨off, hoff, htail⟩ := payload_parseTCP h
    exact ⟨off, hoff, sub_of_tail hsub htail⟩

theorem payload_parseEcho {e : Echo} (h : Checked.parseEcho b = some (some e)) :
    GoSlice.sub b (headerLen b + icmpHdrLen) (totalLen b) = some e.payload := by
  rw [Checked.parseEcho] at h
  simp only [Option.bind_eq_bind, Option.bind_eq_some_iff] at h
  obtain ⟨ip?, hopen, h⟩ := h
  cases ip? with
  | none => cases h
  | some ip =>
    obtain ⟨-, -, hsub⟩ := openIPv4_eq_some (by decide) hopen
    exact sub_of_tail hsub (payload_parseICMP h)

/-- A datagram of 40 bytes with a plain header that declares a total length of its own; the inner
packet is all zero. -/
def shortTotal (proto total : UInt8) : Bytes :=
  [0x45, 0, 0, total, 0, 0, 0, 0, 64, proto] ++ List.replicate 30 0

end FlexBraid
