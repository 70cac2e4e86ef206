import FlexBraid.Lib.GoSlice
import FlexBraid.Transport.Icmp

/-!
# Datagrams from a raw socket

A raw socket hands over whole IPv4 datagrams, before anything is authenticated.  Both transports
that use one check the header in the same way and then cut the inner packet out, from the end of
the header to the total length that the header declares.  The header length is checked against the
datagram and so is the total length, but not the one against the other: a total length that lies
within the header makes the slice panic.

Every access is an operation that may panic; `none` is the panic.

## Main definitions

* `uint16At`, `uint32At`, `ipAt` — the reads.
* `openIPv4` — the checks on the header, and the inner packet.
* `headerLen`, `totalLen` — the two lengths of a datagram.
* `WholeIPv4` — what the checks amount to.

## Main results

* `openIPv4_of_whole`, `openIPv4_of_not_whole` — **the checks keep all accesses in bounds** but
  the slice of the inner packet.
-/

namespace FlexBraid

/-! ### Reads -/

/-- The 16-bit number at an offset. -/
def uint16At (b : Bytes) (off : ℕ) : Option UInt16 := (GoSlice.sub b off (off + 2)).map uint16

/-- The 32-bit number at an offset. -/
def uint32At (b : Bytes) (off : ℕ) : Option UInt32 := (GoSlice.sub b off (off + 4)).map uint32

/-- The address in four bytes. -/
def IPv4.ofBytes (b : Bytes) : IPv4 := ⟨b.getD 0 0, b.getD 1 0, b.getD 2 0, b.getD 3 0⟩

/-- The address at an offset. -/
def ipAt (b : Bytes) (off : ℕ) : Option IPv4 := (GoSlice.sub b off (off + 4)).map IPv4.ofBytes

variable {b : Bytes} {off : ℕ}

theorem sub_eq_take_drop {n : ℕ} (h : off + n ≤ b.length) :
    GoSlice.sub b off (off + n) = some ((b.drop off).take n) := by
  rw [GoSlice.sub_eq (by omega) h, List.drop_take, Nat.add_sub_cancel_left]

theorem uint16At_eq (h : off + 2 ≤ b.length) : uint16At b off = some (uint16 (b.drop off)) := by
  rw [uint16At, sub_eq_take_drop h, Option.map_some, uint16, uint16, List.take_take, min_self]

theorem uint32At_eq (h : off + 4 ≤ b.length) : uint32At b off = some (uint32 (b.drop off)) := by
  rw [uint32At, sub_eq_take_drop h, Option.map_some, uint32, uint32, List.take_take, min_self]

theorem ipAt_eq (h : off + 4 ≤ b.length) :
    ipAt b off = some (IPv4.ofBytes ((b.drop off).take 4)) := by
  rw [ipAt, sub_eq_take_drop h, Option.map_some]

theorem getElem?_eq_getD {i : ℕ} (h : i < b.length) : b[i]? = some (b.getD i 0) := by
  rw [List.getD_eq_getElem?_getD, List.getElem?_eq_getElem h, Option.getD_some]

/-! ### The IPv4 header -/

/-- What is cut out of a datagram: the source address, the length of the header and the inner
packet. -/
structure IPv4Inner where
  src : IPv4
  ihl : ℕ
  inner : Bytes

/-- Check the header of a datagram of at least `least` bytes that holds a packet of the protocol
`proto` with a header of `hdrLen` bytes, and cut the packet out. -/
def openIPv4 (least hdrLen : ℕ) (proto : UInt8) (b : Bytes) : Option (Option IPv4Inner) :=
  if b.length < least then some none
  else do
    let first : UInt8 ← b[0]?
    if first >>> 4 ≠ 4 then some none
    else
      let ihl := (first &&& 0x0f).toNat * 4
      if ihl < ipHdrLen ∨ b.length < ihl + hdrLen then some none
      else do
        let p : UInt8 ← b[9]?
        if p ≠ proto then some none
        else do
          let frag ← uint16At b 6
          if frag &&& 0x1fff ≠ 0 then some none
          else do
            let total ← uint16At b 2
            let total := if total.toNat = 0 ∨ b.length < total.toNat then b.length else total.toNat
            let src ← ipAt b 12
            let inner ← GoSlice.sub b ihl total
            some (some ⟨src, ihl, inner⟩)

/-- The length of the header of a datagram. -/
def headerLen (b : Bytes) : ℕ := (b.getD 0 0 &&& 0x0f).toNat * 4

/-- The total length of a datagram: the declared one, or all of it if that cannot be. -/
def totalLen (b : Bytes) : ℕ :=
  let total := (uint16 (b.drop 2)).toNat
  if total = 0 ∨ b.length < total then b.length else total

/-- What the checks on the header amount to. -/
structure WholeIPv4 (least hdrLen : ℕ) (proto : UInt8) (b : Bytes) : Prop where
  long : least ≤ b.length
  version : b.getD 0 0 >>> 4 = 4
  ihl : ipHdrLen ≤ headerLen b
  room : headerLen b + hdrLen ≤ b.length
  proto : b.getD 9 0 = proto
  unfragmented : uint16 (b.drop 6) &&& 0x1fff = 0

theorem totalLen_le (b : Bytes) : totalLen b ≤ b.length := by
  unfold totalLen
  dsimp only
  split <;> omega

section
variable {least hdrLen : ℕ} {proto : UInt8} {b : Bytes}

/-- A datagram that passes the checks is cut. -/
theorem openIPv4_of_whole (h : WholeIPv4 least hdrLen proto b) : openIPv4 least hdrLen proto b =
      (GoSlice.sub b (headerLen b) (totalLen b)).map fun inner =>
        some ⟨IPv4.ofBytes ((b.drop 12).take 4), headerLen b, inner⟩ := by
  have hihl := h.ihl
  have hroom := h.room
  unfold ipHdrLen at hihl
  unfold openIPv4
  rw [if_neg (not_lt.mpr h.long), getElem?_eq_getD (show 0 < b.length by omega)]
  dsimp only [Option.bind_eq_bind, Option.bind_some]
  rw [if_neg (not_not.mpr h.version), ← headerLen, if_neg (by unfold ipHdrLen; omega),
    getElem?_eq_getD (show 9 < b.length by omega)]
  dsimp only [Option.bind_some]
  rw [if_neg (not_not.mpr h.proto), uint16At_eq (by omega)]
  dsimp only [Option.bind_some]
  rw [if_neg (not_not.mpr h.unfragmented), uint16At_eq (by omega), ipAt_eq (by omega)]
  dsimp only [Option.bind_some]
  rw [← totalLen]
  cases GoSlice.sub b (headerLen b) (totalLen b) <;> rfl

theorem wholeIPv4_of_checks (hlong : ¬ b.length < least) (hversion : ¬ b.getD 0 0 >>> 4 ≠ 4)
    (hroom : ¬ (headerLen b < ipHdrLen ∨ b.length < headerLen b + hdrLen))
    (hproto : ¬ b.getD 9 0 ≠ proto) (hfrag : ¬ uint16 (b.drop 6) &&& 0x1fff ≠ 0) :
    WholeIPv4 least hdrLen proto b :=
  ⟨not_lt.mp hlong, not_not.mp hversion, by omega, by omega, not_not.mp hproto, not_not.mp hfrag⟩

/-- Any other is not, and no access is out of bounds. -/
theorem openIPv4_of_not_whole (hleast : ipHdrLen ≤ least) (h : ¬ WholeIPv4 least hdrLen proto b) :
    openIPv4 least hdrLen proto b = some none := by
  unfold ipHdrLen at hleast
  unfold openIPv4
  by_cases hlong : b.length < least
  · rw [if_pos hlong]
  rw [if_neg hlong, getElem?_eq_getD (show 0 < b.length by omega)]
  dsimp only [Option.bind_eq_bind, Option.bind_some]
  by_cases hversion : b.getD 0 0 >>> 4 ≠ 4
  · rw [if_pos hversion]
  rw [if_neg hversion, ← headerLen]
  by_cases hroom : headerLen b < ipHdrLen ∨ b.length < headerLen b + hdrLen
  · rw [if_pos hroom]
  rw [if_neg hroom, getElem?_eq_getD (show 9 < b.length by omega)]
  dsimp only [Option.bind_some]
  by_cases hproto : b.getD 9 0 ≠ proto
  · rw [if_pos hproto]
  rw [if_neg hproto, uint16At_eq (by omega)]
  dsimp only [Option.bind_some]
  by_cases hfrag : uint16 (b.drop 6) &&& 0x1fff ≠ 0
  · rw [if_pos hfrag]
  exact absurd (wholeIPv4_of_checks hlong hversion hroom hproto hfrag) h

theorem openIPv4_eq_some {ip : IPv4Inner} (hleast : ipHdrLen ≤ least)
    (h : openIPv4 least hdrLen proto b = some (some ip)) :
    WholeIPv4 least hdrLen proto b ∧ ip.ihl = headerLen b ∧
      GoSlice.sub b (headerLen b) (totalLen b) = some ip.inner := by
  by_cases hwhole : WholeIPv4 least hdrLen proto b
  · rw [openIPv4_of_whole hwhole] at h
    obtain ⟨inner, hsub, heq⟩ := Option.map_eq_some_iff.mp h
    cases heq
    exact ⟨hwhole, rfl, hsub⟩
  · rw [openIPv4_of_not_whole hleast hwhole] at h
    cases h

end

end FlexBraid
