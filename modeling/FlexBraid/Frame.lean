import FlexBraid.Lib.BigEndian

/-!
# The wire frame

A frame is a 28-byte header followed by a plaintext payload; the crypto layer
authenticates the header and encrypts the payload.  All integers are big-endian.

## Main definitions

* `Frame` — a decoded or to-be-encoded frame.
* `Frame.encode`, `Frame.decodeHeader`, `Frame.decode` — the codec.

## Main results

* `decode_encode` — **decoding an encoded frame gives it back**, with the
  current protocol version.
-/

namespace FlexBraid

/-- Identifies FlexBraid frames (`FLXB`). -/
def magic : UInt32 := 0x464C5842

def protocolVersion : UInt8 := 0x02

def headerSize : ℕ := 28

/-- The size of the AEAD tag appended after the payload. -/
def tagSize : ℕ := 16

/-- The largest payload the 16-bit length field can represent. -/
def maxPayload : ℕ := 65535

/-! ### Flags -/

/-- The payload is FEC parity, not inner data. -/
def flagFECParity : UInt8 := 0x01

/-- A liveness and RTT probe. -/
def flagKeepalive : UInt8 := 0x02

/-- A control-plane frame. -/
def flagControl : UInt8 := 0x04

/-- The first frame of a session: the client's handshake. -/
def flagFirst : UInt8 := 0x08

/-- A keepalive reply. -/
def flagPong : UInt8 := 0x10

/-- The key-exchange acknowledgement. -/
def flagKex : UInt8 := 0x20

/-- A pass-through frame whose `blockSeq` is a per-path counter. -/
def flagPassSeq : UInt8 := 0x40

/-- A decoded or to-be-encoded frame.  The payload is plaintext. -/
structure Frame where
  version : UInt8 := 0
  flags : UInt8 := 0
  sessionID : UInt64 := 0
  seq : UInt32 := 0
  /-- The FEC block of a coded frame, the path counter of a pass-through one. -/
  blockSeq : UInt32 := 0
  payload : Bytes := []
  deriving DecidableEq, Repr, Inhabited

/-- Why a byte string is not a frame, or a frame not encodable. -/
inductive FrameError
  | payloadTooLarge (len max : ℕ)
  | tooShort
  | badMagic
  | unsupportedVersion (v : UInt8)
  | lengthMismatch (plen got : ℕ)
  deriving DecidableEq, Repr

def FrameError.text : FrameError → String
  | .payloadTooLarge len max =>
      "frame payload too large: " ++ toString len ++ " > " ++ toString max
  | .tooShort => "frame too short"
  | .badMagic => "bad magic"
  | .unsupportedVersion v => "unsupported protocol version " ++ toString v
  | .lengthMismatch plen got =>
      "frame length mismatch: header says " ++ toString plen ++
        " payload bytes, buffer has " ++ toString got

namespace Frame

/-- Whether `flag` is set. -/
def hasFlag (f : Frame) (flag : UInt8) : Bool := f.flags &&& flag != 0

/-! ### The codec -/

/-- The 28 header bytes of a frame. -/
def header (f : Frame) : Bytes :=
  putUint32 magic ++ ([protocolVersion, f.flags] ++ ([0, 0] ++ (putUint64 f.sessionID ++
    (putUint32 f.seq ++ (putUint32 f.blockSeq ++
      (putUint16 (UInt16.ofNat f.payload.length) ++ [0, 0]))))))

/-- Serialise the header and the payload, without the tag. -/
def encode (f : Frame) : Except FrameError Bytes :=
  if f.payload.length > maxPayload then
    .error (.payloadTooLarge f.payload.length maxPayload)
  else
    .ok (f.header ++ f.payload)

/-- Parse and validate the header of a sealed frame; the payload is left out. -/
def decodeHeader (b : Bytes) : Except FrameError Frame :=
  if b.length < headerSize then
    .error .tooShort
  else if uint32 b ≠ magic then
    .error .badMagic
  else if b.getD 4 0 ≠ protocolVersion then
    .error (.unsupportedVersion (b.getD 4 0))
  else
    .ok { version := b.getD 4 0
          flags := b.getD 5 0
          sessionID := uint64 (b.drop 8)
          seq := uint32 (b.drop 16)
          blockSeq := uint32 (b.drop 20) }

/-- Parse a frame whose header and payload were already verified and decrypted. -/
def decode (b : Bytes) : Except FrameError Frame :=
  match decodeHeader b with
  | .error e => .error e
  | .ok f =>
      let plen := (uint16 (b.drop 24)).toNat
      if b.length ≠ headerSize + plen then
        .error (.lengthMismatch plen (b.length - headerSize))
      else
        .ok { f with payload := (b.drop headerSize).take plen }

/-! ### Round trips -/

@[simp] theorem length_header (f : Frame) : f.header.length = headerSize := by
  simp [header, headerSize]

theorem drop_eight_header (f : Frame) (l : Bytes) :
    (f.header ++ l).drop 8 = putUint64 f.sessionID ++ (putUint32 f.seq ++
      (putUint32 f.blockSeq ++ (putUint16 (UInt16.ofNat f.payload.length) ++ ([0, 0] ++ l)))) := by
  simp [header, List.drop_append]

theorem drop_sixteen_header (f : Frame) (l : Bytes) : (f.header ++ l).drop 16 = putUint32 f.seq ++
      (putUint32 f.blockSeq ++ (putUint16 (UInt16.ofNat f.payload.length) ++ ([0, 0] ++ l))) := by
  rw [show (16 : ℕ) = 8 + 8 from rfl, ← List.drop_drop, drop_eight_header,
    List.drop_left' (length_putUint64 _)]

theorem drop_twenty_header (f : Frame) (l : Bytes) : (f.header ++ l).drop 20 =
      putUint32 f.blockSeq ++ (putUint16 (UInt16.ofNat f.payload.length) ++ ([0, 0] ++ l)) := by
  rw [show (20 : ℕ) = 16 + 4 from rfl, ← List.drop_drop, drop_sixteen_header,
    List.drop_left' (length_putUint32 _)]

theorem drop_twentyFour_header (f : Frame) (l : Bytes) :
    (f.header ++ l).drop 24 = putUint16 (UInt16.ofNat f.payload.length) ++ ([0, 0] ++ l) := by
  rw [show (24 : ℕ) = 20 + 4 from rfl, ← List.drop_drop, drop_twenty_header,
    List.drop_left' (length_putUint32 _)]

/-- **The header is readable whatever follows it.** -/
theorem decodeHeader_append (f : Frame) (l : Bytes) : decodeHeader (f.header ++ l) =
      .ok { f with version := protocolVersion, payload := [] } := by
  have hlen : ¬ (f.header ++ l).length < headerSize := by simp
  have hmagic : uint32 (f.header ++ l) = magic := by
    rw [header, List.append_assoc, uint32_put]
  have hver : (f.header ++ l).getD 4 0 = protocolVersion := by
    simp [header, List.getD_eq_getElem?_getD]
  have hflags : (f.header ++ l).getD 5 0 = f.flags := by
    simp [header, List.getD_eq_getElem?_getD, List.getElem?_append]
  rw [decodeHeader, if_neg hlen, if_neg (not_not.mpr hmagic), hver, if_neg (not_not.mpr rfl),
    hflags, drop_eight_header, uint64_put, drop_sixteen_header, uint32_put, drop_twenty_header,
    uint32_put]

variable {f : Frame} {b : Bytes}

/-- **Decoding an encoded frame gives it back**, with the current version. -/
theorem decode_encode (h : f.encode = .ok b) :
    decode b = .ok { f with version := protocolVersion } := by
  rw [encode] at h
  split at h
  · cases h
  · next hle =>
    cases h
    have hle' : f.payload.length < 2 ^ 16 := by
      rw [maxPayload] at hle
      omega
    have hplen : (UInt16.ofNat f.payload.length).toNat = f.payload.length := by
      rw [UInt16.toNat_ofNat', Nat.mod_eq_of_lt hle']
    have htot : (f.header ++ f.payload).length = headerSize + f.payload.length := by simp
    have hpay : ((f.header ++ f.payload).drop headerSize).take f.payload.length = f.payload := by
      rw [List.drop_left' (length_header f), List.take_length]
    simp only [decode, decodeHeader_append, drop_twentyFour_header, uint16_put, hplen, htot,
      ne_eq, not_true_eq_false, if_false, hpay]

theorem decodeHeader_take (hlen : headerSize ≤ b.length) (l : Bytes) :
    decodeHeader (b.take headerSize ++ l) = decodeHeader b := by
  obtain ⟨h, t, rfl, hh⟩ : ∃ h t, b = h ++ t ∧ h.length = headerSize :=
    ⟨b.take headerSize, b.drop headerSize, (List.take_append_drop _ _).symm, by simp [hlen]⟩
  rw [List.take_left' hh]
  unfold headerSize at hh hlen
  have hget : ∀ {i : ℕ} (t : Bytes), i < 28 → (h ++ t).getD i 0 = h.getD i 0 := by
    intro i t hi
    rw [List.getD_eq_getElem?_getD, List.getD_eq_getElem?_getD, List.getElem?_append_left (by omega)]
  have hdrop : ∀ {i n : ℕ} (t : Bytes), i + n ≤ 28 → ((h ++ t).drop i).take n = (h.drop i).take n := by
    intro i n t hi
    rw [List.drop_append_of_le_length (by omega), List.take_append_of_le_length (by simp; omega)]
  have hzero : ∀ {n : ℕ} (t : Bytes), n ≤ 28 → (h ++ t).take n = h.take n := fun t hn =>
    List.take_append_of_le_length (by omega)
  have hshort : ∀ t : Bytes, ¬ (h ++ t).length < headerSize := fun t => by
    unfold headerSize
    rw [List.length_append]
    omega
  unfold decodeHeader uint32 uint64
  rw [if_neg (hshort l), if_neg (hshort t)]
  simp only [hget _ (show 4 < 28 by decide), hget _ (show 5 < 28 by decide),
    hdrop _ (show 8 + 8 ≤ 28 by decide), hdrop _ (show 16 + 4 ≤ 28 by decide),
    hdrop _ (show 20 + 4 ≤ 28 by decide), hzero _ (show 4 ≤ 28 by decide)]

theorem decodeHeader_of_decode (h : decode b = .ok f) :
    ∃ g, decodeHeader b = .ok g ∧ g.flags = f.flags ∧ g.sessionID = f.sessionID ∧
      g.seq = f.seq ∧ g.blockSeq = f.blockSeq := by
  rw [decode] at h
  cases hd : decodeHeader b with
  | error e => rw [hd] at h; cases h
  | ok g =>
    rw [hd] at h
    simp only at h
    split at h
    · cases h
    · cases h
      exact ⟨g, rfl, rfl, rfl, rfl, rfl⟩

/-- **What is accepted**: the magic, the version, and the length that the header gives. -/
theorem decode_ok_iff (b : Bytes) :
    (∃ f, decode b = .ok f) ↔ uint32 b = magic ∧ b.getD 4 0 = protocolVersion ∧
      b.length = headerSize + (uint16 (b.drop 24)).toNat := by
  unfold decode decodeHeader
  by_cases hshort : b.length < headerSize
  · have hlen : b.length ≠ headerSize + (uint16 (b.drop 24)).toNat := by omega
    simp [hshort, hlen]
  · rw [if_neg hshort]
    by_cases hmagic : uint32 b = magic <;> by_cases hver : b.getD 4 0 = protocolVersion <;>
      by_cases hlen : b.length = headerSize + (uint16 (b.drop 24)).toNat <;>
      simp [hmagic, hver, hlen, -List.getD_eq_getElem?_getD]

/-- The reserved bytes of a header. -/
def reservedZero (b : Bytes) : Prop :=
  b.getD 6 0 = 0 ∧ b.getD 7 0 = 0 ∧ b.getD 26 0 = 0 ∧ b.getD 27 0 = 0

theorem drop_eq_getD_cons {i : ℕ} (h : i < b.length) : b.drop i = b.getD i 0 :: b.drop (i + 1) := by
  rw [List.drop_eq_getElem_cons h, List.getD_eq_getElem?_getD, List.getElem?_eq_getElem h,
    Option.getD_some]

/-- **Encoding a decoded frame gives the bytes back**, if the reserved ones are zero. -/
theorem encode_decode (h : decode b = .ok f) (hres : reservedZero b) : f.encode = .ok b := by
  obtain ⟨hmagic, hver, hlen⟩ := (decode_ok_iff b).mp ⟨f, h⟩
  obtain ⟨h6, h7, h26, h27⟩ := hres
  have hlen' : b.length = 28 + (uint16 (b.drop 24)).toNat := hlen
  have hplen := (uint16 (b.drop 24)).toNat_lt
  have hpay : (b.drop headerSize).length = (uint16 (b.drop 24)).toNat := by
    rw [List.length_drop, hlen, Nat.add_sub_cancel_left]
  have hf : f = ⟨b.getD 4 0, b.getD 5 0, uint64 (b.drop 8), uint32 (b.drop 16),
      uint32 (b.drop 20), b.drop headerSize⟩ := by
    unfold decode decodeHeader at h
    rw [if_neg (by unfold headerSize; omega), if_neg (not_not.mpr hmagic),
      if_neg (not_not.mpr hver)] at h
    dsimp only at h
    rw [if_neg (not_not.mpr hlen), List.take_of_length_le hpay.le] at h
    cases h
    rfl
  -- from the last field to the first: what is written behind a field is the rest of the string
  have h24 : putUint16 (uint16 (b.drop 24)) ++ (0 :: 0 :: b.drop headerSize) = b.drop 24 := by
    have hread := putUint16_uint16 (show 2 ≤ (b.drop 24).length by rw [List.length_drop]; omega)
    rwa [List.drop_drop, drop_eq_getD_cons (show 26 < b.length by omega), h26,
      drop_eq_getD_cons (show 27 < b.length by omega), h27] at hread
  have h20 : putUint32 (uint32 (b.drop 20)) ++ b.drop 24 = b.drop 20 := by
    simpa using putUint32_uint32 (show 4 ≤ (b.drop 20).length by rw [List.length_drop]; omega)
  have h16 : putUint32 (uint32 (b.drop 16)) ++ b.drop 20 = b.drop 16 := by
    simpa using putUint32_uint32 (show 4 ≤ (b.drop 16).length by rw [List.length_drop]; omega)
  have h8 : putUint64 (uint64 (b.drop 8)) ++ b.drop 16 = b.drop 8 := by
    simpa using putUint64_uint64 (show 8 ≤ (b.drop 8).length by rw [List.length_drop]; omega)
  have h4 : b.drop 4 = protocolVersion :: b.getD 5 0 :: 0 :: 0 :: b.drop 8 := by
    rw [drop_eq_getD_cons (show 4 < b.length by omega), drop_eq_getD_cons (show 5 < b.length by omega),
      drop_eq_getD_cons (show 6 < b.length by omega), drop_eq_getD_cons (show 7 < b.length by omega),
      hver, h6, h7]
  rw [hf, encode, if_neg (by rw [hpay]; unfold maxPayload; omega)]
  dsimp only [header]
  rw [hpay, UInt16.ofNat_toNat]
  simp only [List.append_assoc, List.cons_append, List.nil_append]
  rw [h24, h20, h16, h8, ← h4, ← hmagic, putUint32_uint32 (by omega)]

end Frame

end FlexBraid
