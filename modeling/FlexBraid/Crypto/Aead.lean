import FlexBraid.Frame

/-!
# Sealed frames

The crypto layer authenticates the header of a frame and encrypts its payload.
The nonce is made of the direction and the sequence number in the header, so it is
never sent.

The ciphers, the keyed hash and the key exchange are library code; they are the
fields of `Primitives`, and what is assumed of them is stated as hypotheses:
`Primitives.Lawful` for what their documentation promises, `Unforgeable` for an
ideal cipher.

## Main definitions

* `Primitives`, `AEAD` — the library, and a cipher with a key.
* `makeNonce`, `AEAD.sealFrame`, `AEAD.openFrame` — sealed frames.

## Main results

* `AEAD.openFrame_sealFrame` — **opening a sealed frame gives it back.**
-/

namespace FlexBraid

/-- The two directions of a channel. -/
inductive NonceDirection where
  | clientToServer
  | serverToClient
deriving DecidableEq, Repr

def NonceDirection.toByte : NonceDirection → UInt8
  | .clientToServer => 0
  | .serverToClient => 1

def keySize : ℕ := 32

def publicKeySize : ℕ := 32

/-- Why the crypto layer refuses its input. -/
inductive CryptoError where
  | emptyPSK
  | keySize (want got : ℕ)
  | unknownCipher (name : String)
  | tooShortToSeal
  | sealedTooShort
  | authenticationFailed
  | privateKeySize
  | peerKeySize
  | ecdh
deriving DecidableEq

/-- The text of an error; the last is the library's own. -/
def CryptoError.text : CryptoError → String
  | .emptyPSK => "crypto: empty PSK"
  | .keySize want got =>
      "crypto: key must be " ++ toString want ++ " bytes, got " ++ toString got
  | .unknownCipher name => "crypto: unknown cipher " ++ name.quote
  | .tooShortToSeal => "crypto: frame too short to seal"
  | .sealedTooShort => "crypto: sealed frame too short"
  | .authenticationFailed => "crypto: authentication failed"
  | .privateKeySize => "crypto: private key must be 32 bytes"
  | .peerKeySize => "crypto: peer public key must be 32 bytes"
  | .ecdh => "crypto/ecdh: bad X25519 remote ECDH input: low order point"

/-! ### The library -/

/-- A cipher that authenticates and encrypts. -/
structure Cipher where
  /-- How much longer the ciphertext is than the plaintext. -/
  overhead : ℕ
  sealBytes : (key nonce plaintext additionalData : Bytes) → Bytes
  openBytes : (key nonce ciphertext additionalData : Bytes) → Option Bytes

/-- What the documentation of a cipher promises. -/
structure Cipher.Lawful (c : Cipher) : Prop where
  openBytes_sealBytes : ∀ key nonce plaintext ad,
    c.openBytes key nonce (c.sealBytes key nonce plaintext ad) ad = some plaintext
  length_sealBytes : ∀ key nonce plaintext ad,
    (c.sealBytes key nonce plaintext ad).length = plaintext.length + c.overhead

/-- The cryptographic library. -/
structure Primitives where
  chacha20poly1305 : Cipher
  aes256gcm : Cipher
  hmacSHA256 : (key msg : Bytes) → Bytes
  length_hmacSHA256 : ∀ key msg, (hmacSHA256 key msg).length = 32
  /-- The shared secret; none for a peer key of low order. -/
  x25519 : (priv peerPub : Bytes) → Option Bytes
  x25519Public : (priv : Bytes) → Bytes
  length_x25519Public : ∀ priv, (x25519Public priv).length = publicKeySize

/-- What the documentation of the library promises. -/
structure Primitives.Lawful (P : Primitives) : Prop where
  chacha20poly1305 : P.chacha20poly1305.Lawful
  aes256gcm : P.aes256gcm.Lawful
  /-- Both ends compute the same shared secret. -/
  x25519_comm : ∀ a b : Bytes, a.length = publicKeySize → b.length = publicKeySize →
    P.x25519 a (P.x25519Public b) = P.x25519 b (P.x25519Public a)

/-- The ciphers a configuration can choose. -/
inductive CipherSuite where
  | chacha20poly1305
  | aes256gcm
deriving DecidableEq, Repr

/-- A cipher with a key. -/
structure AEAD (P : Primitives) where
  suite : CipherSuite
  key : Bytes
  size : key.length = keySize
deriving DecidableEq

/-! ### Nonces -/

/-- The nonce of a frame: the direction in byte 4 and the number in the last four. -/
def makeNonce (dir : NonceDirection) (seq : UInt32) : Bytes :=
  [0, 0, 0, 0, dir.toByte, 0, 0, 0] ++ putUint32 seq

/-- The sequence number in a frame header. -/
def frameSeq (header : Bytes) : UInt32 := uint32 (header.drop 16)

theorem NonceDirection.toByte_injective : Function.Injective NonceDirection.toByte := by
  intro d d' h
  cases d <;> cases d' <;> first | rfl | exact absurd h (by decide)

/-- **A nonce determines the direction and the number.** -/
theorem makeNonce_injective {dir dir' : NonceDirection} {seq seq' : UInt32}
    (h : makeNonce dir seq = makeNonce dir' seq') : dir = dir' ∧ seq = seq' := by
  obtain ⟨hdir, hseq⟩ := List.append_inj h rfl
  refine ⟨NonceDirection.toByte_injective ?_, ?_⟩
  · simpa using hdir
  · have hread := congrArg uint32 hseq
    rwa [← List.append_nil (putUint32 seq), ← List.append_nil (putUint32 seq'), uint32_put,
      uint32_put] at hread

/-! ### Sealing and opening -/

namespace AEAD

variable {P : Primitives}

/-- The library's cipher. -/
def cipher (a : AEAD P) : Cipher :=
  match a.suite with
  | .chacha20poly1305 => P.chacha20poly1305
  | .aes256gcm => P.aes256gcm

/-- Authenticate the header of a frame and encrypt its payload. -/
def sealFrame (a : AEAD P) (dir : NonceDirection) (plaintext : Bytes) : Except CryptoError Bytes :=
  if plaintext.length < headerSize then .error .tooShortToSeal
  else
    let header := plaintext.take headerSize
    let payload := plaintext.drop headerSize
    let nonce := makeNonce dir (frameSeq header)
    .ok (header ++ a.cipher.sealBytes a.key nonce payload header)

/-- Authenticate and decrypt a sealed frame. -/
def openFrame (a : AEAD P) (dir : NonceDirection) (sealed : Bytes) : Except CryptoError Bytes :=
  if sealed.length < headerSize + a.cipher.overhead then .error .sealedTooShort
  else
    let header := sealed.take headerSize
    let body := sealed.drop headerSize
    let nonce := makeNonce dir (frameSeq header)
    match a.cipher.openBytes a.key nonce body header with
    | none => .error .authenticationFailed
    | some payload => .ok (header ++ payload)

/-- An ideal cipher: what opens was sealed, under the same key and in the same
direction, by someone of whom `sealedBy` keeps record. -/
def Unforgeable (sealedBy : AEAD P → NonceDirection → Bytes → Prop) : Prop :=
  ∀ (a : AEAD P) (dir : NonceDirection) (sealed plain : Bytes), a.openFrame dir sealed = .ok plain →
    ∃ plaintext, sealedBy a dir plaintext ∧ a.sealFrame dir plaintext = .ok sealed

theorem cipher_lawful (hP : P.Lawful) (a : AEAD P) : a.cipher.Lawful := by
  unfold cipher
  split
  · exact hP.chacha20poly1305
  · exact hP.aes256gcm

variable {a : AEAD P} {dir : NonceDirection} {plaintext : Bytes}

/-- **Opening a sealed frame gives it back.** -/
theorem openFrame_sealFrame (hP : P.Lawful) {sealed : Bytes}
    (h : a.sealFrame dir plaintext = .ok sealed) : a.openFrame dir sealed = .ok plaintext := by
  have hlaw := a.cipher_lawful hP
  rw [sealFrame] at h
  split at h
  · cases h
  · next hlen =>
    cases h
    have hheader : (plaintext.take headerSize).length = headerSize := by
      rw [List.length_take, min_eq_left (not_lt.mp hlen)]
    rw [openFrame, if_neg]
    · simp only [List.take_left' hheader, List.drop_left' hheader, hlaw.openBytes_sealBytes,
        List.take_append_drop]
    · rw [List.length_append, hheader, hlaw.length_sealBytes]
      omega

theorem sealFrame_encode {f : Frame} (h : f.encode = .ok plaintext) (a : AEAD P)
    (dir : NonceDirection) : ∃ body, a.sealFrame dir plaintext = .ok (f.header ++ body) := by
  rw [Frame.encode] at h
  split at h
  · cases h
  · cases h
    rw [sealFrame, if_neg (by simp), List.take_left' (Frame.length_header f)]
    exact ⟨_, rfl⟩

theorem decodeHeader_sealFrame {f : Frame} {sealed : Bytes} (hf : f.encode = .ok plaintext)
    (h : a.sealFrame dir plaintext = .ok sealed) :
    Frame.decodeHeader sealed = .ok { f with version := protocolVersion, payload := [] } := by
  obtain ⟨body, hseal⟩ := sealFrame_encode hf a dir
  rw [hseal] at h
  cases h
  exact Frame.decodeHeader_append f body

theorem decodeHeader_openFrame {d plain : Bytes} (h : a.openFrame dir d = .ok plain) :
    Frame.decodeHeader plain = Frame.decodeHeader d := by
  unfold openFrame at h
  split at h
  · cases h
  · next hlen =>
    dsimp only at h
    split at h
    · cases h
    · cases h
      exact Frame.decodeHeader_take (by omega) _

end AEAD

end FlexBraid
