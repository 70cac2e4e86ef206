import FlexBraid.Crypto.Aead

/-!
# Keys

The shared secret of the two ends (the PSK) is expanded into the base key, under
which the handshake frames are sealed.  The session key is derived from an
ephemeral X25519 exchange, with the PSK as salt and the session in the info
string.

## Main definitions

* `deriveKey` — the base key.
* `ecdhShared`, `derivePFSKey` — the session key.
* `newAEAD` — a cipher by its configured name.
* `PrivateKey` — an ephemeral key.
* `smallPrimitives` — a library small enough to compute with.

## Main results

* `ecdhShared_comm` — **both ends of an exchange compute the same secret.**
-/

namespace FlexBraid

def stringBytes (s : String) : Bytes := s.toUTF8.toList

section
variable (P : Primitives)

/-! ### Key derivation -/

/-- The loop of `hkdfExpand`: append hash outputs until there are `n` bytes. -/
def hkdfLoop (prk info : Bytes) (n : ℕ) : ℕ → UInt8 → Bytes → Bytes → Bytes
  | 0, _, _, out => out
  | fuel + 1, counter, t, out =>
    if out.length < n then
      let t' := P.hmacSHA256 prk (t ++ info ++ [counter])
      hkdfLoop prk info n fuel (counter + 1) t' (out ++ t')
    else out

/-- Expand a key into `n` bytes.  Every round of the loop adds bytes, so `n` rounds
are enough. -/
def hkdfExpand (prk info : Bytes) (n : ℕ) : Bytes := (hkdfLoop P prk info n n 1 [] []).take n

/-- Derive a key from a secret, with a salt and an info string. -/
def derive (secret salt info : Bytes) : Bytes :=
  let prk := P.hmacSHA256 salt secret
  hkdfExpand P prk info keySize

/-- The base key. -/
def deriveKey (psk : Bytes) : Except CryptoError Bytes :=
  if psk.length = 0 then .error .emptyPSK
  else .ok (derive P psk (stringBytes "flexbraid-v1") (stringBytes "channel-key"))

/-- The session key, from the shared secret of the exchange. -/
def derivePFSKey (psk shared : Bytes) (sessionID : UInt64) : Bytes :=
  derive P shared psk (stringBytes "pfs-session:" ++ putUint64 sessionID)

theorem le_length_hkdfLoop (prk info : Bytes) (n fuel : ℕ) (counter : UInt8) (t out : Bytes)
    (hfuel : n ≤ out.length + fuel) : n ≤ (hkdfLoop P prk info n fuel counter t out).length := by
  induction fuel generalizing counter t out with
  | zero => exact hfuel
  | succ fuel ih =>
    rw [hkdfLoop]
    split
    · refine ih _ _ _ ?_
      rw [List.length_append, P.length_hmacSHA256]
      omega
    · next hlen => exact not_lt.mp hlen

theorem length_derive (secret salt info : Bytes) : (derive P secret salt info).length = keySize := by
  rw [derive, hkdfExpand, List.length_take, min_eq_left]
  exact le_length_hkdfLoop P _ _ _ _ _ _ _ (by simp)

/-! ### Ciphers -/

/-- A cipher by its configured name. -/
def newAEAD (key : Bytes) (name : String) : Except CryptoError (AEAD P) :=
  if hsize : key.length = keySize then
    if name = "" ∨ name = "chacha20poly1305" then .ok ⟨.chacha20poly1305, key, hsize⟩
    else if name = "aes256gcm" then .ok ⟨.aes256gcm, key, hsize⟩
    else .error (.unknownCipher name)
  else .error (.keySize keySize key.length)

/-! ### The key exchange -/

/-- An ephemeral private key, as the generator returns it. -/
structure PrivateKey where
  bytes : Bytes
  size : bytes.length = publicKeySize
deriving DecidableEq

/-- The public key that belongs to a private key. -/
def PrivateKey.pub (k : PrivateKey) : Bytes := P.x25519Public k.bytes

@[simp] theorem PrivateKey.length_pub (k : PrivateKey) : (k.pub P).length = publicKeySize :=
  P.length_x25519Public _

/-- The shared secret of a private key and the peer's public key. -/
def ecdhShared (priv peerPub : Bytes) : Except CryptoError Bytes :=
  if priv.length ≠ publicKeySize then .error .privateKeySize
  else if peerPub.length ≠ publicKeySize then .error .peerKeySize
  else
    match P.x25519 priv peerPub with
    | none => .error .ecdh
    | some shared => .ok shared

variable {P}

theorem ecdhShared_comm (hP : P.Lawful) (a b : PrivateKey) :
    ecdhShared P a.bytes (b.pub P) = ecdhShared P b.bytes (a.pub P) := by
  simp only [ecdhShared, a.size, b.size, PrivateKey.length_pub, ne_eq, not_true_eq_false, if_false]
  rw [PrivateKey.pub, PrivateKey.pub, hP.x25519_comm a.bytes b.bytes a.size b.size]

end

/-! ### A small library -/

/-- A checksum for a tag: all bytes added up. -/
def addUp (b : Bytes) : UInt8 := b.foldl (· + ·) 0

/-- The first 32 bytes, filled up with zeros. -/
def first32 (b : Bytes) : Bytes := (b ++ List.replicate 32 0).take 32

theorem length_first32 (b : Bytes) : (first32 b).length = 32 := by
  simp [first32]

/-- A cipher without secrecy: the payload followed by sixteen checksum bytes. -/
def checksumCipher : Cipher where
  overhead := 16
  sealBytes key nonce plaintext ad :=
    plaintext ++ List.replicate 16 (addUp (key ++ nonce ++ ad ++ plaintext))
  openBytes key nonce ciphertext ad :=
    let plaintext := ciphertext.take (ciphertext.length - 16)
    if ciphertext.drop (ciphertext.length - 16) =
        List.replicate 16 (addUp (key ++ nonce ++ ad ++ plaintext)) then some plaintext
    else none

/-- A library small enough to compute with: it keeps the laws, not the secrets. -/
def smallPrimitives : Primitives where
  chacha20poly1305 := checksumCipher
  aes256gcm := checksumCipher
  hmacSHA256 key msg := first32 (key ++ msg)
  length_hmacSHA256 _ _ := length_first32 _
  x25519 priv peerPub := some (List.zipWith (· ^^^ ·) priv peerPub)
  x25519Public := first32
  length_x25519Public := length_first32

theorem lawful_checksumCipher : checksumCipher.Lawful where
  openBytes_sealBytes key nonce plaintext ad := by
    simp [checksumCipher]
  length_sealBytes key nonce plaintext ad := by
    simp [checksumCipher]

theorem lawful_smallPrimitives : smallPrimitives.Lawful where
  chacha20poly1305 := lawful_checksumCipher
  aes256gcm := lawful_checksumCipher
  x25519_comm a b ha hb := by
    have hfirst : ∀ l : Bytes, l.length = publicKeySize → first32 l = l := by
      intro l hl
      exact List.take_left' hl
    show some _ = some _
    rw [show smallPrimitives.x25519Public = first32 from rfl, hfirst a ha, hfirst b hb,
      List.zipWith_comm]
    congr 2
    funext x y
    exact UInt8.xor_comm y x

@[simp] theorem AEAD.cipher_small (a : AEAD smallPrimitives) : a.cipher = checksumCipher := by
  unfold cipher
  split <;> rfl

/-- What the small cipher opens is what it seals, so it is ideal if everything counts as
sealed. -/
theorem unforgeable_small : AEAD.Unforgeable (P := smallPrimitives) fun _ _ _ => True := by
  intro a dir sealed plain hopen
  refine ⟨plain, trivial, ?_⟩
  rw [AEAD.openFrame, a.cipher_small] at hopen
  split at hopen
  · cases hopen
  · next hlen =>
    have hheader : (sealed.take headerSize).length = headerSize := by
      rw [List.length_take, min_eq_left]
      omega
    simp only [checksumCipher] at hopen
    split at hopen
    · cases hopen
    · next payload hpayload =>
      cases hopen
      split at hpayload
      · next htag =>
        cases hpayload
        rw [AEAD.sealFrame, if_neg (by rw [List.length_append]; omega), a.cipher_small]
        simp only [List.take_left' hheader, List.drop_left' hheader, checksumCipher]
        rw [← htag, List.take_append_drop, List.take_append_drop]
      · cases hpayload

theorem AEAD.sealFrame_small_ne (a : AEAD smallPrimitives) (dir : NonceDirection)
    (plain d : Bytes) : a.sealFrame dir plain ≠ .ok (d ++ [1, 2]) := by
  intro hseal
  rw [AEAD.sealFrame, a.cipher_small] at hseal
  split at hseal
  · cases hseal
  · have hlast := congrArg (fun l => l.reverse.take 2) (Except.ok.inj hseal)
    simp only [checksumCipher, List.reverse_append, List.reverse_replicate,
      List.append_assoc] at hlast
    obtain ⟨h₁, h₂⟩ : _ = (2 : UInt8) ∧ _ = (1 : UInt8) := by simpa using hlast
    rw [h₁] at h₂
    exact absurd h₂ (by decide)

def smallBaseAEAD : AEAD smallPrimitives where
  suite := .chacha20poly1305
  key := derive smallPrimitives (stringBytes "psk") (stringBytes "flexbraid-v1")
    (stringBytes "channel-key")
  size := length_derive _ _ _ _

/-- A key made of one repeated byte. -/
def smallKey (b : UInt8) : PrivateKey := ⟨List.replicate publicKeySize b, List.length_replicate⟩

/-- The datagram of a frame; empty if the frame cannot be sealed. -/
def smallDatagram (a : AEAD smallPrimitives) (dir : NonceDirection) (f : Frame) : Bytes :=
  ((f.encode.toOption.bind fun plain => (a.sealFrame dir plain).toOption)).getD []

end FlexBraid
