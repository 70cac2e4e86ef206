import FlexBraid.Lib.BigEndian

/-!
# The Internet checksum

The checksum of a packet is the complement of the sum of its 16-bit words, in which the
carries are added back in.  Adding the carries back is reduction modulo 65535, so a packet
that carries its own checksum sums up to zero.

## Main definitions

* `wordSum`, `foldCarry` — the sum of the words, and its carries added back.
* `checksum` — the complement of the folded sum; `sumCheck` — the same for any sum.

## Main results

* `sumCheck_eq_zero_iff` — a sum has the check zero when it is a positive multiple of 65535.
* `checksum_sealed` — a packet with its checksum filled in has the checksum zero.
* `checksum_marked` — with the complement filled in it has it only by accident.
-/

namespace OnesComplement

/-- The sum of the 16-bit words of a packet; a byte that is left over counts as a high
byte. -/
def wordSum : Bytes → ℕ
  | [] => 0
  | [a] => a.toNat * 256
  | a :: b :: rest => a.toNat * 256 + b.toNat + wordSum rest

/-- Add the carries of a sum back in, at most `fuel` times. -/
def foldCarry : ℕ → ℕ → ℕ
  | 0, s => s
  | fuel + 1, s => if s / 65536 = 0 then s else foldCarry fuel (s % 65536 + s / 65536)

/-- The 32-bit sum of a packet with its carries added back in; three times is enough. -/
def folded (b : Bytes) : ℕ := foldCarry 3 (wordSum b % 2 ^ 32)

def checksum (b : Bytes) : UInt16 := ~~~ UInt16.ofNat (folded b)

/-! ### Sums of words -/

theorem wordSum_le (b : Bytes) : 2 * wordSum b ≤ 65535 * (b.length + 1) := by
  induction b using wordSum.induct with
  | case1 => simp [wordSum]
  | case2 a =>
    have ha := a.toNat_lt
    simp only [wordSum, List.length_cons, List.length_nil]
    omega
  | case3 a b rest ih =>
    have ha := a.toNat_lt
    have hb := b.toNat_lt
    simp only [wordSum, List.length_cons] at ih ⊢
    omega

theorem wordSum_put (x : UInt16) (l : Bytes) : wordSum (putUint16 x ++ l) = x.toNat + wordSum l := by
  have hx := x.toNat_lt
  have hput : putUint16 x = [UInt8.ofNat (x.toNat / 256), UInt8.ofNat x.toNat] := by
    simp [putUint16, beBytes]
  rw [hput]
  simp only [List.cons_append, List.nil_append, wordSum, UInt8.toNat_ofNat']
  omega

theorem wordSum_put32 (x : UInt32) (l : Bytes) :
    wordSum (putUint32 x ++ l) = x.toNat / 65536 + x.toNat % 65536 + wordSum l := by
  have hx := x.toNat_lt
  have hput : putUint32 x = [UInt8.ofNat (x.toNat / 16777216), UInt8.ofNat (x.toNat / 65536),
      UInt8.ofNat (x.toNat / 256), UInt8.ofNat x.toNat] := by
    simp [putUint32, beBytes]
  rw [hput]
  simp only [List.cons_append, List.nil_append, wordSum, UInt8.toNat_ofNat']
  omega

/-! ### Folding -/

variable {s : ℕ}

theorem foldCarry_spec (h : s < 2 ^ 32) :
    foldCarry 3 s < 65536 ∧ foldCarry 3 s % 65535 = s % 65535 ∧ (foldCarry 3 s = 0 ↔ s = 0) := by
  simp only [foldCarry]
  split_ifs <;> omega

/-- The complement of a 32-bit sum with its carries added back in. -/
def sumCheck (s : ℕ) : UInt16 := ~~~ UInt16.ofNat (foldCarry 3 (s % 2 ^ 32))

theorem checksum_eq (b : Bytes) : checksum b = sumCheck (wordSum b) := rfl

theorem toNat_not16 (x : UInt16) : (~~~ x).toNat = 65535 - x.toNat := UInt16.toNat_not x

theorem toNat_sumCheck (h : s < 2 ^ 32) : (sumCheck s).toNat = 65535 - foldCarry 3 s := by
  rw [sumCheck, toNat_not16, UInt16.toNat_ofNat', Nat.mod_eq_of_lt h,
    Nat.mod_eq_of_lt (foldCarry_spec h).1]

theorem sumCheck_eq_zero_iff (h : s < 2 ^ 32) : sumCheck s = 0 ↔ s ≠ 0 ∧ s % 65535 = 0 := by
  obtain ⟨hlt, hmod, hzero⟩ := foldCarry_spec h
  rw [← UInt16.toNat_inj, toNat_sumCheck h]
  change 65535 - foldCarry 3 s = 0 ↔ _
  omega

theorem sumCheck_sealed (h : s + 65535 < 2 ^ 32) : sumCheck (s + (sumCheck s).toNat) = 0 := by
  have hs : s < 2 ^ 32 := by omega
  obtain ⟨hlt, hmod, hzero⟩ := foldCarry_spec hs
  have hcheck := toNat_sumCheck hs
  rw [sumCheck_eq_zero_iff (by omega), hcheck]
  generalize foldCarry 3 s = t at *
  omega

theorem double_mod_eq_zero {m : ℕ} (h : m < 65535) : (m + m) % 65535 = 0 ↔ m = 0 := by
  rw [← Nat.dvd_iff_mod_eq_zero, ← two_mul, Nat.Coprime.dvd_mul_left (by decide)]
  refine ⟨fun hdvd => Nat.eq_zero_of_dvd_of_lt hdvd h, ?_⟩
  rintro rfl
  exact Nat.dvd_zero _

theorem sumCheck_marked (h : s + 65535 < 2 ^ 32) :
    sumCheck (s + (~~~ sumCheck s).toNat) = 0 ↔ s ≠ 0 ∧ s % 65535 = 0 := by
  have hs : s < 2 ^ 32 := by omega
  obtain ⟨hlt, hmod, hzero⟩ := foldCarry_spec hs
  have hnot : (~~~ sumCheck s).toNat = foldCarry 3 s := by
    rw [toNat_not16, toNat_sumCheck hs]
    omega
  rw [sumCheck_eq_zero_iff (by omega), hnot, Nat.add_mod, hmod,
    double_mod_eq_zero (Nat.mod_lt _ (by decide))]
  refine and_congr_left fun _ => not_congr ?_
  rw [Nat.add_eq_zero_iff, hzero, and_self]

theorem wordSum_lt {b : Bytes} (h : b.length ≤ 65535) : wordSum b + 65535 < 2 ^ 32 := by
  have hle := wordSum_le b
  omega

/-! ### Packets that carry their checksum -/

section
variable {a b : UInt8} {l : Bytes}

theorem wordSum_field (x : UInt16) :
    wordSum (a :: b :: (putUint16 x ++ l)) = wordSum (a :: b :: (putUint16 0 ++ l)) + x.toNat := by
  rw [wordSum, wordSum, wordSum_put, wordSum_put]
  change _ = _ + (0 + _) + _
  omega

theorem checksum_field (x : UInt16) : checksum (a :: b :: (putUint16 x ++ l)) =
      sumCheck (wordSum (a :: b :: (putUint16 0 ++ l)) + x.toNat) := by
  rw [checksum_eq, wordSum_field]

theorem wordSum_field_lt (h : l.length + 4 ≤ 65535) :
    wordSum (a :: b :: (putUint16 0 ++ l)) + 65535 < 2 ^ 32 := by
  apply wordSum_lt
  simp only [List.length_cons, List.length_append, length_putUint16]
  omega

theorem checksum_sealed (h : l.length + 4 ≤ 65535) :
    checksum (a :: b :: (putUint16 (checksum (a :: b :: (putUint16 0 ++ l))) ++ l)) = 0 := by
  rw [checksum_field]
  exact sumCheck_sealed (wordSum_field_lt h)

/-- A packet with the complement of its checksum filled in has the checksum zero only when
the words without it sum up to a positive multiple of 65535. -/
theorem checksum_marked (h : l.length + 4 ≤ 65535) :
    checksum (a :: b :: (putUint16 (~~~ checksum (a :: b :: (putUint16 0 ++ l))) ++ l)) = 0 ↔
      wordSum (a :: b :: (putUint16 0 ++ l)) ≠ 0 ∧
        wordSum (a :: b :: (putUint16 0 ++ l)) % 65535 = 0 := by
  rw [checksum_field]
  exact sumCheck_marked (wordSum_field_lt h)

end

end OnesComplement
