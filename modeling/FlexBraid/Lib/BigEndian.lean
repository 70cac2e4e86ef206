import Mathlib.Data.List.Basic
import Mathlib.Tactic

/-!
# Big-endian integers

`beBytes w n` is the `w`-byte big-endian form of `n` (its low `8 * w` bits), and
`beNat` reads a byte string back, which gives the number again if it is below
`256 ^ w`.
-/

abbrev Bytes := List UInt8

/-- The `w`-byte big-endian form of the low `8 * w` bits of `n`. -/
def beBytes : ℕ → ℕ → Bytes
  | 0, _ => []
  | w + 1, n => UInt8.ofNat (n / 256 ^ w) :: beBytes w n

/-- The number a byte string denotes, most significant byte first. -/
def beNat : Bytes → ℕ
  | [] => 0
  | b :: l => b.toNat * 256 ^ l.length + beNat l

@[simp] theorem beNat_nil : beNat [] = 0 := rfl

@[simp] theorem length_beBytes (w n : ℕ) : (beBytes w n).length = w := by
  induction w with
  | zero => rfl
  | succ w ih => rw [beBytes, List.length_cons, ih]

theorem beNat_lt (l : Bytes) : beNat l < 256 ^ l.length := by
  induction l with
  | nil => decide
  | cons b l ih =>
    have hb : b.toNat < 256 := b.toNat_lt
    rw [beNat, List.length_cons, pow_succ]
    nlinarith

theorem beNat_beBytes (w n : ℕ) : beNat (beBytes w n) = n % 256 ^ w := by
  induction w with
  | zero => rw [beBytes, beNat_nil, pow_zero, Nat.mod_one]
  | succ w ih =>
    have h256 : (2 : ℕ) ^ 8 = 256 := by norm_num
    rw [beBytes, beNat, length_beBytes, ih, UInt8.toNat_ofNat', h256, pow_succ, Nat.mod_mul]
    ring

theorem beNat_beBytes_of_lt {w n : ℕ} (h : n < 256 ^ w) : beNat (beBytes w n) = n := by
  rw [beNat_beBytes, Nat.mod_eq_of_lt h]

theorem beBytes_mul_add (w m n : ℕ) : beBytes w (m * 256 ^ w + n) = beBytes w n := by
  induction w generalizing m with
  | zero => rfl
  | succ w ih =>
    have hhigh : (m * 256 ^ (w + 1) + n) / 256 ^ w = n / 256 ^ w + 256 * m := by
      rw [pow_succ', ← mul_assoc, Nat.add_comm, Nat.add_mul_div_right _ _ (by positivity),
        mul_comm m]
    have htail : m * 256 ^ (w + 1) + n = m * 256 * 256 ^ w + n := by ring
    have hhead : UInt8.ofNat (n / 256 ^ w + 256 * m) = UInt8.ofNat (n / 256 ^ w) := by
      rw [← UInt8.toNat_inj, UInt8.toNat_ofNat', UInt8.toNat_ofNat']
      exact Nat.add_mul_mod_self_left ..
    rw [beBytes, beBytes, hhigh, hhead, htail, ih]

theorem beBytes_beNat (l : Bytes) : beBytes l.length (beNat l) = l := by
  induction l with
  | nil => rfl
  | cons b l ih =>
    have hlt := beNat_lt l
    rw [List.length_cons, beBytes, beNat, beBytes_mul_add, ih, Nat.add_comm,
      Nat.add_mul_div_right _ _ (by positivity), Nat.div_eq_of_lt hlt, Nat.zero_add,
      UInt8.ofNat_toNat]

/-! ### Fixed-width reads -/

/-- The 16-bit integer at the start of a byte string. -/
def uint16 (b : Bytes) : UInt16 := UInt16.ofNat (beNat (b.take 2))

/-- The 32-bit integer at the start of a byte string. -/
def uint32 (b : Bytes) : UInt32 := UInt32.ofNat (beNat (b.take 4))

/-- The 64-bit integer at the start of a byte string. -/
def uint64 (b : Bytes) : UInt64 := UInt64.ofNat (beNat (b.take 8))

/-- The big-endian form of a 16-bit integer. -/
def putUint16 (x : UInt16) : Bytes := beBytes 2 x.toNat

/-- The big-endian form of a 32-bit integer. -/
def putUint32 (x : UInt32) : Bytes := beBytes 4 x.toNat

/-- The big-endian form of a 64-bit integer. -/
def putUint64 (x : UInt64) : Bytes := beBytes 8 x.toNat

@[simp] theorem length_putUint16 (x : UInt16) : (putUint16 x).length = 2 := length_beBytes 2 _

@[simp] theorem length_putUint32 (x : UInt32) : (putUint32 x).length = 4 := length_beBytes 4 _

@[simp] theorem length_putUint64 (x : UInt64) : (putUint64 x).length = 8 := length_beBytes 8 _

@[simp] theorem uint16_put (x : UInt16) (l : Bytes) : uint16 (putUint16 x ++ l) = x := by
  have hx : x.toNat < 256 ^ 2 := x.toNat_lt
  rw [uint16, List.take_left' (length_putUint16 x), putUint16, beNat_beBytes_of_lt hx,
    UInt16.ofNat_toNat]

@[simp] theorem uint32_put (x : UInt32) (l : Bytes) : uint32 (putUint32 x ++ l) = x := by
  have hx : x.toNat < 256 ^ 4 := x.toNat_lt
  rw [uint32, List.take_left' (length_putUint32 x), putUint32, beNat_beBytes_of_lt hx,
    UInt32.ofNat_toNat]

@[simp] theorem uint64_put (x : UInt64) (l : Bytes) : uint64 (putUint64 x ++ l) = x := by
  have hx : x.toNat < 256 ^ 8 := x.toNat_lt
  rw [uint64, List.take_left' (length_putUint64 x), putUint64, beNat_beBytes_of_lt hx,
    UInt64.ofNat_toNat]

section
variable {l : Bytes}

theorem beBytes_take {w : ℕ} (h : w ≤ l.length) : beBytes w (beNat (l.take w)) ++ l.drop w = l := by
  have hread := beBytes_beNat (l.take w)
  rw [List.length_take_of_le h] at hread
  rw [hread, List.take_append_drop]

theorem beNat_take_lt {w : ℕ} (h : w ≤ l.length) : beNat (l.take w) < 256 ^ w := by
  have hlt := beNat_lt (l.take w)
  rwa [List.length_take_of_le h] at hlt

theorem putUint16_uint16 (h : 2 ≤ l.length) : putUint16 (uint16 l) ++ l.drop 2 = l := by
  have hlt : beNat (l.take 2) < 2 ^ 16 := beNat_take_lt h
  rw [putUint16, uint16, UInt16.toNat_ofNat', Nat.mod_eq_of_lt hlt, beBytes_take h]

theorem putUint32_uint32 (h : 4 ≤ l.length) : putUint32 (uint32 l) ++ l.drop 4 = l := by
  have hlt : beNat (l.take 4) < 2 ^ 32 := beNat_take_lt h
  rw [putUint32, uint32, UInt32.toNat_ofNat', Nat.mod_eq_of_lt hlt, beBytes_take h]

theorem putUint64_uint64 (h : 8 ≤ l.length) : putUint64 (uint64 l) ++ l.drop 8 = l := by
  have hlt : beNat (l.take 8) < 2 ^ 64 := beNat_take_lt h
  rw [putUint64, uint64, UInt64.toNat_ofNat', Nat.mod_eq_of_lt hlt, beBytes_take h]

end

/-! ### Tables of fixed-width entries -/

section
variable {α : Type} {put : α → Bytes} {w : ℕ}

theorem length_flatMap_of_length (hput : ∀ a, (put a).length = w) (l : List α) :
    (l.flatMap put).length = w * l.length := by
  induction l with
  | nil => simp
  | cons a l ih =>
    rw [List.flatMap_cons, List.length_append, ih, hput, List.length_cons]
    ring

theorem map_read_flatMap {read : Bytes → α} (hput : ∀ a, (put a).length = w)
    (hread : ∀ a rest, read (put a ++ rest) = a) (l : List α) (rest : Bytes) :
    (List.range l.length).map (fun i => read ((l.flatMap put ++ rest).drop (w * i))) = l := by
  induction l with
  | nil => rfl
  | cons a l ih =>
    rw [List.length_cons, List.range_succ_eq_map, List.map_cons, List.map_map]
    congr 1
    · rw [Nat.mul_zero, List.drop_zero, List.flatMap_cons, List.append_assoc, hread]
    · refine Eq.trans (List.map_congr_left fun i _ => ?_) ih
      have hdrop : w * (i + 1) = (put a).length + w * i := by rw [hput]; ring
      rw [Function.comp_apply, Nat.succ_eq_add_one, List.flatMap_cons, List.append_assoc, hdrop,
        ← List.drop_drop, List.drop_left]

end
