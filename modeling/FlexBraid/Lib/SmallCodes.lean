import FlexBraid.Lib.ReedSolomon

/-!
# Small Reed–Solomon codes

The codes with one parity shard for one and for two data shards, over the field
of 256 elements with the polynomial `0x11D`: the systematic form of the
Vandermonde matrix makes the parity shard a copy of a single data shard, and
`3 a + 2 b` for two of them.  A code with two data and two parity shards has the
parity shards `a + b` and `a + 2 b`.

## Main definitions

* `gfMul` — multiplication in the field.
* `smallCodes` — the codes with one parity shard as a library.
* `pairCodes` — the code with two parity shards as a library.

## Main results

* `mds_smallCodes`, `mds_pairCodes` — the codes with two data shards are maximum distance
  separable.
* `lawful_smallCodes` — the library keeps its bounds.
-/

/-- Multiplication by the generator of the field. -/
def gfDouble (x : UInt8) : UInt8 := if x < 128 then x <<< 1 else x <<< 1 ^^^ 0x1D

/-- Multiplication in the field, from the bits of the first factor up. -/
def gfMul (a x : UInt8) : UInt8 :=
  ((List.range 8).foldl (fun (acc : UInt8 × UInt8) i =>
    (if a >>> UInt8.ofNat i &&& 1 = 1 then acc.1 ^^^ acc.2 else acc.1, gfDouble acc.2)) (0, x)).1

/-- The parity shard of two data shards. -/
def parity21 (a b : Bytes) : Bytes := List.zipWith (fun x y => gfMul 3 x ^^^ gfMul 2 y) a b

/-- The second data shard from the first and the parity shard. -/
def second21 (a c : Bytes) : Bytes := List.zipWith (fun x z => gfMul 0x8E (z ^^^ gfMul 3 x)) a c

/-- The first data shard from the second and the parity shard. -/
def first21 (b c : Bytes) : Bytes := List.zipWith (fun y z => gfMul 0xF4 (z ^^^ gfMul 2 y)) b c

/-- The codes for one and two data shards with one parity shard.  A codec is named
by its number of data shards. -/
def smallCodes : ReedSolomon ℕ where
  new k p := if p = 1 ∧ (k = 1 ∨ k = 2) then some k.toNat else none
  encode
    | 1, [a, _] => if a = [] then none else some [a, a]
    | 2, [a, b, _] => if a = [] then none else some [a, b, parity21 a b]
    | _, _ => none
  reconstruct
    | 1, [some a, _] => some [⟨a, []⟩, ⟨a, []⟩]
    | 1, [none, some a] => some [⟨a, []⟩, ⟨a, []⟩]
    | 2, [some a, some b, some c] => some [⟨a, []⟩, ⟨b, []⟩, ⟨c, []⟩]
    | 2, [some a, some b, none] => some [⟨a, []⟩, ⟨b, []⟩, ⟨parity21 a b, []⟩]
    | 2, [some a, none, some c] => some [⟨a, []⟩, ⟨second21 a c, []⟩, ⟨c, []⟩]
    | 2, [none, some b, some c] => some [⟨first21 b c, []⟩, ⟨b, []⟩, ⟨c, []⟩]
    | _, _ => none

theorem new_smallCodes_eq (k p : ℤ) :
    smallCodes.new k p = if p = 1 ∧ (k = 1 ∨ k = 2) then some k.toNat else none := rfl

@[simp] theorem encode_smallCodes_one (a x : Bytes) :
    smallCodes.encode 1 [a, x] = if a = [] then none else some [a, a] := rfl

@[simp] theorem encode_smallCodes_two (a b x : Bytes) :
    smallCodes.encode 2 [a, b, x] = if a = [] then none else some [a, b, parity21 a b] := rfl

theorem forall_uint8 {Q : UInt8 → Prop} (h : ∀ n : Fin 256, Q (UInt8.ofNat n)) (x : UInt8) : Q x := by
  have hx := h ⟨x.toNat, x.toNat_lt⟩
  rwa [UInt8.ofNat_toNat] at hx

/-- The inverses of the generator and of its successor, and what the successor is. -/
theorem gfMul_inverses : ∀ y : UInt8, gfMul 0x8E (gfMul 2 y) = y ∧ gfMul 0xF4 (gfMul 3 y) = y ∧
    y ^^^ gfMul 2 y = gfMul 3 y := forall_uint8 (by decide +kernel)

variable {f g : UInt8 → UInt8 → UInt8} {a b : Bytes}

theorem zipWith_zipWith_right (h : ∀ x y, g x (f x y) = y) (hlen : a.length = b.length) :
    List.zipWith g a (List.zipWith f a b) = b :=
  List.ext_getElem (by simp [hlen]) fun i _ _ => by simp [h]

theorem zipWith_zipWith_left (h : ∀ x y, g y (f x y) = x) (hlen : a.length = b.length) :
    List.zipWith g b (List.zipWith f a b) = a :=
  List.ext_getElem (by simp [hlen]) fun i _ _ => by simp [h]

theorem zipWith_zipWith_both {f' : UInt8 → UInt8 → UInt8} (h : ∀ x y, g (f x y) (f' x y) = y)
    (hlen : a.length = b.length) : List.zipWith g (List.zipWith f a b) (List.zipWith f' a b) = b :=
  List.ext_getElem (by simp [hlen]) fun i _ _ => by simp [h]

theorem xor_xor_cancel (x y : UInt8) : x ^^^ (x ^^^ y) = y := by
  rw [← UInt8.xor_assoc, UInt8.xor_self, UInt8.zero_xor]

theorem xor_xor_cancel_right (x y : UInt8) : y ^^^ (x ^^^ y) = x := by
  rw [UInt8.xor_comm x, xor_xor_cancel]

theorem length_parity21 {n : ℕ} (ha : a.length = n) (hb : b.length = n) :
    (parity21 a b).length = n := by simp [parity21, ha, hb]

/-- Which shards a reconstruction starts from, and what it returns. -/
inductive Rebuilds : ℕ → List (Option Bytes) → List Shard → Prop
  | data (a : Bytes) (x : Option Bytes) : Rebuilds 1 [some a, x] [⟨a, []⟩, ⟨a, []⟩]
  | copy (a : Bytes) : Rebuilds 1 [none, some a] [⟨a, []⟩, ⟨a, []⟩]
  | all (a b c : Bytes) : Rebuilds 2 [some a, some b, some c] [⟨a, []⟩, ⟨b, []⟩, ⟨c, []⟩]
  | parity (a b : Bytes) :
    Rebuilds 2 [some a, some b, none] [⟨a, []⟩, ⟨b, []⟩, ⟨parity21 a b, []⟩]
  | second (a c : Bytes) :
    Rebuilds 2 [some a, none, some c] [⟨a, []⟩, ⟨second21 a c, []⟩, ⟨c, []⟩]
  | first (b c : Bytes) :
    Rebuilds 2 [none, some b, some c] [⟨first21 b c, []⟩, ⟨b, []⟩, ⟨c, []⟩]

theorem rebuilds_of_reconstruct {c : ℕ} {held : List (Option Bytes)} {out : List Shard}
    (h : smallCodes.reconstruct c held = some out) : Rebuilds c held out := by
  simp only [smallCodes] at h
  split at h <;> cases h <;> constructor

theorem reconstruct_smallCodes (hlen : a.length = b.length) {held : List (Option Bytes)}
    (hheld : List.Forall₂ (fun h s => h = none ∨ h = some s) held [a, b, parity21 a b]) :
    (2 ≤ held.countP Option.isSome → (smallCodes.reconstruct 2 held).isSome) ∧
      ∀ out, smallCodes.reconstruct 2 held = some out →
        out.map Shard.bytes = [a, b, parity21 a b] := by
  have hsecond : second21 a (parity21 a b) = b := by
    refine zipWith_zipWith_right (fun x y => ?_) hlen
    rw [UInt8.xor_comm, xor_xor_cancel, (gfMul_inverses y).1]
  have hfirst : first21 b (parity21 a b) = a := by
    refine zipWith_zipWith_left (fun x y => ?_) hlen
    rw [UInt8.xor_comm, xor_xor_cancel_right, (gfMul_inverses x).2.1]
  obtain ⟨x, y, z, rfl⟩ := List.length_eq_three.mp hheld.length_eq
  simp only [List.forall₂_cons] at hheld
  refine ⟨fun hcount => ?_, fun out hrec => ?_⟩
  · obtain ⟨rfl | rfl, rfl | rfl, rfl | rfl, -⟩ := hheld
    all_goals first
      | rfl
      | simp at hcount
  · obtain ⟨rfl | rfl, rfl | rfl, rfl | rfl, -⟩ := hheld
    all_goals first
      | (cases hrec; done)
      | (cases hrec; simp [hfirst, hsecond])

/-- Any two of the three shards determine the third. -/
theorem mds_smallCodes : smallCodes.MDS 2 1 where
  new := ⟨2, rfl⟩
  encode := by
    intro c data n hnew hlen hn hsize
    cases hnew
    obtain ⟨a, b, rfl⟩ := List.length_eq_two.mp hlen
    have ha := hsize a (by simp)
    have hb := hsize b (by simp)
    exact ⟨[parity21 a b], rfl, by simpa using length_parity21 ha hb,
      if_neg (List.ne_nil_of_length_pos (ha ▸ hn))⟩
  reconstruct := by
    intro c data parity n held hnew hlen hn hsize henc hheld hcount
    cases hnew
    obtain ⟨a, b, rfl⟩ := List.length_eq_two.mp hlen
    obtain ⟨-, rfl⟩ : a ≠ [] ∧ [parity21 a b] = parity := by simpa using henc
    obtain ⟨hsome, hout⟩ := reconstruct_smallCodes
      ((hsize a (by simp)).trans (hsize b (by simp)).symm) hheld
    obtain ⟨out, hrec⟩ := Option.isSome_iff_exists.mp (hsome hcount)
    exact ⟨out, hrec, hout out hrec⟩

/-- The library keeps the documented bounds. -/
theorem lawful_smallCodes : smallCodes.Lawful where
  new_bounds := by
    intro k p c h
    rw [new_smallCodes_eq] at h
    split at h
    · next hkp => omega
    · cases h
  reconstruct_size := by
    intro k p c held out n hnew hsize hrec
    cases rebuilds_of_reconstruct hrec <;> simp_all [parity21, second21, first21]

theorem inPlace_smallCodes : smallCodes.InPlace := by
  intro c held out h
  cases rebuilds_of_reconstruct h <;> rfl

theorem new_smallCodes {k p : ℤ} {c : ℕ} {data : List Bytes} (h : smallCodes.new k p = some c)
    (hlen : (data.length : ℤ) = k) :
    p = 1 ∧ ((∃ a, c = 1 ∧ data = [a]) ∨ ∃ a b, c = 2 ∧ data = [a, b]) := by
  rw [new_smallCodes_eq] at h
  split at h
  · next hkp =>
    cases h
    obtain ⟨rfl, rfl | rfl⟩ := hkp
    · exact ⟨rfl, .inl (by simpa using List.length_eq_one_iff.mp (by omega))⟩
    · exact ⟨rfl, .inr (by simpa using List.length_eq_two.mp (by omega))⟩
  · cases h

theorem encodes_smallCodes : smallCodes.Encodes := by
  intro k p c data n hnew hk hn hdata
  obtain ⟨rfl, ⟨a, rfl, rfl⟩ | ⟨a, b, rfl, rfl⟩⟩ := new_smallCodes hnew hk
  all_goals
    have ha : a ≠ [] := List.ne_nil_of_length_pos (hdata a (by simp) ▸ hn)
    simp [ha]

theorem sound_smallCodes : smallCodes.Sound where
  encode_eq := by
    intro k p c data out n hnew hlen hsize henc
    obtain ⟨hp, hcases⟩ := new_smallCodes hnew (congrArg _ hlen)
    obtain rfl : p = 1 := by omega
    obtain ⟨a, rfl, rfl⟩ | ⟨a, b, rfl, rfl⟩ := hcases
    · obtain ⟨-, rfl⟩ : a ≠ [] ∧ [a, a] = out := by simpa using henc
      exact ⟨[a], rfl, rfl, hsize⟩
    · obtain ⟨-, rfl⟩ : a ≠ [] ∧ [a, b, parity21 a b] = out := by simpa using henc
      refine ⟨[parity21 a b], rfl, rfl, ?_⟩
      simpa using length_parity21 (hsize a (by simp)) (hsize b (by simp))
  reconstruct_count := by
    intro k p c held out hnew hrec
    rw [new_smallCodes_eq] at hnew
    split at hnew <;> cases hnew
    generalize hc : (k : ℤ).toNat = c at hrec
    cases rebuilds_of_reconstruct hrec <;> simp at * <;> omega
  reconstruct_eq := by
    intro k p c data parity n held out hnew hlen hsize henc hheld hrec
    obtain ⟨hp, hcases⟩ := new_smallCodes hnew (congrArg _ hlen)
    obtain rfl : p = 1 := by omega
    obtain ⟨a, rfl, rfl⟩ | ⟨a, b, rfl, rfl⟩ := hcases
    · obtain ⟨-, rfl⟩ : a ≠ [] ∧ [a] = parity := by simpa using henc
      obtain ⟨x, y, rfl⟩ := List.length_eq_two.mp hheld.length_eq
      simp only [List.cons_append, List.nil_append, List.forall₂_cons] at hheld
      obtain ⟨rfl | rfl, rfl | rfl, -⟩ := hheld <;> cases hrec <;> rfl
    · obtain ⟨-, rfl⟩ : a ≠ [] ∧ [parity21 a b] = parity := by simpa using henc
      exact (reconstruct_smallCodes ((hsize a (by simp)).trans (hsize b (by simp)).symm) hheld).2
        out hrec

/-! ### Two parity shards -/

/-- The first parity shard of a pair. -/
def sum22 (a b : Bytes) : Bytes := List.zipWith (fun x y => x ^^^ y) a b

/-- The second parity shard of a pair. -/
def skew22 (a b : Bytes) : Bytes := List.zipWith (fun x y => x ^^^ gfMul 2 y) a b

/-- The data shards of a pair from two of the four shards. -/
def solve22 : List (Option Bytes) → Option (Bytes × Bytes)
  | [some a, some b, _, _] => some (a, b)
  | [some a, none, some c, _] => some (a, sum22 a c)
  | [some a, none, none, some d] =>
    some (a, List.zipWith (fun x z => gfMul 0x8E (x ^^^ z)) a d)
  | [none, some b, some c, _] => some (sum22 b c, b)
  | [none, some b, none, some d] => some (List.zipWith (fun y z => gfMul 2 y ^^^ z) b d, b)
  | [none, none, some c, some d] =>
    let b := List.zipWith (fun u v => gfMul 0xF4 (u ^^^ v)) c d
    some (sum22 b c, b)
  | _ => none

/-- The code for two data shards with two parity shards. -/
def pairCodes : ReedSolomon Unit where
  new k p := if k = 2 ∧ p = 2 then some () else none
  encode
    | (), [a, b, _, _] => if a = [] then none else some [a, b, sum22 a b, skew22 a b]
    | _, _ => none
  reconstruct _ held := (solve22 held).map fun r =>
    [⟨r.1, []⟩, ⟨r.2, []⟩, ⟨sum22 r.1 r.2, []⟩, ⟨skew22 r.1 r.2, []⟩]

theorem solve22_of_held (hlen : a.length = b.length) {held : List (Option Bytes)}
    (hheld : List.Forall₂ (fun h s => h = none ∨ h = some s) held [a, b, sum22 a b, skew22 a b])
    (hcount : 2 ≤ held.countP Option.isSome) : solve22 held = some (a, b) := by
  have hsum : sum22 a (sum22 a b) = b := zipWith_zipWith_right xor_xor_cancel hlen
  have hsum' : sum22 b (sum22 a b) = a := zipWith_zipWith_left xor_xor_cancel_right hlen
  have hskew : List.zipWith (fun x z => gfMul 0x8E (x ^^^ z)) a (skew22 a b) = b := by
    refine zipWith_zipWith_right (fun x y => ?_) hlen
    rw [xor_xor_cancel, (gfMul_inverses y).1]
  have hskew' : List.zipWith (fun y z => gfMul 2 y ^^^ z) b (skew22 a b) = a :=
    zipWith_zipWith_left (fun x y => xor_xor_cancel_right x (gfMul 2 y)) hlen
  have hboth : List.zipWith (fun u v => gfMul 0xF4 (u ^^^ v)) (sum22 a b) (skew22 a b) = b := by
    refine zipWith_zipWith_both (fun x y => ?_) hlen
    rw [UInt8.xor_comm x y, UInt8.xor_assoc, xor_xor_cancel, (gfMul_inverses y).2.2,
      (gfMul_inverses y).2.1]
  match held, hheld with
  | [x, y, z, u], hheld =>
    simp only [List.forall₂_cons] at hheld
    obtain ⟨rfl | rfl, rfl | rfl, rfl | rfl, rfl | rfl, -⟩ := hheld
    all_goals first
      | (simp at hcount; done)
      | simp only [solve22, hsum, hsum', hskew, hskew', hboth]

/-- Any two of the four shards determine the others. -/
theorem mds_pairCodes : pairCodes.MDS 2 2 where
  new := ⟨(), rfl⟩
  encode := by
    intro c data n hnew hlen hn hsize
    obtain ⟨a, b, rfl⟩ := List.length_eq_two.mp hlen
    have ha := hsize a (by simp)
    have hb := hsize b (by simp)
    exact ⟨[sum22 a b, skew22 a b], rfl, by simp [sum22, skew22, ha, hb],
      if_neg (List.ne_nil_of_length_pos (ha ▸ hn))⟩
  reconstruct := by
    intro c data parity n held hnew hlen hn hsize henc hheld hcount
    obtain ⟨a, b, rfl⟩ := List.length_eq_two.mp hlen
    have hab := (hsize a (by simp)).trans (hsize b (by simp)).symm
    obtain ⟨-, rfl⟩ : a ≠ [] ∧ [sum22 a b, skew22 a b] = parity := by
      simpa [pairCodes, List.replicate] using henc
    exact ⟨_, congrArg (Option.map _) (solve22_of_held hab hheld hcount), rfl⟩
