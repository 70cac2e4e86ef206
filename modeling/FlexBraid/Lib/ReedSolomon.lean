import FlexBraid.Lib.BigEndian

/-!
# The interface of a Reed–Solomon library

A codec is built for `k` data and `p` parity shards.  It fills the parity shards
from the data shards, and the missing shards from those at hand; every call may
return an error.

## Main definitions

* `Shard` — a byte slice with its spare capacity.
* `ReedSolomon` — the library calls.
* `ReedSolomon.Lawful` — what the library documents about the numbers and sizes
  of shards.
* `ReedSolomon.Accepts` — a codec can be built for all sizes up to 256 shards.
* `ReedSolomon.InPlace` — a reconstruction keeps the number of shards.
* `ReedSolomon.Encodes` — an encoding fails only on empty shards.
* `ReedSolomon.Sound` — what a call that succeeds has done.
* `ReedSolomon.MDS` — any `k` of the `k + p` shards determine all of them.
-/

/-- A byte slice: its bytes, and the bytes behind them up to its capacity. -/
structure Shard where
  bytes : Bytes
  spare : Bytes := []
deriving DecidableEq

/-- The Go expression `s[:n]`.  It may reach into the capacity; past that it
panics. -/
def Shard.slice (s : Shard) (n : ℕ) : Option Bytes :=
  if n ≤ s.bytes.length + s.spare.length then some ((s.bytes ++ s.spare).take n) else none

variable {n : ℕ}

theorem Shard.slice_of_le {s : Shard} (h : n ≤ s.bytes.length) :
    s.slice n = some (s.bytes.take n) := by
  rw [slice, if_pos (by omega), List.take_append_of_le_length h]

/-- A buffer of `n` bytes into which `l` was copied. -/
def padTo (n : ℕ) (l : Bytes) : Bytes := l.take n ++ List.replicate (n - l.length) 0

@[simp] theorem length_padTo (n : ℕ) (l : Bytes) : (padTo n l).length = n := by
  simp only [padTo, List.length_append, List.length_take, List.length_replicate]
  omega

theorem padTo_of_length {l : Bytes} (h : l.length = n) : padTo n l = l := by
  simp [padTo, ← h]

theorem take_padTo {l : Bytes} (h : l.length ≤ n) : (padTo n l).take l.length = l := by
  simp [padTo, List.take_of_length_le h]

/-- The library calls: build a codec, fill the parity shards, fill the missing
shards. -/
structure ReedSolomon (C : Type) where
  new : ℤ → ℤ → Option C
  encode : C → List Bytes → Option (List Bytes)
  reconstruct : C → List (Option Bytes) → Option (List Shard)

namespace ReedSolomon

variable {C : Type}

/-- The documented bounds: a codec has a data shard and at most 65536 shards, and
a reconstruction leaves every shard with the common length of those it was
given. -/
structure Lawful (RS : ReedSolomon C) : Prop where
  new_bounds : ∀ {k p : ℤ} {c : C}, RS.new k p = some c → 0 < k ∧ 0 ≤ p ∧ k + p ≤ 65536
  reconstruct_size : ∀ {k p : ℤ} {c : C} {held : List (Option Bytes)} {out : List Shard} {n : ℕ},
    RS.new k p = some c → (∀ s, some s ∈ held → s.length = n) →
    RS.reconstruct c held = some out → ∀ s ∈ out, s.bytes.length = n

/-- A codec can be built for every size up to 256 shards. -/
def Accepts (RS : ReedSolomon C) : Prop :=
  ∀ {k p : ℤ}, 0 < k → 0 < p → k + p ≤ 256 → (RS.new k p).isSome

/-- A reconstruction works in place: it leaves as many shards as it was given. -/
def InPlace (RS : ReedSolomon C) : Prop :=
  ∀ {c : C} {held : List (Option Bytes)} {out : List Shard},
    RS.reconstruct c held = some out → out.length = held.length

/-- Encoding succeeds on shards of one positive length: it fails only when there is no
byte to encode. -/
def Encodes (RS : ReedSolomon C) : Prop :=
  ∀ {k p : ℤ} {c : C} {data : List Bytes} {n : ℕ}, RS.new k p = some c → (data.length : ℤ) = k →
    0 < n → (∀ s ∈ data, s.length = n) →
    (RS.encode c (data ++ List.replicate p.toNat (List.replicate n 0))).isSome

/-- What a call that succeeds has done.  An encoding keeps the data shards and fills the
parity shards; a reconstruction takes as many shards as the codec was built for, and leaves
the encoded shards when it was given some of them. -/
structure Sound (RS : ReedSolomon C) : Prop where
  encode_eq : ∀ {k p : ℕ} {c : C} {data out : List Bytes} {n : ℕ}, RS.new k p = some c →
    data.length = k → (∀ s ∈ data, s.length = n) →
    RS.encode c (data ++ List.replicate p (List.replicate n 0)) = some out →
    ∃ parity : List Bytes, out = data ++ parity ∧ parity.length = p ∧ ∀ s ∈ parity, s.length = n
  reconstruct_count : ∀ {k p : ℕ} {c : C} {held : List (Option Bytes)} {out : List Shard},
    RS.new k p = some c → RS.reconstruct c held = some out → held.length = k + p
  reconstruct_eq : ∀ {k p : ℕ} {c : C} {data parity : List Bytes} {n : ℕ}
    {held : List (Option Bytes)} {out : List Shard}, RS.new k p = some c → data.length = k →
    (∀ s ∈ data, s.length = n) →
    RS.encode c (data ++ List.replicate p (List.replicate n 0)) = some (data ++ parity) →
    List.Forall₂ (fun h s => h = none ∨ h = some s) held (data ++ parity) →
    RS.reconstruct c held = some out → out.map Shard.bytes = data ++ parity

/-- The codec for `k` data and `p` parity shards is a maximum distance separable
code on shards of one positive length: it appends `p` parity shards to the data
shards, and any `k` of the `k + p` shards reconstruct all of them. -/
structure MDS (RS : ReedSolomon C) (k p : ℕ) : Prop where
  new : ∃ c, RS.new k p = some c
  encode : ∀ {c : C} {data : List Bytes} {n : ℕ}, RS.new k p = some c → data.length = k →
    0 < n → (∀ s ∈ data, s.length = n) →
    ∃ parity : List Bytes, parity.length = p ∧ (∀ s ∈ parity, s.length = n) ∧
      RS.encode c (data ++ List.replicate p (List.replicate n 0)) = some (data ++ parity)
  reconstruct : ∀ {c : C} {data parity : List Bytes} {n : ℕ} {held : List (Option Bytes)},
    RS.new k p = some c → data.length = k → 0 < n → (∀ s ∈ data, s.length = n) →
    RS.encode c (data ++ List.replicate p (List.replicate n 0)) = some (data ++ parity) →
    List.Forall₂ (fun h s => h = none ∨ h = some s) held (data ++ parity) →
    k ≤ held.countP Option.isSome →
    ∃ out, RS.reconstruct c held = some out ∧ out.map Shard.bytes = data ++ parity

end ReedSolomon
