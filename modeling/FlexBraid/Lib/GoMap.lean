import Mathlib.Data.Finset.Card
import Mathlib.Data.List.AList
import Mathlib.Data.List.Sort

/-!
# Finite maps with an unspecified iteration order

A hash map whose iteration order is unspecified is modelled by Mathlib's
association lists: lookups, insertions and deletions are `AList`'s, and a loop
over the map takes an `IterOrder`, which says in which order the keys are
visited.  A statement that holds for every `IterOrder` holds for every order the
runtime may choose.

## Main definitions

* `GoMap K V` — finite maps from `K` to `V`.
* `AList.size`, `AList.getD`, `AList.set`, `AList.keep`, `AList.mapVals`, `AList.gather` — the
  length of a map, lookup with a zero value, assignment, deletion by a predicate, a pass over
  the values, and what the values hold.
* `IterOrder K` — an iteration order.
-/

/-- A finite map from `K` to `V`. -/
abbrev GoMap (K V : Type) := AList fun _ : K => V

namespace AList

variable {K V W : Type} [DecidableEq K]

/-! ### The length of a map -/

/-- The number of entries of a map. -/
def size (m : GoMap K V) : ℕ := m.keys.length

omit [DecidableEq K] in
@[simp] theorem size_empty : (∅ : GoMap K V).size = 0 := rfl

variable {m : GoMap K V} {a a' : K} {b : V}

omit [DecidableEq K] in
theorem size_eq_zero : m.size = 0 ↔ m = ∅ := by
  constructor
  · intro h
    apply AList.ext
    rw [size, keys, List.length_eq_zero_iff, List.keys, List.map_eq_nil_iff] at h
    exact h
  · rintro rfl
    rfl

omit [DecidableEq K] in
theorem size_ne_zero : m.size ≠ 0 ↔ ∃ a, a ∈ m := by
  rw [size, ne_eq, List.length_eq_zero_iff, List.eq_nil_iff_forall_not_mem]
  push Not
  rfl

theorem mem_of_lookup (h : m.lookup a = some b) : a ∈ m := by
  rw [← lookup_isSome, h]
  rfl

theorem exists_lookup (h : a ∈ m) : ∃ b, m.lookup a = some b :=
  Option.isSome_iff_exists.mp (lookup_isSome.mpr h)

theorem size_insert_of_lookup_none (h : m.lookup a = none) : (m.insert a b).size = m.size + 1 := by
  rw [size, keys_insert, List.length_cons, List.erase_of_not_mem, size]
  rwa [lookup_eq_none, mem_keys] at h

theorem size_erase_le (m : GoMap K V) (a : K) : (m.erase a).size ≤ m.size := by
  rw [size, keys_erase]
  exact List.length_erase_le

theorem size_erase_of_mem (h : a ∈ m) : (m.erase a).size + 1 = m.size := by
  rw [size, keys_erase, size, List.length_erase_of_mem (mem_keys.mp h)]
  have hpos : 0 < m.keys.length := List.length_pos_of_mem (mem_keys.mp h)
  omega

theorem size_eq_card {D : Finset K} (h : ∀ a, (m.lookup a).isSome ↔ a ∈ D) : m.size = D.card := by
  have hD : m.keys.toFinset = D := by
    ext a
    rw [List.mem_toFinset, ← mem_keys, ← lookup_isSome, h]
  rw [← hD, List.toFinset_card_of_nodup m.keys_nodup, size]

/-! ### Lookup with a zero value -/

/-- Lookup with a default: the zero value of a missing entry. -/
def getD (m : GoMap K V) (a : K) (dflt : V) : V := (m.lookup a).getD dflt

@[simp] theorem getD_empty (a : K) (v : V) : (∅ : GoMap K V).getD a v = v := rfl

@[simp] theorem getD_insert (m : GoMap K V) (a : K) (b v : V) : (m.insert a b).getD a v = b := by
  rw [getD, lookup_insert, Option.getD_some]

theorem getD_insert_ne (h : a ≠ a') (b v : V) : (m.insert a' b).getD a v = m.getD a v := by
  rw [getD, lookup_insert_ne h, getD]

theorem lookup_insert_eq (a a' : K) (b : V) :
    (m.insert a' b).lookup a = if a = a' then some b else m.lookup a := by
  by_cases h : a = a'
  · subst h
    rw [lookup_insert, if_pos rfl]
  · rw [lookup_insert_ne h, if_neg h]

theorem lookup_erase_eq (a a' : K) :
    (m.erase a').lookup a = if a = a' then none else m.lookup a := by
  by_cases h : a = a'
  · subst h
    rw [lookup_erase, if_pos rfl]
  · rw [lookup_erase_ne h, if_neg h]

theorem lookup_of_erase (h : (m.erase a').lookup a = some b) : m.lookup a = some b := by
  rw [lookup_erase_eq] at h
  split at h
  · cases h
  · exact h

/-! ### Assignment -/

/-- The assignment `m[a] = b`; an entry that exists keeps its place. -/
def set (m : GoMap K V) (a : K) (b : V) : GoMap K V :=
  if a ∈ m then
    { entries := m.entries.map fun e => if e.1 = a then ⟨a, b⟩ else e
      nodupKeys := by
        have hkey : ∀ e : Σ _ : K, V,
            (if e.1 = a then (⟨a, b⟩ : Σ _ : K, V) else e).1 = e.1 := by
          intro e
          split
          · next h => exact h.symm
          · rfl
        rw [List.NodupKeys, List.keys, List.map_map, Function.comp_def]
        simp only [hkey]
        exact m.nodupKeys }
  else m.insert a b

theorem lookup_set (m : GoMap K V) (a a' : K) (b : V) :
    (m.set a' b).lookup a = if a = a' then some b else m.lookup a := by
  by_cases hmem : a' ∈ m
  · rw [set, if_pos hmem]
    apply Option.ext
    intro c
    rw [← Option.mem_def, mem_lookup_iff]
    show (⟨a, c⟩ : Σ _ : K, V) ∈ List.map _ m.entries ↔ _
    rw [List.mem_map]
    constructor
    · rintro ⟨e, he, heq⟩
      by_cases hkey : e.1 = a'
      · rw [if_pos hkey] at heq
        cases heq
        rw [if_pos rfl]
      · rw [if_neg hkey] at heq
        subst heq
        rw [if_neg hkey]
        exact mem_lookup_iff.mpr he
    · intro hc
      by_cases hkey : a = a'
      · subst hkey
        rw [if_pos rfl] at hc
        cases hc
        obtain ⟨v, hv⟩ := exists_lookup hmem
        exact ⟨⟨a, v⟩, mem_lookup_iff.mp hv, if_pos rfl⟩
      · rw [if_neg hkey] at hc
        exact ⟨⟨a, c⟩, mem_lookup_iff.mp hc, if_neg hkey⟩
  · rw [set, if_neg hmem, lookup_insert_eq]

theorem mem_set : a ∈ m.set a' b ↔ a = a' ∨ a ∈ m := by
  rw [← lookup_isSome, lookup_set, ← lookup_isSome]
  split
  · next h => simp [h]
  · next h => simp [h]

theorem size_set_of_mem (h : a ∈ m) (b : V) : (m.set a b).size = m.size := by
  rw [set, if_pos h, size, keys, List.keys, List.map_map, List.length_map, size, keys, List.keys,
    List.length_map]

theorem size_set_of_not_mem (h : a ∉ m) (b : V) : (m.set a b).size = m.size + 1 := by
  rw [set, if_neg h]
  exact size_insert_of_lookup_none (lookup_eq_none.mpr h)

theorem set_of_lookup (h : m.lookup a = some b) : m.set a b = m := by
  rw [set, if_pos (mem_of_lookup h)]
  apply AList.ext
  show List.map _ m.entries = m.entries
  conv_rhs => rw [← List.map_id m.entries]
  apply List.map_congr_left
  intro e he
  split
  · next hkey =>
    have hv : m.lookup e.1 = some e.2 := mem_lookup_iff.mpr he
    rw [hkey, h] at hv
    cases hv
    subst hkey
    rfl
  · rfl

/-! ### Deleting by a predicate -/

/-- The entries of a map that satisfy `p`. -/
def keep (m : GoMap K V) (p : K → V → Bool) : GoMap K V where
  entries := m.entries.filter fun e => p e.1 e.2
  nodupKeys := m.nodupKeys.sublist List.filter_sublist

theorem lookup_keep (m : GoMap K V) (p : K → V → Bool) (a : K) :
    (m.keep p).lookup a = (m.lookup a).filter (p a) := by
  apply Option.ext
  intro b
  have hl : b ∈ (m.keep p).lookup a ↔ (⟨a, b⟩ : Σ _ : K, V) ∈ (m.keep p).entries :=
    mem_lookup_iff
  have hk : (⟨a, b⟩ : Σ _ : K, V) ∈ (m.keep p).entries ↔
      (⟨a, b⟩ : Σ _ : K, V) ∈ m.entries ∧ p a b = true := List.mem_filter
  rw [Option.filter_eq_some_iff, ← Option.mem_def, hl, hk, ← mem_lookup_iff, Option.mem_def]

omit [DecidableEq K] in
theorem size_keep_le (m : GoMap K V) (p : K → V → Bool) : (m.keep p).size ≤ m.size := by
  simp only [size, keys, List.keys, keep, List.length_map]
  exact List.length_filter_le _ _

/-! ### A pass over the values -/

/-- Apply `f` to every value of a map. -/
def mapVals (m : GoMap K V) (f : V → W) : GoMap K W where
  entries := m.entries.map fun e => ⟨e.1, f e.2⟩
  nodupKeys := by
    have h : (m.entries.map fun e => (⟨e.1, f e.2⟩ : Σ _ : K, W)).keys = m.entries.keys := by
      simp [List.keys, Function.comp_def]
    rw [List.NodupKeys, h]
    exact m.nodupKeys

theorem lookup_mapVals (m : GoMap K V) (f : V → W) (a : K) :
    (m.mapVals f).lookup a = (m.lookup a).map f := by
  unfold lookup mapVals
  dsimp only
  induction m.entries with
  | nil => rfl
  | cons e l ih =>
    obtain ⟨a', v⟩ := e
    rcases eq_or_ne a a' with rfl | hne
    · simp
    · rw [List.map_cons, List.dlookup_cons_ne _ _ hne, List.dlookup_cons_ne _ _ hne, ih]

/-! ### What the values hold -/

section
variable {O : Type} (f : K → V → List O)

/-- The items that `f` finds in the value of one key. -/
def gatherAt (m : GoMap K V) (a : K) : List O := (m.lookup a).elim [] (f a)

/-- The items that `f` finds in all values. -/
def gather (m : GoMap K V) : List O := m.keys.flatMap (m.gatherAt f)

variable {m : GoMap K V}

theorem gatherAt_of_none {a : K} (h : m.lookup a = none) : m.gatherAt f a = [] := by
  rw [gatherAt, h, Option.elim_none]

theorem gatherAt_of_some {a : K} {v : V} (h : m.lookup a = some v) : m.gatherAt f a = f a v := by
  rw [gatherAt, h, Option.elim_some]

theorem gather_perm_keys {keys : List K} (hnd : keys.Nodup)
    (hcover : ∀ a, (m.lookup a).isSome → a ∈ keys) :
    (m.gather f).Perm (keys.flatMap (m.gatherAt f)) := by
  have hkeys : m.keys.Perm (keys.filter fun a => (m.lookup a).isSome) := by
    rw [List.perm_ext_iff_of_nodup m.keys_nodup (hnd.filter _)]
    intro a
    rw [← mem_keys, ← lookup_isSome, List.mem_filter]
    exact ⟨fun h => ⟨hcover a h, h⟩, fun h => h.2⟩
  -- the other keys contribute nothing
  have hrest : ∀ l : List K, (l.filter fun a => (m.lookup a).isSome).flatMap (m.gatherAt f) =
      l.flatMap (m.gatherAt f) := by
    intro l
    induction l with
    | nil => rfl
    | cons a l ih =>
      cases ha : m.lookup a with
      | none => rw [List.filter_cons_of_neg (by simp [ha]), ih, List.flatMap_cons,
          gatherAt_of_none f ha, List.nil_append]
      | some v => rw [List.filter_cons_of_pos (by simp [ha]), List.flatMap_cons, ih,
          List.flatMap_cons]
  exact (hkeys.flatMap_right _).trans (List.Perm.of_eq (hrest keys))

theorem gather_perm_of_eq {m' : GoMap K V} (h : ∀ a, m.gatherAt f a = m'.gatherAt f a) :
    (m.gather f).Perm (m'.gather f) := by
  have hunion : (m.keys ∪ m'.keys).Nodup := m'.keys_nodup.union m.keys
  have hm := gather_perm_keys f hunion fun a (ha : (m.lookup a).isSome) =>
    List.mem_union_left (mem_keys.mp (lookup_isSome.mp ha)) _
  have hm' := gather_perm_keys f hunion fun a (ha : (m'.lookup a).isSome) =>
    List.mem_union_right _ (mem_keys.mp (lookup_isSome.mp ha))
  refine hm.trans (List.Perm.trans (List.Perm.of_eq ?_) hm'.symm)
  exact List.flatMap_congr fun a _ => h a

theorem gather_update {m' : GoMap K V} {key : K} (h : ∀ a, a ≠ key → m'.lookup a = m.lookup a) :
    (m'.gather f ++ m.gatherAt f key).Perm (m.gather f ++ m'.gatherAt f key) := by
  let rest := (m.keys ∪ m'.keys).erase key
  have hunion : (m.keys ∪ m'.keys).Nodup := m'.keys_nodup.union m.keys
  have hnd : (key :: rest).Nodup :=
    List.nodup_cons.mpr ⟨hunion.not_mem_erase, hunion.erase key⟩
  have hmem : ∀ a, a ∈ m.keys ∪ m'.keys → a ∈ key :: rest := by
    intro a ha
    by_cases hk : a = key
    · exact hk ▸ List.mem_cons_self
    · exact List.mem_cons_of_mem _ ((List.mem_erase_of_ne hk).mpr ha)
  have hm := gather_perm_keys f hnd fun a (ha : (m.lookup a).isSome) =>
    hmem a (List.mem_union_left (mem_keys.mp (lookup_isSome.mp ha)) _)
  have hm' := gather_perm_keys f hnd fun a (ha : (m'.lookup a).isSome) =>
    hmem a (List.mem_union_right _ (mem_keys.mp (lookup_isSome.mp ha)))
  have hsame : rest.flatMap (m'.gatherAt f) = rest.flatMap (m.gatherAt f) := by
    apply List.flatMap_congr
    intro a ha
    have hne : a ≠ key := by
      rintro rfl
      exact hunion.not_mem_erase ha
    rw [gatherAt, gatherAt, h a hne]
  rw [List.flatMap_cons] at hm hm'
  rw [hsame] at hm'
  refine (hm'.append_right _).trans (List.Perm.trans ?_ (hm.append_right _).symm)
  rw [List.append_assoc, List.append_assoc]
  exact ((List.perm_append_comm_assoc _ _ _).trans
    (List.perm_append_comm.append_left _)).trans (List.perm_append_comm_assoc _ _ _) 

end

end AList

/-! ### Iteration orders -/

/-- The order in which a loop over a map visits its keys: any rearrangement of
the key list. -/
structure IterOrder (K : Type) where
  /-- The keys in the order they are visited. -/
  visit : List K → List K
  /-- Every key is visited exactly once. -/
  perm : ∀ l, (visit l).Perm l

namespace IterOrder

variable {K : Type}

/-- The order of insertion, latest first. -/
def plain : IterOrder K := ⟨id, fun _ => List.Perm.refl _⟩

@[simp] theorem mem_visit (σ : IterOrder K) {l : List K} {a : K} : a ∈ σ.visit l ↔ a ∈ l :=
  (σ.perm l).mem_iff

theorem mem_visit_keys [DecidableEq K] (σ : IterOrder K) {V : Type} {m : GoMap K V} {a : K} :
    a ∈ σ.visit m.keys ↔ a ∈ m := by
  rw [mem_visit, ← AList.mem_keys]

theorem nodup_visit (σ : IterOrder K) {l : List K} (h : l.Nodup) : (σ.visit l).Nodup :=
  (σ.perm l).nodup_iff.mpr h

end IterOrder
