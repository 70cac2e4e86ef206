import FlexBraid.Lib.GoMap
import Mathlib.Data.List.Sort

/-!
# Consistent hashing

Owners place nodes on a ring of hashes.  A hash falls to the first node at or after it, and to the
first node of all where there is none; whoever placed that node is the owner of the hash.  Several
owners may place the same node, and then it belongs to the last of them.

When the nodes of one owner are taken off the ring, the hashes of the others stay where they are:
the node such a hash falls to is still there, nothing came to lie before it, and its last writer
is still the last.

## Main definitions

* `HashRing.IsSucc` — the node a hash falls to.
* `HashRing.owner` — the last writer of a node.
* `HashRing.Owns` — the owner of a hash.

## Main results

* `HashRing.isSucc_find` — a search in a sorted ring finds the node.
* `HashRing.lookup_foldl_insert` — a map that is filled in order holds the last writers.
* `HashRing.Owns.remove` — **taking nodes off the ring moves only the hashes of their owners.**
-/

namespace HashRing

variable {N O : Type}

section
variable [LE N]

/-! ### Where a hash falls -/

/-- The hash `h` falls to the node `n`. -/
structure IsSucc (nodes : List N) (h n : N) : Prop where
  mem : n ∈ nodes
  /-- It is the first node at or after the hash, if there is any. -/
  first : ∀ m ∈ nodes, h ≤ m → h ≤ n ∧ n ≤ m
  /-- Where there is none, it is the first of all. -/
  wrap : ¬ h ≤ n → ∀ m ∈ nodes, n ≤ m

theorem IsSucc.mono {nodes nodes' : List N} {h n : N} (hn : IsSucc nodes h n)
    (hsub : ∀ m ∈ nodes', m ∈ nodes) (hmem : n ∈ nodes') : IsSucc nodes' h n :=
  ⟨hmem, fun m hm => hn.first m (hsub m hm), fun hlt m hm => hn.wrap hlt m (hsub m hm)⟩

/-- A hash falls to one node only. -/
theorem IsSucc.unique [Std.IsLinearOrder N] {nodes : List N} {h n n' : N} (hn : IsSucc nodes h n)
    (hn' : IsSucc nodes h n') : n = n' := by
  by_cases hle : h ≤ n
  · -- then `n'` lies behind the hash too, and each is at most the other
    obtain ⟨hle', h₁⟩ := hn'.first n hn.mem hle
    exact Std.le_antisymm (hn.first n' hn'.mem hle').2 h₁
  · have hle' : ¬ h ≤ n' := fun hc => hle (hn.first n' hn'.mem hc).1
    exact Std.le_antisymm (hn.wrap hle n' hn'.mem) (hn'.wrap hle' n hn.mem)

/-- **A search in a sorted ring finds the node.** -/
theorem isSucc_find [Std.IsLinearOrder N] [DecidableLE N] {ring : List N}
    (hsorted : ring.Pairwise (· ≤ ·)) (hne : ring ≠ []) (h dflt : N) :
    IsSucc ring h ((ring.find? fun n => decide (h ≤ n)).getD (ring.headD dflt)) := by
  cases hfind : ring.find? fun n => decide (h ≤ n) with
  | some n =>
    obtain ⟨hle, front, back, hring, hfront⟩ := List.find?_eq_some_iff_append.mp hfind
    rw [decide_eq_true_eq] at hle
    have hback : ∀ m ∈ back, n ≤ m := by
      rw [hring, List.pairwise_append, List.pairwise_cons] at hsorted
      exact hsorted.2.1.1
    refine ⟨by simp [hring], fun m hm hm' => ⟨hle, ?_⟩, fun hlt => absurd hle hlt⟩
    rw [hring, List.mem_append, List.mem_cons] at hm
    rcases hm with hm | rfl | hm
    · -- the nodes in front of it lie before the hash
      have hnot := hfront m hm
      simp [hm'] at hnot
    · exact Std.le_refl _
    · exact hback m hm
  | none =>
    rw [List.find?_eq_none] at hfind
    obtain ⟨n, rest, rfl⟩ := List.exists_cons_of_ne_nil hne
    have hbefore : ∀ m ∈ n :: rest, ¬ h ≤ m := fun m hm hle => hfind m hm (by simpa using hle)
    refine ⟨List.mem_cons_self, fun m hm hm' => absurd hm' (hbefore m hm), fun _ m hm => ?_⟩
    rcases List.mem_cons.mp hm with rfl | hm
    · exact Std.le_refl _
    · exact (List.pairwise_cons.mp hsorted).1 m hm

end

/-! ### Who owns a node -/

section
variable [DecidableEq N]

/-- The last writer of a node, where `placed` says in order who placed what. -/
def owner (placed : List (N × O)) (n : N) : Option O :=
  placed.foldl (fun o e => if e.1 = n then some e.2 else o) none

theorem owner_concat (placed : List (N × O)) (e : N × O) (n : N) :
    owner (placed ++ [e]) n = if e.1 = n then some e.2 else owner placed n := by
  rw [owner, List.foldl_append]
  rfl

theorem owner_append (a b : List (N × O)) (n : N) :
    owner (a ++ b) n = (owner b n).or (owner a n) := by
  induction b using List.reverseRecOn with
  | nil =>
    rw [List.append_nil]
    rfl
  | append_singleton b e ih =>
    rw [← List.append_assoc, owner_concat, owner_concat, ih]
    split <;> rfl

variable {n : N}

theorem mem_of_owner {placed : List (N × O)} {o : O} (h : owner placed n = some o) :
    (n, o) ∈ placed := by
  induction placed using List.reverseRecOn with
  | nil => cases h
  | append_singleton placed e ih =>
    rw [owner_concat] at h
    rw [List.mem_append, List.mem_singleton]
    split at h
    · next he =>
      cases h
      exact .inr (by rw [← he])
    · exact .inl (ih h)

theorem isSome_owner {placed : List (N × O)} (h : n ∈ placed.map Prod.fst) :
    (owner placed n).isSome = true := by
  induction placed using List.reverseRecOn with
  | nil => cases h
  | append_singleton placed e ih =>
    rw [owner_concat]
    split
    · rfl
    · next he =>
      rw [List.map_append, List.mem_append, List.map_singleton, List.mem_singleton] at h
      exact ih (h.resolve_right fun h => he h.symm)

theorem lookup_foldl_insert (placed : List (N × O)) (n : N) :
    (placed.foldl (fun m e => m.insert e.1 e.2) (∅ : GoMap N O)).lookup n = owner placed n := by
  induction placed using List.reverseRecOn with
  | nil => rfl
  | append_singleton placed e ih =>
    rw [List.foldl_append, List.foldl_cons, List.foldl_nil, AList.lookup_insert_eq, ih,
      owner_concat]
    simp only [eq_comm]

theorem owner_remove {a b c : List (N × O)} {o : O} (h : owner (a ++ b ++ c) n = some o)
    (hb : ∀ e ∈ b, e.2 ≠ o) : owner (a ++ c) n = some o := by
  rw [owner_append, owner_append] at h
  rw [owner_append]
  cases hc : owner c n with
  | some o' =>
    rw [hc] at h
    exact h
  | none =>
    rw [hc, Option.none_or] at h
    rw [Option.none_or]
    cases hob : owner b n with
    | some o' =>
      rw [hob] at h
      cases h
      exact absurd rfl (hb _ (mem_of_owner hob))
    | none => rwa [hob, Option.none_or] at h

end

/-! ### Who owns a hash -/

section
variable [LE N] [DecidableEq N]

/-- The hash `h` falls to a node of `o`. -/
def Owns (placed : List (N × O)) (h : N) (o : O) : Prop :=
  ∃ n, IsSucc (placed.map Prod.fst) h n ∧ owner placed n = some o

theorem Owns.unique [Std.IsLinearOrder N] {placed : List (N × O)} {h : N} {o o' : O}
    (ho : Owns placed h o) (ho' : Owns placed h o') : o = o' := by
  obtain ⟨n, hn, hown⟩ := ho
  obtain ⟨n', hn', hown'⟩ := ho'
  rw [hn.unique hn', hown'] at hown
  exact (Option.some.inj hown).symm

/-- **Taking nodes off the ring moves only the hashes of their owners.** -/
theorem Owns.remove {a b c : List (N × O)} {h : N} {o : O} (ho : Owns (a ++ b ++ c) h o)
    (hb : ∀ e ∈ b, e.2 ≠ o) : Owns (a ++ c) h o := by
  obtain ⟨n, hn, hown⟩ := ho
  have hown' := owner_remove hown hb
  refine ⟨n, hn.mono (fun m hm => ?_) (List.mem_map_of_mem (mem_of_owner hown')), hown'⟩
  rw [List.map_append, List.mem_append] at hm
  rw [List.map_append, List.map_append, List.mem_append, List.mem_append]
  exact hm.elim (fun hm => .inl (.inl hm)) .inr

end

end HashRing
