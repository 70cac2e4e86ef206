import Mathlib.Data.List.Induction
import Mathlib.Data.List.Sort

/-!
# Slice and index expressions that may panic

An index or slice expression out of range stops the program.  Here such an expression is
an `Option`, and `none` is the panic; reading an index is `List`'s own `s[i]?`.

## Main definitions

* `GoSlice.sub`, `GoSlice.tail` — the expressions `s[lo:hi]` and `s[lo:]`.
* `GoSlice.store` — the assignment `s[i] = x`; `GoSlice.put`, `GoSlice.copyAt` — writes of several
  elements.
* `GoSlice.sift`, `GoSlice.sort` — the insertion sort that swaps neighbours in place.

## Main results

* `GoSlice.mapM_eq_map` — a loop none of whose reads panics.
* `GoSlice.foldlM_put_table` — a table is filled entry by entry.
* `GoSlice.sort_eq` — the sort does not panic, and sorts.
-/

namespace GoSlice

variable {α β : Type}

/-- The expression `s[lo:hi]`. -/
def sub (s : List α) (lo hi : ℕ) : Option (List α) :=
  if lo ≤ hi ∧ hi ≤ s.length then some ((s.take hi).drop lo) else none

/-- The expression `s[lo:]`. -/
def tail (s : List α) (lo : ℕ) : Option (List α) :=
  if lo ≤ s.length then some (s.drop lo) else none

/-- The assignment `s[i] = x`. -/
def store (s : List α) (i : ℕ) (x : α) : Option (List α) :=
  if i < s.length then some (s.set i x) else none

theorem sub_eq {s : List α} {lo hi : ℕ} (hlo : lo ≤ hi) (hhi : hi ≤ s.length) :
    sub s lo hi = some ((s.take hi).drop lo) := if_pos ⟨hlo, hhi⟩

theorem tail_eq {s : List α} {lo : ℕ} (h : lo ≤ s.length) : tail s lo = some (s.drop lo) :=
  if_pos h

/-- A write of all of `v` at an offset, as in `PutUint16(s[off:], x)`. -/
def put (s : List α) (off : ℕ) (v : List α) : Option (List α) :=
  if off + v.length ≤ s.length then some (s.take off ++ (v ++ s.drop (off + v.length))) else none

/-- The call `copy(s[off:], v)`, which copies as much as fits. -/
def copyAt (s : List α) (off : ℕ) (v : List α) : Option (List α) :=
  if off ≤ s.length then
    some (s.take off ++ (v.take (s.length - off) ++ s.drop (off + v.length)))
  else none

variable {pre old : List α}

theorem put_append {v : List α} {off : ℕ} (hpre : pre.length = off) (hold : old.length = v.length)
    (post : List α) : put (pre ++ (old ++ post)) off v = some (pre ++ (v ++ post)) := by
  subst hpre
  rw [put, if_pos (by simp only [List.length_append]; omega), List.take_left, ← List.drop_drop,
    List.drop_left, List.drop_left' hold]

theorem copyAt_append {v : List α} {off : ℕ} (hpre : pre.length = off)
    (hold : old.length = v.length) : copyAt (pre ++ old) off v = some (pre ++ v) := by
  subst hpre
  have hrest : (pre ++ old).drop (pre.length + v.length) = [] :=
    List.drop_eq_nil_of_le (by rw [List.length_append, hold])
  rw [copyAt, if_pos (by simp), List.take_left, hrest, List.append_nil, List.length_append,
    Nat.add_sub_cancel_left, hold, List.take_length]

/-- **A table is filled entry by entry**, each at its own offset. -/
theorem foldlM_put_table {enc : β → List α} {w : ℕ} (henc : ∀ b, (enc b).length = w) (l : List β)
    {base n : ℕ} (hpre : pre.length = base + w * n) (hold : old.length = w * l.length)
    (post : List α) :
    (l.zipIdx n).foldlM (fun s x => put s (base + w * x.2) (enc x.1)) (pre ++ (old ++ post)) =
      some (pre ++ (l.flatMap enc ++ post)) := by
  induction l generalizing n pre old with
  | nil =>
    rw [List.length_nil, Nat.mul_zero, List.length_eq_zero_iff] at hold
    rw [hold]
    rfl
  | cons b l ih =>
    rw [List.length_cons, Nat.mul_succ] at hold
    -- the entry is written over the first `w` elements of what is left
    have hfirst : (old.take w).length = (enc b).length := by
      rw [List.length_take, henc]
      omega
    have hrest : (old.drop w).length = w * l.length := by
      rw [List.length_drop]
      omega
    have hnext : (pre ++ enc b).length = base + w * (n + 1) := by
      rw [List.length_append, henc, hpre, Nat.mul_succ, Nat.add_assoc]
    rw [← List.take_append_drop w old, List.append_assoc, List.zipIdx_cons, List.foldlM_cons,
      put_append hpre hfirst, Option.bind_eq_bind, Option.bind_some, ← List.append_assoc,
      ih hnext hrest, List.flatMap_cons, List.append_assoc, List.append_assoc]

/-! ### A buffer made of fields -/

section
variable {fields : List (List α)} {n off : ℕ}

theorem flatten_set (hn : n < fields.length) (v : List α) :
    (fields.set n v).flatten = (fields.take n).flatten ++ (v ++ (fields.drop (n + 1)).flatten) := by
  rw [List.set_eq_take_append_cons_drop, if_pos hn, List.flatten_append, List.flatten_cons]

theorem flatten_getD (hn : n < fields.length) : fields.flatten =
      (fields.take n).flatten ++ (fields.getD n [] ++ (fields.drop (n + 1)).flatten) := by
  rw [← flatten_set hn, show fields.getD n [] = fields[n] by simp [hn], List.set_getElem_self]

theorem put_field (n : ℕ) {v : List α} (hn : n < fields.length)
    (hoff : (fields.take n).flatten.length = off) (hold : (fields.getD n []).length = v.length) :
    put fields.flatten off v = some (fields.set n v).flatten := by
  rw [flatten_getD hn, put_append hoff hold, flatten_set hn]

theorem foldlM_put_field (n : ℕ) {enc : β → List α} {w : ℕ} (henc : ∀ b, (enc b).length = w)
    {l : List β} (hn : n < fields.length) (hoff : (fields.take n).flatten.length = off)
    (hold : (fields.getD n []).length = w * l.length) :
    l.zipIdx.foldlM (fun s x => put s (off + w * x.2) (enc x.1)) fields.flatten =
      some (fields.set n (l.flatMap enc)).flatten := by
  rw [flatten_getD hn, foldlM_put_table henc l hoff hold, flatten_set hn]

end

theorem store_append (pre : List α) (x y : α) (post : List α) :
    store (pre ++ y :: post) pre.length x = some (pre ++ x :: post) := by
  rw [store, if_pos (by simp)]
  simp

theorem mapM_eq_map {f : α → Option β} {g : α → β} {l : List α} (h : ∀ a ∈ l, f a = some (g a)) :
    l.mapM f = some (l.map g) := by
  induction l with
  | nil => rfl
  | cons a l ih =>
    obtain ⟨ha, hl⟩ := List.forall_mem_cons.mp h
    rw [List.mapM_cons, ha, ih hl]
    rfl

/-! ### Insertion sort -/

/-- Swap the entry at an index down while it is below the one before it. -/
def sift (lt : α → α → Bool) : ℕ → List α → Option (List α)
  | 0, s => some s
  | j + 1, s =>
    match s[j + 1]?, s[j]? with
    | some x, some y => if lt x y then sift lt j ((s.set (j + 1) y).set j x) else some s
    | _, _ => none

/-- Sort in place: sift the entries down from the second on. -/
def sort (lt : α → α → Bool) (s : List α) : Option (List α) :=
  (List.range' 1 (s.length - 1)).foldlM (fun s i => sift lt i s) s

section
variable {lt : α → α → Bool} {r : α → α → Prop} [Std.Total r] [IsTrans α r]

theorem sift_spec (hlt : ∀ x y, lt x y = true ↔ ¬ r y x) {pre : List α} (hpre : pre.Pairwise r)
    (x : α) (post : List α) :
    ∃ l, sift lt pre.length (pre ++ x :: post) = some (l ++ post) ∧ l.Perm (x :: pre) ∧
      l.Pairwise r := by
  induction pre using List.reverseRecOn generalizing post with
  | nil => exact ⟨[x], rfl, .refl _, List.pairwise_singleton _ _⟩
  | append_singleton pre y ih =>
    obtain ⟨hsorted, -, hle⟩ := List.pairwise_append.mp hpre
    have hy : ∀ a ∈ pre, r a y := fun a ha => hle a ha y List.mem_cons_self
    have hlist : pre ++ [y] ++ x :: post = pre ++ y :: x :: post := by simp
    have hread : (pre ++ y :: x :: post)[pre.length + 1]? = some x ∧
        (pre ++ y :: x :: post)[pre.length]? = some y := by simp
    rw [List.length_append, List.length_singleton, hlist, sift, hread.1, hread.2]
    dsimp only
    by_cases hxy : lt x y = true
    · -- the two are swapped, and the entry goes on down
      have hswap : ((pre ++ y :: x :: post).set (pre.length + 1) y).set pre.length x =
          pre ++ x :: y :: post := by simp
      obtain ⟨l, hl, hperm, hpairs⟩ := ih hsorted (y :: post)
      have hxle : r x y := (total_of r x y).resolve_right ((hlt x y).mp hxy)
      refine ⟨l ++ [y], ?_, ?_, ?_⟩
      · rw [if_pos hxy, hswap, hl, List.append_assoc]
        rfl
      · exact (hperm.append_right [y]).trans (by rw [List.cons_append])
      · refine List.pairwise_append.mpr ⟨hpairs, List.pairwise_singleton _ _, fun a ha b hb => ?_⟩
        rw [List.mem_singleton.mp hb]
        rcases List.mem_cons.mp (hperm.mem_iff.mp ha) with rfl | ha
        · exact hxle
        · exact hy a ha
    · have hyx : r y x := not_not.mp fun hnot => hxy ((hlt x y).mpr hnot)
      refine ⟨pre ++ [y] ++ [x], ?_, List.perm_append_comm, ?_⟩
      · rw [if_neg hxy]
        simp
      · refine List.pairwise_append.mpr ⟨hpre, List.pairwise_singleton _ _, fun a ha b hb => ?_⟩
        rw [List.mem_singleton.mp hb]
        rcases List.mem_append.mp ha with ha | ha
        · exact trans_of r (hy a ha) hyx
        · rw [List.mem_singleton.mp ha]
          exact hyx

theorem foldlM_sift_spec (hlt : ∀ x y, lt x y = true ↔ ¬ r y x) (rest : List α) {pre : List α}
    (hpre : pre.Pairwise r) :
    ∃ l, (List.range' pre.length rest.length).foldlM (fun s i => sift lt i s) (pre ++ rest) =
      some l ∧ l.Perm (pre ++ rest) ∧ l.Pairwise r := by
  induction rest generalizing pre with
  | nil => exact ⟨pre, by simp, by simp, hpre⟩
  | cons x rest ih =>
    obtain ⟨l, hl, hperm, hpairs⟩ := sift_spec hlt hpre x rest
    obtain ⟨l', hl', hperm', hpairs'⟩ := ih hpairs
    have hlen : l.length = pre.length + 1 := hperm.length_eq
    refine ⟨l', ?_, hperm'.trans ?_, hpairs'⟩
    · rw [List.length_cons, List.range'_succ, List.foldlM_cons, hl, ← hl', hlen]
      rfl
    · exact (hperm.append_right rest).trans (by simpa using List.perm_middle.symm)

/-- **The sort does not panic**, and it sorts. -/
theorem sort_eq [DecidableRel r] [Std.Antisymm r] (hlt : ∀ x y, lt x y = true ↔ ¬ r y x)
    (s : List α) : sort lt s = some (s.insertionSort r) := by
  cases s with
  | nil => rfl
  | cons a rest =>
    obtain ⟨l, hl, hperm, hpairs⟩ := foldlM_sift_spec hlt rest (List.pairwise_singleton r a)
    have heq : l = (a :: rest).insertionSort r :=
      (hperm.trans (List.perm_insertionSort r _).symm).eq_of_pairwise' hpairs
        (List.pairwise_insertionSort r _)
    rw [← heq, ← hl]
    rfl

end

end GoSlice
