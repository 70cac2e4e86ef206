import FlexBraid.Tunnel.Delivery
import Mathlib.Data.Finset.Max

/-!
# The window of the delivery buffer

Sequence numbers wrap around, so what counts is how far a number lies ahead of the one expected.
Seen from there the numbers that wait are all less than 2³¹ ahead, where the comparison of the code
is the order of the distances, and its searches find the nearest number whichever way the map is
visited.  Only zero, which a tick also takes for no number at all, is not found when it is the
nearest.

## Main definitions

* `ahead` — how far a number lies ahead of another one.
* `DeliveryBuffer.Near`, `DeliveryBuffer.Ahead` — the invariant, while draining and between frames.
* `DeliveryBuffer.Solid` — numbers wait without a gap.
* `DeliveryBuffer.nearestIs` — a number waits, and it is the nearest.

## Main results

* `DeliveryBuffer.lowest_eq`, `DeliveryBuffer.room_eq` — the searches find the nearest number.
* `DeliveryBuffer.Ahead.pushOne`, `DeliveryBuffer.Ahead.tick` — one frame and one tick keep the
  invariant.
* `DeliveryBuffer.tick_solid` — a tick that skips a gap returns all that waits without a gap.
-/

namespace FlexBraid

/-! ### Distances -/

/-- How far a number lies ahead of another one. -/
def ahead (n k : UInt32) : ℕ := (k - n).toNat

theorem ahead_eq (n k : UInt32) : ahead n k = (2 ^ 32 - n.toNat + k.toNat) % 2 ^ 32 :=
  UInt32.toNat_sub k n

@[simp] theorem ahead_self (n : UInt32) : ahead n n = 0 := by
  rw [ahead, UInt32.sub_self]
  rfl

variable {n k : UInt32}

theorem ahead_pos : 0 < ahead n k ↔ k ≠ n := by
  have hn := n.toNat_lt
  have hk := k.toNat_lt
  rw [ne_eq, ← UInt32.toNat_inj, ahead_eq]
  omega

theorem ahead_inj {k' : UInt32} : ahead n k = ahead n k' ↔ k = k' := by
  have hn := n.toNat_lt
  have hk := k.toNat_lt
  have hk' := k'.toNat_lt
  rw [← UInt32.toNat_inj, ahead_eq, ahead_eq]
  omega

theorem ahead_from {m : UInt32} (h : ahead n m ≤ ahead n k) :
    ahead n m + ahead m k = ahead n k := by
  have hn := n.toNat_lt
  have hm := m.toNat_lt
  have hk := k.toNat_lt
  rw [ahead_eq, ahead_eq] at h
  rw [ahead_eq, ahead_eq, ahead_eq]
  omega

theorem ahead_succ_self (n : UInt32) : ahead n (n + 1) = 1 := by
  have hn := n.toNat_lt
  rw [ahead_eq, UInt32.toNat_add, UInt32.toNat_one]
  omega

theorem ahead_succ (h : k ≠ n) : 1 + ahead (n + 1) k = ahead n k := by
  have hpos := ahead_pos.mpr h
  have hle : ahead n (n + 1) ≤ ahead n k := by rw [ahead_succ_self]; exact hpos
  rw [← ahead_from hle, ahead_succ_self]

theorem ahead_pred (h : k ≠ n) : ahead n (k - 1) + 1 = ahead n k := by
  have hn := n.toNat_lt
  have hk := k.toNat_lt
  have hpos := ahead_pos.mpr h
  rw [ahead_eq] at hpos
  rw [ahead_eq, ahead_eq, UInt32.toNat_sub, UInt32.toNat_one]
  omega

theorem ahead_succ_le (n k : UInt32) : ahead n (k + 1) ≤ ahead n k + 1 := by
  have hk := k.toNat_lt
  rw [ahead_eq, ahead_eq, UInt32.toNat_add, UInt32.toNat_one]
  omega

theorem seqBefore_iff {a b : UInt32} : seqBefore a b = true ↔ 2 ^ 31 ≤ (a - b).toNat := by
  rw [seqBefore, decide_eq_true_eq, Int32.lt_iff_toInt_lt]
  show (a - b).toBitVec.toInt < 0 ↔ _
  rw [BitVec.toInt_eq_toNat_cond]
  show (if 2 * (a - b).toNat < 2 ^ 32 then _ else _) < (0 : ℤ) ↔ _
  have hlt := (a - b).toNat_lt
  split <;> omega

theorem seqBefore_eq_false : seqBefore k n = false ↔ ahead n k < 2 ^ 31 := by
  rw [← Bool.not_eq_true, seqBefore_iff, Nat.not_le, ahead]

theorem seqBefore_iff_ahead {a b : UInt32} (ha : ahead n a < 2 ^ 31) (hb : ahead n b < 2 ^ 31) :
    seqBefore a b = true ↔ ahead n a < ahead n b := by
  have hn := n.toNat_lt
  have ha' := a.toNat_lt
  have hb' := b.toNat_lt
  rw [ahead_eq] at ha hb
  rw [seqBefore_iff, UInt32.toNat_sub, ahead_eq, ahead_eq]
  omega

namespace DeliveryBuffer

variable {d : DeliveryBuffer}

/-! ### The invariant -/

/-- All that waits is less than 2³¹ ahead of the number expected. -/
def Near (d : DeliveryBuffer) : Prop := ∀ k ∈ d.pending, ahead d.next k < 2 ^ 31

/-- **The window between two frames**: moreover the number expected does not wait. -/
structure Ahead (d : DeliveryBuffer) : Prop where
  near : d.Near
  missing : d.next ∉ d.pending

theorem Ahead.empty (h : d.pending = ∅) : d.Ahead := by
  have hnone : ∀ k, k ∉ d.pending := fun k => by
    rw [h]
    exact AList.notMem_empty k
  exact ⟨fun k hk => absurd hk (hnone k), hnone _⟩

theorem Near.pass (h : d.Near) {pending : GoMap UInt32 Frame}
    (hkept : ∀ k ∈ pending, k ∈ d.pending ∧ k ≠ d.next) :
    Near { d with pending := pending, next := d.next + 1 } := by
  intro k hk
  obtain ⟨hmem, hne⟩ := hkept k hk
  have hlt := h k hmem
  have hsucc := ahead_succ hne
  change ahead (d.next + 1) k < 2 ^ 31
  omega

theorem Ahead.pass (h : d.Ahead) : Near { d with next := d.next + 1 } :=
  h.near.pass fun _ hk => ⟨hk, fun heq => h.missing (heq ▸ hk)⟩

/-- What draining does: it stops at a number that does not wait, takes nothing that it did not
pass, and passes only numbers that wait. -/
structure Drained (d d' : DeliveryBuffer) : Prop where
  near : d'.Near
  missing : d'.next ∉ d'.pending
  kept : ∀ k ∈ d'.pending, k ∈ d.pending
  passed : ∀ s, ahead d.next s < ahead d.next d'.next → s ∈ d.pending
  gapSince : d'.gapSince = d.gapSince
  gapTimeout : d'.gapTimeout = d.gapTimeout

theorem Near.drained (h : d.Near) {fuel : ℕ} (hfuel : d.pending.size ≤ fuel) (out : List Frame) :
    Drained d (drain fuel d out).1 := by
  have hrun := drain_induct (o := out) (I := fun d' _ => d'.Near ∧
    (∀ k ∈ d'.pending, k ∈ d.pending) ∧
    (∀ s, ahead d.next s < ahead d.next d'.next → s ∈ d.pending) ∧
    d'.gapSince = d.gapSince ∧ d'.gapTimeout = d.gapTimeout) ?_ fuel
    ⟨h, fun _ => id, fun s hs => ?_, rfl, rfl⟩
  · obtain ⟨hnear, hkept, hpassed, hgap, htimeout⟩ := hrun
    exact ⟨hnear, drain_missing hfuel out, hkept, hpassed, hgap, htimeout⟩
  · rintro d' - f ⟨hnear, hkept, hpassed, hrest⟩ hf
    refine ⟨hnear.pass fun k hk => (AList.mem_erase.mp hk).symm,
      fun k hk => hkept k (AList.mem_erase.mp hk).2, fun s hs => ?_, hrest⟩
    rcases Nat.lt_or_eq_of_le (Nat.lt_succ_iff.mp (hs.trans_le (ahead_succ_le _ _))) with hs | hs
    · exact hpassed s hs
    · exact ahead_inj.mp hs ▸ hkept _ (AList.mem_of_lookup hf)
  · rw [ahead_self] at hs
    exact absurd hs (Nat.not_lt_zero _)

theorem Near.drainContiguous (h : d.Near) (out : List Frame) : (d.drainContiguous out).1.Ahead := by
  have hdrained := h.drained le_rfl out
  rw [drainContiguous_fst]
  exact ⟨hdrained.near, hdrained.missing⟩

variable {now : Time} {m : UInt32}

theorem mem_hold {σ : IterOrder UInt32} {f : Frame} {k : UInt32}
    (h : k ∈ (d.hold σ now f).pending) : k = f.seq ∨ k ∈ d.pending := by
  obtain ⟨pending, drops, heq, -, hlookup⟩ := d.hold_spec σ now f
  rw [heq] at h
  obtain ⟨g, hg⟩ := AList.exists_lookup h
  exact (hlookup k g hg).imp And.left AList.mem_of_lookup

theorem hold_next (d : DeliveryBuffer) (σ : IterOrder UInt32) (now : Time) (f : Frame) :
    (d.hold σ now f).next = d.next := by
  obtain ⟨pending, drops, heq, -⟩ := d.hold_spec σ now f
  rw [heq]

/-- **One frame keeps the window.** -/
theorem Ahead.pushOne (h : d.Ahead) (σ : IterOrder UInt32) (now : Time) (f : Frame) :
    (pushOne σ now d f).1.Ahead := by
  rw [DeliveryBuffer.pushOne, pushFrame]
  dsimp only
  split
  · exact h
  · next hlate =>
    split
    · exact h.pass.drainContiguous _
    · next hnext =>
      have hf := seqBefore_eq_false.mp ((Bool.not_eq_true _).mp hlate)
      refine ⟨fun k hk => ?_, fun hk => ?_⟩
      · rw [hold_next]
        rcases mem_hold hk with rfl | hk
        · exact hf
        · exact h.near k hk
      · rw [hold_next] at hk
        rcases mem_hold hk with heq | hk
        · exact hnext heq.symm
        · exact h.missing hk

/-! ### The searches -/

theorem foldl_settles {g : UInt32 → UInt32 → UInt32} {V : UInt32 → Prop} {keys : List UInt32}
    (hkeys : ∀ lo k, V lo → k ∈ keys → V (g lo k)) (hstay : ∀ k ∈ keys, g m k = m)
    (htake : ∀ lo, V lo → g lo m = m) {lo : UInt32} (hlo : V lo) (hm : lo = m ∨ m ∈ keys) :
    keys.foldl g lo = m := by
  induction keys generalizing lo with
  | nil => simpa using hm
  | cons k keys ih =>
    rw [List.foldl_cons]
    apply ih
    · exact fun lo k hlo hk => hkeys lo k hlo (List.mem_cons_of_mem _ hk)
    · exact fun k hk => hstay k (List.mem_cons_of_mem _ hk)
    · exact hkeys lo k hlo List.mem_cons_self
    · rcases hm with rfl | hm
      · exact .inl (hstay k List.mem_cons_self)
      · rcases List.mem_cons.mp hm with rfl | hm
        · exact .inl (htake lo hlo)
        · exact .inr hm

/-- A number waits, and no other one that waits is nearer. -/
structure Nearest (d : DeliveryBuffer) (m : UInt32) : Prop where
  mem : m ∈ d.pending
  le : ∀ k ∈ d.pending, ahead d.next m ≤ ahead d.next k

theorem exists_nearest (h : d.pending.size ≠ 0) : ∃ m, d.Nearest m := by
  obtain ⟨a, ha⟩ := AList.size_ne_zero.mp h
  obtain ⟨m, hm, hle⟩ := Finset.exists_min_image d.pending.keys.toFinset (ahead d.next)
    ⟨a, List.mem_toFinset.mpr (AList.mem_keys.mp ha)⟩
  exact ⟨m, AList.mem_keys.mpr (List.mem_toFinset.mp hm), fun k hk =>
    hle k (List.mem_toFinset.mpr (AList.mem_keys.mp hk))⟩

theorem Nearest.unique {m' : UInt32} (h : d.Nearest m) (h' : d.Nearest m') : m = m' :=
  ahead_inj.mp (Nat.le_antisymm (h.le m' h'.mem) (h'.le m h.mem))

theorem Nearest.seqBefore (h : d.Nearest m) (hnear : d.Near) {k : UInt32} (hk : k ∈ d.pending) :
    seqBefore k m = false ∧ (k ≠ m → seqBefore m k = true) := by
  have hle := h.le k hk
  rw [← Bool.not_eq_true, seqBefore_iff_ahead (hnear k hk) (hnear m h.mem),
    seqBefore_iff_ahead (hnear m h.mem) (hnear k hk)]
  refine ⟨by omega, fun hne => lt_of_le_of_ne hle ?_⟩
  intro heq
  exact hne (ahead_inj.mp heq).symm

/-- **The search of a tick** finds the nearest number, unless that is zero. -/
theorem lowest_eq (hnear : d.Near) (h : d.Nearest m) (hm : m ≠ 0) (σ : IterOrder UInt32) :
    d.lowest σ = m := by
  refine foldl_settles (V := fun lo => lo = 0 ∨ lo ∈ d.pending) ?_ ?_ ?_ (.inl rfl)
    (.inr (σ.mem_visit_keys.mpr h.mem))
  · intro lo k hlo hk
    split
    · exact .inr (σ.mem_visit_keys.mp hk)
    · exact hlo
  · intro k hk
    rw [(h.seqBefore hnear (σ.mem_visit_keys.mp hk)).1, if_neg (by simpa using hm)]
  · rintro lo (rfl | hlo)
    · rw [if_pos (by simp)]
    · by_cases heq : lo = m
      · rw [heq, ite_self]
      · rw [(h.seqBefore hnear hlo).2 heq, Bool.or_true, if_pos rfl]

theorem lowest_of_empty (h : d.pending.size = 0) (σ : IterOrder UInt32) : d.lowest σ = 0 := by
  have hnil : σ.visit d.pending.keys = [] := by
    rw [← List.length_eq_zero_iff, (σ.perm d.pending.keys).length_eq]
    exact h
  rw [lowest, hnil]
  rfl

/-- The search for the frame to drop, when another one arrives. -/
def roomFor (d : DeliveryBuffer) (σ : IterOrder UInt32) (f : Frame) : UInt32 :=
  (σ.visit d.pending.keys).foldl (fun lo seq => if seqBefore seq lo then seq else lo) f.seq

/-- **The search for the frame to drop** finds the nearest number, that of the frame included. -/
theorem roomFor_eq (hnear : d.Near) {f : Frame} (hf : ahead d.next f.seq < 2 ^ 31)
    (hmem : m = f.seq ∨ m ∈ d.pending)
    (hle : ahead d.next m ≤ ahead d.next f.seq ∧ ∀ k ∈ d.pending, ahead d.next m ≤ ahead d.next k)
    (σ : IterOrder UInt32) : d.roomFor σ f = m := by
  have hin : ∀ k, k = f.seq ∨ k ∈ d.pending →
      ahead d.next k < 2 ^ 31 ∧ ahead d.next m ≤ ahead d.next k := by
    rintro k (rfl | hk)
    · exact ⟨hf, hle.1⟩
    · exact ⟨hnear k hk, hle.2 k hk⟩
  refine foldl_settles (V := fun lo => lo = f.seq ∨ lo ∈ d.pending) ?_ ?_ ?_ (.inl rfl) ?_
  · intro lo k hlo hk
    split
    · exact .inr (σ.mem_visit_keys.mp hk)
    · exact hlo
  · intro k hk
    obtain ⟨hlt, hge⟩ := hin k (.inr (σ.mem_visit_keys.mp hk))
    rw [if_neg]
    rw [seqBefore_iff_ahead hlt (hin m hmem).1]
    omega
  · intro lo hlo
    obtain ⟨hlt, hge⟩ := hin lo hlo
    split
    · rfl
    · next hbefore =>
      rw [seqBefore_iff_ahead (hin m hmem).1 hlt] at hbefore
      exact ahead_inj.mp (show ahead d.next lo = ahead d.next m by omega)
  · rcases hmem with rfl | hmem
    · exact .inl rfl
    · exact .inr (σ.mem_visit_keys.mpr hmem)

/-! ### Ticks -/

/-- A number waits, and it is the nearest in the order of the code. -/
def nearestIs (d : DeliveryBuffer) (m : UInt32) : Bool :=
  (d.pending.lookup m).isSome && d.pending.keys.all fun k => k == m || seqBefore m k

theorem Nearest.nearestIs (h : d.Nearest m) (hnear : d.Near) : d.nearestIs m = true := by
  rw [DeliveryBuffer.nearestIs, Bool.and_eq_true, AList.lookup_isSome, List.all_eq_true]
  refine ⟨h.mem, fun k hk => ?_⟩
  by_cases heq : k = m
  · simp [heq]
  · rw [(h.seqBefore hnear (AList.mem_keys.mpr hk)).2 heq, Bool.or_true]

/-- The gap has been there for the whole timeout. -/
def due (d : DeliveryBuffer) (now : Time) : Bool :=
  d.gapSince.any fun since => decide (d.gapTimeout ≤ now - since)

/-- The nearest number is not zero, if the tick skips a gap. -/
def clearTick (d : DeliveryBuffer) (now : Time) : Bool := !d.due now || !d.nearestIs 0

theorem due_iff :
    d.due now = true ↔ ∃ since, d.gapSince = some since ∧ d.gapTimeout ≤ now - since := by
  rw [due, Option.any_eq_true]
  simp

theorem tick_of_not_due (h : d.due now = false) (σ : IterOrder UInt32) :
    d.tick σ now = (d, []) := by
  rw [DeliveryBuffer.tick]
  rcases Option.eq_none_or_eq_some d.gapSince with hgap | ⟨since, hgap⟩
  · rw [hgap]
  · rw [due, hgap, Option.any_some, decide_eq_false_iff_not, not_le] at h
    rw [hgap]
    exact if_pos h

theorem tick_of_due (h : d.due now = true) (σ : IterOrder UInt32) :
    d.tick σ now =
      if d.lowest σ = 0 then ({ d with next := d.next + 1, gapSince := none }, [])
      else ({ d with next := d.lowest σ } : DeliveryBuffer).drainContiguous [] := by
  obtain ⟨since, hgap, htimeout⟩ := due_iff.mp h
  rw [DeliveryBuffer.tick, hgap]
  exact if_neg (not_lt.mpr htimeout)

/-- **What a tick does** after the timeout when zero is not the nearest number: it passes a number
with nothing waiting, or jumps to the nearest number. -/
theorem tick_cases (h : d.Near) (hdue : d.due now = true) (hzero : d.nearestIs 0 = false)
    (σ : IterOrder UInt32) : (d.pending.size = 0 ∧
        d.tick σ now = ({ d with next := d.next + 1, gapSince := none }, [])) ∨ ∃ m, d.Nearest m ∧
        d.tick σ now = ({ d with next := m } : DeliveryBuffer).drainContiguous [] := by
  rw [tick_of_due hdue]
  by_cases hsize : d.pending.size = 0
  · left
    rw [if_pos (lowest_of_empty hsize σ)]
    exact ⟨hsize, rfl⟩
  · right
    obtain ⟨m, hm⟩ := exists_nearest hsize
    have hne : m ≠ 0 := by
      rintro rfl
      rw [hm.nearestIs h] at hzero
      cases hzero
    rw [lowest_eq h hm hne, if_neg hne]
    exact ⟨m, hm, rfl⟩

theorem Nearest.near (h : d.Nearest m) (hnear : d.Near) : Near { d with next := m } := by
  intro k hk
  have hle := ahead_from (h.le k hk)
  have hlt := hnear k hk
  change ahead m k < 2 ^ 31
  omega

/-- **One tick keeps the window.** -/
theorem Ahead.tick (h : d.Ahead) (hclear : d.clearTick now = true) (σ : IterOrder UInt32) :
    (d.tick σ now).1.Ahead := by
  cases hdue : d.due now with
  | false =>
    rw [tick_of_not_due hdue]
    exact h
  | true =>
    rw [clearTick, hdue, Bool.not_true, Bool.false_or, Bool.not_eq_true'] at hclear
    rcases tick_cases h.near hdue hclear σ with ⟨hsize, heq⟩ | ⟨m, hm, heq⟩
    · rw [heq]
      exact .empty (AList.size_eq_zero.mp hsize)
    · rw [heq]
      exact (hm.near h.near).drainContiguous []

/-! ### Numbers without a gap -/

/-- What waits follows the number `a` without a gap. -/
def Solid (a : UInt32) (d : DeliveryBuffer) : Prop :=
  ∀ k ∈ d.pending, k = a ∨ k - 1 ∈ d.pending

theorem Solid.nearest {a : UInt32} (h : d.Solid a) (hmissing : d.next ∉ d.pending)
    (hm : d.Nearest m) : m = a := by
  rcases h m hm.mem with heq | hprev
  · exact heq
  · have hne : m ≠ d.next := fun heq => hmissing (heq ▸ hm.mem)
    have hle := hm.le _ hprev
    have hpred := ahead_pred hne
    omega

theorem Solid.empty (h : d.Solid d.next) (hmissing : d.next ∉ d.pending) : d.pending.size = 0 := by
  by_contra hsize
  obtain ⟨m, hm⟩ := exists_nearest hsize
  exact hmissing (h.nearest hmissing hm ▸ hm.mem)

theorem Solid.drain (fuel : ℕ) (h : d.Solid d.next) (out : List Frame) :
    (drain fuel d out).1.Solid (drain fuel d out).1.next := by
  refine drain_induct (I := fun d _ => d.Solid d.next) (fun d _ f h hf k hk => ?_) fuel h
  obtain ⟨hne, hmem⟩ := AList.mem_erase.mp hk
  rcases h k hmem with heq | hprev
  · exact absurd heq hne
  · by_cases hfirst : k - 1 = d.next
    · left
      change k = d.next + 1
      rw [← hfirst, UInt32.sub_add_cancel]
    · exact .inr (AList.mem_erase.mpr ⟨hfirst, hprev⟩)

theorem Solid.drainContiguous (h : d.Solid d.next) (hnear : d.Near) (out : List Frame) :
    (d.drainContiguous out).1.pending.size = 0 ∧ (d.drainContiguous out).1.gapSince = none ∧
      ∀ s, ahead d.next s < ahead d.next (d.drainContiguous out).1.next → s ∈ d.pending := by
  have hdrained := hnear.drained le_rfl out
  have hempty := (h.drain _ out).empty hdrained.missing
  rw [drainContiguous_fst]
  exact ⟨hempty, if_pos hempty, hdrained.passed⟩

/-- **A tick that skips a gap returns all that waits** without a further gap. -/
theorem tick_solid {a : UInt32} (h : d.Ahead) (hdue : d.due now = true)
    (hzero : d.nearestIs 0 = false) (hsolid : d.Solid a) (σ : IterOrder UInt32) :
    (d.tick σ now).1.pending.size = 0 ∧ (d.tick σ now).1.gapSince = none ∧
      (d.pending.size ≠ 0 → ∀ s, ahead a s < ahead a (d.tick σ now).1.next → s ∈ d.pending) := by
  rcases tick_cases h.near hdue hzero σ with ⟨hsize, heq⟩ | ⟨m, hm, heq⟩
  · rw [heq]
    exact ⟨hsize, rfl, fun hne => absurd hsize hne⟩
  · obtain rfl := hsolid.nearest h.missing hm
    have hdrain := Solid.drainContiguous (d := { d with next := m }) hsolid (hm.near h.near) []
    rw [heq]
    exact ⟨hdrain.1, hdrain.2.1, fun _ => hdrain.2.2⟩

end DeliveryBuffer

end FlexBraid
