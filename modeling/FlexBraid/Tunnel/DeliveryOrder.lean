import FlexBraid.Tunnel.DeliveryWindow

/-!
# The delivery buffer returns frames in order

While the numbers stay below 2³¹ the signed comparison of the buffer is the order of the
numbers.  The pending frames are then all ahead of the number that is expected, that
number only grows, and what the calls return, one after the other, has increasing numbers.

## Main definitions

* `Frame.InRange` — the numbers for which the comparison is an order.
* `Between lo hi out` — frames with increasing numbers from `lo` on and below `hi`.
* `DeliveryBuffer.Sound` — the invariant of the buffer.

## Main results

* `DeliveryBuffer.push_spec`, `DeliveryBuffer.tick_spec` — **a call returns frames with
  increasing numbers**, between what was expected before it and what is expected after.
-/

namespace FlexBraid

/-! ### The order of the numbers -/

/-- The number of a frame is one of those that are ordered: from one on, below 2³¹. -/
def Frame.InRange (f : Frame) : Prop := 1 ≤ f.seq.toNat ∧ f.seq.toNat < 2 ^ 31

instance (f : Frame) : Decidable f.InRange := inferInstanceAs (Decidable (_ ∧ _))

theorem seqBefore_iff_lt {a b : UInt32} (ha : a.toNat ≤ 2 ^ 31) (hb : 1 ≤ b.toNat)
    (hb' : b.toNat ≤ 2 ^ 31) : seqBefore a b = true ↔ a.toNat < b.toNat := by
  rw [seqBefore_iff, UInt32.toNat_sub]
  omega

/-- Frames with increasing numbers, from `lo` on and below `hi`. -/
structure Between (lo hi : ℕ) (out : List Frame) : Prop where
  le : lo ≤ hi
  sorted : (out.map fun f => f.seq.toNat).Pairwise (· < ·)
  mem : ∀ f ∈ out, lo ≤ f.seq.toNat ∧ f.seq.toNat < hi

namespace Between

variable {lo mid hi : ℕ} {out out' : List Frame}

theorem nil (h : lo ≤ hi) : Between lo hi [] := ⟨h, List.Pairwise.nil, by simp⟩

theorem append (h : Between lo mid out) (h' : Between mid hi out') : Between lo hi (out ++ out') where
  le := h.le.trans h'.le
  sorted := by
    rw [List.map_append, List.pairwise_append]
    refine ⟨h.sorted, h'.sorted, ?_⟩
    intro a ha b hb
    obtain ⟨f, hf, rfl⟩ := List.mem_map.mp ha
    obtain ⟨f', hf', rfl⟩ := List.mem_map.mp hb
    exact (h.mem f hf).2.trans_le (h'.mem f' hf').1
  mem := by
    intro f hf
    rcases List.mem_append.mp hf with hf | hf
    · exact ⟨(h.mem f hf).1, (h.mem f hf).2.trans_le h'.le⟩
    · exact ⟨h.le.trans (h'.mem f hf).1, (h'.mem f hf).2⟩

theorem single {f : Frame} (h : f.seq.toNat = lo) : Between lo (lo + 1) [f] := by
  refine ⟨Nat.le_succ _, List.pairwise_singleton _ _, ?_⟩
  intro f' hf'
  rw [List.mem_singleton] at hf'
  subst hf'
  omega

end Between

namespace DeliveryBuffer

/-! ### The invariant -/

/-- Every pending frame is under its number, and none is behind the number expected. -/
structure Waiting (d : DeliveryBuffer) : Prop where
  named : ∀ k f, d.pending.lookup k = some f → f.seq = k ∧ f.InRange
  ahead : ∀ k ∈ d.pending, d.next.toNat ≤ k.toNat
  next_pos : 1 ≤ d.next.toNat
  next_le : d.next.toNat ≤ 2 ^ 31

/-- **The invariant of the buffer**: moreover the number expected is missing, and where
there is a gap there is something pending. -/
structure Sound (d : DeliveryBuffer) : Prop extends Waiting d where
  missing : d.next ∉ d.pending
  gap : d.gapSince.isSome → d.pending.size ≠ 0

theorem sound_new (gapTimeout : Duration) (maxPending : ℤ) :
    (newDeliveryBuffer gapTimeout maxPending).Sound where
  named _ _ h := by cases h
  ahead _ h := by cases h
  next_pos := le_refl _
  next_le := show (1 : UInt32).toNat ≤ 2 ^ 31 by decide
  missing h := by cases h
  gap h := by cases h

variable {d : DeliveryBuffer}

theorem Waiting.inRange (h : d.Waiting) {k : UInt32} (hk : k ∈ d.pending) :
    1 ≤ k.toNat ∧ k.toNat < 2 ^ 31 := by
  obtain ⟨f, hf⟩ := AList.exists_lookup hk
  obtain ⟨rfl, hrange⟩ := h.named k f hf
  exact hrange

theorem Waiting.distance (h : d.Waiting) {k : UInt32} (hk : k ∈ d.pending) :
    FlexBraid.ahead d.next k + d.next.toNat = k.toNat := by
  have hle := h.ahead k hk
  have hlt := k.toNat_lt
  rw [ahead_eq]
  omega

theorem Waiting.near (h : d.Waiting) : d.Near := by
  intro k hk
  have hdistance := h.distance hk
  have hlt := (h.inRange hk).2
  omega

theorem Waiting.nearest_ne_zero (h : d.Waiting) {m : UInt32} (hm : d.Nearest m) : m ≠ 0 := by
  rintro rfl
  exact absurd (h.inRange hm.mem).1 (by decide)

theorem Waiting.nearestIs_zero (h : d.Waiting) : d.nearestIs 0 = false := by
  rw [← Bool.not_eq_true, nearestIs, Bool.and_eq_true, AList.lookup_isSome]
  exact fun hzero => absurd (h.inRange hzero.1).1 (by decide)

/-- The number expected is delivered. -/
theorem Waiting.advance (h : d.Waiting) (hlt : d.next.toNat < 2 ^ 31) {pending : GoMap UInt32 Frame}
    (hkept : ∀ k f, pending.lookup k = some f → k ≠ d.next ∧ d.pending.lookup k = some f) :
    Waiting { d with pending := pending, next := d.next + 1 } ∧
      (d.next + 1).toNat = d.next.toNat + 1 := by
  have hnext : (d.next + 1).toNat = d.next.toNat + 1 := by
    rw [UInt32.toNat_add, UInt32.toNat_one]
    omega
  refine ⟨⟨fun k f hf => h.named k f (hkept k f hf).2, fun k hk => ?_, ?_, ?_⟩, hnext⟩
  · obtain ⟨f, hf⟩ := AList.exists_lookup hk
    obtain ⟨hne, hf'⟩ := hkept k f hf
    have hne' : k.toNat ≠ d.next.toNat := fun heq => hne (UInt32.toNat_inj.mp heq)
    have hle := h.ahead k (AList.mem_of_lookup hf')
    show (d.next + 1).toNat ≤ _
    omega
  · show 1 ≤ (d.next + 1).toNat
    omega
  · show (d.next + 1).toNat ≤ _
    omega

/-! ### One frame -/

/-- Draining delivers the run that starts at the number expected, and stops at a number that is
missing. -/
theorem drainContiguous_spec (h : d.Waiting) {lo : ℕ} {out : List Frame}
    (hout : Between lo d.next.toNat out) :
    Between lo (d.drainContiguous out).1.next.toNat (d.drainContiguous out).2 ∧
      (d.drainContiguous out).1.Sound := by
  have hdrain := drain_induct (I := fun d out => Between lo d.next.toNat out ∧ d.Waiting) ?_
    d.pending.size ⟨hout, h⟩
  · obtain ⟨hbetween, hwait⟩ := hdrain
    rw [drainContiguous_fst]
    refine ⟨hbetween, ⟨⟨hwait.named, hwait.ahead, hwait.next_pos, hwait.next_le⟩,
      drain_missing le_rfl out, fun hgap hsize => ?_⟩⟩
    rw [if_pos hsize] at hgap
    cases hgap
  · rintro d out f ⟨hbetween, hwait⟩ hf
    obtain ⟨hwait', hnext⟩ := hwait.advance (hwait.inRange (AList.mem_of_lookup hf)).2
      fun k g (hg : (d.pending.erase d.next).lookup k = some g) =>
        ⟨(AList.mem_erase.mp (AList.mem_of_lookup hg)).1, AList.lookup_of_erase hg⟩
    refine ⟨hbetween.append ?_, hwait'⟩
    rw [hnext]
    exact .single (by rw [(hwait.named _ f hf).1])

/-- A frame ahead of the number expected is held. -/
theorem Sound.hold (h : d.Sound) (σ : IterOrder UInt32) (now : Time) {f : Frame} (hf : f.InRange)
    (hahead : d.next.toNat < f.seq.toNat) : (d.hold σ now f).Sound := by
  obtain ⟨pending, drops, heq, hmem, hlookup⟩ := d.hold_spec σ now f
  have hin : ∀ k ∈ pending, k = f.seq ∨ k ∈ d.pending := by
    intro k hk
    obtain ⟨g, hg⟩ := AList.exists_lookup hk
    exact (hlookup k g hg).imp And.left AList.mem_of_lookup
  rw [heq]
  refine ⟨⟨fun k g hg => ?_, fun k hk => ?_, h.next_pos, h.next_le⟩, fun hk => ?_, fun _ =>
    AList.size_ne_zero.mpr ⟨f.seq, hmem⟩⟩
  · rcases hlookup k g hg with ⟨rfl, rfl⟩ | hg
    · exact ⟨rfl, hf⟩
    · exact h.named k g hg
  · rcases hin k hk with rfl | hk
    · exact hahead.le
    · exact h.ahead k hk
  · rcases hin _ hk with heq | hk
    · exact hahead.ne (congrArg UInt32.toNat heq)
    · exact h.missing hk

theorem pushOne_spec (h : d.Sound) {f : Frame} (hf : f.seq.toNat < 2 ^ 31) (σ : IterOrder UInt32)
    (now : Time) : Between d.next.toNat (pushOne σ now d f).1.next.toNat (pushOne σ now d f).2 ∧
      (pushOne σ now d f).1.Sound := by
  rw [pushOne, pushFrame]
  dsimp only
  split
  · exact ⟨.nil (le_refl _), h⟩
  · next hbefore =>
    rw [seqBefore_iff_lt hf.le h.next_pos h.next_le] at hbefore
    split
    · next hnext =>
      obtain ⟨hwait, hsucc⟩ := h.toWaiting.advance (hnext ▸ hf) fun k f hf =>
        ⟨fun heq => h.missing (heq ▸ AList.mem_of_lookup hf), hf⟩
      refine drainContiguous_spec hwait ?_
      rw [hsucc]
      exact .single (by rw [hnext])
    · next hne =>
      have hne' : f.seq.toNat ≠ d.next.toNat := fun heq => hne (UInt32.toNat_inj.mp heq)
      have hpos := h.next_pos
      refine ⟨.nil ?_, h.hold σ now ⟨by omega, hf⟩ (by omega)⟩
      rw [hold_next]

/-! ### The two calls -/

/-- **What a push returns is in order**, and the number expected grows past it. -/
theorem push_spec (h : d.Sound) {frames : List Frame} (hframes : ∀ f ∈ frames, f.seq.toNat < 2 ^ 31)
    (σ : IterOrder UInt32) (now : Time) :
    Between d.next.toNat (d.push σ now frames).1.next.toNat (d.push σ now frames).2 ∧
      (d.push σ now frames).1.Sound := by
  refine push_induct (I := fun d' out => Between d.next.toNat d'.next.toNat out ∧ d'.Sound) ?_
    ⟨.nil (le_refl _), h⟩ hframes
  rintro d' out f ⟨hbetween, hsound⟩ hf
  obtain ⟨hnext, hsound'⟩ := pushOne_spec hsound hf σ now
  exact ⟨hbetween.append hnext, hsound'⟩

/-- **What a tick returns is in order**, and the number expected grows past it. -/
theorem tick_spec (h : d.Sound) (σ : IterOrder UInt32) (now : Time) :
    Between d.next.toNat (d.tick σ now).1.next.toNat (d.tick σ now).2 ∧ (d.tick σ now).1.Sound := by
  cases hdue : d.due now with
  | false =>
    rw [tick_of_not_due hdue]
    exact ⟨.nil (le_refl _), h⟩
  | true =>
    rcases tick_cases h.near hdue h.nearestIs_zero σ with ⟨hsize, -⟩ | ⟨m, hm, heq⟩
    · -- where there is a gap something is pending
      obtain ⟨since, hgap, -⟩ := due_iff.mp hdue
      exact absurd hsize (h.gap (by rw [hgap]; rfl))
    · have hrange := h.inRange hm.mem
      have hwait : Waiting { d with next := m } := by
        refine ⟨h.named, fun k hk => ?_, hrange.1, hrange.2.le⟩
        have hle := hm.le k hk
        have hfirst := h.distance hm.mem
        have hother := h.distance hk
        show m.toNat ≤ k.toNat
        omega
      rw [heq]
      exact drainContiguous_spec hwait (.nil (h.ahead m hm.mem))

end DeliveryBuffer

end FlexBraid
