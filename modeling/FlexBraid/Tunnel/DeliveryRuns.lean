import FlexBraid.Tunnel.DeliveryOrder

/-!
# Whole runs of the delivery buffer

Over every sequence of pushes, ticks and reloads the buffer returns frames with
increasing numbers, all of which were pushed, and its gap timer runs exactly while
frames are pending.  The search of a tick then always finds a number.

## Main definitions

* `DeliveryBuffer.Timed` — the gap timer runs while frames are pending.

## Main results

* `DeliveryBuffer.ordered_run` — **the order and the timer of a run**.
-/

namespace FlexBraid

namespace DeliveryBuffer

/-! ### The gap timer -/

/-- The gap timer runs while frames are pending, and all that is pending satisfies `Q`. -/
structure Timed (Q : Frame → Prop) (d : DeliveryBuffer) : Prop where
  waits : d.pending.size ≠ 0 → d.gapSince.isSome
  held : ∀ k f, d.pending.lookup k = some f → Q f

variable {Q : Frame → Prop} {d : DeliveryBuffer}

theorem Timed.renumber (h : d.Timed Q) (next : UInt32) : Timed Q { d with next := next } :=
  ⟨h.waits, h.held⟩

theorem Timed.erase (h : d.Timed Q) (k : UInt32) :
    Timed Q { d with pending := d.pending.erase k } where
  waits hsize := h.waits (by
    have hle := d.pending.size_erase_le k
    dsimp only at hsize
    omega)
  held k' f hk := by
    dsimp only at hk
    exact h.held k' f (AList.lookup_of_erase hk)

theorem Timed.drainContiguous (h : d.Timed Q) {out : List Frame} (hout : ∀ f ∈ out, Q f) :
    (d.drainContiguous out).1.Timed Q ∧ ∀ f ∈ (d.drainContiguous out).2, Q f := by
  have hdrain := drain_induct (I := fun d out => d.Timed Q ∧ ∀ f ∈ out, Q f) ?_ d.pending.size ⟨h, hout⟩
  · obtain ⟨htimed, hemit⟩ := hdrain
    rw [drainContiguous_fst]
    refine ⟨⟨fun hsize => ?_, htimed.held⟩, hemit⟩
    dsimp only at hsize ⊢
    rw [if_neg hsize]
    exact htimed.waits hsize
  · rintro d out f ⟨htimed, hout⟩ hf
    refine ⟨(htimed.erase d.next).renumber (d.next + 1), List.forall_mem_append.mpr ⟨hout, ?_⟩⟩
    exact List.forall_mem_singleton.mpr (htimed.held _ f hf)

/-- Holding a frame starts the timer. -/
theorem Timed.hold (h : d.Timed Q) (σ : IterOrder UInt32) (now : Time) {f : Frame} (hf : Q f) :
    (d.hold σ now f).Timed Q := by
  obtain ⟨pending, drops, heq, -, hlookup⟩ := d.hold_spec σ now f
  rw [heq]
  refine ⟨fun _ => ?_, fun k g hg => ?_⟩
  · show (if d.gapSince.isNone then some now else d.gapSince).isSome = true
    cases d.gapSince <;> rfl
  · rcases hlookup k g hg with ⟨-, rfl⟩ | hg
    · exact hf
    · exact h.held k g hg

/-- **A push** keeps the timer running while frames are pending, and returns what was
pending or pushed. -/
theorem Timed.push (h : d.Timed Q) {frames : List Frame} (hframes : ∀ f ∈ frames, Q f)
    (σ : IterOrder UInt32) (now : Time) :
    (d.push σ now frames).1.Timed Q ∧ ∀ f ∈ (d.push σ now frames).2, Q f := by
  refine push_induct (I := fun d out => d.Timed Q ∧ ∀ f ∈ out, Q f) ?_ ⟨h, by simp⟩ hframes
  rintro d out f ⟨htimed, hout⟩ hf
  rw [pushOne, pushFrame]
  dsimp only
  split
  · exact ⟨htimed, by simpa using hout⟩
  · split
    · obtain ⟨htimed', hnew⟩ := (htimed.renumber (d.next + 1)).drainContiguous
        (List.forall_mem_singleton.mpr hf)
      exact ⟨htimed', List.forall_mem_append.mpr ⟨hout, hnew⟩⟩
    · exact ⟨htimed.hold σ now hf, by simpa using hout⟩

theorem Sound.lowest_ne_zero (h : d.Sound) (hgap : d.gapSince.isSome) (σ : IterOrder UInt32) :
    d.lowest σ ≠ 0 := by
  obtain ⟨m, hm⟩ := exists_nearest (h.gap hgap)
  rw [lowest_eq h.near hm (h.nearest_ne_zero hm)]
  exact h.nearest_ne_zero hm

/-- **A tick** keeps the timer running while frames are pending, and returns what was
pending. -/
theorem Timed.tick (h : d.Timed Q) (hsound : d.Sound) (σ : IterOrder UInt32) (now : Time) :
    (d.tick σ now).1.Timed Q ∧ ∀ f ∈ (d.tick σ now).2, Q f := by
  cases hdue : d.due now with
  | false =>
    rw [tick_of_not_due hdue]
    exact ⟨h, by simp⟩
  | true =>
    rcases tick_cases hsound.near hdue hsound.nearestIs_zero σ with ⟨hsize, heq⟩ | ⟨m, hm, heq⟩
    · rw [heq]
      exact ⟨⟨fun hne => absurd hsize hne, h.held⟩, by simp⟩
    · rw [heq]
      exact (h.renumber m).drainContiguous (by simp)

/-! ### Runs -/

theorem step_spec (h : d.Sound) (htimed : d.Timed Q) {c : Call}
    (hc : ∀ f ∈ c.pushed, f.seq.toNat < 2 ^ 31 ∧ Q f) :
    Between d.next.toNat (d.step c).1.next.toNat (d.step c).2 ∧ (d.step c).1.Sound ∧
      (d.step c).1.Timed Q ∧ ∀ f ∈ (d.step c).2, Q f := by
  cases c with
  | push σ now frames =>
    obtain ⟨hbetween, hsound⟩ := push_spec h (fun f hf => (hc f hf).1) σ now
    exact ⟨hbetween, hsound, htimed.push (fun f hf => (hc f hf).2) σ now⟩
  | tick σ now =>
    obtain ⟨hbetween, hsound⟩ := tick_spec h σ now
    exact ⟨hbetween, hsound, htimed.tick h σ now⟩
  | reload gapTimeout maxPending =>
    exact ⟨.nil (le_refl _), ⟨⟨h.named, h.ahead, h.next_pos, h.next_le⟩, h.missing, h.gap⟩,
      ⟨htimed.waits, htimed.held⟩, by simp [step]⟩

/-- **The order and the timer of a run.**  After any calls on frames with numbers below
2³¹, the frames returned have increasing numbers and were all pushed, every pending number
is above the one expected, the gap timer runs exactly while frames are pending, and the
search of a tick then finds one of them. -/
theorem ordered_run (gapTimeout : Duration) (maxPending : ℤ) (calls : List Call)
    (hcalls : ∀ c ∈ calls, ∀ f ∈ c.pushed, f.seq.toNat < 2 ^ 31) :
    let d := Run.exec step (newDeliveryBuffer gapTimeout maxPending) calls
    let out := (Run.outputs step (newDeliveryBuffer gapTimeout maxPending) calls).flatten
    (out.map fun f => f.seq.toNat).Pairwise (· < ·) ∧
      (∀ f ∈ out, f ∈ calls.flatMap Call.pushed) ∧
      (∀ seq ∈ d.pending, d.next.toNat < seq.toNat) ∧
      (d.gapSince.isSome ↔ d.pending.size ≠ 0) ∧
      (d.gapSince.isSome → ∀ σ, d.lowest σ ≠ 0) := by
  intro d out
  let Q : Frame → Prop := fun f => f ∈ calls.flatMap Call.pushed
  let Inv : DeliveryBuffer → List Frame → Prop := fun d out =>
    Between 1 d.next.toNat out ∧ d.Sound ∧ d.Timed Q ∧ ∀ f ∈ out, Q f
  have hstep : ∀ (s : DeliveryBuffer) (out : List Frame) (c : Call), Inv s out →
      (∀ f ∈ c.pushed, f.seq.toNat < 2 ^ 31 ∧ Q f) → Inv (s.step c).1 (out ++ (s.step c).2) := by
    rintro s out c ⟨hbetween, hsound, htimed, hout⟩ hc
    obtain ⟨hnext, hsound', htimed', hout'⟩ := step_spec hsound htimed hc
    refine ⟨hbetween.append hnext, hsound', htimed', fun f hf => ?_⟩
    exact (List.mem_append.mp hf).elim (hout f) (hout' f)
  have hstart : Inv (newDeliveryBuffer gapTimeout maxPending) [] :=
    ⟨.nil (le_refl 1), sound_new _ _, ⟨fun h => absurd rfl h, nofun⟩, by simp⟩
  have hevery : ∀ c ∈ calls, ∀ f ∈ c.pushed, f.seq.toNat < 2 ^ 31 ∧ Q f := fun c hc f hf =>
    ⟨hcalls c hc f hf, List.mem_flatMap.mpr ⟨c, hc, hf⟩⟩
  have hrun := Run.exec_induct_outputs hstep hstart (Run.along_of_forall step hevery _)
  rw [List.nil_append] at hrun
  obtain ⟨hbetween, hsound, htimed, hout⟩ := hrun
  refine ⟨hbetween.sorted, hout, fun seq hseq => ?_, ⟨hsound.gap, htimed.waits⟩,
    fun hgap σ => hsound.lowest_ne_zero hgap σ⟩
  have hne : seq.toNat ≠ d.next.toNat := by
    intro heq
    rw [UInt32.toNat_inj.mp heq] at hseq
    exact hsound.missing hseq
  have hle : d.next.toNat ≤ seq.toNat := hsound.ahead seq hseq
  omega

/-- Frame 3 waits for frame 2, frames 1 and 0 arrive late, and the hole is skipped. -/
def smallDeliveries : List Call :=
  [.push .plain 0 [{ seq := 3, payload := [3] }], .push .plain 1 [{ seq := 1 }, { seq := 0 }],
    .reload (50 * millisecond) 0, .tick .plain (50 * millisecond)]

theorem ordered_run_small :
    (((Run.outputs step (newDeliveryBuffer 0 0) smallDeliveries).flatten.map fun f => f.seq.toNat) =
        [1, 3]) ∧ ((Run.outputs step (newDeliveryBuffer 0 0) smallDeliveries).flatten.map
        fun f => f.seq.toNat).Pairwise (· < ·) :=
  ⟨by decide, (ordered_run 0 0 smallDeliveries (by decide)).1⟩

end DeliveryBuffer

end FlexBraid
