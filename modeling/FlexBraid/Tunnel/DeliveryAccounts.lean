import FlexBraid.Tunnel.DeliveryWindow

/-!
# The accounts of the delivery buffer

Every frame that is pushed is returned, waits, is ignored because it is late or there already, or
is dropped because too many frames wait.  A full buffer drops the lowest number, for which it also
considers the frame that arrives.  If that one is the lowest, then the buffer deletes what is not
there, counts a drop, and stores the frame all the same.

## Main definitions

* `DeliveryBuffer.ignores` — a frame is late, or it waits already.
* `DeliveryBuffer.roomy` — a frame that arrives at a full buffer is not the lowest.

## Main results

* `DeliveryBuffer.accounted` — **the bound and the accounts of a run** in which no frame arrives at
  a full buffer below all that waits.
* `DeliveryBuffer.overfull` — without that, the buffer outgrows its bound.
-/

namespace FlexBraid

namespace DeliveryBuffer

variable {d : DeliveryBuffer}

/-! ### What happens to a frame -/

/-- A frame that is late, or that waits already, is ignored. -/
def ignores (d : DeliveryBuffer) (f : Frame) : Bool :=
  seqBefore f.seq d.next || (f.seq != d.next && (d.pending.lookup f.seq).isSome)

/-- A frame is stored only if there is room, or one that waits has a lower number. -/
def roomy (d : DeliveryBuffer) (f : Frame) : Bool :=
  d.ignores f || f.seq == d.next || decide ((d.pending.size : ℤ) < d.maxPending) ||
    d.pending.keys.any fun seq => seqBefore seq f.seq

/-- The frames of a call that are ignored. -/
def ignoredIn (d : DeliveryBuffer) : Call → ℕ
  | .push σ now frames =>
    Run.tally (pushOne σ now) (fun d f => if d.ignores f then 1 else 0) d frames
  | _ => 0

/-- The calls that store frames only where there is room; the settings stay. -/
def roomyCall (d : DeliveryBuffer) : Call → Bool
  | .push σ now frames => decide (Run.Along (pushOne σ now) (fun d f => d.roomy f = true) d frames)
  | .tick _ _ => true
  | .reload _ _ => false

/-! ### One call -/

theorem drainContiguous_balance (d : DeliveryBuffer) :
    (d.drainContiguous []).2.length + (d.drainContiguous []).1.pending.size = d.pending.size ∧
      (d.drainContiguous []).1.drops = d.drops ∧
      (d.drainContiguous []).1.maxPending = d.maxPending := by
  rw [drainContiguous_fst]
  refine drain_induct (I := fun d' out => out.length + d'.pending.size = d.pending.size ∧
    d'.drops = d.drops ∧ d'.maxPending = d.maxPending) ?_ _ ⟨Nat.zero_add _, rfl, rfl⟩
  rintro d' out f ⟨hlength, hrest⟩ hf
  have hsize := AList.size_erase_of_mem (AList.mem_of_lookup hf)
  refine ⟨?_, hrest⟩
  rw [List.length_append, List.length_singleton]
  dsimp only
  omega

theorem foldl_lowest_mem (keys : List UInt32) (seq : UInt32) :
    keys.foldl (fun lo k => if seqBefore k lo then k else lo) seq ∈ seq :: keys := by
  induction keys generalizing seq with
  | nil => simp
  | cons k keys ih =>
    rw [List.foldl_cons]
    split
    · exact List.mem_cons_of_mem _ (ih k)
    · rcases List.mem_cons.mp (ih seq) with heq | hmem
      · exact List.mem_cons.mpr (.inl heq)
      · exact List.mem_cons_of_mem _ (List.mem_cons_of_mem _ hmem)

theorem foldl_lowest_mem_of_any {keys : List UInt32} {seq : UInt32}
    (h : keys.any (fun k => seqBefore k seq) = true) :
    keys.foldl (fun lo k => if seqBefore k lo then k else lo) seq ∈ keys := by
  induction keys with
  | nil => cases h
  | cons k keys ih =>
    rw [List.foldl_cons]
    cases hk : seqBefore k seq with
    | true => exact foldl_lowest_mem keys k
    | false =>
      rw [List.any_cons, hk, Bool.false_or] at h
      exact List.mem_cons_of_mem _ (ih h)

theorem store_balance (σ : IterOrder UInt32) {f : Frame} (hnew : d.pending.lookup f.seq = none)
    (hroom : (d.pending.size : ℤ) < d.maxPending ∨
      d.pending.keys.any (fun seq => seqBefore seq f.seq) = true) :
    (d.store σ f).pending.size + (d.store σ f).drops = d.pending.size + d.drops + 1 ∧
      (d.store σ f).maxPending = d.maxPending ∧
      ((d.pending.size : ℤ) ≤ d.maxPending → ((d.store σ f).pending.size : ℤ) ≤ d.maxPending) := by
  rw [store, if_neg (by rw [hnew]; exact Bool.false_ne_true), makeRoom]
  have hnew' : f.seq ∉ d.pending := AList.lookup_eq_none.mp hnew
  dsimp only
  split
  · next hfull =>
    -- the buffer is full: the lowest number waits, and it makes room
    have hany := hroom.resolve_left (not_lt.mpr hfull)
    have hvisit : (σ.visit d.pending.keys).any (fun seq => seqBefore seq f.seq) = true := by
      rw [List.any_eq_true] at hany ⊢
      obtain ⟨k, hk, hbefore⟩ := hany
      exact ⟨k, (σ.mem_visit).mpr hk, hbefore⟩
    have herase := AList.size_erase_of_mem (σ.mem_visit_keys.mp (foldl_lowest_mem_of_any hvisit))
    have hset : ∀ lo, ((d.pending.erase lo).set f.seq f).size = (d.pending.erase lo).size + 1 :=
      fun lo => AList.size_set_of_not_mem (fun hin => hnew' (AList.mem_erase.mp hin).2) f
    dsimp only
    rw [hset]
    refine ⟨by omega, rfl, fun hle => by omega⟩
  · next hless =>
    have hset := AList.size_set_of_not_mem hnew' f
    rw [hset]
    refine ⟨by omega, rfl, fun _ => by omega⟩

/-- **The accounts of one frame**: it is returned, or waits, or is ignored, or another one is
dropped for it. -/
theorem pushOne_balance (σ : IterOrder UInt32) (now : Time) {f : Frame} (h : d.roomy f = true) :
    1 + (d.pending.size + d.drops) =
        ((pushOne σ now d f).2.length + if d.ignores f then 1 else 0) +
          ((pushOne σ now d f).1.pending.size + (pushOne σ now d f).1.drops) ∧
      (pushOne σ now d f).1.maxPending = d.maxPending ∧
      ((d.pending.size : ℤ) ≤ d.maxPending →
        ((pushOne σ now d f).1.pending.size : ℤ) ≤ d.maxPending) := by
  rw [pushOne, pushFrame]
  cases hlate : seqBefore f.seq d.next with
  | true =>
    rw [if_pos rfl, ignores, hlate, Bool.true_or, if_pos rfl]
    exact ⟨by simp, rfl, id⟩
  | false =>
    rw [if_neg Bool.false_ne_true, ignores, hlate, Bool.false_or]
    by_cases hnext : f.seq = d.next
    · obtain ⟨hlength, hdrops, hmax⟩ := drainContiguous_balance { d with next := d.next + 1 }
      have hout := drainContiguous_out { d with next := d.next + 1 } [f]
      dsimp only at hlength hdrops hmax
      rw [if_pos hnext, if_neg (by simp [hnext])]
      dsimp only [List.nil_append]
      rw [hout]
      dsimp only
      rw [List.length_append, List.length_singleton]
      exact ⟨by omega, hmax, fun hle => by omega⟩
    · rw [if_neg hnext]
      cases hlookup : d.pending.lookup f.seq with
      | some f' =>
        have hstore : d.store σ f = d := by
          rw [store, hlookup]
          rfl
        rw [hold, hstore, if_pos (show (f.seq != d.next && (some f').isSome) = true by simp [hnext])]
        exact ⟨by simp, rfl, id⟩
      | none =>
        rw [roomy, ignores, hlate, hlookup] at h
        obtain ⟨hsum, hmax, hbound⟩ := store_balance σ hlookup (by simpa [hnext] using h)
        rw [if_neg (by simp)]
        refine ⟨?_, hmax, hbound⟩
        rw [hold]
        dsimp only [List.length_nil]
        omega

theorem tick_balance (σ : IterOrder UInt32) (now : Time) :
    (d.tick σ now).2.length + (d.tick σ now).1.pending.size = d.pending.size ∧
      (d.tick σ now).1.drops = d.drops ∧ (d.tick σ now).1.maxPending = d.maxPending := by
  cases hdue : d.due now with
  | false =>
    rw [tick_of_not_due hdue]
    exact ⟨Nat.zero_add _, rfl, rfl⟩
  | true =>
    rw [tick_of_due hdue]
    split
    · exact ⟨Nat.zero_add _, rfl, rfl⟩
    · exact drainContiguous_balance _

/-! ### Runs -/

theorem push_balance (σ : IterOrder UInt32) (now : Time) {frames : List Frame}
    (h : Run.Along (pushOne σ now) (fun d f => d.roomy f = true) d frames) :
    frames.length + (d.pending.size + d.drops) =
        (d.push σ now frames).2.length + d.ignoredIn (.push σ now frames) +
          ((d.push σ now frames).1.pending.size + (d.push σ now frames).1.drops) ∧
      (d.push σ now frames).1.maxPending = d.maxPending ∧ ((d.pending.size : ℤ) ≤ d.maxPending →
        ((d.push σ now frames).1.pending.size : ℤ) ≤ d.maxPending) := by
  rw [push_eq_run, ignoredIn]
  induction frames generalizing d with
  | nil => exact ⟨by simp [Run.tally], rfl, id⟩
  | cons f frames ih =>
    obtain ⟨hsum, hmax, hbound⟩ := pushOne_balance σ now h.1
    obtain ⟨hsum', hmax', hbound'⟩ := ih h.2
    rw [hmax] at hmax' hbound'
    refine ⟨?_, hmax', hbound' ∘ hbound⟩
    rw [Run.exec_cons, Run.outputs_cons, Run.tally_cons, List.flatten_cons, List.length_append,
      List.length_cons]
    dsimp only at hsum' ⊢
    omega

/-- **One call balances**, and keeps the bound. -/
theorem step_balance {c : Call} (h : d.roomyCall c = true) :
    c.pushed.length + (d.pending.size + d.drops) =
        (d.step c).2.length + d.ignoredIn c + ((d.step c).1.pending.size + (d.step c).1.drops) ∧
      (d.step c).1.maxPending = d.maxPending ∧
      ((d.pending.size : ℤ) ≤ d.maxPending → ((d.step c).1.pending.size : ℤ) ≤ d.maxPending) := by
  cases c with
  | push σ now frames => exact push_balance σ now (of_decide_eq_true h)
  | tick σ now =>
    obtain ⟨hlength, hdrops, hmax⟩ := d.tick_balance σ now
    dsimp only [step, Call.pushed, ignoredIn, List.length_nil]
    exact ⟨by omega, hmax, fun hle => by omega⟩
  | reload gapTimeout maxPending => cases h

theorem tally_length (d : DeliveryBuffer) (calls : List Call) :
    Run.tally step (fun _ c => c.pushed.length) d calls = (calls.flatMap Call.pushed).length := by
  induction calls generalizing d with
  | nil => rfl
  | cons c calls ih => rw [Run.tally_cons, ih, List.flatMap_cons, List.length_append]

theorem tally_out (d : DeliveryBuffer) (calls : List Call) :
    Run.tally step (fun d c => (d.step c).2.length + d.ignoredIn c) d calls =
      (Run.outputs step d calls).flatten.length + Run.tally step ignoredIn d calls := by
  induction calls generalizing d with
  | nil => rfl
  | cons c calls ih =>
    rw [Run.tally_cons, Run.tally_cons, ih, Run.outputs_cons, List.flatten_cons, List.length_append]
    omega

/-- **The bound and the accounts of a run.**  If no frame arrives at a full buffer below all that
waits, then never more than `maxPending` frames wait, and every frame pushed was returned, waits,
was ignored as late or there already, or was dropped. -/
theorem accounted (gapTimeout : Duration) (maxPending : ℤ) (hmax : 1 ≤ maxPending)
    (calls : List Call)
    (hroomy : Run.Along step (fun d c => d.roomyCall c = true)
      (newDeliveryBuffer gapTimeout maxPending) calls) :
    let d₀ := newDeliveryBuffer gapTimeout maxPending
    let d := Run.exec step d₀ calls
    (d.pending.size : ℤ) ≤ maxPending ∧
      (calls.flatMap Call.pushed).length =
        (Run.outputs step d₀ calls).flatten.length + d.pending.size +
          Run.tally step ignoredIn d₀ calls + d.drops := by
  intro d₀ d
  constructor
  · have hstart : d₀.maxPending = maxPending := if_neg (by omega)
    have hkeep : ∀ (s : DeliveryBuffer) (c : Call),
        (s.maxPending = maxPending ∧ (s.pending.size : ℤ) ≤ maxPending) → s.roomyCall c = true →
          (s.step c).1.maxPending = maxPending ∧ ((s.step c).1.pending.size : ℤ) ≤ maxPending := by
      rintro s c ⟨rfl, hle⟩ hc
      obtain ⟨-, hsame, hbound⟩ := step_balance hc
      exact ⟨hsame, hbound hle⟩
    exact (Run.exec_induct hkeep ⟨hstart, by change (0 : ℤ) ≤ _; omega⟩ hroomy).2
  · have hbalance : (calls.flatMap Call.pushed).length + (d₀.pending.size + d₀.drops) =
        (Run.outputs step d₀ calls).flatten.length + Run.tally step ignoredIn d₀ calls +
          (d.pending.size + d.drops) := by
      rw [← tally_length d₀, ← tally_out]
      exact Run.tally_balance (fun s c hc => (step_balance hc).1) hroomy
    have hempty : d₀.pending.size + d₀.drops = 0 := rfl
    omega

/-- Three frames wait at most two at a time: number 3 makes room for number 5, which is there twice,
and number 1 is on time. -/
def crowded : List Call :=
  [.push .plain 0 [{ seq := 3 }, { seq := 4 }, { seq := 5 }, { seq := 5 }, { seq := 1 }]]

theorem accounted_small : (crowded.flatMap Call.pushed).length = 1 + 2 + 1 + 1 ∧
      (((Run.exec step (newDeliveryBuffer 0 2) crowded).pending.size : ℤ) ≤ 2) :=
  ⟨rfl, (accounted 0 2 (by decide) crowded (by decide)).1⟩

/-- The second frame is below the one that waits: a drop is counted, none is made, and the buffer
holds one more than it may. -/
theorem overfull :
    let d₀ := newDeliveryBuffer 0 1
    let calls : List Call := [.push .plain 0 [{ seq := 5 }], .push .plain 0 [{ seq := 3 }]]
    let d := Run.exec step d₀ calls
    d.pending.size = 2 ∧
      (calls.flatMap Call.pushed).length = 2 ∧
      (Run.outputs step d₀ calls).flatten.length + d.pending.size +
        Run.tally step ignoredIn d₀ calls + d.drops = 3 := by
  decide

end DeliveryBuffer

end FlexBraid
