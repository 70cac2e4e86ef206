import FlexBraid.Fec.Traffic

/-!
# What a decoder hands on

The output of a decoder, call by call and block by block: a call hands on a frame that
passes through, or flushes blocks with their data frames.  Fed with the frames of honest
encoders, in any order and with any loss and repetition, a decoder flushes every block at
most once, and nothing but the data frames its encoder was given.

## Main definitions

* `Emitted`, `Decoder.emit` — the output of a call, block by block.
* `Decoder.Emits`, `Decoder.Closes` — what one call can do, and what it closes.
* `Decoder.Fed` — the calls of a run on the frames of honest encoders.
* `Decoder.Collecting` — every buffer holds frames of the block of its number.
* `CodedBlock.Yields` — what a flush of a block may emit.

## Main results

* `outputs_emit` — the emissions are the output.
* `emits_once` — **every coded datagram is emitted at most once, and as it was sent**.
-/

namespace FlexBraid

variable {F C : Type} {RS : ReedSolomon C}

theorem BlockKey.eq_of_stream {key key' : BlockKey} (hstream : key.stream = key'.stream)
    (hseq : key.blockSeq = key'.blockSeq) : key = key' := by
  cases key
  cases key'
  cases hstream
  cases hseq
  rfl

/-- What a decoder hands on: a frame that passes through, or the data frames of a block
that is flushed. -/
inductive Emitted where
  | passed (f : Frame)
  | flushed (key : BlockKey) (frames : List Frame)
deriving DecidableEq

namespace Emitted

/-- The frames handed on. -/
def frames : Emitted → List Frame
  | passed f => [f]
  | flushed _ frames => frames

/-- The block that is flushed. -/
def key : Emitted → Option BlockKey
  | passed _ => none
  | flushed key _ => some key

/-- The data frames of a block, by stream and sequence number. -/
def seqs : Emitted → List (StreamKey × UInt32)
  | passed _ => []
  | flushed key frames => frames.map fun f => (key.stream, f.seq)

end Emitted

namespace Decoder

/-- Whether a tick at `now` flushes block `key`. -/
def due (d : Decoder F C) (now : Time) (key : BlockKey) : Bool :=
  ((d.blocks.lookup key).map fun st => st.overdue now).getD false

variable (RS) in
/-- One call of a decoder: the next state, and what is handed on.  A push flushes the block
of its frame when the frame is not late and its block is gone afterwards; a tick flushes the
overdue blocks in the order it visits them. -/
def emit : Option (Decoder F C) → Call → Option (Decoder F C) × List Emitted
  | none, _ => (none, [])
  | some d, .push now path f =>
    match d.push RS now path f with
    | none => (none, [])
    | some (d', out) =>
      let key := d.blockKey path f
      (some d',
        if d.params.enabled && f.coded then
          if !d.late key && (d'.blocks.lookup key).isNone then [.flushed key out] else []
        else out.map .passed)
  | some d, .tick σ now =>
    (some (d.tick σ now).1,
      if d.params.enabled then
        ((σ.visit d.blocks.keys).filter (d.due now)).map fun key =>
          .flushed key (d.dueFrames now key)
      else [])
  | some d, call => ((step RS (some d) call).1, [])

/-! ### Late blocks -/

variable {d d' : Decoder F C} {key : BlockKey} {now : Time} {f : Frame} {call : Call}

theorem late_iff : d.late key = true ↔
    d.blocks.lookup key = none ∧ key.blockSeq ≤ d.lastFlushed.getD key.stream 0 := by
  rw [late, Bool.and_eq_true, Option.isNone_iff_eq_none, decide_eq_true_eq]

theorem late_flush (d : Decoder F C) (key : BlockKey) (st : BlockState) {key' : BlockKey}
    (h : d.late key' = true) : (d.flush key st).1.late key' = true := by
  obtain ⟨hnone, hle⟩ := late_iff.mp h
  rw [late_iff, flush_blocks, AList.lookup_erase_eq, flush_lastFlushed]
  constructor
  · split
    · rfl
    · exact hnone
  · split
    · next h => exact UInt32.le_trans hle (UInt32.le_of_lt h.2)
    · exact hle

theorem late_flush_self (d : Decoder F C) (key : BlockKey) (st : BlockState) :
    (d.flush key st).1.late key = true := by
  rw [late_iff, flush_blocks, AList.lookup_erase_eq, if_pos rfl, flush_lastFlushed]
  refine ⟨rfl, ?_⟩
  split
  · exact UInt32.le_refl _
  · next h => exact UInt32.not_lt.mp fun hlt => h ⟨rfl, hlt⟩

theorem not_late_of_lookup {st : BlockState} (h : d.blocks.lookup key = some st) :
    d.late key = false := by
  rw [late, h]
  rfl

/-- **Late blocks stay late** whatever is pushed. -/
theorem CodedPush.late_mono {r : Decoder F C × List Frame} (h : CodedPush RS d now key f r)
    {key' : BlockKey} (hlate : d.late key' = true) : r.1.late key' = true := by
  obtain ⟨hnone, hle⟩ := late_iff.mp hlate
  have hne : d.late key = false → key' ≠ key := by
    rintro h0 rfl
    rw [hlate] at h0
    cases h0
  have hins : ∀ st, d.late key = false →
      ((d.openBlock key).blocks.insert key st).lookup key' = none := fun st h0 => by
    rw [lookup_insert_openBlock, if_neg (hne h0), hnone]
  cases h with
  | late => exact hlate
  | refused h0 =>
    exact late_iff.mpr ⟨by rw [lookup_openBlock, if_neg (hne h0), hnone], hle⟩
  | kept h0 => exact late_iff.mpr ⟨hins _ h0, hle⟩
  | flushed h0 => exact late_flush _ _ _ (late_iff.mpr ⟨hins _ h0, hle⟩)

/-! ### The emissions are the output -/

theorem mem_visit_of_due {σ : IterOrder BlockKey} (h : d.due now key = true) :
    ∃ st, d.blocks.lookup key = some st ∧ st.overdue now = true ∧ key ∈ σ.visit d.blocks.keys := by
  unfold due at h
  cases hl : d.blocks.lookup key with
  | none =>
    rw [hl] at h
    cases h
  | some st =>
    rw [hl] at h
    exact ⟨st, rfl, h, σ.mem_visit_keys.mpr (AList.mem_of_lookup hl)⟩

theorem dueFrames_of_not_due (h : d.due now key = false) : d.dueFrames now key = [] := by
  unfold due at h
  unfold dueFrames
  cases hl : d.blocks.lookup key with
  | none => rfl
  | some st =>
    rw [hl] at h
    dsimp only
    rw [if_neg (by rw [show st.overdue now = false from h]; decide)]

/-- A coded frame whose block is still there, or was late, returns nothing. -/
theorem CodedPush.emitted {r : Decoder F C × List Frame} (h : CodedPush RS d now key f r) :
    (if !d.late key && (r.1.blocks.lookup key).isNone then [Emitted.flushed key r.2]
      else []).flatMap Emitted.frames = r.2 := by
  have hsome : ∀ {b : Bool} {o : Option BlockState}, o.isSome →
      (if b && o.isNone then [Emitted.flushed key []] else []).flatMap Emitted.frames = [] := by
    intro b o ho
    rw [Option.isSome_iff_exists] at ho
    obtain ⟨st, rfl⟩ := ho
    simp
  cases h with
  | late hlate => simp [hlate]
  | refused hlate hno =>
    refine hsome ?_
    rw [lookup_openBlock, if_pos rfl]
    rfl
  | kept hlate =>
    refine hsome ?_
    dsimp only
    rw [AList.lookup_insert]
    rfl
  | flushed hlate =>
    rw [hlate, flush_blocks, AList.lookup_erase_eq, if_pos rfl]
    simp [Emitted.frames]

variable (RS) in
theorem emit_step (s : Option (Decoder F C)) (call : Call) :
    (emit RS s call).1 = (step RS s call).1 ∧
      (emit RS s call).2.flatMap Emitted.frames = (step RS s call).2 := by
  cases s with
  | none => exact ⟨rfl, rfl⟩
  | some d =>
    cases call with
    | push now path f =>
      rw [emit, step]
      cases hpush : d.push RS now path f with
      | none => exact ⟨rfl, rfl⟩
      | some r =>
        refine ⟨rfl, ?_⟩
        dsimp only
        split
        · next hcoded =>
          rw [Bool.and_eq_true] at hcoded
          exact (codedPush hcoded.1 hcoded.2 hpush).emitted
        · rw [List.flatMap_map]
          simp [Emitted.frames]
    | tick σ now =>
      refine ⟨rfl, ?_⟩
      rw [emit, step]
      dsimp only
      cases henabled : d.params.enabled with
      | false => simp [tick_of_disabled henabled]
      | true =>
        rw [if_pos rfl, (ticked_tick henabled σ now).2, List.flatMap_map]
        simp only [Emitted.frames]
        induction σ.visit d.blocks.keys with
        | nil => rfl
        | cons key keys ih =>
          rw [List.flatMap_cons, List.filter_cons]
          split
          · rw [List.flatMap_cons, ih]
          · next hdue =>
            rw [dueFrames_of_not_due (eq_false_of_ne_true hdue), ih, List.nil_append]
    | takeStreamStats => exact ⟨rfl, rfl⟩
    | takePathStats => exact ⟨rfl, rfl⟩

variable (RS) in
/-- **The emissions of a run are its output.** -/
theorem outputs_emit (s : Option (Decoder F C)) (calls : List Call) :
    Run.exec (emit RS) s calls = Run.exec (step RS) s calls ∧
      (Run.outputs (emit RS) s calls).map (List.flatMap Emitted.frames) =
        Run.outputs (step RS) s calls := by
  induction calls generalizing s with
  | nil => exact ⟨rfl, rfl⟩
  | cons call calls ih =>
    obtain ⟨hstate, hout⟩ := emit_step RS s call
    obtain ⟨h1, h2⟩ := ih (step RS s call).1
    refine ⟨by rw [Run.exec_cons, Run.exec_cons, hstate, h1], ?_⟩
    rw [Run.outputs_cons, Run.outputs_cons, List.map_cons, hstate, hout, h2]

/-! ### What one call can do -/

/-- What one call of a decoder can do: hand a frame on that belongs to no block, take a frame
in, flush the block that a frame completes, flush the overdue blocks, or leave all blocks as
they are. -/
inductive Emits (RS : ReedSolomon C) (d : Decoder F C) :
    Call → Decoder F C → List Emitted → Prop
  | pass {now : Time} {path : String} {f : Frame} {pathSeq : GoMap StreamKey RawPathStat}
      (huncoded : (d.params.enabled && f.coded) = false) :
      Emits RS d (.push now path f) { d with pathSeq := pathSeq } [.passed f]
  | hold {now : Time} {path : String} {f : Frame} {d' : Decoder F C}
      (henabled : d.params.enabled = true) (hcoded : f.coded = true)
      (hpush : d.push RS now path f = some (d', [])) : Emits RS d (.push now path f) d' []
  | flush {now : Time} {path : String} {f : Frame} {d' : Decoder F C} {st : BlockState}
      {data : GoMap UInt32 Bytes} (henabled : d.params.enabled = true) (hcoded : f.coded = true)
      (hpush : d.push RS now path f = some (d',
        ({ st with data := data } : BlockState).frames f.sessionID))
      (hlate : d.late (d.blockKey path f) = false) (hlate' : d'.late (d.blockKey path f) = true)
      (habsorb : (d.blockAt (d.blockKey path f)).absorb now d.params.blockTimeout f = some st)
      (hcomp : Completed RS d.rsByParity st data) :
      Emits RS d (.push now path f) d' [.flushed (d.blockKey path f)
        (({ st with data := data } : BlockState).frames f.sessionID)]
  | tick (henabled : d.params.enabled = true) (σ : IterOrder BlockKey) (now : Time) :
      Emits RS d (.tick σ now) (d.tick σ now).1
        (((σ.visit d.blocks.keys).filter (d.due now)).map fun key =>
          .flushed key (d.dueFrames now key))
  | rest {call : Call} {d' : Decoder F C} (hparams : d'.params = d.params)
      (hblocks : d'.blocks = d.blocks) (hlast : d'.lastFlushed = d.lastFlushed)
      (hcache : d'.rsByParity = d.rsByParity) : Emits RS d call d' []

/-- A coded frame whose block is gone afterwards has completed it. -/
theorem CodedPush.emits {path : String} {out : List Frame} (henabled : d.params.enabled = true)
    (hcoded : f.coded = true) (hpush : d.push RS now path f = some (d', out))
    (hlate : d.late (d.blockKey path f) = false)
    (hgone : d'.blocks.lookup (d.blockKey path f) = none) :
    Emits RS d (.push now path f) d' [.flushed (d.blockKey path f) out] := by
  have hcases := Decoder.codedPush henabled hcoded hpush
  -- in the other three cases the block is late, or still there
  cases hcases with
  | late h =>
    rw [h] at hlate
    cases hlate
  | refused =>
    rw [lookup_openBlock, if_pos rfl] at hgone
    cases hgone
  | kept =>
    dsimp only at hgone
    rw [AList.lookup_insert] at hgone
    cases hgone
  | @flushed st stats cache recovered data _ habsorb _ _ hcomp =>
    exact .flush henabled hcoded hpush hlate (late_flush_self _ _ _) habsorb hcomp

theorem emits_emit {events : List Emitted} (h : emit RS (some d) call = (some d', events)) :
    Emits RS d call d' events := by
  cases call with
  | push now path f =>
    rw [emit] at h
    cases hpush : d.push RS now path f with
    | none =>
      rw [hpush] at h
      cases h
    | some r =>
      rw [hpush] at h
      obtain ⟨d₁, out⟩ := r
      dsimp only at h
      cases hcoded : d.params.enabled && f.coded with
      | false =>
        rw [hcoded, if_neg Bool.false_ne_true] at h
        cases h
        cases henabled : d.params.enabled with
        | true =>
          rw [henabled, Bool.true_and] at hcoded
          obtain ⟨pathSeq, hpass⟩ := push_of_not_coded RS henabled hcoded
          rw [hpass] at hpush
          cases hpush
          exact .pass (by rw [hcoded, Bool.and_false])
        | false =>
          obtain ⟨pathSeq, hpass⟩ := push_of_disabled RS henabled now path f
          rw [hpass] at hpush
          cases hpush
          split
          · exact .rest rfl rfl rfl rfl
          · exact .pass (by rw [henabled, Bool.false_and])
      | true =>
        rw [hcoded, if_pos rfl] at h
        cases h
        rw [Bool.and_eq_true] at hcoded
        split
        · next hcond =>
          rw [Bool.and_eq_true, Bool.not_eq_true', Option.isNone_iff_eq_none] at hcond
          exact CodedPush.emits hcoded.1 hcoded.2 hpush hcond.1 hcond.2
        · next hcond =>
          have hnone := (codedPush hcoded.1 hcoded.2 hpush).emitted
          rw [if_neg hcond] at hnone
          cases hnone
          exact .hold hcoded.1 hcoded.2 hpush
  | tick σ now =>
    rw [emit] at h
    cases h
    cases henabled : d.params.enabled with
    | true => exact .tick henabled σ now
    | false =>
      rw [tick_of_disabled henabled]
      exact .rest rfl rfl rfl rfl
  | takeStreamStats sid path =>
    cases h
    exact .rest rfl rfl rfl rfl
  | takePathStats sid path =>
    cases h
    exact .rest rfl rfl rfl rfl

theorem emit_of_panic {s : Option (Decoder F C)} (h : (emit RS s call).1 = none) :
    (emit RS s call).2 = [] := by
  cases s with
  | none => rfl
  | some d =>
    cases call with
    | push now path f =>
      rw [emit] at h ⊢
      cases hpush : d.push RS now path f with
      | none => rfl
      | some r =>
        rw [hpush] at h
        cases h
    | tick σ now => cases h
    | takeStreamStats sid path => rfl
    | takePathStats sid path => rfl

/-- What calls close: late blocks stay late, and the blocks flushed were not late, are late
now and are flushed once each. -/
structure Closes (d : Decoder F C) (events : List Emitted) (d' : Decoder F C) : Prop where
  late : ∀ key, d.late key = true → d'.late key = true
  nodup : (events.filterMap Emitted.key).Nodup
  closed : ∀ key frames, Emitted.flushed key frames ∈ events →
    d.late key = false ∧ d'.late key = true

theorem Closes.nothing (h : ∀ key, d.late key = true → d'.late key = true) :
    Closes d [] d' := ⟨h, List.nodup_nil, fun _ _ hmem => by cases hmem⟩

/-- **One call flushes a block that is not late, and leaves it late.**  Nothing is assumed
of the frames. -/
theorem Emits.closes {events : List Emitted} (h : Emits RS d call d' events) :
    Closes d events d' := by
  cases h with
  | pass =>
    refine ⟨fun key => id, List.nodup_nil, fun key frames hmem => ?_⟩
    cases List.mem_singleton.mp hmem
  | hold henabled hcoded hpush =>
    exact .nothing fun key hlate => (Decoder.codedPush henabled hcoded hpush).late_mono hlate
  | flush henabled hcoded hpush hlate hlate' =>
    refine ⟨fun key h0 => (Decoder.codedPush henabled hcoded hpush).late_mono h0,
      List.nodup_singleton _, fun key frames hmem => ?_⟩
    cases List.mem_singleton.mp hmem
    exact ⟨hlate, hlate'⟩
  | tick henabled σ now =>
    obtain ⟨ht, -⟩ := ticked_tick henabled σ now
    have hlook := lookup_tick henabled σ now
    refine ⟨fun key hlate => ?_, ?_, fun key frames hmem => ?_⟩
    · obtain ⟨hnone, hle⟩ := late_iff.mp hlate
      rw [late_iff, hlook, hnone]
      exact ⟨rfl, UInt32.le_trans hle (ht.mono _)⟩
    · rw [List.filterMap_map]
      have hkey : (Emitted.key ∘ fun key => .flushed key (d.dueFrames now key)) =
          (some : BlockKey → Option BlockKey) := rfl
      rw [hkey, List.filterMap_some]
      exact (σ.nodup_visit d.blocks.keys_nodup).filter _
    · obtain ⟨key', hkey', heq⟩ := List.mem_map.mp hmem
      cases heq
      obtain ⟨hvisit, hdue⟩ := List.mem_filter.mp hkey'
      obtain ⟨st, hl, hover, -⟩ := mem_visit_of_due (σ := σ) hdue
      refine ⟨not_late_of_lookup hl, late_iff.mpr ⟨?_, ht.le_last key hvisit st hl hover⟩⟩
      rw [hlook, hl, Option.filter_some, hover]
      rfl
  | rest _ hblocks hlast =>
    refine .nothing fun key hlate => ?_
    rw [late_iff] at hlate ⊢
    rwa [hblocks, hlast]

theorem mem_keys_iff {events : List Emitted} :
    key ∈ events.filterMap Emitted.key ↔ ∃ frames, Emitted.flushed key frames ∈ events := by
  rw [List.mem_filterMap]
  constructor
  · rintro ⟨_ | ⟨key', frames⟩, hmem, ⟨⟩⟩
    exact ⟨frames, hmem⟩
  · rintro ⟨frames, hmem⟩
    exact ⟨_, hmem, rfl⟩

theorem Closes.trans {d'' : Decoder F C} {events events' : List Emitted} (h : Closes d events d')
    (h' : Closes d' events' d'') : Closes d (events ++ events') d'' := by
  refine ⟨fun key hlate => h'.late key (h.late key hlate), ?_, fun key frames hmem => ?_⟩
  · rw [List.filterMap_append]
    refine h.nodup.append h'.nodup fun key h1 h2 => ?_
    -- what the first calls flushed is late when the second ones are made
    obtain ⟨frames, hev⟩ := mem_keys_iff.mp h1
    obtain ⟨frames', hev'⟩ := mem_keys_iff.mp h2
    have hlate := (h.closed key frames hev).2
    rw [(h'.closed key frames' hev').1] at hlate
    cases hlate
  · rcases List.mem_append.mp hmem with hmem | hmem
    · obtain ⟨h1, h2⟩ := h.closed key frames hmem
      exact ⟨h1, h'.late key h2⟩
    · obtain ⟨h1, h2⟩ := h'.closed key frames hmem
      refine ⟨eq_false_of_ne_true fun h0 => ?_, h2⟩
      rw [h.late key h0] at h1
      cases h1

theorem outputs_emit_none (calls : List Call) :
    (Run.outputs (emit RS) (none : Option (Decoder F C)) calls).flatten = [] := by
  induction calls with
  | nil => rfl
  | cons call calls ih => exact ih

variable (RS) in
/-- **The invariant rule for what is handed on.**  What every call keeps, and says of what it hands
on, holds of a run, up to the call it panics in if there is one; and the run closes the blocks it
flushes. -/
theorem emits_run {I : Decoder F C → Prop} {P : Call → Prop} {Q : Emitted → Prop}
    (hstep : ∀ d call d' events, I d → P call → Emits RS d call d' events →
      I d' ∧ ∀ ev ∈ events, Q ev) {calls : List Call} (hcalls : ∀ c ∈ calls, P c) (hd : I d) :
    ∃ d', I d' ∧ Closes d (Run.outputs (emit RS) (some d) calls).flatten d' ∧
      (∀ ev ∈ (Run.outputs (emit RS) (some d) calls).flatten, Q ev) ∧
      ((∀ d call, I d → P call → ∃ d', (emit RS (some d) call).1 = some d') →
        Run.exec (emit RS) (some d) calls = some d') := by
  induction calls generalizing d with
  | nil => exact ⟨d, hd, .nothing fun _ => id, by simp, fun _ => rfl⟩
  | cons call calls ih =>
    obtain ⟨hcall, hcalls⟩ := List.forall_mem_cons.mp hcalls
    rw [Run.outputs_cons, List.flatten_cons, Run.exec_cons]
    cases hnext : (emit RS (some d) call).1 with
    | none =>
      rw [emit_of_panic hnext, outputs_emit_none]
      refine ⟨d, hd, .nothing fun _ => id, by simp, fun hprogress => ?_⟩
      obtain ⟨d', hsome⟩ := hprogress d call hd hcall
      cases hnext.symm.trans hsome
    | some d₁ =>
      have hemits := emits_emit (Prod.ext hnext rfl)
      obtain ⟨hd₁, hq⟩ := hstep d call d₁ _ hd hcall hemits
      obtain ⟨d', hd', hcloses, hq', hexec⟩ := ih hcalls hd₁
      exact ⟨d', hd', hemits.closes.trans hcloses, List.forall_mem_append.mpr ⟨hq, hq'⟩, hexec⟩

/-! ### Honest traffic -/

/-- The frames a run is fed with: every pushed frame is a transmission of a frame that the
encoder of its stream emitted. -/
def Fed (crossPath : Bool) (wires : StreamKey → List Frame) : Call → Prop
  | .push _ path g => ∃ f ∈ wires ⟨g.sessionID, if crossPath then "" else path⟩, f.SentAs g
  | _ => True

theorem fed_push {crossPath : Bool} {wires : StreamKey → List Frame} {now : Time} {path : String}
    {f : Frame} (hf : f ∈ wires ⟨f.sessionID, if crossPath then "" else path⟩) :
    Fed crossPath wires (.push now path f) := ⟨f, hf, .refl f⟩

end Decoder

/-- What a flush of block `b` may emit: some of its data frames, and in order when their
numbers increase. -/
def CodedBlock.Yields (b : CodedBlock) (frames : List Frame) : Prop :=
  ∃ D : Finset UInt32, frames.Perm ((b.data.filter (·.seq ∈ D)).map Frame.plain) ∧
    (b.data.Pairwise (·.seq < ·.seq) → frames = (b.data.filter (·.seq ∈ D)).map Frame.plain)

namespace Assembly

variable {b : CodedBlock} {D : Finset UInt32} {P : Finset ℕ} {st : BlockState}

/-- A flush of a buffer emits data frames of its block. -/
theorem yields (h : Assembly b D P st) : b.Yields (st.frames b.sessionID) := by
  refine ⟨D, h.frames_perm, fun hsorted => ?_⟩
  rcases P.eq_empty_or_nonempty with hP | hP
  · -- the numbers are sorted, and so are those of the block
    have hkeys : st.data.keys.insertionSort (· ≤ ·) = (b.data.filter (·.seq ∈ D)).map Frame.seq := by
      have hperm := (List.perm_insertionSort (· ≤ ·) st.data.keys).trans h.keys_perm
      refine hperm.eq_of_pairwise' (r := (· ≤ ·)) (List.pairwise_insertionSort _ _) ?_
      rw [List.pairwise_map]
      exact (hsorted.filter _).imp fun hlt => UInt32.le_of_lt hlt
    rw [BlockState.frames, if_pos (by rw [(h.unknown hP).2]; rfl), hkeys,
      filterMap_lookup (fun f hf => (List.mem_filter.mp hf).1) h.data_lookup, List.filter_filter]
    simp
  · exact h.frames_known hP

theorem yields_completed (hsound : RS.Sound) (h : Assembly b D P st) (hk : st.k ≠ 0)
    (henc : 0 < b.parity → ∃ c, RS.new b.data.length b.parity = some c ∧ b.Encoded RS c)
    {cache : GoMap ℕ C} (hcache : ∀ p c, cache.lookup p = some c → ∃ k : ℕ, RS.new k p = some c)
    {data : GoMap UInt32 Bytes} (hcomp : Decoder.Completed RS cache st data) :
    b.Yields (({ st with data := data } : BlockState).frames b.sessionID) := by
  have hP : P.Nonempty := Finset.nonempty_iff_ne_empty.mpr fun h0 => hk (h.unknown h0).1
  obtain ⟨hstk, hstp, -, hseqs, hlens⟩ := h.known hP
  rcases hcomp with rfl | ⟨c, shards, recovered, recovered', hcodec, hrec, hfill⟩
  · exact h.yields
  · have hpar : 0 < b.parity := by
      obtain ⟨i, hi⟩ := hP
      exact Nat.zero_lt_of_lt (h.idx_lt i hi)
    obtain ⟨c₀, hnew₀, henc₀⟩ := henc hpar
    rw [hstk, hstp] at hcodec
    -- the codec at hand has the size of the block, for it took its shards
    have hnew : RS.new b.data.length b.parity = some c := by
      rcases hcodec with hl | hnew
      · obtain ⟨k, hnew⟩ := hcache _ _ hl
        have hlen := hsound.reconstruct_count hnew hrec
        rw [h.shards_eq hP, List.length_append, List.length_map, List.length_map,
          List.length_range] at hlen
        obtain rfl : k = b.data.length := by omega
        exact hnew
      · exact hnew
    rw [hnew₀] at hnew
    cases hnew
    have hout := hsound.reconstruct_eq hnew₀ (List.length_map _) (by simp) henc₀
      (h.shards_held hP) hrec
    obtain ⟨data', r', hfill', hall⟩ := fillMissing_all (l := b.data)
      (fun f hf => ⟨length_le_maxPayloadLen hf, b.fits.len_lt f hf⟩) b.nodup
      (fun f hf => by rw [h.data_lookup f hf]; split <;> simp) hout recovered
    rw [hseqs, hlens, hfill'] at hfill
    cases hfill
    have hall' : b.data.filter (·.seq ∈ (b.data.map Frame.seq).toFinset) = b.data := by
      rw [List.filter_eq_self]
      intro f hf
      exact decide_eq_true (List.mem_toFinset.mpr (List.mem_map_of_mem hf))
    refine ⟨(b.data.map Frame.seq).toFinset, ?_, fun _ => ?_⟩
    · rw [hall', h.frames_filled hP hall]
    · rw [hall', h.frames_filled hP hall]

end Assembly

namespace Decoder

/-- Every buffer of the decoder assembles the block of its number, with a deadline of which `Q`
holds, and the cache holds codecs of the library under their numbers of parity shards. -/
structure Collecting (RS : ReedSolomon C) (params : Params F)
    (B : StreamKey → UInt32 → Option CodedBlock) (Q : Time → Prop) (d : Decoder F C) : Prop where
  params : d.params = params
  blocks : ∀ key st, d.blocks.lookup key = some st → 0 < key.blockSeq ∧
    ∃ b D P, B key.stream key.blockSeq = some b ∧ Assembly b D P st ∧ ∃ t, st.deadline = some t ∧ Q t
  cache : ∀ p c, d.rsByParity.lookup p = some c → ∃ k : ℕ, RS.new k p = some c

/-- A flushed block is one of its stream, and yields its data frames. -/
def FlushOf (B : StreamKey → UInt32 → Option CodedBlock) (key : BlockKey) (frames : List Frame) :
    Prop :=
  0 < key.blockSeq ∧ ∃ b, B key.stream key.blockSeq = some b ∧ b.Yields frames

variable {params : Params F} {B : StreamKey → UInt32 → Option CodedBlock}
  {sent : StreamKey → List Frame} {d d' : Decoder F C} {call : Call} {key : BlockKey} {b : CodedBlock}
  {wires : StreamKey → List Frame} {out : List Emitted} {Q : Time → Prop} {g : Frame} {path : String}

/-- A frame of a coded block is taken in with what the buffer holds. -/
theorem absorb_honest {D : Finset UInt32} {P : Finset ℕ} {st : BlockState}
    (hasm : Assembly b D P st) (hg : (∃ f, b.IsData f g) ∨ ∃ i, b.IsParity i g) (now : Time)
    (timeout : Duration) :
    ∃ D' P' st', st.absorb now timeout g = some st' ∧ Assembly b D' P' st' ∧
      (∀ s, s ∈ D' ↔ g.hasFlag flagFECParity = false ∧ s = g.seq ∨ s ∈ D) ∧
      (P'.Nonempty ↔ g.hasFlag flagFECParity = true ∨ P.Nonempty) ∧
      (g.hasFlag flagFECParity = false → st'.data.lookup g.seq = some g.payload) ∧
      st'.deadline = if D = ∅ ∧ P = ∅ then some (now + timeout) else st.deadline := by
  rcases hg with ⟨f, hf⟩ | ⟨i, hi⟩
  · obtain ⟨st', habsorb, hasm', hdl⟩ := hasm.absorb_data hf now timeout
    refine ⟨_, _, st', habsorb, hasm', by simp [hf.flag, hf.seq], by simp [hf.flag], fun _ => ?_, hdl⟩
    rw [hf.seq, hf.payload, hasm'.data_lookup f hf.mem, if_pos (Finset.mem_insert_self _ _)]
  · obtain ⟨st', habsorb, hasm', hdl⟩ := hasm.absorb_parity hi now timeout
    exact ⟨_, _, st', habsorb, hasm', by simp [hi.flag], by simp [hi.flag], by simp [hi.flag], hdl⟩

theorem exists_push_of_absorb (hlaw : RS.Lawful) (henabled : d.params.enabled = true)
    (hcache : ∀ p c, d.rsByParity.lookup p = some c → ∃ k p', RS.new k p' = some c) {now : Time}
    (hcoded : g.coded = true) {D D' : Finset UInt32} {P P' : Finset ℕ} {st : BlockState}
    (hasm : Assembly b D P (d.blockAt (d.blockKey path g)))
    (habsorb : (d.blockAt (d.blockKey path g)).absorb now d.params.blockTimeout g = some st)
    (hasm' : Assembly b D' P' st) : ∃ r, d.push RS now path g = some r := by
  rw [push_of_coded RS henabled hcoded]
  split
  · exact ⟨_, rfl⟩
  · obtain ⟨d₁, stats, rfl, hpush⟩ :=
      pushBlock_of_absorb RS (d.openBlock (d.blockKey path g)) _ hasm.unflushed habsorb
    rw [hpush]
    exact Option.ne_none_iff_exists'.mp (hasm'.maybeDeliver_ne_none _ _ hlaw hcache)

theorem honestFrame_of_wire {wires : StreamKey → List Frame} (hparams : d.params = params)
    (hB : ∀ sk, ∀ f ∈ wires sk, ∀ g, f.SentAs g → HonestFrame (B sk) g)
    (hg : ∃ f ∈ wires ⟨g.sessionID, if params.crossPath then "" else path⟩, f.SentAs g) :
    HonestFrame (B (d.blockKey path g).stream) g := by
  obtain ⟨f, hf, hsent⟩ := hg
  refine hB _ f ?_ g hsent
  rw [BlockKey.stream, blockKey, streamPath, hparams]
  exact hf

theorem CacheFrom.indexed {k p : ℕ} {old cache : GoMap ℕ C} (h : CacheFrom RS k p old cache)
    (hold : ∀ p c, old.lookup p = some c → ∃ k : ℕ, RS.new k p = some c) :
    ∀ p c, cache.lookup p = some c → ∃ k : ℕ, RS.new k p = some c :=
  h.forall_lookup hold fun _ hnew => ⟨k, hnew⟩

theorem Collecting.insert (h : Collecting RS params B Q d) (hlate : d.late key = false)
    (hb : B key.stream key.blockSeq = some b) {D : Finset UInt32} {P : Finset ℕ} {st : BlockState}
    (hst : Assembly b D P st) (hdl : ∃ t, st.deadline = some t ∧ Q t) (key' : BlockKey)
    (st' : BlockState) (hl : ((d.openBlock key).blocks.insert key st).lookup key' = some st') :
    0 < key'.blockSeq ∧ ∃ b D P, B key'.stream key'.blockSeq = some b ∧ Assembly b D P st' ∧
      ∃ t, st'.deadline = some t ∧ Q t := by
  rw [lookup_insert_openBlock] at hl
  split at hl
  · next heq =>
    subst heq
    cases hl
    refine ⟨?_, b, D, P, hb, hst, hdl⟩
    -- a block that is opened lies above the high-water mark
    cases hl : d.blocks.lookup key' with
    | some st' => exact (h.blocks key' st' hl).1
    | none =>
      rw [← Bool.not_eq_true, late_iff, not_and] at hlate
      exact UInt32.lt_of_le_of_lt UInt32.zero_le (UInt32.not_le.mp (hlate hl))
  · exact h.blocks key' st' hl

/-- The buffer that a frame of block `b` meets takes it in. -/
theorem Collecting.takes (h : Collecting RS params B Q d) (hb : B key.stream key.blockSeq = some b)
    (hg : (∃ f, b.IsData f g) ∨ ∃ i, b.IsParity i g) (now : Time)
    (hnow : Q (now + params.blockTimeout)) : ∃ D P D' P' st', Assembly b D P (d.blockAt key) ∧
      (d.blockAt key).absorb now d.params.blockTimeout g = some st' ∧ Assembly b D' P' st' ∧
      (∃ t, st'.deadline = some t ∧ Q t) ∧
      (∀ s, s ∈ D' ↔ g.hasFlag flagFECParity = false ∧ s = g.seq ∨ s ∈ D) ∧
      (P'.Nonempty ↔ g.hasFlag flagFECParity = true ∨ P.Nonempty) ∧
      (g.hasFlag flagFECParity = false → st'.data.lookup g.seq = some g.payload) := by
  have hat : ∃ D P, Assembly b D P (d.blockAt key) ∧
      (D = ∅ ∧ P = ∅ ∨ ∃ t, (d.blockAt key).deadline = some t ∧ Q t) := by
    cases hl : d.blocks.lookup key with
    | none => exact ⟨∅, ∅, blockAt_of_none hl ▸ Assembly.empty b, .inl ⟨rfl, rfl⟩⟩
    | some st =>
      obtain ⟨-, b', D, P, hb', hasm, hdl⟩ := h.blocks key st hl
      cases hb.symm.trans hb'
      rw [blockAt_of_lookup hl]
      exact ⟨D, P, hasm, .inr hdl⟩
  obtain ⟨D, P, hasm, hdl⟩ := hat
  obtain ⟨D', P', st', habsorb, hasm', hD, hP, htaken, hdl'⟩ :=
    absorb_honest hasm hg now d.params.blockTimeout
  refine ⟨D, P, D', P', st', hasm, habsorb, hasm', ?_, hD, hP, htaken⟩
  rw [hdl', h.params]
  split
  · exact ⟨_, rfl, hnow⟩
  · next hne => exact hdl.resolve_left hne

/-- **A push of a coded frame** of honest traffic. -/
theorem Collecting.codedPush (h : Collecting RS params B Q d) (henabled : d.params.enabled = true)
    {now : Time} (hnow : Q (now + params.blockTimeout)) (hcoded : g.coded = true)
    (hg : HonestFrame (B (d.blockKey path g).stream) g) {r : Decoder F C × List Frame}
    (hpush : d.push RS now path g = some r) :
    Collecting RS params B Q r.1 ∧ (RS.Sound → ∀ sent : StreamKey → List Frame,
      (∀ sk : StreamKey, Coding RS sk.sessionID (sent sk) (B sk)) → d.late (d.blockKey path g) = false →
        r.1.blocks.lookup (d.blockKey path g) = none → FlushOf B (d.blockKey path g) r.2) := by
  obtain ⟨b, hb, -, hkind⟩ := hg.resolve_left (by rw [hcoded]; decide)
  replace hb : B (d.blockKey path g).stream (d.blockKey path g).blockSeq = some b := hb
  have hcases := Decoder.codedPush henabled hcoded hpush
  generalize d.blockKey path g = key at *
  obtain ⟨D, P, D', P', st', hasm, habsorb', hasm', hdl, -⟩ := h.takes hb hkind now hnow
  cases hcases with
  | late hlate => exact ⟨h, fun _ _ _ h0 => by rw [hlate] at h0; cases h0⟩
  | refused hlate hno => simp [hasm.unflushed, habsorb'] at hno
  | kept hlate habsorb hzero hcache =>
    cases habsorb'.symm.trans habsorb
    refine ⟨⟨h.params, h.insert hlate hb hasm' hdl, hcache.indexed h.cache⟩, fun _ _ _ _ h0 => ?_⟩
    dsimp only at h0
    rw [AList.lookup_insert] at h0
    cases h0
  | @flushed st stats cache recovered data hlate habsorb hk hcache hcomp =>
    cases habsorb'.symm.trans habsorb
    have hblocks := h.insert hlate hb hasm' hdl
    refine ⟨⟨h.params, fun key' st'' hl => hblocks key' st'' (AList.lookup_of_erase hl),
      hcache.indexed h.cache⟩, fun hsound sent hB _ _ => ?_⟩
    refine ⟨(hblocks key st' (by rw [AList.lookup_insert])).1, b, hb, ?_⟩
    have hsid : key.sessionID = b.sessionID := ((hB key.stream).session hb).symm
    rw [flush_snd, hsid]
    exact hasm'.yields_completed hsound hk ((hB key.stream).encoded hb) h.cache hcomp

/-- **What one call leaves and flushes** on honest traffic. -/
theorem Collecting.emits {events : List Emitted}
    (hwires : ∀ sk, ∀ f ∈ wires sk, ∀ g, f.SentAs g → HonestFrame (B sk) g)
    (h : Collecting RS params B Q d) (hcall : Fed params.crossPath wires call)
    (hnow : ∀ now path g, call = .push now path g → Q (now + params.blockTimeout))
    (hemits : Emits RS d call d' events) :
    Collecting RS params B Q d' ∧ (RS.Sound → ∀ sent : StreamKey → List Frame,
      (∀ sk : StreamKey, Coding RS sk.sessionID (sent sk) (B sk)) →
        ∀ ev ∈ events, ∀ key frames, ev = .flushed key frames → FlushOf B key frames) := by
  cases hemits with
  | pass => exact ⟨⟨h.params, h.blocks, h.cache⟩, by simp⟩
  | hold henabled hcoded hpush =>
    have hframe := honestFrame_of_wire h.params hwires hcall
    exact ⟨(h.codedPush henabled (hnow _ _ _ rfl) hcoded hframe hpush).1, by simp⟩
  | flush henabled hcoded hpush hlate hlate' =>
    have hframe := honestFrame_of_wire h.params hwires hcall
    obtain ⟨hd', hflush⟩ := h.codedPush henabled (hnow _ _ _ rfl) hcoded hframe hpush
    refine ⟨hd', fun hsound sent hB ev hev key frames heq => ?_⟩
    cases (List.mem_singleton.mp hev).symm.trans heq
    exact hflush hsound sent hB hlate (late_iff.mp hlate').1
  | tick henabled σ now =>
    obtain ⟨hparams, hcodecs, hblocks⟩ := d.tick_leaves σ now
    refine ⟨⟨hparams.trans h.params, fun key st hl => h.blocks key st (hblocks key st hl),
      by rw [hcodecs]; exact h.cache⟩, fun _ sent hB ev hev key frames heq => ?_⟩
    obtain ⟨key', hkey', hev⟩ := List.mem_map.mp hev
    cases hev.trans heq
    obtain ⟨st, hl, hover, -⟩ := mem_visit_of_due (σ := σ) (List.mem_filter.mp hkey').2
    obtain ⟨hpos, b, D, P, hb, hasm, -⟩ := h.blocks key st hl
    have hsid : key.sessionID = b.sessionID := ((hB key.stream).session hb).symm
    rw [dueFrames_of_due hl hover, hsid]
    exact ⟨hpos, b, hb, hasm.yields⟩
  | rest hparams hblocks _ hcache =>
    exact ⟨⟨hparams.trans h.params, hblocks ▸ h.blocks, hcache ▸ h.cache⟩, by simp⟩

/-- **One call** on honest traffic does not panic. -/
theorem Collecting.progress (hlaw : RS.Lawful)
    (hwires : ∀ sk, ∀ f ∈ wires sk, ∀ g, f.SentAs g → HonestFrame (B sk) g)
    (h : Collecting RS params B Q d) (hcall : Fed params.crossPath wires call)
    (hnow : ∀ now path g, call = .push now path g → Q (now + params.blockTimeout)) :
    ∃ d', (emit RS (some d) call).1 = some d' := by
  cases call with
  | push now path g =>
    have hpush : ∃ r, d.push RS now path g = some r := by
      cases hcoded : d.params.enabled && g.coded with
      | false =>
        obtain ⟨pathSeq, out, hpush⟩ := push_of_uncoded RS hcoded now path
        exact ⟨_, hpush⟩
      | true =>
        obtain ⟨henabled, hcoded⟩ := Bool.and_eq_true_iff.mp hcoded
        have hframe := honestFrame_of_wire h.params hwires hcall
        obtain ⟨b, hb, -, hkind⟩ := hframe.resolve_left (by rw [hcoded]; decide)
        replace hb : B (d.blockKey path g).stream (d.blockKey path g).blockSeq = some b := hb
        obtain ⟨D, P, D', P', st', hasm, habsorb, hasm', -⟩ := h.takes hb hkind now (hnow _ _ _ rfl)
        exact exists_push_of_absorb hlaw henabled
          (fun p c hc => ⟨_, _, (h.cache p c hc).choose_spec⟩) hcoded hasm habsorb hasm'
    obtain ⟨r, hpush⟩ := hpush
    exact ⟨r.1, by rw [emit, hpush]⟩
  | tick σ now => exact ⟨_, rfl⟩
  | takeStreamStats sid path => exact ⟨_, rfl⟩
  | takePathStats sid path => exact ⟨_, rfl⟩

/-! ### Whole runs -/

theorem disjoint_blocks {sid : UInt64} {sent : List Frame} {B : UInt32 → Option CodedBlock}
    (h : Coding RS sid sent B) (hnodup : (sent.map Frame.seq).Nodup) {bs bs' : UInt32}
    {b' : CodedBlock} (hpos : 0 < bs) (hpos' : 0 < bs') (hne : bs ≠ bs') (hb : B bs = some b)
    (hb' : B bs' = some b') {f f' : Frame} (hf : f ∈ b.data) (hf' : f' ∈ b'.data) :
    f.seq ≠ f'.seq := by
  have hlt : ∀ {bs bs' : UInt32} {b b' : CodedBlock} {f f' : Frame}, 0 < bs → bs < bs' →
      B bs = some b → B bs' = some b' → f ∈ b.data → f' ∈ b'.data → f.seq ≠ f'.seq := by
    intro bs bs' b b' f f' hpos hlt hb hb' hf hf'
    have hnd := hnodup.sublist ((h.ordered hpos hlt hb hb').map Frame.seq)
    rw [List.map_append, List.nodup_append] at hnd
    exact hnd.2.2 _ (List.mem_map_of_mem hf) _ (List.mem_map_of_mem hf')
  rcases UInt32.lt_or_lt_of_ne hne with h0 | h0
  · exact hlt hpos h0 hb hb' hf hf'
  · exact (hlt hpos' h0 hb' hb hf' hf).symm

theorem mem_of_yields {frames : List Frame} (h : b.Yields frames) {f : Frame} (hf : f ∈ frames) :
    ∃ f₀ ∈ b.data, f = f₀.plain := by
  obtain ⟨D, hperm, -⟩ := h
  obtain ⟨f₀, hf₀, rfl⟩ := List.mem_map.mp (hperm.subset hf)
  exact ⟨f₀, (List.mem_filter.mp hf₀).1, rfl⟩

theorem nodup_of_yields {frames : List Frame} (h : b.Yields frames) :
    (frames.map Frame.seq).Nodup := by
  obtain ⟨D, hperm, -⟩ := h
  rw [(hperm.map Frame.seq).nodup_iff, List.map_map]
  exact b.nodup.sublist (List.filter_sublist.map Frame.seq)

theorem seqs_nodup (hB : ∀ sk : StreamKey, Coding RS sk.sessionID (sent sk) (B sk))
    (hsent : ∀ sk, ((sent sk).map Frame.seq).Nodup) (hkeys : (out.filterMap Emitted.key).Nodup)
    (hflushed : ∀ key frames, Emitted.flushed key frames ∈ out → FlushOf B key frames) :
    (out.flatMap Emitted.seqs).Nodup := by
  rw [List.nodup_flatMap]
  constructor
  · intro ev hev
    cases ev with
    | passed f => exact List.nodup_nil
    | flushed key frames =>
      obtain ⟨-, b, -, hyields⟩ := hflushed key frames hev
      have hnd := nodup_of_yields hyields
      rw [List.Nodup, List.pairwise_map] at hnd
      rw [Emitted.seqs, List.Nodup, List.pairwise_map]
      exact hnd.imp fun hne heq => hne (congrArg Prod.snd heq)
  · rw [List.Nodup, List.pairwise_filterMap] at hkeys
    refine hkeys.imp_of_mem fun {ev ev'} hev hev' hne => ?_
    cases ev with
    | passed f => exact List.disjoint_nil_left _
    | flushed key frames =>
      cases ev' with
      | passed f => exact List.disjoint_nil_right _
      | flushed key' frames' =>
        rintro ⟨sk, seq⟩ h1 h2
        obtain ⟨f, hf, heq⟩ := List.mem_map.mp h1
        obtain ⟨f', hf', heq'⟩ := List.mem_map.mp h2
        rw [Prod.mk.injEq] at heq heq'
        obtain ⟨hpos, b, hb, hyields⟩ := hflushed key frames hev
        obtain ⟨hpos', b', hb', hyields'⟩ := hflushed key' frames' hev'
        obtain ⟨f₀, hf₀, rfl⟩ := mem_of_yields hyields hf
        obtain ⟨f₀', hf₀', rfl⟩ := mem_of_yields hyields' hf'
        -- two blocks of one stream differ in their numbers
        have hstream : key.stream = key'.stream := heq.1.trans heq'.1.symm
        have hbs : key.blockSeq ≠ key'.blockSeq := fun h0 =>
          hne key rfl key' rfl (BlockKey.eq_of_stream hstream h0)
        rw [← hstream] at hb'
        exact disjoint_blocks (hB key.stream) (hsent key.stream) hpos hpos' hbs hb hb' hf₀ hf₀'
          (heq.2.trans heq'.2.symm)

/-- **One call** on honest traffic, whenever it is made. -/
theorem Collecting.step (hlaw : RS.Lawful) (hsound : RS.Sound)
    (hB : ∀ sk : StreamKey, Coding RS sk.sessionID (sent sk) (B sk))
    (hwires : ∀ sk, ∀ f ∈ wires sk, ∀ g, f.SentAs g → HonestFrame (B sk) g)
    (h : Collecting RS params B (fun _ => True) d) (hcall : Fed params.crossPath wires call) :
    ∃ d' events, emit RS (some d) call = (some d', events) ∧
      ∀ ev ∈ events, ∀ key frames, ev = .flushed key frames → FlushOf B key frames := by
  obtain ⟨d', hd'⟩ := h.progress hlaw hwires hcall fun _ _ _ _ => trivial
  have hemit : emit RS (some d) call = (some d', _) := Prod.ext hd' rfl
  exact ⟨d', _, hemit,
    (h.emits hwires hcall (fun _ _ _ _ => trivial) (emits_emit hemit)).2 hsound sent hB⟩

theorem flushed_run (hlaw : RS.Lawful) (hsound : RS.Sound)
    (hB : ∀ sk : StreamKey, Coding RS sk.sessionID (sent sk) (B sk))
    (hwires : ∀ sk, ∀ f ∈ wires sk, ∀ g, f.SentAs g → HonestFrame (B sk) g)
    (hd : Collecting RS params B (fun _ => True) d) {calls : List Call}
    (hcalls : ∀ c ∈ calls, Fed params.crossPath wires c) :
    ∃ d', Run.exec (emit RS) (some d) calls = some d' ∧ Collecting RS params B (fun _ => True) d' ∧
      Closes d (Run.outputs (emit RS) (some d) calls).flatten d' ∧
      ∀ key frames, Emitted.flushed key frames ∈ (Run.outputs (emit RS) (some d) calls).flatten →
        FlushOf B key frames := by
  obtain ⟨d', hd', hcloses, hflushed, hexec⟩ := emits_run RS (fun d call d' events h hc he =>
    (h.emits hwires hc (fun _ _ _ _ => trivial) he).imp_right fun hf => hf hsound sent hB) hcalls hd
  exact ⟨d', hexec fun d call h hc => h.progress hlaw hwires hc fun _ _ _ _ => trivial, hd', hcloses,
    fun key frames hmem => hflushed _ hmem key frames rfl⟩

theorem exists_codings [Float64 F] (hlaw : RS.Lawful) (hsound : RS.Sound)
    {sent : StreamKey → List Frame}
    (hwires : ∀ sk : StreamKey, ∃ (params : Params F) (calls : List (Encoder.Call F)),
      Honest RS sk.sessionID params calls (wires sk) ∧
        sent sk = calls.flatMap Encoder.Call.pushed) : ∃ B : StreamKey → UInt32 → Option CodedBlock,
      (∀ sk, ∀ f ∈ wires sk, ∀ g, f.SentAs g → HonestFrame (B sk) g) ∧
      (∀ sk : StreamKey, Coding RS sk.sessionID (sent sk) (B sk)) ∧
      ∀ sk, ((sent sk).map Frame.seq).Nodup := by
  choose params calls hhonest hsent using hwires
  choose B hwire hB _ using fun sk => (hhonest sk).exists_coding hlaw
  refine ⟨B, hwire, fun sk => ?_, fun sk => ?_⟩
  · rw [hsent]
    exact hB sk hsound
  · rw [hsent]
    exact (hhonest sk).nodup

theorem collecting_new (params : Params F) (B : StreamKey → UInt32 → Option CodedBlock)
    (Q : Time → Prop) : Collecting RS params.withDefaults B Q (newDecoder params : Decoder F C) :=
  ⟨rfl, fun _ _ hl => (by cases hl), fun _ _ hl => (by cases hl)⟩

/-- **Every coded datagram is emitted at most once, and as it was sent.**  A decoder with
coding is fed with the frames of honest encoders, one for each stream, any of them in any
order and any number of times, with ticks at any times.  The run does not panic; every block
is flushed at most once, and every sequence number of a stream is emitted with a block at
most once; what a block emits are frames that were pushed into the encoder of its stream,
with their session and payload; and once a block has been flushed, its frames are dropped and
change nothing. -/
theorem emits_once [Float64 F] (hlaw : RS.Lawful) (hsound : RS.Sound) {params : Params F}
    (henabled : params.enabled = true) {wires sent : StreamKey → List Frame}
    (hwires : ∀ sk : StreamKey, ∃ (params' : Params F) (calls : List (Encoder.Call F)),
      Honest RS sk.sessionID params' calls (wires sk) ∧
        sent sk = calls.flatMap Encoder.Call.pushed)
    {calls : List Call} (hcalls : ∀ c ∈ calls, Fed params.crossPath wires c) :
    let start : Option (Decoder F C) := some (newDecoder params)
    let out := Run.outputs (emit RS) start calls
    ∃ d : Decoder F C, Run.exec (step RS) start calls = some d ∧
      out.map (List.flatMap Emitted.frames) = Run.outputs (step RS) start calls ∧
      (out.flatten.filterMap Emitted.key).Nodup ∧ (out.flatten.flatMap Emitted.seqs).Nodup ∧
      ∀ key frames, Emitted.flushed key frames ∈ out.flatten →
        (∀ f ∈ frames, ∃ f₀ ∈ sent key.stream, f = f₀.plain) ∧
        ∀ now path f, f.coded = true → d.blockKey path f = key →
          d.push RS now path f = some (d, []) := by
  intro start out
  obtain ⟨B, hwire, hB, hnodup⟩ := exists_codings hlaw hsound hwires
  obtain ⟨d, hstate, hcoll, hcloses, hflushed⟩ :=
    flushed_run hlaw hsound hB hwire (collecting_new params B _) hcalls
  obtain ⟨hexec, hout⟩ := outputs_emit RS start calls
  refine ⟨d, hexec.symm.trans hstate, hout, hcloses.nodup, seqs_nodup hB hnodup hcloses.nodup hflushed,
    fun key frames hmem => ⟨fun f hf => ?_, fun now path f hcoded hkey => ?_⟩⟩
  · obtain ⟨-, b, hb, hyields⟩ := hflushed key frames hmem
    obtain ⟨f₀, hf₀, rfl⟩ := mem_of_yields hyields hf
    exact ⟨f₀, ((hB key.stream).sublist hb).subset hf₀, rfl⟩
  · have hl := (hcloses.closed key frames hmem).2
    rw [push_of_coded RS (by rw [hcoll.params]; exact henabled) hcoded, hkey, if_pos hl]

/-! ### A small block -/

/-- The encoder of session 5 has emitted one block, and the others nothing. -/
def wires21 (sk : StreamKey) : List Frame :=
  if sk.sessionID = 5 then block21.map (Frame.stamp 1) ++ [parityFrame21] else []

/-- What was pushed into the encoders. -/
def sent21 (sk : StreamKey) : List Frame := if sk.sessionID = 5 then block21 else []

theorem honest_block21 : Honest smallCodes 5 params21 (block21.map (Encoder.Call.push 0 0))
      (block21.map (Frame.stamp 1) ++ [parityFrame21]) where
  emitted := ⟨encoder21, rfl, by decide⟩
  inner := List.forall_mem_cons.mpr ⟨⟨rfl, rfl, rfl⟩, List.forall_mem_singleton.mpr ⟨rfl, rfl, rfl⟩⟩
  size := by decide
  nodup := by decide

theorem honest_silent (sid : UInt64) : Honest smallCodes sid params21 [] [] where
  emitted := ⟨encoder21, rfl, rfl⟩
  inner := by simp
  size := by simp
  nodup := by simp

/-- One encoder is honest, and the others are silent. -/
theorem honest_alone {calls : List (Encoder.Call ℚ)} {frames : List Frame}
    (h : Honest smallCodes 5 params21 calls frames) (sk : StreamKey) :
    ∃ (params : Params ℚ) (calls' : List (Encoder.Call ℚ)),
      Honest smallCodes sk.sessionID params calls' (if sk.sessionID = 5 then frames else []) ∧
        (if sk.sessionID = 5 then calls.flatMap Encoder.Call.pushed else []) =
          calls'.flatMap Encoder.Call.pushed := by
  by_cases hsid : sk.sessionID = 5
  · rw [if_pos hsid, if_pos hsid, hsid]
    exact ⟨params21, calls, h, rfl⟩
  · rw [if_neg hsid, if_neg hsid]
    exact ⟨params21, [], honest_silent sk.sessionID, rfl⟩

theorem honest_wires21 (sk : StreamKey) : ∃ (params : Params ℚ) (calls : List (Encoder.Call ℚ)),
      Honest smallCodes sk.sessionID params calls (wires21 sk) ∧
        sent21 sk = calls.flatMap Encoder.Call.pushed := honest_alone honest_block21 sk

/-- A data frame, the parity frame that completes the block, the other data frame and the
first one again. -/
def late21 : List Call :=
  [.push 0 "wan0" { sessionID := 5, seq := 1, blockSeq := 1, payload := [7] },
    .push 1 "wan0" parityFrame21,
    .push 2 "wan0" { sessionID := 5, seq := 2, blockSeq := 1, payload := [8, 9] },
    .push 3 "wan0" { sessionID := 5, seq := 1, blockSeq := 1, payload := [7] },
    .tick .plain (9 * millisecond)]

/-- The block is emitted once. -/
theorem emits_once_late21 :
    ((Run.outputs (emit smallCodes) (some (newDecoder params21)) late21).flatten.flatMap
        Emitted.seqs).Nodup ∧ Run.outputs (emit smallCodes) (some (newDecoder params21)) late21 =
        [[], [.flushed ⟨5, "wan0", 1⟩ (block21.map Frame.plain)], [], [], []] := by
  have hcalls : ∀ c ∈ late21, Fed params21.crossPath wires21 c := by
    simp only [late21, List.forall_mem_cons]
    exact ⟨fed_push (by decide), fed_push (by decide), fed_push (by decide), fed_push (by decide),
      trivial, by simp⟩
  obtain ⟨d, -, -, -, hnodup, -⟩ :=
    emits_once lawful_smallCodes sound_smallCodes (show params21.enabled = true from rfl)
      honest_wires21 hcalls
  exact ⟨hnodup, by decide⟩

end Decoder

end FlexBraid
