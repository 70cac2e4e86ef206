import FlexBraid.Fec.Emissions

/-!
# The numbers a block may emit

A coded frame speaks of sequence numbers: a data frame of its own, a parity frame of those in
its table.  A block emits no number that no frame of it speaks of, and every block is flushed
once.  So a decoder emits every number of a session at most once, whatever is lost, repeated
or reordered, as long as all frames that speak of a number are put into one block.

## Main definitions

* `Frame.mentions` — the sequence numbers a coded frame speaks of.
* `BlockState.Within` — a buffer knows of certain numbers only.
* `Decoder.Spread` — the frames of a session, with the block and the path of every number.

## Main results

* `Decoder.emits_session_once` — **every number of a session is emitted at most once**.
-/

namespace FlexBraid

variable {F C : Type} {RS : ReedSolomon C}

/-- The sequence numbers a coded frame speaks of: those of its block for a parity frame, its
own for a data frame. -/
def Frame.mentions (f : Frame) : List UInt32 :=
  if f.hasFlag flagFECParity then
    (List.range (BlockState.readSubHeader f.payload).k).map fun i =>
      uint32 (f.payload.drop (parityHdrFixed + 4 * i))
  else [f.seq]

/-! ### Buffers -/

namespace BlockState

variable {N : UInt32 → Prop} {st st' : BlockState}

/-- A buffer knows of numbers of `N` only, and of none twice. -/
structure Within (N : UInt32 → Prop) (st : BlockState) : Prop where
  nodup : st.seqs.Nodup
  seqs : ∀ q ∈ st.seqs, N q
  data : ∀ q, (st.data.lookup q).isSome → N q

theorem within_empty : ({} : BlockState).Within N := by
  refine ⟨List.nodup_nil, fun q hq => ?_, fun q hq => ?_⟩
  · cases hq
  · rw [AList.lookup_empty] at hq
    cases hq

/-- A frame adds the numbers it speaks of. -/
theorem Within.absorb (h : st.Within N) {now : Time} {timeout : Duration} {f : Frame}
    (hnodup : f.mentions.Nodup) (hf : ∀ q ∈ f.mentions, N q)
    (habsorb : st.absorb now timeout f = some st') : st'.Within N := by
  unfold BlockState.absorb at habsorb
  unfold Frame.mentions at hnodup hf
  split at habsorb
  · next hparity =>
    rw [if_pos hparity] at hnodup hf
    cases hok : st.addParity now timeout f with
    | error e =>
      rw [hok] at habsorb
      cases habsorb
    | ok st₁ =>
      rw [hok] at habsorb
      cases habsorb
      obtain ⟨-, -, -, rfl⟩ := addParity_ok hok
      -- the first parity frame brings the table, a later one leaves it
      split
      · exact ⟨hnodup, hf, h.data⟩
      · exact ⟨h.nodup, h.seqs, h.data⟩
  · next hdata =>
    rw [if_neg hdata] at hf
    cases habsorb
    refine ⟨h.nodup, h.seqs, fun q hq => ?_⟩
    unfold addData at hq
    dsimp only at hq
    split at hq
    · exact h.data q hq
    · rw [AList.lookup_insert_eq] at hq
      split at hq
      · next heq => exact hf q (List.mem_singleton.mpr heq)
      · exact h.data q hq

theorem Within.completed (h : st.Within N) {cache : GoMap ℕ C} {data : GoMap UInt32 Bytes}
    (hcomp : Decoder.Completed RS cache st data) : ({ st with data := data } : BlockState).Within N := by
  refine ⟨h.nodup, h.seqs, fun q hq => ?_⟩
  rcases hcomp.within q hq with hq | hq
  · exact h.data q hq
  · exact h.seqs q hq

/-- What a buffer emits: numbers it knows of, each once. -/
theorem Within.frames (h : st.Within N) (sessionID : UInt64) :
    ((st.frames sessionID).map Frame.seq).Nodup ∧ ∀ f ∈ st.frames sessionID, N f.seq := by
  have horder : (if st.seqs.length = 0 then st.data.keys.insertionSort (· ≤ ·) else st.seqs).Nodup := by
    split
    · exact (List.perm_insertionSort _ _).nodup_iff.mpr st.data.keys_nodup
    · exact h.nodup
  unfold BlockState.frames
  constructor
  · rw [List.Nodup, List.pairwise_map, List.pairwise_filterMap]
    refine horder.imp fun {q q'} hne f hf f' hf' heq => ?_
    obtain ⟨payload, -, rfl⟩ := Option.map_eq_some_iff.mp hf
    obtain ⟨payload', -, rfl⟩ := Option.map_eq_some_iff.mp hf'
    exact hne heq
  · intro f hf
    obtain ⟨q, -, hq⟩ := List.mem_filterMap.mp hf
    obtain ⟨payload, hl, rfl⟩ := Option.map_eq_some_iff.mp hq
    exact h.data q (by rw [hl]; rfl)

end BlockState

/-! ### The frames of a session -/

/-- Every coded frame speaks of numbers of its block, and a number of no block comes with a
frame that is not coded; `block q` is the block of number `q`, and blocks count from one. -/
def Frame.Placed (block : UInt32 → Option UInt32) (g : Frame) : Prop :=
  (g.coded = true → g.mentions.Nodup ∧ ∀ q ∈ g.mentions, block q = some g.blockSeq) ∧
    (g.coded = false → block g.seq = none ∨ block g.seq = some 0)

/-- The frame that passes through. -/
def Emitted.pass : Emitted → Option Frame
  | passed f => some f
  | flushed _ _ => none

namespace Decoder

/-- The frames of session `x` that a call pushes are placed, and coded frames that speak of
number `q` come over the path `home q`. -/
def Spread (x : UInt64) (block : UInt32 → Option UInt32) (home : UInt32 → String)
    (crossPath : Bool) : Call → Prop
  | .push _ path g => g.sessionID = x → g.Placed block ∧
      (g.coded = true → ∀ q ∈ g.mentions, (if crossPath then "" else path) = home q)
  | _ => True

/-- The numbers of session `x` that block `key` may emit. -/
def Home (block : UInt32 → Option UInt32) (home : UInt32 → String) (key : BlockKey)
    (q : UInt32) : Prop :=
  block q = some key.blockSeq ∧ key.path = home q

/-- The buffers of session `x` know of the numbers of their blocks only. -/
structure Homed (params : Params F) (x : UInt64) (block : UInt32 → Option UInt32)
    (home : UInt32 → String) (d : Decoder F C) : Prop where
  params : d.params = params
  blocks : ∀ key st, d.blocks.lookup key = some st → key.sessionID = x →
    st.Within (Home block home key)

/-- What a decoder may hand on of session `x`: frames of no block, and the numbers of a block
once each. -/
def OfSession (params : Params F) (x : UInt64) (block : UInt32 → Option UInt32)
    (home : UInt32 → String) : Emitted → Prop
  | .passed f => params.enabled = true → f.sessionID = x →
      block f.seq = none ∨ block f.seq = some 0
  | .flushed key frames => params.enabled = true ∧ (∀ f ∈ frames, f.sessionID = key.sessionID) ∧
      (key.sessionID = x → (frames.map Frame.seq).Nodup ∧ ∀ f ∈ frames, Home block home key f.seq)

variable {params : Params F} {x : UInt64} {block : UInt32 → Option UInt32}
  {home : UInt32 → String} {d d' : Decoder F C} {call : Call} {events : List Emitted}

/-- The buffers once a frame has been taken in. -/
theorem Homed.push (h : Homed params x block home d) {now : Time} {path : String} {f : Frame}
    (hcoded : f.coded = true) (hcall : Spread x block home params.crossPath (.push now path f))
    {r : Decoder F C × List Frame} (hpush : d.push RS now path f = some r) :
    Homed params x block home r.1 ∧ (f.sessionID = x → ∀ st,
      (d.blockAt (d.blockKey path f)).absorb now d.params.blockTimeout f = some st →
      st.Within (Home block home (d.blockKey path f))) := by
  have habsorb : ∀ st st' : BlockState, f.sessionID = x → st.Within (Home block home (d.blockKey path f)) →
      st.absorb now d.params.blockTimeout f = some st' →
      st'.Within (Home block home (d.blockKey path f)) := by
    intro st st' hx hst hst'
    obtain ⟨hplaced, hhome⟩ := hcall hx
    obtain ⟨hnodup, hblock⟩ := hplaced.1 hcoded
    refine hst.absorb hnodup (fun q hq => ⟨hblock q hq, ?_⟩) hst'
    have hq := hhome hcoded q hq
    rw [← h.params] at hq
    exact hq
  have hpushed := forall_buffers_push
    (Q := fun key st => key.sessionID = x → st.Within (Home block home key)) h.blocks
    (fun _ => BlockState.within_empty) (fun st st' hst hst' hx => habsorb st st' hx (hst hx) hst')
    hpush
  refine ⟨⟨hpushed.1.trans h.params, hpushed.2.1⟩, fun hx st hst => habsorb _ st hx ?_ hst⟩
  exact blockAt_induct BlockState.within_empty fun st₀ hl => h.blocks _ st₀ hl hx

/-- **One call** keeps the buffers of the session, and hands on what it may. -/
theorem Homed.emits (h : Homed params x block home d)
    (hcall : Spread x block home params.crossPath call) (hemits : Emits RS d call d' events) :
    Homed params x block home d' ∧ ∀ ev ∈ events, OfSession params x block home ev := by
  cases hemits with
  | @pass now path f pathSeq huncoded =>
    refine ⟨⟨h.params, h.blocks⟩, fun ev hev => ?_⟩
    cases List.mem_singleton.mp hev
    intro henabled hx
    rw [h.params, henabled, Bool.true_and] at huncoded
    exact (hcall hx).1.2 huncoded
  | hold henabled hcoded hpush =>
    exact ⟨(h.push hcoded hcall hpush).1, fun ev hev => by cases hev⟩
  | @flush now path f d' st data henabled hcoded hpush _ _ habsorb hcomp =>
    obtain ⟨hd', hst⟩ := h.push hcoded hcall hpush
    refine ⟨hd', fun ev hev => ?_⟩
    cases List.mem_singleton.mp hev
    refine ⟨by rw [← h.params, henabled], fun g hg => BlockState.sessionID_of_mem_frames hg,
      fun hx => ?_⟩
    exact ((hst hx st habsorb).completed hcomp).frames f.sessionID
  | tick henabled σ now =>
    obtain ⟨hparams, -, hblocks⟩ := d.tick_leaves σ now
    refine ⟨⟨hparams.trans h.params, fun key st hl => h.blocks key st (hblocks key st hl)⟩,
      fun ev hev => ?_⟩
    obtain ⟨key, hkey, rfl⟩ := List.mem_map.mp hev
    obtain ⟨st, hl, hover, -⟩ := mem_visit_of_due (σ := σ) (List.mem_filter.mp hkey).2
    rw [OfSession, dueFrames_of_due hl hover]
    exact ⟨by rw [← h.params, henabled], fun g hg => BlockState.sessionID_of_mem_frames hg,
      fun hx => (h.blocks key st hl hx).frames key.sessionID⟩
  | rest hparams hblocks =>
    refine ⟨⟨hparams.trans h.params, ?_⟩, fun ev hev => by cases hev⟩
    rw [hblocks]
    exact h.blocks

/-! ### Whole runs -/

/-- What passes through a call is what it is given. -/
theorem Emits.passes (h : Emits RS d call d' events) :
    (events.filterMap Emitted.pass).Sublist call.pushed := by
  cases h with
  | pass => exact List.Sublist.refl _
  | hold => exact List.nil_sublist _
  | flush => exact List.nil_sublist _
  | tick henabled σ now =>
    rw [List.filterMap_map]
    have hnone : (Emitted.pass ∘ fun key => .flushed key (d.dueFrames now key)) =
        fun _ => none := rfl
    rw [hnone, List.filterMap_none]
    exact List.nil_sublist _
  | rest => exact List.nil_sublist _

variable (RS) in
theorem passes_run (s : Option (Decoder F C)) (calls : List Call) :
    ((Run.outputs (emit RS) s calls).flatten.filterMap Emitted.pass).Sublist
      (calls.flatMap Call.pushed) := by
  induction calls generalizing s with
  | nil => exact List.Sublist.refl _
  | cons call calls ih =>
    rw [Run.outputs_cons, List.flatten_cons, List.filterMap_append, List.flatMap_cons]
    refine List.Sublist.append ?_ (ih _)
    cases hnext : (emit RS s call).1 with
    | none =>
      rw [emit_of_panic hnext]
      exact List.nil_sublist _
    | some d' =>
      cases s with
      | none => cases hnext
      | some d => exact (emits_emit (Prod.ext hnext rfl)).passes

/-- Two emissions of a session share no number: a frame of no block shares none with a block,
and two blocks none as they differ. -/
theorem OfSession.disjoint {ev ev' : Emitted} (h : OfSession params x block home ev)
    (h' : OfSession params x block home ev')
    (hzero : ∀ key, ev.key = some key ∨ ev'.key = some key → key.blockSeq ≠ 0)
    (hkeys : ∀ key ∈ ev.key, ∀ key' ∈ ev'.key, key ≠ key')
    (hpasses : ∀ f ∈ ev.pass, ∀ f' ∈ ev'.pass, f.sessionID = x → f'.sessionID = x →
      f.seq ≠ f'.seq) {f f' : Frame} (hf : f ∈ ev.frames) (hf' : f' ∈ ev'.frames)
    (hx : f.sessionID = x) (hx' : f'.sessionID = x) : f.seq ≠ f'.seq := by
  -- a number of a flushed block is no number of a frame that passes through
  have hmixed : ∀ {g : Frame} {key : BlockKey} {frames : List Frame} {g' : Frame},
      OfSession params x block home (.passed g) → OfSession params x block home (.flushed key frames) →
      key.blockSeq ≠ 0 → g.sessionID = x → g' ∈ frames → g'.sessionID = x → g.seq ≠ g'.seq := by
    intro g key frames g' hg hkey hne hxg hg' hxg' heq
    obtain ⟨henabled, hsid, hnumbers⟩ := hkey
    obtain ⟨hblock, -⟩ := (hnumbers ((hsid g' hg').symm.trans hxg')).2 g' hg'
    rcases hg henabled hxg with h0 | h0
    · rw [heq, hblock] at h0
      cases h0
    · rw [heq, hblock] at h0
      exact hne (Option.some.inj h0)
  cases ev with
  | passed g =>
    cases List.mem_singleton.mp hf
    cases ev' with
    | passed g' =>
      cases List.mem_singleton.mp hf'
      exact hpasses f rfl f' rfl hx hx'
    | flushed key' frames' => exact hmixed h h' (hzero key' (.inr rfl)) hx hf' hx'
  | flushed key frames =>
    cases ev' with
    | passed g' =>
      cases List.mem_singleton.mp hf'
      exact (hmixed h' h (hzero key (.inl rfl)) hx' hf hx).symm
    | flushed key' frames' =>
      intro heq
      obtain ⟨-, hsid, hnumbers⟩ := h
      obtain ⟨-, hsid', hnumbers'⟩ := h'
      have hkey : key.sessionID = x := (hsid f hf).symm.trans hx
      have hkey' : key'.sessionID = x := (hsid' f' hf').symm.trans hx'
      obtain ⟨hblock, hpath⟩ := (hnumbers hkey).2 f hf
      obtain ⟨hblock', hpath'⟩ := (hnumbers' hkey').2 f' hf'
      rw [heq, hblock'] at hblock
      rw [heq] at hpath
      refine hkeys key rfl key' rfl (BlockKey.eq_of_stream ?_ (Option.some.inj hblock).symm)
      rw [BlockKey.stream, BlockKey.stream, hkey, hkey', hpath, hpath']

variable (RS) in
/-- **Every number of a session is emitted at most once.**  The frames of the session are
pushed with distinct wire numbers; every coded frame speaks of numbers of its block, and all
frames that speak of a number come over one path.  Whatever else is pushed, and whenever the
decoder ticks, no number of the session is handed on twice. -/
theorem emits_session_once {params : Params F} {calls : List Call}
    (hcalls : ∀ c ∈ calls, Spread x block home params.crossPath c)
    (hseqs : (((calls.flatMap Call.pushed).filter (·.sessionID = x)).map Frame.seq).Nodup) :
    (((Run.outputs (step RS) (some (newDecoder params)) calls).flatten.filter
      (·.sessionID = x)).map Frame.seq).Nodup := by
  have hstart : Homed params.withDefaults x block home (newDecoder params : Decoder F C) :=
    ⟨rfl, fun key st hl => by simp [newDecoder] at hl⟩
  obtain ⟨d, -, hcloses, hevents, -⟩ :=
    emits_run RS (fun _ _ _ _ h hc => h.emits hc) hcalls hstart
  have hpasses := passes_run RS (some (newDecoder params)) calls
  rw [← (outputs_emit RS (some (newDecoder params)) calls).2]
  generalize Run.outputs (emit RS) (some (newDecoder params)) calls = outs at *
  -- no block has number zero, for such a block is late from the start
  have hzero : ∀ ev ∈ outs.flatten, ∀ key, ev.key = some key → key.blockSeq ≠ 0 := by
    intro ev hev key hkey h0
    cases ev with
    | passed f => cases hkey
    | flushed key' frames =>
      cases hkey
      have hlate := (hcloses.closed key frames hev).1
      rw [late, h0] at hlate
      simp [newDecoder] at hlate
  have hkeys : outs.flatten.Pairwise fun ev ev' =>
      ∀ key ∈ ev.key, ∀ key' ∈ ev'.key, key ≠ key' := List.pairwise_filterMap.mp hcloses.nodup
  have hpassed : outs.flatten.Pairwise fun ev ev' => ∀ f ∈ ev.pass, ∀ f' ∈ ev'.pass,
      f.sessionID = x → f'.sessionID = x → f.seq ≠ f'.seq := by
    rw [List.Nodup, List.pairwise_map, List.pairwise_filter] at hseqs
    refine List.pairwise_filterMap.mp (List.Pairwise.sublist hpasses (hseqs.imp ?_))
    intro f f' hne hx hx'
    exact hne (decide_eq_true hx) (decide_eq_true hx')
  have hframes : (outs.map (List.flatMap Emitted.frames)).flatten =
      outs.flatten.flatMap Emitted.frames := by
    rw [List.flatMap_def, List.map_flatten, List.flatten_flatten, List.map_map]
    rfl
  rw [hframes, List.filter_flatMap, List.map_flatMap, List.nodup_flatMap]
  constructor
  · intro ev hev
    cases ev with
    | passed f => exact (List.nodup_singleton f.seq).sublist (List.filter_sublist.map Frame.seq)
    | flushed key frames =>
      obtain ⟨-, hsid, hnumbers⟩ := hevents _ hev
      by_cases hx : key.sessionID = x
      · exact (hnumbers hx).1.sublist (List.filter_sublist.map Frame.seq)
      · have hnone : frames.filter (fun f => decide (f.sessionID = x)) = [] := by
          rw [List.filter_eq_nil_iff]
          intro f hf h0
          exact hx ((hsid f hf).symm.trans (of_decide_eq_true h0))
        rw [Emitted.frames, hnone]
        exact List.nodup_nil
  · refine (hkeys.and hpassed).imp_of_mem fun {ev ev'} hev hev' hboth q hq hq' => ?_
    obtain ⟨f, hf, rfl⟩ := List.mem_map.mp hq
    obtain ⟨f', hf', heq⟩ := List.mem_map.mp hq'
    obtain ⟨hmem, hx⟩ := List.mem_filter.mp hf
    obtain ⟨hmem', hx'⟩ := List.mem_filter.mp hf'
    refine (hevents ev hev).disjoint (hevents ev' hev') (fun key h0 => ?_) hboth.1 hboth.2 hmem hmem'
      (of_decide_eq_true hx) (of_decide_eq_true hx') heq.symm
    rcases h0 with h0 | h0
    · exact hzero ev hev key h0
    · exact hzero ev' hev' key h0

end Decoder

end FlexBraid
