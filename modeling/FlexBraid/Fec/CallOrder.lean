import FlexBraid.Fec.Emissions

/-!
# The order of the frames one call returns

A block is emitted in the order of its sequence numbers.  A tick may flush several blocks of
a stream at once, in the order in which the map of blocks is iterated; its output is in
order only when the blocks of each stream are visited by increasing number.

## Main definitions

* `Emitted.of` — the frames of one stream.
* `Decoder.Ascending` — the overdue blocks of a stream are visited by increasing number.

## Main results

* `Decoder.call_in_order` — **what one call returns is in order** under this condition.
* `Decoder.tick_out_of_order` — an iteration order for which it is not.
-/

namespace FlexBraid

variable {F C : Type} {RS : ReedSolomon C}

/-- The frames handed on that belong to stream `sk`; a frame that passes through is the only
one of its call. -/
def Emitted.of (sk : StreamKey) : Emitted → List Frame
  | passed f => [f]
  | flushed key frames => if key.stream = sk then frames else []

namespace Decoder

/-- The overdue blocks of every stream are visited by increasing number. -/
def Ascending (d : Decoder F C) : Call → Prop
  | .tick σ now => ∀ sk, ((σ.visit d.blocks.keys).filter fun key =>
      d.due now key && decide (key.stream = sk)).Pairwise (·.blockSeq < ·.blockSeq)
  | _ => True

variable {params : Params F} {B : StreamKey → UInt32 → Option CodedBlock}
  {sent : StreamKey → List Frame} {d : Decoder F C}

theorem FlushOf.sorted (hB : ∀ sk : StreamKey, Coding RS sk.sessionID (sent sk) (B sk))
    (hsent : ∀ sk, (sent sk).Pairwise (·.seq < ·.seq)) {key : BlockKey} {frames : List Frame}
    (h : FlushOf B key frames) : frames.Pairwise (·.seq < ·.seq) := by
  obtain ⟨-, b, hb, D, -, hsorted⟩ := h
  have hdata := (hsent key.stream).sublist ((hB key.stream).sublist hb)
  rw [hsorted hdata, List.pairwise_map]
  exact hdata.filter _

/-- The frames of an earlier block come before those of a later one. -/
theorem FlushOf.before (hB : ∀ sk : StreamKey, Coding RS sk.sessionID (sent sk) (B sk))
    (hsent : ∀ sk, (sent sk).Pairwise (·.seq < ·.seq)) {key key' : BlockKey}
    {frames frames' : List Frame} (h : FlushOf B key frames) (h' : FlushOf B key' frames')
    (hstream : key.stream = key'.stream) (hlt : key.blockSeq < key'.blockSeq) {f f' : Frame}
    (hf : f ∈ frames) (hf' : f' ∈ frames') : f.seq < f'.seq := by
  obtain ⟨hpos, b, hb, hyields⟩ := h
  obtain ⟨-, b', hb', hyields'⟩ := h'
  obtain ⟨f₀, hf₀, rfl⟩ := mem_of_yields hyields hf
  obtain ⟨f₀', hf₀', rfl⟩ := mem_of_yields hyields' hf'
  rw [← hstream] at hb'
  have hpair := (hsent key.stream).sublist ((hB key.stream).ordered hpos hlt hb hb')
  exact (List.pairwise_append.mp hpair).2.2 f₀ hf₀ f₀' hf₀'

/-- **One call** on honest traffic returns the frames of a stream in order. -/
theorem Emits.in_order (hB : ∀ sk : StreamKey, Coding RS sk.sessionID (sent sk) (B sk))
    (hsent : ∀ sk, (sent sk).Pairwise (·.seq < ·.seq)) {call : Call} {d' : Decoder F C}
    {events : List Emitted} (h : Emits RS d call d' events)
    (hflush : ∀ ev ∈ events, ∀ key frames, ev = .flushed key frames → FlushOf B key frames)
    (hasc : d.Ascending call) (sk : StreamKey) :
    (events.flatMap (Emitted.of sk)).Pairwise (·.seq < ·.seq) := by
  cases h with
  | pass => exact List.pairwise_singleton _ _
  | hold => exact .nil
  | flush =>
    rw [List.flatMap_singleton, Emitted.of]
    split
    · exact (hflush _ (List.mem_singleton_self _) _ _ rfl).sorted hB hsent
    · exact .nil
  | tick _ σ now =>
    have hof : ∀ keys : List BlockKey,
        (keys.map fun key => Emitted.flushed key (d.dueFrames now key)).flatMap (Emitted.of sk) =
          (keys.filter fun key => decide (key.stream = sk)).flatMap (d.dueFrames now) := by
      intro keys
      induction keys with
      | nil => rfl
      | cons key keys ih =>
        rw [List.map_cons, List.flatMap_cons, ih, List.filter_cons, Emitted.of]
        by_cases hsk : key.stream = sk <;> simp [hsk]
    have hmem : ∀ key ∈ ((σ.visit d.blocks.keys).filter (d.due now)).filter
        (fun key => decide (key.stream = sk)),
        key.stream = sk ∧ FlushOf B key (d.dueFrames now key) := by
      intro key hkey
      obtain ⟨hkey, hsk⟩ := List.mem_filter.mp hkey
      exact ⟨of_decide_eq_true hsk, hflush _ (List.mem_map_of_mem hkey) _ _ rfl⟩
    have horder := hasc sk
    rw [hof, List.pairwise_flatMap]
    refine ⟨fun key hkey => (hmem key hkey).2.sorted hB hsent, ?_⟩
    rw [List.filter_filter] at hmem ⊢
    rw [List.filter_congr fun key _ => Bool.and_comm (d.due now key) _] at horder
    refine horder.imp_of_mem fun hkey hkey' hlt f hf f' hf' => ?_
    obtain ⟨hsk, h1⟩ := hmem _ hkey
    obtain ⟨hsk', h2⟩ := hmem _ hkey'
    exact h1.before hB hsent h2 (hsk.trans hsk'.symm) hlt hf hf'
  | rest => exact .nil

/-- **What one call returns is in order.**  In every state a decoder reaches on the frames of
honest encoders whose sequence numbers increase, a push returns the frames of a stream by
increasing number, and so does a tick that visits the overdue blocks of each stream by
increasing number. -/
theorem call_in_order [Float64 F] (hlaw : RS.Lawful) (hsound : RS.Sound) {params : Params F}
    {wires sent : StreamKey → List Frame}
    (hwires : ∀ sk : StreamKey, ∃ (params' : Params F) (calls : List (Encoder.Call F)),
      Honest RS sk.sessionID params' calls (wires sk) ∧ sent sk = calls.flatMap Encoder.Call.pushed)
    (hsent : ∀ sk, (sent sk).Pairwise (·.seq < ·.seq)) {calls : List Call} {call : Call}
    (hcalls : ∀ c ∈ calls ++ [call], Fed params.crossPath wires c) :
    ∃ d : Decoder F C, Run.exec (step RS) (some (newDecoder params)) calls = some d ∧
      (emit RS (some d) call).2.flatMap Emitted.frames = (step RS (some d) call).2 ∧
      (d.Ascending call →
        ∀ sk, ((emit RS (some d) call).2.flatMap (Emitted.of sk)).Pairwise (·.seq < ·.seq)) := by
  obtain ⟨hrun, hlast⟩ := List.forall_mem_append.mp hcalls
  obtain ⟨B, hwire, hB, -⟩ := exists_codings hlaw hsound hwires
  obtain ⟨d, hstate, hcoll, -⟩ :=
    flushed_run hlaw hsound hB hwire (collecting_new params B _) hrun
  rw [(outputs_emit RS _ calls).1] at hstate
  obtain ⟨d', events, hemit, hflush⟩ :=
    hcoll.step hlaw hsound hB hwire (List.forall_mem_singleton.mp hlast)
  refine ⟨d, hstate, (emit_step RS (some d) call).2, fun hasc => ?_⟩
  rw [hemit]
  exact (emits_emit hemit).in_order hB hsent hflush hasc

/-! ### Two short blocks -/

/-- The encoder of session 5 is ticked after every frame, and returns two short blocks. -/
def shortCalls : List (Encoder.Call ℚ) :=
  [.push 0 0 { sessionID := 5, seq := 1, payload := [7] }, .tick (8 * millisecond),
    .push (9 * millisecond) (9 * millisecond) { sessionID := 5, seq := 2, payload := [8] },
    .tick (17 * millisecond)]

def shortBlocks : List Frame :=
  [{ sessionID := 5, seq := 1, blockSeq := 1, payload := [7] },
    { sessionID := 5, seq := 2, blockSeq := 2, payload := [8] }]

theorem honest_short : Honest smallCodes 5 params21 shortCalls shortBlocks where
  emitted := ⟨encoder21, rfl, by decide⟩
  inner := List.forall_mem_cons.mpr ⟨⟨rfl, rfl, rfl⟩, List.forall_mem_singleton.mpr ⟨rfl, rfl, rfl⟩⟩
  size := by decide
  nodup := by decide

/-- The frames on the way to the decoder; the other encoders are silent. -/
def shortWires (sk : StreamKey) : List Frame := if sk.sessionID = 5 then shortBlocks else []

/-- What was pushed into the encoders. -/
def shortSent (sk : StreamKey) : List Frame :=
  if sk.sessionID = 5 then shortCalls.flatMap Encoder.Call.pushed else []

theorem honest_shortWires (sk : StreamKey) : ∃ (params : Params ℚ) (calls : List (Encoder.Call ℚ)),
      Honest smallCodes sk.sessionID params calls (shortWires sk) ∧
        shortSent sk = calls.flatMap Encoder.Call.pushed := honest_alone honest_short sk

/-- The map of blocks iterated with the earliest block first. -/
def earliestFirst : IterOrder BlockKey := ⟨List.reverse, List.reverse_perm⟩

/-- Both frames arrive. -/
def shortPushes : List Call := shortBlocks.map (.push (17 * millisecond) "wan0")

/-- Visited by increasing number, the two blocks are emitted in order. -/
theorem call_in_order_short :
    (step smallCodes (Run.exec (step smallCodes) (some (newDecoder params21)) shortPushes)
        (.tick earliestFirst (26 * millisecond))).2.Pairwise (·.seq < ·.seq) := by
  have hcalls : ∀ c ∈ shortPushes ++ [.tick earliestFirst (26 * millisecond)],
      Fed params21.crossPath shortWires c := by
    simp only [shortPushes, shortBlocks, List.map_cons, List.map_nil, List.cons_append,
      List.nil_append, List.forall_mem_cons]
    exact ⟨fed_push (by decide), fed_push (by decide), trivial, by simp⟩
  have hsent : ∀ sk, (shortSent sk).Pairwise (·.seq < ·.seq) := by
    intro sk
    unfold shortSent
    split
    · decide
    · exact .nil
  obtain ⟨d, hexec, hout, horder⟩ := call_in_order lawful_smallCodes sound_smallCodes
    honest_shortWires hsent hcalls
  rw [hexec, ← hout]
  cases hexec
  exact horder (fun sk => List.Pairwise.filter _ (by decide)) ⟨5, "wan0"⟩

/-- **A tick that visits the later block first returns it first.**  Both blocks of an honest
encoder are overdue, and the frames of the stream are returned by decreasing number. -/
theorem tick_out_of_order : Honest smallCodes 5 params21 shortCalls shortBlocks ∧
      (shortCalls.flatMap Encoder.Call.pushed).Pairwise (·.seq < ·.seq) ∧
      Run.outputs (step smallCodes) (some (newDecoder params21))
          (shortPushes ++ [.tick .plain (26 * millisecond)]) =
        [[], [], [{ sessionID := 5, seq := 2, payload := [8] },
          { sessionID := 5, seq := 1, payload := [7] }]] :=
  ⟨honest_short, by decide, by decide⟩

end Decoder

end FlexBraid
