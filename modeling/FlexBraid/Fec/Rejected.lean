import FlexBraid.Fec.DecoderCalls

/-!
# Parity frames that are rejected

A parity frame is rejected when its payload is too short for its sub-header or does not fit
the geometry of its block.  The buffer of a block that is being assembled is not touched by
it.  But a frame of a block that is not is given a new buffer before it is looked at, and an
empty buffer without a deadline stays behind: the next tick flushes it, and from then on the
whole block counts as delivered.

## Main definitions

* `Decoder.Answer`, `Decoder.answer` — the decoder as a machine that also returns the
  counters read out.
* `Decoder.Rejects` — a parity frame is rejected in a state.

## Main results

* `Decoder.rejected_inert` — **a rejected frame of an open block has no effect**.
* `Decoder.rejected_closes_block` — a rejected frame of another block closes it.
-/

namespace FlexBraid

variable {F C : Type} (RS : ReedSolomon C)

namespace Decoder

/-- What a call returns: frames, or the counters of a stream. -/
inductive Answer where
  | frames (out : List Frame)
  | stats (lost received : ℕ)
deriving DecidableEq

/-- One call of a decoder: the next state, none after a panic, and what it returns. -/
def answer : Option (Decoder F C) → Call → Option (Decoder F C) × List Answer
  | none, _ => (none, [])
  | some d, .push now path f =>
    match d.push RS now path f with
    | none => (none, [])
    | some (d', out) => (some d', [.frames out])
  | some d, .tick σ now => (some (d.tick σ now).1, [.frames (d.tick σ now).2])
  | some d, .takeStreamStats sessionID path =>
    let (d', lost, received) := d.takeStreamStats sessionID path
    (some d', [.stats lost received])
  | some d, .takePathStats sessionID path =>
    let (d', lost, received) := d.takePathStats sessionID path
    (some d', [.stats lost received])

/-- The parity frame `f` is rejected when it is pushed. -/
def Rejects (d : Decoder F C) (now : Time) (path : String) (f : Frame) : Prop :=
  d.params.enabled = true ∧ f.hasFlag flagFECParity = true ∧
    d.late (d.blockKey path f) = false ∧
    ∃ err, (d.blockAt (d.blockKey path f)).addParity now d.params.blockTimeout f = .error err

variable {RS} {d : Decoder F C} {now : Time} {path : String} {f : Frame}

/-- A rejected frame leaves the decoder as it was, but for a buffer of its block. -/
theorem Rejects.push (h : d.Rejects now path f) :
    d.push RS now path f = some (d.openBlock (d.blockKey path f), []) := by
  obtain ⟨henabled, hparity, hlate, err, hadd⟩ := h
  have hcoded : f.coded = true := by
    rw [Frame.coded, hparity]
    rfl
  rw [push_of_coded RS henabled hcoded, hlate]
  obtain ⟨stats, heq⟩ := (d.openBlock (d.blockKey path f)).pushBlock_eq RS now
    (d.blockKey path f) (d.blockAt (d.blockKey path f)) f
  have habsorb : (d.blockAt (d.blockKey path f)).absorb now
      (d.openBlock (d.blockKey path f)).params.blockTimeout f = none := by
    show BlockState.absorb _ now d.params.blockTimeout f = none
    rw [BlockState.absorb, if_pos hparity, hadd]
    rfl
  rw [if_neg (by decide), heq, habsorb]
  split <;> rfl

/-- **A rejected frame of a block that is being assembled has no effect**: every later
sequence of calls returns what it would return without it. -/
theorem rejected_inert (params : Params F) (pre post : List Call)
    (hreach : Run.exec (answer RS) (some (newDecoder params)) pre = some d)
    (hreject : d.Rejects now path f) (hopen : (d.blocks.lookup (d.blockKey path f)).isSome) :
    Run.outputs (answer RS)
        (Run.exec (answer RS) (some (newDecoder params)) (pre ++ [.push now path f])) post =
      Run.outputs (answer RS) (Run.exec (answer RS) (some (newDecoder params)) pre) post := by
  have hstep : (answer RS (some d) (.push now path f)).1 = some d := by
    rw [answer, hreject.push, openBlock, if_pos hopen]
  rw [Run.exec_append, hreach, Run.exec_cons, hstep, Run.exec_nil]

/-- A parity frame of block 1 without a sub-header. -/
def shortParity : Frame := { sessionID := 5, blockSeq := 1, flags := flagFECParity, payload := [0] }

/-- A data frame of block 1. -/
def firstOfBlock : Frame := { sessionID := 5, seq := 1, blockSeq := 1, payload := [7] }

/-- The block is open when the frame is rejected. -/
theorem rejected_inert_block21 : Run.outputs (answer smallCodes)
        (Run.exec (answer smallCodes) (some (newDecoder params21))
          ([.push 0 "wan0" firstOfBlock] ++ [.push 1 "wan0" shortParity]))
        [.tick .plain (20 * millisecond), .takeStreamStats 5 "wan0"] =
      Run.outputs (answer smallCodes)
        (Run.exec (answer smallCodes) (some (newDecoder params21)) [.push 0 "wan0" firstOfBlock])
        [.tick .plain (20 * millisecond), .takeStreamStats 5 "wan0"] := by
  refine rejected_inert params21 _ _ rfl ⟨rfl, rfl, ?_, .parityTooShort, rfl⟩ ?_
  · decide
  · decide

/-- **A rejected frame closes a block that is not being assembled.**  Without it the data
frame is delivered after its deadline; with it a tick flushes the empty buffer, and the
data frame that arrives afterwards is dropped as late. -/
theorem rejected_closes_block : Rejects (newDecoder params21 : Decoder ℚ ℕ) 0 "wan0" shortParity ∧
      Run.outputs (answer smallCodes)
          (Run.exec (answer smallCodes) (some (newDecoder params21)) [.push 0 "wan0" shortParity])
          [.tick .plain 1, .push 2 "wan0" firstOfBlock, .tick .plain (20 * millisecond)] =
        [[.frames []], [.frames []], [.frames []]] ∧
      Run.outputs (answer smallCodes) (some (newDecoder params21))
          [.tick .plain 1, .push 2 "wan0" firstOfBlock, .tick .plain (20 * millisecond)] =
        [[.frames []], [.frames []], [.frames [{ sessionID := 5, seq := 1, payload := [7] }]]] :=
  ⟨⟨rfl, rfl, by decide, .parityTooShort, rfl⟩, by decide, by decide⟩

end Decoder

end FlexBraid
