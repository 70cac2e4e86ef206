import FlexBraid.Fec.Params
import FlexBraid.Lib.SmallCodes
import FlexBraid.Frame

/-!
# The block encoder

The encoder collects data frames into blocks of `dataShards` frames and emits
each full block followed by its parity frames.  A block that does not fill up
within the timeout is emitted without parity, and while coding is off the frames
pass straight through.

The clock readings a call takes are arguments of the call.

## Main definitions

* `Encoder`, `newEncoder` — the encoder; its fields say that fewer than a block's
  frames are pending.
* `Encoder.push`, `Encoder.tick`, `Encoder.setLossRate` — the three calls.
* `Encoder.emitBlock`, `parityFrame` — a full block and its self-describing parity.
* `Batch`, `Batched` — what one call returns, and how it is made up.
* `Emission` — the frames of a batch, with what is behind them forgotten.

## Main results

* `batched_push`, `batched_tick`, `batched_setLossRate` — every call holds its frames
  back, passes them through, or returns them as the next block.
-/

namespace FlexBraid

inductive FecError where
  | rsNew (k p : ℤ)
  | parityTooShort
  | parityTruncated
  | parityInconsistent
deriving DecidableEq

/-- The text of an error; that of the library is appended to the first. -/
def FecError.text : FecError → String
  | .rsNew k p => "fec: rs.New(" ++ toString k ++ "," ++ toString p ++ "): "
  | .parityTooShort => "fec: parity payload too short"
  | .parityTruncated => "fec: parity payload truncated"
  | .parityInconsistent => "fec: inconsistent parity sub-header within block"

/-! ### Parity frames -/

/-- The fixed part of the parity sub-header. -/
def parityHdrFixed : ℕ := 8

/-- The size of the parity sub-header for a block of `dataShards` frames. -/
def parityHeaderSize (dataShards : ℕ) : ℕ := parityHdrFixed + 4 * dataShards + 2 * dataShards

/-- The length of the longest payload. -/
def maxPayloadLen (data : List Frame) : ℕ :=
  data.foldl (fun m f => if f.payload.length > m then f.payload.length else m) 0

/-- The payload of parity frame `i`: the sub-header with the number of data
frames, the index, the shard size, the number of parity frames, the sequence
numbers and the payload lengths, and then the shard. -/
def parityPayload (k p : ℕ) (data : List Frame) (i : ℕ) (shard : Bytes) : Bytes :=
  putUint16 (UInt16.ofNat k) ++ putUint16 (UInt16.ofNat i) ++
    putUint16 (UInt16.ofNat (maxPayloadLen data)) ++ putUint16 (UInt16.ofNat p) ++
    data.flatMap (fun f => putUint32 f.seq) ++
    data.flatMap (fun f => putUint16 (UInt16.ofNat f.payload.length)) ++
    padTo (maxPayloadLen data) shard

/-- Parity frame `i` of block `bs`, with the session of the first data frame. -/
def parityFrame (bs : UInt32) (k p : ℕ) (data : List Frame) (i : ℕ) (shard : Bytes) : Frame :=
  { sessionID := (data.head?.map Frame.sessionID).getD 0
    blockSeq := bs
    flags := flagFECParity
    payload := parityPayload k p data i shard }

/-- A data frame stamped with the number of its block. -/
def Frame.stamp (bs : UInt32) (f : Frame) : Frame := { f with blockSeq := bs }

/-- Flag frames as pass-through frames. -/
def markPassSeq (frames : List Frame) : List Frame :=
  frames.map fun f => { f with flags := f.flags ||| flagPassSeq }

/-! ### The encoder -/

/-- The state of an encoder over a Reed–Solomon library. -/
structure Encoder (F : Type) {C : Type} (RS : ReedSolomon C) where
  params : Params F
  rs : Option C
  /-- The number of the last block. -/
  block : UInt32 := 0
  /-- The frames of the block being filled. -/
  pending : List Frame := []
  blockStart : Option Time := none
  /-- The latest loss estimate of the path. -/
  lossRate : F
  /-- Whether frames are coded or passed through. -/
  codingOn : Bool
  codingSince : Option Time := none
  /-- The number of parity shards `rs` was built with. -/
  rsParity : ℤ
  /-- The number of blocks finished. -/
  blocksCoded : ℕ := 0
  shards_pos : 0 < params.dataShards
  short : (pending.length : ℤ) < params.dataShards
  block_eq : block = UInt32.ofNat blocksCoded
  idle : params.enabled = false → pending = []
  /-- The codec held is the one for the parity shards emitted. -/
  codec : params.enabled = true → rs.isSome ∧ rs = RS.new params.dataShards rsParity

section
variable {F C : Type} [Float64 F] {RS : ReedSolomon C}

/-- A fresh encoder for parameters with their defaults filled in. -/
def freshEncoder (params : Params F) (rs : Option C)
    (codec : params.enabled = true → rs.isSome ∧
      rs = RS.new params.withDefaults.dataShards params.withDefaults.parityShards) :
    Encoder F RS :=
  { params := params.withDefaults
    rs := rs
    pending := []
    lossRate := Float64.ofInt 0
    codingOn := params.withDefaults.adaptive.isNone || params.withDefaults.crossPath
    rsParity := params.withDefaults.parityShards
    shards_pos := params.withDefaults_dataShards_pos
    short := params.withDefaults_dataShards_pos
    block_eq := rfl
    idle := fun _ => rfl
    codec := codec }

variable (RS) in
/-- An encoder for the given parameters. -/
def newEncoder (params : Params F) : Except FecError (Encoder F RS) :=
  let p := params.withDefaults
  if henabled : params.enabled = true then
    match hnew : RS.new p.dataShards p.parityShards with
    | none => .error (.rsNew p.dataShards p.parityShards)
    | some rs => .ok (freshEncoder params (some rs) fun _ => ⟨rfl, hnew.symm⟩)
  else .ok (freshEncoder params none fun h => absurd h henabled)

namespace Encoder

/-- The number of parity shards for a loss rate: the theoretical redundancy times
the safety margin, within the configured bounds. -/
def parityForLoss (e : Encoder F RS) (loss : F) : ℤ :=
  let one : F := Float64.ofInt 1
  let k := e.params.dataShards
  let target : F := match e.params.adaptive with
    | none => Float64.ofInt 0
    | some a =>
      let target := loss / (one - loss) * a.safety
      let capLoss := a.maxLossPct / Float64.ofInt 100
      let cap := capLoss / (one - capLoss)
      if Float64.lt cap target then cap else target
  let parity := Float64.ceil (Float64.ofInt k * target)
  let parity := if parity < 1 then 1 else parity
  let parity := if e.params.crossPathMinParity > parity then e.params.crossPathMinParity else parity
  let parity := if k + parity > 256 then 256 - k else parity
  if !e.params.crossPath && decide (parity > e.params.parityShards) then e.params.parityShards
  else parity

/-- Replace the codec when the redundancy changed; keep the old one when the
library refuses the new size. -/
def rebuild (e : Encoder F RS) : Encoder F RS :=
  let parity := e.parityForLoss e.lossRate
  if parity ≠ e.rsParity then
    match hnew : RS.new e.params.dataShards parity with
    | none => e
    | some rs => { e with rs := some rs, rsParity := parity, codec := fun _ => ⟨rfl, hnew.symm⟩ }
  else e

/-- Decide between coding and pass-through for the current loss estimate. -/
def refresh (e : Encoder F RS) (now : Time) : Encoder F RS :=
  match e.params.adaptive, e.params.crossPath with
  | _, true => ({ e with codingOn := true } : Encoder F RS).rebuild
  | none, false => { e with codingOn := true }
  | some a, false =>
    let lossPct := e.lossRate * Float64.ofInt 100
    let e' : Encoder F RS :=
      if !e.codingOn then
        if Float64.le a.onLossPct lossPct then
          { e with codingOn := true, codingSince := some now }
        else e
      else if Float64.lt lossPct a.offLossPct && elapsed now a.hold e.codingSince then
        { e with codingOn := false }
      else e
    if e'.codingOn then e'.rebuild else e'

/-- Refreshing the decision touches neither the pending frames nor the block
counter. -/
theorem refresh_eq (e : Encoder F RS) (now : Time) :
    (e.refresh now).params = e.params ∧ (e.refresh now).pending = e.pending ∧
      (e.refresh now).blocksCoded = e.blocksCoded ∧ (e.refresh now).blockStart = e.blockStart := by
  have hrebuild : ∀ e : Encoder F RS, e.rebuild.params = e.params ∧ e.rebuild.pending = e.pending ∧
      e.rebuild.blocksCoded = e.blocksCoded ∧ e.rebuild.blockStart = e.blockStart := by
    intro e
    unfold rebuild
    dsimp only
    split
    · split <;> exact ⟨rfl, rfl, rfl, rfl⟩
    · exact ⟨rfl, rfl, rfl, rfl⟩
  unfold refresh
  split
  · exact hrebuild _
  · exact ⟨rfl, rfl, rfl, rfl⟩
  · dsimp only
    split_ifs <;> first | exact hrebuild _ | exact ⟨rfl, rfl, rfl, rfl⟩

/-- Feed a loss estimate, clamped to the unit interval. -/
def setLossRate (e : Encoder F RS) (now : Time) (rate : F) : Encoder F RS :=
  let rate := if Float64.lt rate (Float64.ofInt 0) then Float64.ofInt 0 else rate
  let rate := if Float64.lt (Float64.ofInt 1) rate then Float64.ofInt 1 else rate
  ({ e with lossRate := rate } : Encoder F RS).refresh now

/-- The encoder after a block was cut from its pending frames. -/
def cutBlock (e : Encoder F RS) : Encoder F RS :=
  { e with
    block := e.block + 1
    blocksCoded := e.blocksCoded + 1
    pending := []
    short := e.shards_pos
    block_eq := by rw [e.block_eq]; apply UInt32.toNat_inj.mp; simp
    idle := fun _ => rfl }

/-- The encoder after its pending frames were taken out uncoded. -/
def clearPending (e : Encoder F RS) : Encoder F RS :=
  { e with pending := [], short := e.shards_pos, idle := fun _ => rfl }

/-- Emit the block `data`: the stamped data frames, and the parity frames unless
the library fails. -/
def emitBlock (e : Encoder F RS) (data : List Frame) : Encoder F RS × List Frame :=
  let bs := e.block + 1
  let k := e.params.dataShards.toNat
  let p := e.rsParity.toNat
  let maxLen := maxPayloadLen data
  let shards := data.map (fun f => padTo maxLen f.payload) ++
    List.replicate p (List.replicate maxLen 0)
  match e.rs.bind fun rs => RS.encode rs shards with
  | none => (e.cutBlock, data.map (Frame.stamp bs))
  | some out =>
    (e.cutBlock, data.map (Frame.stamp bs) ++
      (List.range p).map fun i => parityFrame bs k p data i (out.getD (k + i) []))

/-- Note when the first frame of a block arrives. -/
def startBlock (e : Encoder F RS) (start : Time) : Encoder F RS :=
  { e with blockStart := if e.pending.length = 0 then some start else e.blockStart }

/-- Accept a data frame and return the frames to transmit.  The call reads the
clock twice, to refresh the decision and to start a block. -/
def push (e : Encoder F RS) (now start : Time) (f : Frame) : Encoder F RS × List Frame :=
  if henabled : e.params.enabled = false then (e, markPassSeq [f])
  else
    let e' := e.refresh now
    if !e'.codingOn then (e'.clearPending, markPassSeq (e'.pending ++ [f]))
    else
      let e'' := e'.startBlock start
      if h : ((e'.pending ++ [f]).length : ℤ) < e''.params.dataShards then
        ({ e'' with
            pending := e'.pending ++ [f]
            short := h
            idle := fun h => absurd ((congrArg _ (e.refresh_eq now).1).symm.trans h) henabled },
          [])
      else e''.emitBlock (e'.pending ++ [f])

/-- Flush an overdue short block without parity, or what is pending when coding
went off. -/
def tick (e : Encoder F RS) (now : Time) : Encoder F RS × List Frame :=
  if e.params.enabled = false then (e, [])
  else
    let e' := e.refresh now
    if !e'.codingOn then (e'.clearPending, e'.pending)
    else if e'.pending.length = 0 then (e', [])
    else if before now (e'.blockStart.map (· + e'.params.blockTimeout)) then (e', [])
    else (e'.cutBlock, e'.pending.map (Frame.stamp (e'.block + 1)))

/-! ### What a call returns -/

end Encoder
end

/-- The shards of a block as the library is given them: the padded payloads, and room for
the parity. -/
def blockShards (data : List Frame) (p : ℕ) : List Bytes :=
  data.map (fun f => padTo (maxPayloadLen data) f.payload) ++
    List.replicate p (List.replicate (maxPayloadLen data) 0)

/-- What one call returns: nothing, frames that pass through flagged, the frames left over
when coding went off, a short block, or a full block with what the library made of its
shards. -/
inductive Batch where
  | nothing
  | pass (data : List Frame)
  | transition (data : List Frame)
  | short (number : UInt32) (data : List Frame)
  | full (number : UInt32) (data : List Frame) (p : ℕ) (shards : Option (List Bytes))

namespace Batch

/-- The data frames of a batch, as they were pushed. -/
def data : Batch → List Frame
  | nothing => []
  | pass data => data
  | transition data => data
  | short _ data => data
  | full _ data _ _ => data

/-- The parity frames of a batch. -/
def parity : Batch → List Frame
  | full number data p (some shards) =>
    (List.range p).map fun i =>
      parityFrame number data.length p data i (shards.getD (data.length + i) [])
  | _ => []

/-- The data frames of a batch, as they are returned. -/
def stamped : Batch → List Frame
  | nothing => []
  | pass data => markPassSeq data
  | transition data => data
  | short number data => data.map (Frame.stamp number)
  | full number data _ _ => data.map (Frame.stamp number)

def frames (b : Batch) : List Frame := b.stamped ++ b.parity

/-- The number of the block a batch consists of. -/
def number : Batch → Option UInt32
  | short number _ => some number
  | full number _ _ _ => some number
  | _ => none

end Batch

section
variable {F C : Type} [Float64 F] {RS : ReedSolomon C}

namespace Encoder

omit [Float64 F] in
theorem block_succ (e : Encoder F RS) : e.block + 1 = UInt32.ofNat (e.blocksCoded + 1) :=
  e.cutBlock.block_eq

/-- What one call makes of the pending frames `data`, the pushed one included, and what it
leaves behind. -/
inductive Returns (e : Encoder F RS) (data : List Frame) (e' : Encoder F RS) : Batch → Prop
  | nothing (hcoded : e'.blocksCoded = e.blocksCoded) (hpending : e'.pending = data) :
      Returns e data e' .nothing
  | pass (hcoded : e'.blocksCoded = e.blocksCoded) (hpending : e'.pending = []) :
      Returns e data e' (.pass data)
  | transition (hcoded : e'.blocksCoded = e.blocksCoded) (hpending : e'.pending = []) :
      Returns e data e' (.transition data)
  | short (hcoded : e'.blocksCoded = e.blocksCoded + 1) (hpending : e'.pending = [])
      (henabled : e.params.enabled = true) (hne : data ≠ [])
      (hlen : (data.length : ℤ) < e.params.dataShards) :
      Returns e data e' (.short (e.block + 1) data)
  | full (hcoded : e'.blocksCoded = e.blocksCoded + 1) (hpending : e'.pending = [])
      (henabled : e.params.enabled = true) (hlen : (data.length : ℤ) = e.params.dataShards) :
      Returns e data e' (.full (e.block + 1) data e'.rsParity.toNat
        (e'.rs.bind fun rs => RS.encode rs (blockShards data e'.rsParity.toNat)))

/-- The result of a call: the parameters stay, and the frames returned make up a batch. -/
def Batched (e : Encoder F RS) (data : List Frame) (r : Encoder F RS × List Frame) : Prop :=
  r.1.params = e.params ∧ ∃ b, r.2 = b.frames ∧ Returns e data r.1 b

variable {data : List Frame}

omit [Float64 F] in
theorem batched_emitBlock (e : Encoder F RS) (henabled : e.params.enabled = true)
    (hfull : (data.length : ℤ) = e.params.dataShards) : Batched e data (e.emitBlock data) := by
  have hk : e.params.dataShards.toNat = data.length := by omega
  have hreturns := @Returns.full F C RS e data e.cutBlock rfl rfl henabled hfull
  have hemit : e.emitBlock data = (e.cutBlock, (Batch.full (e.block + 1) data e.rsParity.toNat
      (e.rs.bind fun rs => RS.encode rs (blockShards data e.rsParity.toNat))).frames) := by
    unfold emitBlock
    dsimp only
    rw [← blockShards, hk]
    split
    · next hfail =>
      rw [hfail]
      exact congrArg (Prod.mk _) (List.append_nil _).symm
    · next out hout =>
      rw [hout]
      rfl
  rw [hemit]
  exact ⟨rfl, _, rfl, hreturns⟩

omit [Float64 F] in
/-- What a call amounts to depends only on the parameters and the block counter
it started from. -/
theorem Batched.of_eq {e₀ e : Encoder F RS} {r : Encoder F RS × List Frame}
    (hparams : e.params = e₀.params) (hcoded : e.blocksCoded = e₀.blocksCoded)
    (h : Batched e data r) : Batched e₀ data r := by
  have hblock : e.block = e₀.block := by rw [e.block_eq, e₀.block_eq, hcoded]
  obtain ⟨hp, b, hframes, hreturns⟩ := h
  refine ⟨hp.trans hparams, b, hframes, ?_⟩
  cases hreturns with
  | nothing h1 h2 => exact .nothing (h1.trans hcoded) h2
  | pass h1 h2 => exact .pass (h1.trans hcoded) h2
  | transition h1 h2 => exact .transition (h1.trans hcoded) h2
  | short h1 h2 hen hne hlen =>
    rw [hblock]
    rw [hparams] at hen hlen
    exact .short (by rw [h1, hcoded]) h2 hen hne hlen
  | full h1 h2 hen hlen =>
    rw [hblock]
    rw [hparams] at hen hlen
    exact .full (by rw [h1, hcoded]) h2 hen hlen

/-- **A push** returns the pending frames and the pushed one in a batch, or keeps them. -/
theorem batched_push (e : Encoder F RS) (now start : Time) (f : Frame) :
    Batched e (e.pending ++ [f]) (e.push now start f) := by
  obtain ⟨hparams, hpending, hcoded, -⟩ := e.refresh_eq now
  unfold push
  split
  · next hoff =>
    have hnil := e.idle hoff
    rw [hnil, List.nil_append]
    exact ⟨rfl, .pass [f], (List.append_nil _).symm, .pass rfl hnil⟩
  · next hon =>
    dsimp only
    rw [← hpending]
    apply Batched.of_eq hparams hcoded
    split
    · exact ⟨rfl, .pass _, (List.append_nil _).symm, .pass rfl rfl⟩
    · split
      · exact ⟨rfl, .nothing, rfl, .nothing rfl rfl⟩
      · next hfull =>
        -- the pushed frame completes the block
        have hlen : (((e.refresh now).pending ++ [f]).length : ℤ) =
            (e.refresh now).params.dataShards := by
          have hshort := (e.refresh now).short
          change ¬ ((_ : ℕ) : ℤ) < (e.refresh now).params.dataShards at hfull
          simp only [List.length_append, List.length_singleton] at hfull ⊢
          omega
        have henabled : (e.refresh now).params.enabled = true := by
          rw [hparams]
          exact eq_true_of_ne_false hon
        refine Batched.of_eq ?_ ?_
          (batched_emitBlock ((e.refresh now).startBlock start) henabled hlen)
        all_goals rfl

/-- **A tick** returns the pending frames in a batch, or keeps them. -/
theorem batched_tick (e : Encoder F RS) (now : Time) : Batched e e.pending (e.tick now) := by
  obtain ⟨hparams, hpending, hcoded, -⟩ := e.refresh_eq now
  unfold tick
  split
  · exact ⟨rfl, .nothing, rfl, .nothing rfl rfl⟩
  · next hon =>
    dsimp only
    rw [← hpending]
    apply Batched.of_eq hparams hcoded
    split
    · exact ⟨rfl, .transition _, (List.append_nil _).symm, .transition rfl rfl⟩
    · split
      · exact ⟨rfl, .nothing, rfl, .nothing rfl rfl⟩
      · next hne =>
        split
        · exact ⟨rfl, .nothing, rfl, .nothing rfl rfl⟩
        · refine ⟨rfl, .short _ _, (List.append_nil _).symm, .short rfl rfl ?_ ?_ ?_⟩
          · rw [hparams]
            exact eq_true_of_ne_false hon
          · exact fun h => hne (by rw [h]; rfl)
          · exact (e.refresh now).short

theorem batched_setLossRate (e : Encoder F RS) (now : Time) (rate : F) :
    Batched e e.pending (e.setLossRate now rate, []) := by
  unfold setLossRate
  obtain ⟨hparams, hpending, hcoded, -⟩ :=
    Encoder.refresh_eq ({ e with lossRate := _ } : Encoder F RS) now
  exact ⟨hparams, .nothing, rfl, .nothing hcoded hpending⟩

/-! ### What a call does with its frames -/

/-- What one call makes of the pending frames `data`, the pushed one included:
it holds them back, passes them through flagged or plain, or emits them as the
next block.  Parity frames are only emitted with a block of `dataShards` frames. -/
inductive Emission (e : Encoder F RS) (data : List Frame) : Encoder F RS → List Frame → Prop
  | hold {e' : Encoder F RS} (hparams : e'.params = e.params) (hcoded : e'.blocksCoded = e.blocksCoded)
      (hpending : e'.pending = data) : Emission e data e' []
  | pass {e' : Encoder F RS} (hparams : e'.params = e.params) (hcoded : e'.blocksCoded = e.blocksCoded)
      (hpending : e'.pending = []) : Emission e data e' (markPassSeq data)
  | plain {e' : Encoder F RS} (hparams : e'.params = e.params) (hcoded : e'.blocksCoded = e.blocksCoded)
      (hpending : e'.pending = []) : Emission e data e' data
  | block {e' : Encoder F RS} (hparams : e'.params = e.params)
      (hcoded : e'.blocksCoded = e.blocksCoded + 1) (hpending : e'.pending = [])
      (hne : data ≠ []) (henabled : e.params.enabled = true) (p : ℕ) (shard : ℕ → Bytes)
      (hfull : 0 < p → (data.length : ℤ) = e.params.dataShards)
      (hcodec : 0 < p → (RS.new e.params.dataShards p).isSome) :
      Emission e data e' (data.map (Frame.stamp (e.block + 1)) ++
        (List.range p).map fun i => parityFrame (e.block + 1) data.length p data i (shard i))

omit [Float64 F] in
theorem Batched.emission {e : Encoder F RS} {r : Encoder F RS × List Frame} (h : Batched e data r) :
    Emission e data r.1 r.2 := by
  obtain ⟨hparams, b, hframes, hreturns⟩ := h
  have hzero : ∀ {P : Prop}, 0 < 0 → P := fun h => absurd h (Nat.lt_irrefl 0)
  rw [hframes]
  cases hreturns with
  | nothing h1 h2 => exact .hold hparams h1 h2
  | pass h1 h2 =>
    rw [Batch.frames, Batch.parity, List.append_nil]
    · exact .pass hparams h1 h2
    · simp
  | transition h1 h2 =>
    rw [Batch.frames, Batch.parity, List.append_nil]
    · exact .plain hparams h1 h2
    · simp
  | short h1 h2 hen hne hlen => exact .block hparams h1 h2 hne hen 0 (fun _ => []) hzero hzero
  | full h1 h2 hen hlen =>
    have hpos := e.shards_pos
    have hne : data ≠ [] := by
      rintro rfl
      rw [List.length_nil] at hlen
      omega
    cases hout : r.1.rs.bind fun rs => RS.encode rs (blockShards data r.1.rsParity.toNat) with
    | none => exact .block hparams h1 h2 hne hen 0 (fun _ => []) hzero hzero
    | some out =>
      refine .block hparams h1 h2 hne hen r.1.rsParity.toNat
        (fun i => out.getD (data.length + i) []) (fun _ => hlen) fun hp => ?_
      obtain ⟨hsome, hrs⟩ := r.1.codec (by rw [hparams]; exact hen)
      rw [hparams] at hrs
      rw [Int.toNat_of_nonneg (by omega), ← hrs]
      exact hsome

/-- **A push** holds back, passes through or emits the pending frames and the
pushed one. -/
theorem emission_push (e : Encoder F RS) (now start : Time) (f : Frame) :
    Emission e (e.pending ++ [f]) (e.push now start f).1 (e.push now start f).2 :=
  (e.batched_push now start f).emission

/-- **A tick** holds back or emits the pending frames. -/
theorem emission_tick (e : Encoder F RS) (now : Time) :
    Emission e e.pending (e.tick now).1 (e.tick now).2 := (e.batched_tick now).emission

theorem emission_setLossRate (e : Encoder F RS) (now : Time) (rate : F) :
    Emission e e.pending (e.setLossRate now rate) [] := (e.batched_setLossRate now rate).emission

end Encoder
end

/-! ### A small encoder -/

/-- Blocks of two data frames and one parity frame. -/
def params21 : Params ℚ :=
  { dataShards := 2, parityShards := 1, blockTimeout := 8 * millisecond }

/-- A fresh encoder for such blocks. -/
def encoder21 : Encoder ℚ smallCodes := freshEncoder params21 (some 2) fun _ => ⟨rfl, rfl⟩

/-- Two data frames of session 5. -/
def block21 : List Frame :=
  [{ sessionID := 5, seq := 1, payload := [7] }, { sessionID := 5, seq := 2, payload := [8, 9] }]

def parityFrame21 : Frame := parityFrame 1 2 1 block21 0 (parity21 [7, 0] [8, 9])

end FlexBraid
