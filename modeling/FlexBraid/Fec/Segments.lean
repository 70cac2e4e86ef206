import FlexBraid.Fec.Assembly
import FlexBraid.Lib.Run

/-!
# What an encoder emits

The frames an encoder returns over a whole run fall into segments: single frames
that pass through, and blocks numbered one after the other.  The data frames of
the segments, followed by the pending ones, are the pushed frames in order.

## Main definitions

* `Encoder.Call`, `Encoder.step` — the encoder as a machine.
* `Segment`, `emit` — the segments of an emission, and the frames they stand for.
* `InnerFrame` — the data frames the tunnel pushes.
* `Frame.SentAs` — what the sender stamps on an emitted frame.

## Main results

* `segments_of_run` — the emission of every run is a sequence of segments.
* `Segment.codedBlock` — the blocks among them are coded blocks.
-/

namespace FlexBraid

variable {F C : Type} {RS : ReedSolomon C}

inductive Encoder.Call (F : Type) where
  | push (now start : Time) (f : Frame)
  | tick (now : Time)
  | setLossRate (now : Time) (rate : F)

/-- The frames a call pushes. -/
def Encoder.Call.pushed : Encoder.Call F → List Frame
  | .push _ _ f => [f]
  | _ => []

def Encoder.step [Float64 F] (e : Encoder F RS) :
    Encoder.Call F → Encoder F RS × List Frame
  | .push now start f => e.push now start f
  | .tick now => e.tick now
  | .setLossRate now rate => (e.setLossRate now rate, [])

/-! ### Segments -/

/-- A segment of an emission: a frame that passes through, flagged or not, or a
block with its parity shards. -/
inductive Segment where
  | solo (f : Frame) (flagged : Bool)
  | block (data : List Frame) (p : ℕ) (shard : ℕ → Bytes)

namespace Segment

/-- The data frames of a segment. -/
def data : Segment → List Frame
  | solo f _ => [f]
  | block data _ _ => data

/-- The number of blocks among segments. -/
def blockCount : List Segment → ℕ
  | [] => 0
  | solo _ _ :: segs => blockCount segs
  | block _ _ _ :: segs => blockCount segs + 1

/-- A block is not empty, and has parity frames only when it is full and the
library has a codec for it. -/
def Valid (RS : ReedSolomon C) (k : ℤ) : Segment → Prop
  | solo _ _ => True
  | block data p _ => data ≠ [] ∧ (0 < p → (data.length : ℤ) = k ∧ (RS.new k p).isSome)

/-- The frame that passes through. -/
def soloFrame (f : Frame) (flagged : Bool) : Frame :=
  if flagged then { f with flags := f.flags ||| flagPassSeq } else f

def blockFrames (bs : UInt32) (data : List Frame) (p : ℕ) (shard : ℕ → Bytes) : List Frame :=
  data.map (Frame.stamp bs) ++
    (List.range p).map fun i => parityFrame bs data.length p data i (shard i)

/-- The frames of segments, when `n` blocks were emitted before. -/
def emit : ℕ → List Segment → List Frame
  | _, [] => []
  | n, solo f flagged :: segs => soloFrame f flagged :: emit n segs
  | n, block data p shard :: segs =>
    blockFrames (UInt32.ofNat (n + 1)) data p shard ++ emit (n + 1) segs

theorem blockCount_append (segs segs' : List Segment) :
    blockCount (segs ++ segs') = blockCount segs + blockCount segs' := by
  induction segs with
  | nil => simp [blockCount]
  | cons s segs ih =>
    cases s with
    | solo f flagged => exact ih
    | block data p shard =>
      rw [List.cons_append, blockCount, blockCount, ih]
      omega

theorem emit_append (n : ℕ) (segs segs' : List Segment) :
    emit n (segs ++ segs') = emit n segs ++ emit (n + blockCount segs) segs' := by
  induction segs generalizing n with
  | nil => rfl
  | cons s segs ih =>
    cases s with
    | solo f flagged => rw [List.cons_append, emit, emit, blockCount, ih, List.cons_append]
    | block data p shard =>
      rw [List.cons_append, emit, emit, blockCount, ih, List.append_assoc, Nat.add_assoc,
        Nat.add_comm 1]

theorem emit_solos (n : ℕ) (fs : List Frame) (flagged : Bool) :
    emit n (fs.map fun f => solo f flagged) = fs.map (soloFrame · flagged) ∧
      blockCount (fs.map fun f => solo f flagged) = 0 ∧
      (fs.map fun f => solo f flagged).flatMap data = fs := by
  induction fs with
  | nil => exact ⟨rfl, rfl, rfl⟩
  | cons f fs ih =>
    obtain ⟨h1, h2, h3⟩ := ih
    refine ⟨?_, h2, ?_⟩
    · rw [List.map_cons, List.map_cons, emit, h1]
    · rw [List.map_cons, List.flatMap_cons, h3]
      rfl

theorem data_sublist {s : Segment} {segs : List Segment} (h : s ∈ segs) :
    s.data.Sublist (segs.flatMap data) := by
  obtain ⟨l, l', rfl⟩ := List.append_of_mem h
  rw [List.flatMap_append, List.flatMap_cons]
  exact (List.sublist_append_left _ _).trans (List.sublist_append_right _ _)

end Segment

open Segment

/-! ### The emission of a run -/

theorem segments_of_emission {e e' : Encoder F RS} {data out : List Frame}
    (h : Encoder.Emission e data e' out) : e'.params = e.params ∧
      ∃ segs, out = emit e.blocksCoded segs ∧ data = segs.flatMap Segment.data ++ e'.pending ∧
        e'.blocksCoded = e.blocksCoded + blockCount segs ∧
        (∀ s ∈ segs, s.Valid RS e.params.dataShards) ∧
        (0 < blockCount segs → e.params.enabled = true) := by
  cases h with
  | hold hparams hcoded hpending =>
    exact ⟨hparams, [], rfl, by simp [hpending], hcoded, by simp, by simp [blockCount]⟩
  | pass hparams hcoded hpending =>
    obtain ⟨h1, h2, h3⟩ := emit_solos e.blocksCoded data true
    refine ⟨hparams, data.map fun f => solo f true, h1.symm, ?_, ?_, ?_, ?_⟩
    · rw [h3, hpending, List.append_nil]
    · rw [h2, hcoded, Nat.add_zero]
    · intro s hs
      obtain ⟨f, -, rfl⟩ := List.mem_map.mp hs
      trivial
    · rw [h2]
      exact fun h0 => absurd h0 (Nat.lt_irrefl 0)
  | plain hparams hcoded hpending =>
    obtain ⟨h1, h2, h3⟩ := emit_solos e.blocksCoded data false
    refine ⟨hparams, data.map fun f => solo f false, ?_, ?_, ?_, ?_, ?_⟩
    · rw [h1]
      exact (List.map_id data).symm
    · rw [h3, hpending, List.append_nil]
    · rw [h2, hcoded, Nat.add_zero]
    · intro s hs
      obtain ⟨f, -, rfl⟩ := List.mem_map.mp hs
      trivial
    · rw [h2]
      exact fun h0 => absurd h0 (Nat.lt_irrefl 0)
  | block hparams hcoded hpending hne henabled p shard hfull hcodec =>
    refine ⟨hparams, [block data p shard], ?_, by simp [Segment.data, hpending], hcoded, ?_,
      fun _ => henabled⟩
    · rw [e.block_succ]
      simp [emit, blockFrames]
    · intro s hs
      rw [List.mem_singleton] at hs
      subst hs
      exact ⟨hne, fun hp => ⟨hfull hp, hcodec hp⟩⟩

theorem Encoder.emission_step [Float64 F] (e : Encoder F RS) (c : Encoder.Call F) :
    Encoder.Emission e (e.pending ++ c.pushed) (e.step c).1 (e.step c).2 := by
  cases c with
  | push now start f => exact e.emission_push now start f
  | tick now => simpa [Call.pushed, step] using e.emission_tick now
  | setLossRate now rate => simpa [Call.pushed, step] using e.emission_setLossRate now rate

theorem Encoder.params_exec [Float64 F] (e : Encoder F RS) (calls : List (Encoder.Call F)) :
    (Run.exec Encoder.step e calls).params = e.params := by
  have hstep : ∀ (e' : Encoder F RS) c, e'.params = e.params → (e'.step c).1.params = e.params :=
    fun e' c h => (segments_of_emission (e'.emission_step c)).1.trans h
  exact Run.exec_induct' hstep calls rfl

/-- **The emission of a run**: segments, whose data frames followed by the pending
ones are what was pending and what was pushed, in order. -/
theorem segments_of_run [Float64 F] (e : Encoder F RS) (calls : List (Encoder.Call F)) :
    ∃ segs, (Run.outputs Encoder.step e calls).flatten = emit e.blocksCoded segs ∧
      e.pending ++ calls.flatMap Encoder.Call.pushed =
        segs.flatMap Segment.data ++ (Run.exec Encoder.step e calls).pending ∧
      (∀ s ∈ segs, s.Valid RS e.params.dataShards) ∧
      (0 < blockCount segs → e.params.enabled = true) := by
  induction calls generalizing e with
  | nil => exact ⟨[], rfl, by simp, by simp, by simp [blockCount]⟩
  | cons c calls ih =>
    obtain ⟨hparams, segs, hout, hdata, hcoded, hvalid, henabled⟩ :=
      segments_of_emission (e.emission_step c)
    obtain ⟨segs', hout', hdata', hvalid', henabled'⟩ := ih (e.step c).1
    rw [hparams] at hvalid' henabled'
    refine ⟨segs ++ segs', ?_, ?_, ?_, ?_⟩
    · rw [Run.outputs_cons, List.flatten_cons, hout', hcoded, emit_append, hout]
    · rw [List.flatMap_cons, ← List.append_assoc, hdata, List.append_assoc, hdata',
        List.flatMap_append, List.append_assoc, Run.exec_cons]
    · intro s hs
      rcases List.mem_append.mp hs with hs | hs
      · exact hvalid s hs
      · exact hvalid' s hs
    · intro hpos
      rw [blockCount_append] at hpos
      rcases Nat.eq_zero_or_pos (blockCount segs) with h0 | h0
      · exact henabled' (by omega)
      · exact henabled h0

/-! ### Frames on the wire -/

/-- A data frame as the tunnel builds it around an inner packet. -/
structure InnerFrame (sid : UInt64) (f : Frame) : Prop where
  session : f.sessionID = sid
  flags : f.flags = 0
  blockSeq : f.blockSeq = 0

/-- The frame `g` is `f` as the sender transmits it: parity frames get a sequence
number, and pass-through frames a path counter for their block number. -/
structure Frame.SentAs (f g : Frame) : Prop where
  session : g.sessionID = f.sessionID
  flags : g.flags = f.flags
  payload : g.payload = f.payload
  seq : f.hasFlag flagFECParity = false → g.seq = f.seq
  blockSeq : f.hasFlag flagPassSeq = false → g.blockSeq = f.blockSeq

variable {f g : Frame} {sid : UInt64}

theorem Frame.SentAs.hasFlag (h : f.SentAs g) (flag : UInt8) :
    g.hasFlag flag = f.hasFlag flag := by rw [Frame.hasFlag, Frame.hasFlag, h.flags]

theorem Frame.SentAs.refl (f : Frame) : f.SentAs f := ⟨rfl, rfl, rfl, fun _ => rfl, fun _ => rfl⟩

theorem InnerFrame.hasFlag (h : InnerFrame sid f) (flag : UInt8) : f.hasFlag flag = false := by
  rw [Frame.hasFlag, h.flags]
  simp

theorem soloFrame_sent (hf : InnerFrame sid f) {flagged : Bool}
    (hg : (soloFrame f flagged).SentAs g) :
    g.coded = false ∧ g.hasFlag flagFECParity = false ∧ g.seq = f.seq ∧ g.payload = f.payload ∧
      g.sessionID = sid := by
  have hpass : (soloFrame f flagged).hasFlag flagPassSeq = flagged := by
    cases flagged with
    | false => exact hf.hasFlag _
    | true =>
      change ((f.flags ||| flagPassSeq) &&& flagPassSeq != 0) = true
      rw [hf.flags]
      decide
  have hparity : (soloFrame f flagged).hasFlag flagFECParity = false := by
    cases flagged with
    | false => exact hf.hasFlag _
    | true =>
      change ((f.flags ||| flagPassSeq) &&& flagFECParity != 0) = false
      rw [hf.flags]
      decide
  have hfields : (soloFrame f flagged).seq = f.seq ∧ (soloFrame f flagged).payload = f.payload ∧
      (soloFrame f flagged).sessionID = f.sessionID ∧
      (soloFrame f flagged).blockSeq = f.blockSeq := by
    cases flagged <;> exact ⟨rfl, rfl, rfl, rfl⟩
  refine ⟨?_, by rw [hg.hasFlag, hparity], (hg.seq hparity).trans hfields.1,
    hg.payload.trans hfields.2.1, by rw [hg.session, hfields.2.2.1, hf.session]⟩
  rw [Frame.coded, hg.hasFlag, hg.hasFlag, hparity, hpass]
  cases flagged with
  | true => rfl
  | false => simp [hg.blockSeq hpass, hfields.2.2.2, hf.blockSeq]

/-! ### Block numbers -/

theorem blockCount_le {k : ℤ} {segs : List Segment} (h : ∀ s ∈ segs, s.Valid RS k) :
    blockCount segs ≤ (segs.flatMap Segment.data).length := by
  induction segs with
  | nil => simp [blockCount]
  | cons s segs ih =>
    obtain ⟨hs, hsegs⟩ := List.forall_mem_cons.mp h
    have hle := ih hsegs
    rw [List.flatMap_cons, List.length_append]
    cases s with
    | solo f flagged =>
      rw [blockCount]
      omega
    | block data p shard =>
      have hpos := List.length_pos_of_ne_nil hs.1
      rw [blockCount, Segment.data]
      omega

theorem length_le_of_nodup_seqs {l : List UInt32} (h : l.Nodup) : l.length ≤ 2 ^ 32 := by
  have hnd : (l.map UInt32.toNat).Nodup :=
    h.map fun a b hab => UInt32.toNat_inj.mp hab
  have hsub : l.map UInt32.toNat ⊆ List.range (2 ^ 32) := by
    intro n hn
    obtain ⟨a, -, rfl⟩ := List.mem_map.mp hn
    exact List.mem_range.mpr a.toNat_lt
  have hle := (List.subperm_of_subset hnd hsub).length_le
  rwa [List.length_map, List.length_range] at hle

theorem ofNat_lt_ofNat {m n : ℕ} (hmn : m < n) (hn : n < 2 ^ 32) :
    UInt32.ofNat m < UInt32.ofNat n := by
  rw [UInt32.lt_iff_toNat_lt, UInt32.toNat_ofNat', UInt32.toNat_ofNat', Nat.mod_eq_of_lt hn,
    Nat.mod_eq_of_lt (hmn.trans hn)]
  exact hmn

theorem ofNat_ne_ofNat {m n : ℕ} (hm : 0 < m) (hmn : m < n) (hn : n ≤ 2 ^ 32) :
    UInt32.ofNat m ≠ UInt32.ofNat n := by
  intro h
  have h' := congrArg UInt32.toNat h
  rw [UInt32.toNat_ofNat', UInt32.toNat_ofNat', Nat.mod_eq_of_lt (by omega)] at h'
  rcases Nat.lt_or_ge n (2 ^ 32) with hlt | hge
  · rw [Nat.mod_eq_of_lt hlt] at h'
    omega
  · have : n = 2 ^ 32 := by omega
    rw [this, Nat.mod_self] at h'
    omega

/-! ### Honest traffic -/

theorem newEncoder_ok [Float64 F] {params : Params F} {e : Encoder F RS}
    (h : newEncoder RS params = .ok e) :
    e.params = params.withDefaults ∧ e.pending = [] ∧ e.blocksCoded = 0 := by
  unfold newEncoder at h
  dsimp only at h
  split at h
  · split at h
    · cases h
    · cases h
      exact ⟨rfl, rfl, rfl⟩
  · cases h
    exact ⟨rfl, rfl, rfl⟩

/-- The frames `fs` are what an encoder emits over a run in which inner frames of
session `sid` with distinct numbers are pushed. -/
structure Honest [Float64 F] (RS : ReedSolomon C) (sid : UInt64) (params : Params F)
    (calls : List (Encoder.Call F)) (fs : List Frame) : Prop where
  emitted : ∃ e : Encoder F RS, newEncoder RS params = .ok e ∧
    fs = (Run.outputs Encoder.step e calls).flatten
  inner : ∀ f ∈ calls.flatMap Encoder.Call.pushed, InnerFrame sid f
  size : ∀ f ∈ calls.flatMap Encoder.Call.pushed, f.payload.length ≤ 65535
  nodup : ((calls.flatMap Encoder.Call.pushed).map Frame.seq).Nodup

theorem codedBlock_of_segment (hlaw : RS.Lawful) {k : ℤ} {data : List Frame} {p : ℕ}
    {shard : ℕ → Bytes} (hvalid : (Segment.block data p shard).Valid RS k)
    (hinner : ∀ f ∈ data, InnerFrame sid f) (hsize : ∀ f ∈ data, f.payload.length ≤ 65535)
    (hnodup : (data.map Frame.seq).Nodup) :
    ∃ b : CodedBlock, b.sessionID = sid ∧ b.data = data ∧ b.parity = p ∧ b.shard = shard := by
  have hbounds : 0 < p → data.length < 65536 ∧ p < 65536 := by
    intro hp
    obtain ⟨hlen, hsome⟩ := hvalid.2 hp
    obtain ⟨c, hnew⟩ := Option.isSome_iff_exists.mp hsome
    have h := hlaw.new_bounds hnew
    omega
  have hfits : ParityFits p data :=
    { pos := List.length_pos_of_ne_nil hvalid.1
      k_lt := fun hp => (hbounds hp).1
      p_lt := by
        rcases Nat.eq_zero_or_pos p with rfl | hp
        · decide
        · exact (hbounds hp).2
      len_lt := fun f hf => Nat.lt_succ_of_le (hsize f hf) }
  exact ⟨⟨sid, data, p, shard, hfits, hnodup, fun f hf => (hinner f hf).session⟩, rfl, rfl, rfl, rfl⟩

/-- What a decoder receives of an honest emission: a frame that passes through, or
a data or parity frame of the coded block of its number. -/
def HonestFrame (B : UInt32 → Option CodedBlock) (g : Frame) : Prop :=
  g.coded = false ∨ ∃ b, B g.blockSeq = some b ∧ g.sessionID = b.sessionID ∧
    ((∃ f, b.IsData f g) ∨ ∃ i, b.IsParity i g)

theorem honestFrame_block {B : UInt32 → Option CodedBlock} {bs : UInt32} {b : CodedBlock}
    (hB : B bs = some b) (hinner : ∀ f ∈ b.data, InnerFrame b.sessionID f)
    (hf : f ∈ blockFrames bs b.data b.parity b.shard) (hg : f.SentAs g) : HonestFrame B g := by
  rcases List.mem_append.mp hf with hf | hf
  · obtain ⟨f₀, hf₀, rfl⟩ := List.mem_map.mp hf
    have hflag : ∀ flag, (f₀.stamp bs).hasFlag flag = false := (hinner f₀ hf₀).hasFlag
    have hbs : g.blockSeq = bs := hg.blockSeq (hflag _)
    refine .inr ⟨b, by rw [hbs, hB], hg.session.trans (hinner f₀ hf₀).session,
      .inl ⟨f₀, hf₀, ?_, ?_, ?_⟩⟩
    · rw [hg.hasFlag, hflag]
    · exact hg.seq (hflag _)
    · exact hg.payload
  · obtain ⟨i, hi, rfl⟩ := List.mem_map.mp hf
    have hbs : g.blockSeq = bs := hg.blockSeq (by
      change (flagFECParity &&& flagPassSeq != 0) = false
      decide)
    refine .inr ⟨b, by rw [hbs, hB], hg.session.trans (b.session_parityFrame ..),
      .inr ⟨i, List.mem_range.mp hi, ?_, hg.payload⟩⟩
    rw [hg.hasFlag, CodedBlock.hasFlag_parityFrame]

end FlexBraid
