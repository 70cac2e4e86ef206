import FlexBraid.Fec.RecoveryRun
import FlexBraid.RoundRobin

/-!
# Cross-path blocks and the loss of a path

In cross-path mode the frames of a block are spread over the paths, one pick of the scheduler for
each frame.  When a path is lost with all frames on it, the decoder yields the block if the path
had no more of them than there are parity frames.

Round-robin over equal paths keeps to that bound whatever the phase it starts in, as long as the
multiples of the weight are exact.  In double precision they are not for every weight: three paths
of weight 0.1 are picked in the order 0, 1, 2, 2.

## Main definitions

* `spread`, `survivors` — the frames of a block with their paths, and those a lost path leaves.
* `SurvivorCall` — the calls of a decoder that receives them.

## Main results

* `Scheduler.equal_paths_survive` — **equal paths survive the loss of one**.
* `Scheduler.tenths_lose` — paths of weight 0.1 do not.
-/

namespace FlexBraid

variable {F C : Type} {RS : ReedSolomon C}

open CodedBlock

/-! ### Lost paths -/

/-- The frames of a block with the paths of consecutive picks. -/
def spread [Float64 F] (s : Scheduler F) (frames : List Frame) : List (Frame × Option String) :=
  frames.zip (s.picks frames.length).2

/-- What the loss of a path leaves. -/
def survivors (lost : String) (sent : List (Frame × Option String)) : List (Frame × Option String) :=
  sent.filter fun fp => decide (fp.2 ≠ some lost)

/-- The calls of a decoder that receives what is left: pushes on the frames' own paths, and ticks
before the deadline. -/
def SurvivorCall (left : List (Frame × Option String)) (deadline : Time) : Decoder.Call → Prop
  | .push _ path g => (g, some path) ∈ left
  | .tick _ now => now < deadline
  | _ => False

theorem length_picks [Float64 F] (n : ℕ) (s : Scheduler F) : (s.picks n).2.length = n := by
  induction n generalizing s with
  | zero => rfl
  | succ n ih => exact congrArg Nat.succ (ih _)

theorem nodup_wire {b : CodedBlock} (hflags : b.Unflagged) (bs : UInt32) : (b.wire bs).Nodup := by
  have hdata : (b.data.map (Frame.stamp bs)).Nodup := by
    refine List.Nodup.of_map Frame.seq ?_
    rw [List.map_map]
    exact b.nodup
  have hparity : ((List.range b.parity).map fun i =>
      parityFrame bs b.data.length b.parity b.data i (b.shard i)).Nodup := by
    refine List.Nodup.map_on ?_ List.nodup_range
    intro i hi j hj heq
    -- the index is read back from the sub-header
    have hread := congrArg (fun g : Frame => (BlockState.readSubHeader g.payload).pidx) heq
    dsimp only [parityFrame] at hread
    rwa [readSubHeader_parityPayload b.fits (List.mem_range.mp hi),
      readSubHeader_parityPayload b.fits (List.mem_range.mp hj)] at hread
  refine List.nodup_append.mpr ⟨hdata, hparity, ?_⟩
  rintro g hg g' hg' rfl
  obtain ⟨f, hf, rfl⟩ := List.mem_map.mp hg
  obtain ⟨i, -, heq⟩ := List.mem_map.mp hg'
  have hflag : (f.stamp bs).hasFlag flagFECParity = true := by
    rw [← heq]
    exact hasFlag_parityFrame ..
  have hplain : (f.stamp bs).hasFlag flagFECParity = false := (hflags f hf).1
  rw [hplain] at hflag
  cases hflag

theorem le_length_survivors {frames : List Frame} {picks : List (Option String)} {k p : ℕ}
    {lost : String} (hframes : frames.length = k + p) (hpicks : picks.length = k + p)
    (hlost : (picks.countP fun pick => decide (pick = some lost)) ≤ p) :
    k ≤ (survivors lost (frames.zip picks)).length := by
  have hmap : (frames.zip picks).map Prod.snd = picks :=
    List.map_snd_zip (by rw [hframes, hpicks])
  have hcount : ((frames.zip picks).countP fun fp => decide (fp.2 = some lost)) ≤ p := by
    have heq : picks.countP (fun pick => decide (pick = some lost)) =
        (frames.zip picks).countP fun fp => decide (fp.2 = some lost) := by
      conv_lhs => rw [← hmap]
      rw [List.countP_map]
      rfl
    rwa [← heq]
  have hsplit := List.length_eq_countP_add_countP (fun fp => decide (fp.2 = some lost))
    (l := frames.zip picks)
  have hrest : (survivors lost (frames.zip picks)).length =
      (frames.zip picks).countP fun fp => decide (¬ decide (fp.2 = some lost) = true) := by
    rw [survivors, ← List.countP_eq_length_filter]
    apply List.countP_congr
    intro fp _
    simp
  rw [List.length_zip, hframes, hpicks, min_self] at hsplit
  omega

section
variable {k p : ℕ} {data : List Frame} {sid : UInt64}

theorem length_emitBlock {e : Encoder F RS} (he : e.Codes k p) (hdata : DataBlock k sid data) :
    (e.emitBlock data).2.length = k + p := by
  obtain ⟨b, hbdata, hbparity, -, -, hwire⟩ := emitBlock_recoverable he hdata
  rw [hwire, ← hdata.length, ← hbdata, ← hbparity]
  simp [wire]

/-- **A block survives the loss of a path** that carried no more frames than there are parity
frames: whatever order the others arrive in, the pushes and a tick at the deadline yield the data
frames, each once, besides what the tick yields of other blocks. -/
theorem survivors_recovered {params : Params F} (hcross : params.crossPath = true) {e : Encoder F RS}
    (he : e.Codes k p) (hdata : DataBlock k sid data) {d : Decoder F C}
    (hd : d.Ready RS params k ⟨sid, "", e.block + 1⟩) {picks : List (Option String)}
    (hpicks : picks.length = k + p) {lost : String}
    (hlost : (picks.countP fun pick => decide (pick = some lost)) ≤ p) :
    let left := survivors lost ((e.emitBlock data).2.zip picks)
    k ≤ left.length ∧ ∀ (now₀ : Time) (path₀ : String) (g₀ : Frame) (calls : List Decoder.Call),
      let run := Decoder.Call.push now₀ path₀ g₀ :: calls
      let deadline := now₀ + params.withDefaults.blockTimeout
      (∀ c ∈ run, SurvivorCall left deadline c) →
      (∀ fp ∈ left, fp.1 ∈ run.flatMap Decoder.Call.pushed) →
      ∃ d', Run.exec (Decoder.step RS) (some d) run = some d' ∧
        ∀ (σ σ' : IterOrder BlockKey) (now : Time), deadline ≤ now →
          (Decoder.pushReturns RS (some d) run ++ (d'.tick σ now).2).Perm
            (data.map Frame.plain ++
              (({ d' with blocks := d'.blocks.erase ⟨sid, "", e.block + 1⟩ } :
                Decoder F C).tick σ' now).2) := by
  intro left
  have hleft : k ≤ left.length :=
    le_length_survivors (length_emitBlock he hdata) hpicks hlost
  refine ⟨hleft, ?_⟩
  intro now₀ path₀ g₀ calls run deadline hcalls hall
  have hblock : ∀ c ∈ run, BlockCall (e.emitBlock data).2 params.crossPath "" deadline c := by
    intro c hc
    have hcall := hcalls c hc
    cases c with
    | push now path g =>
      have hmem := (List.mem_filter.mp hcall).1
      exact ⟨(List.of_mem_zip hmem).1, by rw [hcross]; rfl⟩
    | tick σ now => exact hcall
    | takeStreamStats => exact hcall.elim
    | takePathStats => exact hcall.elim
  obtain ⟨b, hbdata, hbparity, hbsid, hb, hwire, hS, d', hexec, h'⟩ :=
    exists_recoveryRun he hdata hd hblock
  refine ⟨d', hexec, fun σ σ' now hnow => ?_⟩
  -- distinct frames are left, and all of them are pushed
  have hnodup : (left.map Prod.fst).Nodup := by
    refine List.Nodup.sublist (List.filter_sublist.map Prod.fst) ?_
    rw [List.map_fst_zip (by rw [length_emitBlock he hdata, hpicks]), hwire]
    exact nodup_wire hb.unflagged _
  have hmany : b.data.length ≤ (run.flatMap Decoder.Call.pushed).toFinset.card := by
    rw [hbdata, hdata.length]
    refine hleft.trans ?_
    rw [← List.length_map (f := Prod.fst), ← List.toFinset_card_of_nodup hnodup]
    apply Finset.card_le_card
    intro g hg
    rw [List.mem_toFinset, List.mem_map] at hg
    obtain ⟨fp, hfp, rfl⟩ := hg
    exact List.mem_toFinset.mpr (hall fp hfp)
  rw [← hbdata]
  have henabled : params.withDefaults.enabled = true := hd.enabled
  exact h'.survived hb henabled hbsid.symm hS hmany σ σ' hnow

/-! ### Equal paths -/

variable [Float64 F]

/-- A block of `k` data frames whose parity covers the share of one path: no path carries more
frames of it than there are parity frames. -/
theorem Scheduler.Turn.countP_block_le {w : F} {N : ℕ} {m : ℤ → F} (hm : Float64.Multiples w N m)
    (hN : 2 ≤ N) {s : Scheduler F} {r : ℕ} (h : s.Turn w N m (r % N)) (hkp : k ≤ p * (N - 1))
    (lost : String) : ((s.picks (k + p)).2.countP fun pick => decide (pick = some lost)) ≤ p := by
  refine h.countP_picks_le hm (by omega) ?_ lost
  obtain ⟨n, rfl⟩ : ∃ n, N = n + 1 := ⟨N - 1, by omega⟩
  rw [Nat.add_sub_cancel] at hkp
  rw [Nat.mul_succ]
  omega

theorem Scheduler.turn_zero {w : F} {N : ℕ} {m : ℤ → F} (hm : Float64.Multiples w N m)
    {s : Scheduler F} (hlen : s.paths.length = N)
    (hpaths : ∀ q ∈ s.paths, q.state = .healthy ∧ s.weight q = w ∧ q.rr = Float64.ofInt 0) :
    s.Turn w N m 0 where
  length := hlen
  healthy q hq := (hpaths q hq).1
  weight q hq := (hpaths q hq).2.1
  served q hq := by simp at hq
  waiting q hq := by
    rw [(hpaths q hq).2.2, ← hm.zero]
    rfl

/-- **Equal paths survive the loss of one.**  Take a scheduler with `N` healthy paths of one weight
whose multiples up to `N` are exact, after any number of picks, and a block with at least
`⌈k / (N - 1)⌉` parity frames that is spread over the paths by the next picks.  Whichever path is
lost with all its frames: at least `k` frames are left, and however they arrive, each on its own
path and with ticks before the deadline in between, the pushes and a tick at the deadline yield
all data frames, each once, besides what the tick yields of other blocks. -/
theorem Scheduler.equal_paths_survive {w : F} {N : ℕ} {m : ℤ → F} (hm : Float64.Multiples w N m)
    (hN : 2 ≤ N) {s : Scheduler F} (hlen : s.paths.length = N)
    (hpaths : ∀ q ∈ s.paths, q.state = .healthy ∧ s.weight q = w ∧ q.rr = Float64.ofInt 0)
    (earlier : ℕ) {params : Params F} (henabled : params.enabled = true)
    (hcross : params.crossPath = true) (hk : 1 ≤ k) (hp : ⌈(k : ℚ) / (N - 1 : ℕ)⌉₊ ≤ p)
    (hkp : k + p ≤ 256) (hmds : RS.MDS k p) {e : Encoder F RS} (hcoding : e.params.enabled = true)
    (hshards : e.params.dataShards = k) (hparity : e.rsParity = p) (hdata : DataBlock k sid data)
    {history : List Decoder.Call} (hsame : ∀ c ∈ history, SameK k c) {d : Decoder F C}
    (hd : Run.exec (Decoder.step RS) (some (newDecoder params)) history = some d)
    (hfresh : d.blocks.lookup ⟨sid, "", e.block + 1⟩ = none)
    (hlast : d.lastFlushed.getD ⟨sid, ""⟩ 0 < e.block + 1) (lost : String) :
    let left := survivors lost (spread (s.picks earlier).1 (e.emitBlock data).2)
    k ≤ left.length ∧ ∀ (now₀ : Time) (path₀ : String) (g₀ : Frame) (calls : List Decoder.Call),
      let run := Decoder.Call.push now₀ path₀ g₀ :: calls
      let deadline := now₀ + params.withDefaults.blockTimeout
      (∀ c ∈ run, SurvivorCall left deadline c) →
      (∀ fp ∈ left, fp.1 ∈ run.flatMap Decoder.Call.pushed) →
      ∃ d', Run.exec (Decoder.step RS) (some d) run = some d' ∧
        ∀ (σ σ' : IterOrder BlockKey) (now : Time), deadline ≤ now →
          (Decoder.pushReturns RS (some d) run ++ (d'.tick σ now).2).Perm
            (data.map Frame.plain ++
              (({ d' with blocks := d'.blocks.erase ⟨sid, "", e.block + 1⟩ } :
                Decoder F C).tick σ' now).2) := by
  have hshare : k ≤ p * (N - 1) := by
    have hpos : (0 : ℚ) < (N - 1 : ℕ) := by
      rw [Nat.cast_pos]
      omega
    have hle := (Nat.le_of_ceil_le hp : (k : ℚ) / (N - 1 : ℕ) ≤ p)
    rw [div_le_iff₀ hpos] at hle
    exact_mod_cast hle
  -- where the earlier picks leave the round
  have hstart : s.Turn w N m (0 % N) := by
    rw [Nat.zero_mod]
    exact turn_zero hm hlen hpaths
  obtain ⟨-, -, hturn⟩ := hstart.picks hm earlier (by omega)
  have he : e.Codes k p := ⟨hk, hkp, hmds, hcoding, hshards, hparity⟩
  intro left
  have hleft : left = survivors lost
      ((e.emitBlock data).2.zip ((s.picks earlier).1.picks (k + p)).2) := by
    rw [← length_emitBlock he hdata]
    rfl
  rw [hleft]
  exact survivors_recovered hcross he hdata ⟨henabled, onlyK_of_history hsame hd, hfresh, hlast⟩
    (length_picks _ _) (hturn.countP_block_le hm hN hshare lost)

end

/-! ### Three paths -/

/-- A scheduler with three paths of one capacity. -/
def threePaths (capacity : Binary64) : Scheduler Binary64 :=
  (((Scheduler.new {}).addPath "wan1" capacity).addPath "wan2" capacity).addPath "wan3" capacity

/-- Cross-path blocks of two data frames and one parity frame. -/
def crossParams21 : Params Binary64 :=
  { dataShards := 2, parityShards := 1, blockTimeout := 8 * millisecond, crossPath := true
    crossPathMinParity := 1 }

theorem crossParams21_codec (_ : crossParams21.enabled = true) : (some 2).isSome = true ∧
    some 2 = smallCodes.new crossParams21.withDefaults.dataShards
      crossParams21.withDefaults.parityShards := ⟨rfl, rfl⟩

/-- A fresh encoder for such blocks. -/
def crossEncoder21 : Encoder Binary64 smallCodes :=
  freshEncoder crossParams21 (some 2) crossParams21_codec

/-- The second path is lost, and with it the first data frame. -/
theorem Scheduler.equal_paths_survive_hundred :
    survivors "wan2" (spread ((threePaths (Float64.ofInt 100)).picks 4).1
        (crossEncoder21.emitBlock block21).2) =
      [({ sessionID := 5, seq := 2, blockSeq := 1, payload := [8, 9] }, some "wan3"),
        (parityFrame21, some "wan1")] ∧
    ∃ d', Run.exec (Decoder.step smallCodes) (some (newDecoder crossParams21))
        [.push 0 "wan1" parityFrame21,
          .push 1 "wan3" { sessionID := 5, seq := 2, blockSeq := 1, payload := [8, 9] }] = some d' ∧
      (Decoder.pushReturns smallCodes (some (newDecoder crossParams21))
          [.push 0 "wan1" parityFrame21,
            .push 1 "wan3" { sessionID := 5, seq := 2, blockSeq := 1, payload := [8, 9] }] ++
        (d'.tick .plain (8 * millisecond)).2).Perm (block21.map Frame.plain ++
          (({ d' with blocks := d'.blocks.erase ⟨5, "", 1⟩ } : Decoder Binary64 ℕ).tick .plain
            (8 * millisecond)).2) := by
  have hleft : survivors "wan2" (spread ((threePaths (Float64.ofInt 100)).picks 4).1
        (crossEncoder21.emitBlock block21).2) =
      [({ sessionID := 5, seq := 2, blockSeq := 1, payload := [8, 9] }, some "wan3"),
        (parityFrame21, some "wan1")] := by decide +kernel
  have hm : Float64.Multiples (Float64.ofInt 100 : Binary64) 3 _ :=
    Binary64.multiples (c := 100) (by decide) (by decide) (by decide)
  have hpaths : ∀ q ∈ (threePaths (Float64.ofInt 100)).paths, q.state = .healthy ∧
      (threePaths (Float64.ofInt 100)).weight q = Float64.ofInt 100 ∧ q.rr = Float64.ofInt 0 := by
    decide +kernel
  have hblock : DataBlock 2 5 block21 := ⟨rfl, by decide, by decide, by decide, by decide, by decide⟩
  have hshards : crossEncoder21.params.dataShards = (2 : ℕ) := rfl
  have hparity : crossEncoder21.rsParity = (1 : ℕ) := rfl
  have hshare : ⌈((2 : ℕ) : ℚ) / (3 - 1 : ℕ)⌉₊ ≤ 1 := by norm_num
  have hstart : Run.exec (Decoder.step smallCodes) (some (newDecoder crossParams21)) [] =
      some (newDecoder crossParams21) := rfl
  have hrun := Scheduler.equal_paths_survive hm (by decide) rfl hpaths 4
    (show crossParams21.enabled = true from rfl) rfl (by decide) hshare (by decide) mds_smallCodes
    (show crossEncoder21.params.enabled = true from rfl) hshards hparity hblock
    (fun c hc => absurd hc List.not_mem_nil) hstart rfl (by decide) "wan2"
  dsimp only at hrun
  rw [hleft] at hrun
  obtain ⟨d', hexec, hperm⟩ := hrun.2 0 "wan1" parityFrame21
    [.push 1 "wan3" { sessionID := 5, seq := 2, blockSeq := 1, payload := [8, 9] }]
    (by simp [SurvivorCall]) (by simp [Decoder.Call.pushed])
  exact ⟨hleft, d', hexec, hperm .plain .plain (8 * millisecond) (by decide)⟩

/-- **Paths of weight 0.1 do not**: their sums are rounded.  After two picks the third path is
picked twice, so its loss leaves only the parity frame of a block of two. -/
theorem Scheduler.tenths_lose :
    let tenth : Binary64 := Float64.ofInt 1 / Float64.ofInt 10
    (∀ q ∈ (threePaths tenth).paths, q.state = .healthy ∧ (threePaths tenth).weight q = tenth ∧
        q.rr = Float64.ofInt 0) ∧
      survivors "wan3" (spread ((threePaths tenth).picks 2).1
        (crossEncoder21.emitBlock block21).2) = [(parityFrame21, some "wan1")] ∧
      Run.outputs (Decoder.step smallCodes) (some (newDecoder crossParams21))
        [.push 0 "wan1" parityFrame21, .tick .plain (8 * millisecond)] = [[], []] := by
  decide +kernel

end FlexBraid
