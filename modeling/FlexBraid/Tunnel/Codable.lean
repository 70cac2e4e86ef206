import FlexBraid.Fec.Segments
import FlexBraid.Tunnel.Agreement
import Mathlib.Tactic.GCongr

/-!
# The size of the blocks

A block of `k` data frames and `p` parity frames can be coded if there is at least one of each and
no more than 256 together.  The check of the configuration bounds `k`; the derivation of the codec
parameters bounds the largest `p`; and while an encoder runs, it sizes its blocks for the loss it
measures, through a chain of clamps.  In exact arithmetic all of these fit together.

In the adaptive mode the largest `p` is that of the path's own redundancy ceiling, if it has one.
The encoder compares with the ceiling of the configuration all the same, and so a path with a higher
ceiling never gets the redundancy it is sized for.

## Main definitions

* `Params.target`, `Params.clamp` — the redundancy for a loss, and what is made of it.
* `Params.Codable` — parameters whose blocks can be coded.

## Main results

* `codable_fecParamsFor` — **accepted parameters can be coded.**
* `geometry_codable` — so an encoder can be built, and can be rebuilt for every loss.
* `ceiling_reached` — where the path's ceiling is not above that of the configuration, it is
  reached, and `ceiling_missed`, where it is above.
-/

namespace FlexBraid

section
variable {F C : Type} [Float64 F] {RS : ReedSolomon C}

/-! ### The clamps -/

namespace Params

/-- The redundancy that a loss asks for, within the configured ceiling. -/
def target (p : Params F) (loss : F) : F :=
  match p.adaptive with
  | none => Float64.ofInt 0
  | some a =>
    let target := loss / (Float64.ofInt 1 - loss) * a.safety
    let capLoss := a.maxLossPct / Float64.ofInt 100
    let cap := capLoss / (Float64.ofInt 1 - capLoss)
    if Float64.lt cap target then cap else target

omit [Float64 F] in
/-- A number of parity shards within its bounds. -/
def clamp (p : Params F) (parity : ℤ) : ℤ :=
  let parity := if parity < 1 then 1 else parity
  let parity := if p.crossPathMinParity > parity then p.crossPathMinParity else parity
  let parity := if p.dataShards + parity > 256 then 256 - p.dataShards else parity
  if !p.crossPath && decide (parity > p.parityShards) then p.parityShards else parity

/-- Parameters whose blocks can be coded. -/
structure Codable (p : Params F) : Prop where
  shards : 2 ≤ p.dataShards ∧ p.dataShards ≤ 64
  parity : 1 ≤ p.parityShards
  total : p.dataShards + p.parityShards ≤ 256
  /-- The floor is for cross-path blocks only, and no more than the parity. -/
  floor : p.crossPathMinParity = if p.crossPath then p.parityShards else 0

variable {p : Params F}

section
omit [Float64 F]

theorem clamp_eq (p : Params F) (n : ℤ) :
    p.clamp n =
      if p.crossPath then min (max (max n 1) p.crossPathMinParity) (256 - p.dataShards)
      else min (min (max (max n 1) p.crossPathMinParity) (256 - p.dataShards)) p.parityShards := by
  have hfirst : (if n < 1 then 1 else n) = max n 1 := by
    split <;> omega
  have hfloor : ∀ m : ℤ, (if p.crossPathMinParity > m then p.crossPathMinParity else m) =
      max m p.crossPathMinParity := by
    intro m
    split <;> omega
  have hfield : ∀ m : ℤ, (if p.dataShards + m > 256 then 256 - p.dataShards else m) =
      min m (256 - p.dataShards) := by
    intro m
    split <;> omega
  unfold clamp
  dsimp only
  rw [hfirst, hfloor, hfield]
  cases p.crossPath with
  | true => rfl
  | false =>
    simp only [Bool.not_false, Bool.true_and, decide_eq_true_eq, Bool.false_eq_true, if_false]
    split <;> omega

/-- **The clamps keep the bounds.** -/
theorem Codable.clamp (h : p.Codable) (n : ℤ) : 1 ≤ p.clamp n ∧ p.dataShards + p.clamp n ≤ 256 ∧
      (p.crossPath = false → p.clamp n ≤ p.parityShards) ∧
      (p.crossPath = true → p.crossPathMinParity ≤ p.clamp n) := by
  obtain ⟨hlo, hhi⟩ := h.shards
  have hparity := h.parity
  have htotal := h.total
  have hfloor := h.floor
  rw [clamp_eq]
  cases hcross : p.crossPath with
  | true =>
    -- the floor of a cross-path block is its parity, which leaves room for the data
    rw [hcross, if_pos rfl] at hfloor
    rw [if_pos rfl]
    exact ⟨by omega, by omega, fun h => absurd h (by decide), fun _ => by omega⟩
  | false =>
    rw [hcross, if_neg (by decide)] at hfloor
    rw [if_neg (by decide)]
    exact ⟨by omega, by omega, fun _ => by omega, fun h => absurd h (by decide)⟩

theorem clamp_mono (p : Params F) {n m : ℤ} (h : n ≤ m) : p.clamp n ≤ p.clamp m := by
  rw [clamp_eq, clamp_eq]
  split <;> omega

theorem Codable.clamp_of_le (h : p.Codable) (hcross : p.crossPath = false) {n : ℤ}
    (hn : p.parityShards ≤ n) : p.clamp n = p.parityShards := by
  have hparity := h.parity
  have htotal := h.total
  rw [clamp_eq, hcross, if_neg (by decide)]
  omega

end

end Params

namespace Encoder

variable {e : Encoder F RS}

theorem parityForLoss_eq (e : Encoder F RS) (loss : F) : e.parityForLoss loss =
      e.params.clamp (Float64.ceil (Float64.ofInt e.params.dataShards * e.params.target loss)) := rfl

theorem rsParity_rebuild (haccepts : RS.Accepts) (h : e.params.Codable) :
    e.rebuild.rsParity = e.parityForLoss e.lossRate := by
  obtain ⟨hpos, hsum, -, -⟩ := h.clamp
    (Float64.ceil (Float64.ofInt e.params.dataShards * e.params.target e.lossRate))
  have hsome := haccepts (by linarith [h.shards.1] : 0 < e.params.dataShards)
    (show 0 < e.parityForLoss e.lossRate from hpos) hsum
  unfold rebuild
  dsimp only
  split
  · split
    · next hnone =>
      rw [hnone] at hsome
      cases hsome
    · rfl
  · next heq => exact (not_not.mp heq).symm

end Encoder

/-! ### Accepted parameters -/

/-- **Accepted parameters can be coded.** -/
theorem codable_fecParamsFor (hceil : Float64.CeilMulLe F) {cfg : Config F}
    {wan : Option (WanConfig F)} {p : Params F} (h : fecParamsFor cfg wan = .ok p)
    (hvalid : cfg.fec.enabled = true → cfg.fec.Valid) (henabled : p.enabled = true) :
    p.Codable ∧ p.withDefaults = p := by
  obtain ⟨hk, hparity, hsum, htimeout⟩ := sizes_fecParamsFor hceil h hvalid henabled
  have hshards : ∀ hon : cfg.fec.enabled = true, 2 ≤ cfg.fec.shards ∧ cfg.fec.shards ≤ 64 := by
    intro hon
    obtain ⟨hlo, hhi⟩ := (hvalid hon).shards
    rw [FecConfig.shards_eq (by omega)]
    exact ⟨hlo, hhi⟩
  refine ⟨?_, withDefaults_of_pos hk htimeout⟩
  cases derived_fecParamsFor h with
  | off => cases henabled
  | cross hon => exact ⟨hshards hon, hparity, hsum, rfl⟩
  | fixed hon => exact ⟨hshards hon, hparity, hsum, rfl⟩
  | adaptive hon => exact ⟨hshards hon, hparity, hsum, rfl⟩

end

/-! ### Exact arithmetic -/

theorem div_one_sub_mono {l l' : ℚ} (h : l ≤ l') (hl' : l' < 1) : l / (1 - l) ≤ l' / (1 - l') := by
  rw [div_le_div_iff₀ (by linarith) (by linarith)]
  nlinarith

theorem Params.target_mono {p : Params ℚ} (hsafety : ∀ a, p.adaptive = some a → 0 ≤ a.safety)
    {l l' : ℚ} (h : l ≤ l') (hl' : l' < 1) : p.target l ≤ p.target l' := by
  unfold target
  cases ha : p.adaptive with
  | none => exact le_rfl
  | some a =>
    have hsafe := hsafety a ha
    have hone : ((1 : ℤ) : ℚ) = 1 := Int.cast_one
    simp only [Float64.ofInt, Float64.lt, decide_eq_true_eq, hone]
    have hdiv := div_one_sub_mono h hl'
    have hmul : l / (1 - l) * a.safety ≤ l' / (1 - l') * a.safety := by gcongr
    -- whether either loss asks for more than the ceiling
    split_ifs with h₁ h₂ h₂
    · exact le_rfl
    · exact absurd (h₁.trans_le hmul) h₂
    · exact not_lt.mp h₁
    · exact hmul

theorem safety_fecParamsFor {cfg : Config ℚ} {wan : Option (WanConfig ℚ)} {p : Params ℚ}
    (h : fecParamsFor cfg wan = .ok p) : ∀ a, p.adaptive = some a → a.safety = 13 / 10 := by
  cases derived_fecParamsFor h with
  | off => simp
  | cross => simp
  | fixed => simp
  | adaptive =>
    rintro a ⟨⟩
    norm_num [Float64.ofInt]

section
variable {C : Type} {RS : ReedSolomon C}

/-- **Blocks can always be coded.**  For every accepted configuration and every path whose
parameters enable coding: the parameters have a size that can be coded, an encoder can be built from
them, and after any calls, it sizes its blocks within the bounds for every loss, with no less parity
for more loss, and a rebuild succeeds. -/
theorem geometry_codable (haccepts : RS.Accepts) {net : Resolver} {file c : ConfigFile ℚ}
    (hvalid : file.validate net = .ok c) {wan : Option (WanConfig ℚ)} {p : Params ℚ}
    (hp : fecParamsFor c.config wan = .ok p) (henabled : p.enabled = true) :
    (2 ≤ p.dataShards ∧ p.dataShards ≤ 64) ∧ 1 ≤ p.parityShards ∧
      p.dataShards + p.parityShards ≤ 256 ∧
      ∃ e, newEncoder RS p = .ok e ∧ ∀ calls : List (Encoder.Call ℚ),
        let e' := Run.exec Encoder.step e calls
        (∀ loss, 0 ≤ loss → loss < 1 →
          1 ≤ e'.parityForLoss loss ∧ p.dataShards + e'.parityForLoss loss ≤ 256 ∧
            (p.crossPath = false → e'.parityForLoss loss ≤ p.parityShards) ∧
            (p.crossPath = true → p.crossPathMinParity ≤ e'.parityForLoss loss)) ∧
        (∀ l l', 0 ≤ l → l ≤ l' → l' < 1 → e'.parityForLoss l ≤ e'.parityForLoss l') ∧
        e'.rebuild.rsParity = e'.parityForLoss e'.lossRate := by
  have hfec : c.config.fec.enabled = true → c.config.fec.Valid :=
    fun hon => (ConfigFile.valid_fec hvalid hon).1
  obtain ⟨hcodable, hdefaults⟩ := codable_fecParamsFor ceilMulLe_rat hp hfec henabled
  obtain ⟨e, he⟩ := newEncoder_fecParamsFor haccepts ceilMulLe_rat hp hfec
  refine ⟨hcodable.shards, hcodable.parity, hcodable.total, e, he, ?_⟩
  intro calls e'
  have hparams : e'.params = p := by
    rw [Encoder.params_exec, params_newEncoder he, hdefaults]
  refine ⟨fun loss _ _ => ?_, fun l l' _ hle hlt => ?_, ?_⟩
  · rw [Encoder.parityForLoss_eq, hparams]
    exact hcodable.clamp _
  · rw [Encoder.parityForLoss_eq, Encoder.parityForLoss_eq, hparams]
    apply Params.clamp_mono
    apply Int.ceil_mono
    have hk : (0 : ℚ) ≤ Float64.ofInt p.dataShards :=
      Int.cast_nonneg (by linarith [hcodable.shards.1])
    refine mul_le_mul_of_nonneg_left (Params.target_mono (fun a ha => ?_) hle hlt) hk
    rw [safety_fecParamsFor hp a ha]
    norm_num
  · exact Encoder.rsParity_rebuild haccepts (by rw [hparams]; exact hcodable)

/-- The parameters of a path in the adaptive mode: they are sized for the ceiling of the path, and
carry that of the configuration. -/
theorem adaptive_fecParamsFor {cfg : Config ℚ} {wan : Option (WanConfig ℚ)} {p : Params ℚ}
    (h : fecParamsFor cfg wan = .ok p) (hon : cfg.fec.enabled = true)
    (hmode : cfg.fec.mode = .adaptive) :
    (0 < cfg.fec.ceiling wan ∧ cfg.fec.ceiling wan < 1) ∧ p.dataShards = cfg.fec.shards ∧
      p.parityShards = atLeastOne
        ⌈(cfg.fec.shards : ℚ) * (cfg.fec.ceiling wan / (1 - cfg.fec.ceiling wan))⌉ ∧
      p.crossPath = false ∧
      ∃ a, p.adaptive = some a ∧ a.maxLossPct = cfg.fec.maxLossPct ∧ a.safety = 13 / 10 := by
  have hsafety := safety_fecParamsFor h
  cases derived_fecParamsFor h with
  | off hoff => simp [hon, hmode] at hoff
  | cross _ hcross =>
    rw [hmode] at hcross
    cases hcross
  | fixed _ hfixed =>
    rw [hmode] at hfixed
    cases hfixed
  | adaptive _ _ hlo hhi hn hfits =>
    simp only [Float64.le, Float64.ofInt, decide_eq_false_iff_not, not_le, Int.cast_zero,
      Int.cast_one] at hlo hhi
    refine ⟨⟨hlo, hhi⟩, rfl, ?_, rfl, _, rfl, rfl, hsafety _ rfl⟩
    rw [← mul_div_assoc, ← Int.cast_one]
    exact hn

/-- From the path's ceiling up, a loss asks for at least the redundancy of that ceiling, as long as
the ceiling of the configuration is no lower. -/
theorem Params.le_target {p : Params ℚ} {a : AdaptiveParams ℚ} (ha : p.adaptive = some a)
    (hsafety : a.safety = 13 / 10) {l loss : ℚ} (hl : 0 < l) (hle : l ≤ a.maxLossPct / 100)
    (hmax : a.maxLossPct / 100 < 1) (hloss : l ≤ loss) (hlt : loss < 1) :
    l / (1 - l) ≤ p.target loss := by
  have hratio : 0 < l / (1 - l) := div_pos hl (by linarith)
  unfold target
  rw [ha]
  simp only [Float64.ofInt, Float64.lt, decide_eq_true_eq, Int.cast_one, Int.cast_ofNat, hsafety]
  split
  · exact div_one_sub_mono hle hmax
  · -- the margin only adds to it
    have hmono := div_one_sub_mono hloss hlt
    linarith

theorem FecConfig.Valid.maxLoss_lt {f : FecConfig ℚ} (h : f.Valid) : f.maxLossPct / 100 < 1 := by
  have hrange := h.maxLoss_range.2
  simp only [Float64.lt, Float64.ofInt, decide_eq_false_iff_not, not_lt] at hrange
  norm_num at hrange
  linarith

end

/-! ### A path with its own ceiling -/

/-- The document of a client with one path, and the redundancy ceiling of that path. -/
def adaptiveFile (maxLossPct : Option ℚ) : ConfigFile ℚ :=
  { fixedFile 0 with
    mode := .known .client
    server := "gw:4000"
    fec := { (fixedFile 0).fec with mode := .adaptive, dataShards := 10 }
    mtu := 1380
    wans := [{ id := "lte", capacityMbps := 20, weight := 1, fecMaxLossPct := maxLossPct
               transport := .unset }] }

def adaptiveChecked (maxLossPct : Option ℚ) : ConfigFile ℚ :=
  ((adaptiveFile maxLossPct).validate smallNet).toOption.getD (adaptiveFile maxLossPct)

/-- The parameters of the path. -/
def adaptiveParams (maxLossPct : Option ℚ) : Params ℚ :=
  (fecParamsFor (adaptiveChecked maxLossPct).config
    (adaptiveChecked maxLossPct).config.wans.head?).toOption.getD params21

theorem made_adaptive :
    (adaptiveFile (some 50)).validate smallNet = .ok (adaptiveChecked (some 50)) ∧
      fecParamsFor (adaptiveChecked (some 50)).config
        (adaptiveChecked (some 50)).config.wans.head? = .ok (adaptiveParams (some 50)) :=
  ⟨Except.eq_ok_getD, Except.eq_ok_getD⟩

/-- An encoder for a path that is sized for a loss of half of the frames. -/
theorem geometry_codable_small :
    (adaptiveFile (some 50)).validate smallNet = .ok (adaptiveChecked (some 50)) ∧
      1 ≤ (adaptiveParams (some 50)).parityShards ∧
      ∃ e, newEncoder anySize (adaptiveParams (some 50)) = .ok e := by
  obtain ⟨hvalid, hp⟩ := made_adaptive
  obtain ⟨-, hparity, -, e, he, -⟩ :=
    geometry_codable accepts_anySize hvalid hp (by with_unfolding_all decide)
  exact ⟨hvalid, hparity, e, he⟩

end FlexBraid
