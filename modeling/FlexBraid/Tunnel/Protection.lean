import FlexBraid.Fec.Segments
import FlexBraid.Tunnel.CrossPath
import FlexBraid.Tunnel.Geometry

/-!
# The protection level and two uplinks

In cross-path mode the number of parity frames follows from the protection level alone: level 1.0
gives at least as many parity frames as data frames.  With two uplinks that is enough to lose one
of them when each carries half of a block, which is so when both have the same effective
capacity.  The spread follows the capacities, and the parity does not: an uplink with nine times
the capacity of the other carries the first five frames in a row.

## Main definitions

* `Encoder.Floored` — an encoder with at least as many parity as data frames.

## Main results

* `level_one_survives` — **level 1.0 survives the loss of one of two equal uplinks**.
* `level_one_loses` — uplinks of 90 and 10 Mbps do not.
-/

namespace FlexBraid

variable {F C : Type} [Float64 F] {RS : ReedSolomon C} {P : Primitives}

/-! ### The floor of the parity -/

namespace Encoder

/-- An encoder for cross-path blocks of `k` data frames, with a floor of at least `k` parity
frames. -/
structure Floored (k : ℕ) (e : Encoder F RS) : Prop where
  enabled : e.params.enabled = true
  shards : e.params.dataShards = k
  cross : e.params.crossPath = true
  small : k ≤ 64
  floor : k ≤ e.params.crossPathMinParity
  parity : k ≤ e.rsParity
  total : k + e.rsParity ≤ 256

variable {k : ℕ} {e e' : Encoder F RS}

omit [Float64 F] in
theorem Floored.of_eq (h : e.Floored k) (hparams : e'.params = e.params)
    (hparity : e'.rsParity = e.rsParity) : e'.Floored k := by
  obtain ⟨henabled, hshards, hcross, hsmall, hfloor, hlo, hhi⟩ := h
  rw [← hparams] at henabled hshards hcross hfloor
  rw [← hparity] at hlo hhi
  exact ⟨henabled, hshards, hcross, hsmall, hfloor, hlo, hhi⟩

theorem Floored.parityForLoss (h : e.Floored k) (loss : F) :
    k ≤ e.parityForLoss loss ∧ k + e.parityForLoss loss ≤ 256 := by
  have hsmall := h.small
  have hfloor := h.floor
  unfold Encoder.parityForLoss
  dsimp only
  rw [h.cross, h.shards]
  simp only [Bool.not_true, Bool.false_and, Bool.false_eq_true, if_false]
  generalize (if Float64.ceil (_ : F) < 1 then (1 : ℤ) else Float64.ceil (_ : F)) = parity
  split_ifs <;> omega

theorem Floored.rebuild (h : e.Floored k) : e.rebuild.Floored k := by
  obtain ⟨hlo, hhi⟩ := h.parityForLoss e.lossRate
  unfold Encoder.rebuild
  dsimp only
  split
  · split
    · exact h
    · exact ⟨h.enabled, h.shards, h.cross, h.small, h.floor, hlo, hhi⟩
  · exact h

theorem Floored.refresh (h : e.Floored k) (now : Time) :
    (e.refresh now).Floored k ∧ (e.refresh now).codingOn = true := by
  have hrefresh : e.refresh now = ({ e with codingOn := true } : Encoder F RS).rebuild := by
    unfold Encoder.refresh
    rw [h.cross]
  have hon : ({ e with codingOn := true } : Encoder F RS).Floored k := h.of_eq rfl rfl
  rw [hrefresh]
  refine ⟨hon.rebuild, ?_⟩
  unfold Encoder.rebuild
  dsimp only
  split
  · split <;> rfl
  · rfl

/-- **A push that completes a block** emits it with the parity of the moment. -/
theorem Floored.push_full (h : e.Floored k) (now start : Time) (f : Frame)
    (hfull : e.pending.length + 1 = k) : ∃ e₁ : Encoder F RS, e₁.Floored k ∧ e₁.block = e.block ∧
      e.push now start f = e₁.emitBlock (e.pending ++ [f]) := by
  obtain ⟨hfloored, hon⟩ := h.refresh now
  obtain ⟨-, hpending, hcoded, -⟩ := e.refresh_eq now
  refine ⟨(e.refresh now).startBlock start, hfloored.of_eq rfl rfl, ?_, ?_⟩
  · change (e.refresh now).block = e.block
    rw [(e.refresh now).block_eq, e.block_eq, hcoded]
  · have hlen : ¬ (((e.refresh now).pending ++ [f]).length : ℤ) <
        ((e.refresh now).startBlock start).params.dataShards := by
      change ¬ _ < (e.refresh now).params.dataShards
      rw [hfloored.shards, hpending, List.length_append, List.length_singleton, hfull]
      exact lt_irrefl _
    unfold Encoder.push
    rw [dif_neg (by rw [h.enabled]; decide)]
    dsimp only
    rw [hon, if_neg (by decide), dif_neg hlen, hpending]

omit [Float64 F] in
theorem Floored.emitBlock (h : e.Floored k) (data : List Frame) : (e.emitBlock data).1.Floored k := by
  unfold Encoder.emitBlock
  dsimp only
  split <;> exact h.of_eq rfl rfl

/-- One call keeps the floor. -/
theorem Floored.step (h : e.Floored k) (call : Call F) : (e.step call).1.Floored k := by
  cases call with
  | push now start f =>
    obtain ⟨hfloored, hon⟩ := h.refresh now
    change (e.push now start f).1.Floored k
    unfold Encoder.push
    rw [dif_neg (by rw [h.enabled]; decide)]
    dsimp only
    rw [hon, if_neg (by decide)]
    have hstart : ((e.refresh now).startBlock start).Floored k := hfloored.of_eq rfl rfl
    split
    · exact hstart.of_eq rfl rfl
    · exact hstart.emitBlock _
  | tick now =>
    obtain ⟨hfloored, hon⟩ := h.refresh now
    change (e.tick now).1.Floored k
    unfold Encoder.tick
    rw [if_neg (by rw [h.enabled]; decide)]
    dsimp only
    rw [hon, if_neg (by decide)]
    split_ifs
    · exact hfloored
    · exact hfloored
    · exact hfloored.of_eq rfl rfl
  | setLossRate now rate =>
    change (e.setLossRate now rate).Floored k
    unfold Encoder.setLossRate
    refine (Floored.refresh ?_ now).1
    exact h.of_eq rfl rfl

/-- **The parity never falls below the floor.** -/
theorem floored_exec (h : e.Floored k) (calls : List (Call F)) :
    (Run.exec Encoder.step e calls).Floored k :=
  Run.exec_induct' (fun _ call h => h.step call) calls h

end Encoder

/-! ### The client of a checked document -/

theorem nodup_validateWans {i : ℕ} {seen : List String} {ws ws' : List (WanFile F)}
    (h : validateWans i seen ws = .ok ws') :
    (ws'.map fun w => w.id).Nodup ∧ ∀ w ∈ ws', w.id ∉ seen := by
  induction ws generalizing i seen ws' with
  | nil =>
    cases h
    exact ⟨List.nodup_nil, fun w hw => by cases hw⟩
  | cons w ws ih =>
    rw [validateWans] at h
    obtain ⟨hseen, h⟩ := refuse_bind_eq_ok h
    obtain ⟨transport, -, h⟩ := Except.bind_eq_ok h
    obtain ⟨-, h⟩ := refuse_bind_eq_ok h
    obtain ⟨rest, hrest, h⟩ := Except.bind_eq_ok h
    cases h
    obtain ⟨hnodup, hfresh⟩ := ih hrest
    rw [decide_eq_false_iff_not] at hseen
    constructor
    · rw [List.map_cons, List.nodup_cons]
      refine ⟨fun hmem => ?_, hnodup⟩
      obtain ⟨w', hw', heq⟩ := List.mem_map.mp hmem
      exact hfresh w' hw' (heq ▸ List.mem_cons_self)
    · intro w' hw'
      rcases List.mem_cons.mp hw' with rfl | hw'
      · exact hseen
      · exact fun h0 => hfresh w' hw' (List.mem_cons_of_mem _ h0)

theorem nodup_wans {net : Resolver} {file file' : ConfigFile F}
    (h : file.validate net = .ok file') : (file'.config.wans.map WanConfig.id).Nodup := by
  change ((file'.wans.map WanFile.toWanConfig).map WanConfig.id).Nodup
  rw [List.map_map]
  exact (nodup_validateWans (ConfigFile.checked h).wans).1

variable {cfg : Config F}

theorem fecParamsFor_of_not_adaptive (h : ¬(cfg.fec.enabled = true ∧ cfg.fec.mode = .adaptive))
    (wan wan' : Option (WanConfig F)) : fecParamsFor cfg wan = fecParamsFor cfg wan' := by
  unfold fecParamsFor
  dsimp only
  split
  · rfl
  · next hon =>
    have henabled : cfg.fec.enabled = true := by
      by_contra hoff
      exact hon (by simp [hoff])
    cases hmode : cfg.fec.mode with
    | adaptive => exact absurd ⟨henabled, hmode⟩ h
    | fixed | off | crosspath | other => rfl

theorem fecParamsFor_cross (hmode : cfg.fec.mode = .crosspath) (wan wan' : Option (WanConfig F)) :
    fecParamsFor cfg wan = fecParamsFor cfg wan' := by
  refine fecParamsFor_of_not_adaptive (fun h => ?_) wan wan'
  rw [hmode] at h
  cases h.2

namespace Client

variable {env : ClientEnv F P} {c c' : Client F RS P}

theorem setUpCross_eq_ok (hmode : env.cfg.fec.mode = .crosspath) (h : c.setUpCross env = .ok c') :
    ∃ p enc, fecParamsFor env.cfg none = .ok p ∧ newEncoder RS p = .ok enc ∧ c'.sched = c.sched ∧
      c'.encs = c.encs ++ [enc] ∧ c'.xenc = some c.encs.length ∧ c'.crossPath = true := by
  cases setUp h with
  | perWan hother => exact absurd hmode hother
  | cross p enc _ hp henc =>
    rw [fecParamsFor_cross hmode _ none] at hp
    exact ⟨p, enc, hp, henc, rfl, rfl, rfl, rfl⟩

theorem addWan_eq_ok (hmode : env.cfg.fec.mode = .crosspath) (hcross : c.crossPath = true)
    {wan : WanConfig F} (h : c.addWan env wan = .ok c') {p : Params F}
    (hp : fecParamsFor env.cfg none = .ok p) :
    c'.sched = c.sched.addPath wan.id (effectiveCapacity wan p env.cfg.scheduler.balanceBy) ∧
      c'.encs = c.encs ∧ c'.xenc = c.xenc ∧ c'.crossPath = true := by
  cases added h with
  | cross p' _ hp' =>
    rw [fecParamsFor_cross hmode _ none, hp] at hp'
    cases hp'
    exact ⟨rfl, rfl, rfl, hcross⟩
  | perWan _ _ hno => exact absurd hcross hno

end Client

/-- A path as it is registered. -/
def freshPath (id : String) (capacity : F) : SchedPath F :=
  { id := id, capacity := capacity, loss := Float64.ofInt 0, rr := Float64.ofInt 0 }

theorem paths_addPath (s : Scheduler F) {id : String} (hid : id ∉ s.ids) (capacity : F) :
    (s.addPath id capacity).paths = s.paths ++ [freshPath id capacity] ∧
      (s.addPath id capacity).opts = s.opts := by
  have hid' : id ∉ s.paths.map SchedPath.id := hid
  unfold Scheduler.addPath
  rw [dif_neg hid']
  exact ⟨rfl, rfl⟩

/-- **A new client with two uplinks** in cross-path mode. -/
theorem sched_newClient {env : ClientEnv F P} (hmode : env.cfg.fec.mode = .crosspath)
    {w₁ w₂ : WanConfig F} (hwans : env.cfg.wans = [w₁, w₂]) (hne : w₁.id ≠ w₂.id) {id : UInt64}
    {c : Client F RS P} (h : newClient RS env id = .ok c) :
    ∃ p enc, fecParamsFor env.cfg none = .ok p ∧ newEncoder RS p = .ok enc ∧ c.encs = [enc] ∧
      c.xenc = some 0 ∧ c.sched.opts.balanceBy = env.cfg.scheduler.balanceBy ∧ c.sched.paths =
        [freshPath w₁.id (effectiveCapacity w₁ p env.cfg.scheduler.balanceBy),
          freshPath w₂.id (effectiveCapacity w₂ p env.cfg.scheduler.balanceBy)] := by
  unfold newClient at h
  obtain ⟨c₀, hc₀, h⟩ := Except.bind_eq_ok h
  rw [hwans, List.foldlM_cons] at h
  obtain ⟨c₁, hc₁, h⟩ := Except.bind_eq_ok h
  rw [List.foldlM_cons] at h
  obtain ⟨c₂, hc₂, h⟩ := Except.bind_eq_ok h
  cases h
  obtain ⟨p, enc, hp, henc, hsched₀, hencs₀, hxenc₀, hcross₀⟩ := Client.setUpCross_eq_ok hmode hc₀
  obtain ⟨hsched₁, hencs₁, hxenc₁, hcross₁⟩ := Client.addWan_eq_ok hmode hcross₀ hc₁ hp
  obtain ⟨hsched₂, hencs₂, hxenc₂, -⟩ := Client.addWan_eq_ok hmode hcross₁ hc₂ hp
  have hnil : c₀.sched.paths = [] := by
    rw [hsched₀]
    rfl
  have hnone : w₁.id ∉ c₀.sched.ids := by
    rw [Scheduler.ids, hnil]
    exact List.not_mem_nil
  obtain ⟨hpaths₁, hopts₁⟩ := paths_addPath c₀.sched hnone
    (effectiveCapacity w₁ p env.cfg.scheduler.balanceBy)
  rw [← hsched₁] at hpaths₁ hopts₁
  rw [hnil, List.nil_append] at hpaths₁
  have hfresh : w₂.id ∉ c₁.sched.ids := by
    rw [Scheduler.ids, hpaths₁]
    simpa [freshPath] using hne.symm
  obtain ⟨hpaths₂, hopts₂⟩ := paths_addPath c₁.sched hfresh
    (effectiveCapacity w₂ p env.cfg.scheduler.balanceBy)
  rw [← hsched₂] at hpaths₂ hopts₂
  refine ⟨p, enc, hp, henc, ?_, ?_, ?_, ?_⟩
  · rw [hencs₂, hencs₁, hencs₀]
    rfl
  · rw [hxenc₂, hxenc₁, hxenc₀]
    rfl
  · rw [hopts₂, hopts₁, hsched₀]
    rfl
  · rw [hpaths₂, hpaths₁]
    rfl

/-! ### Level 1.0 -/

theorem rsParity_newEncoder {p : Params F} {e : Encoder F RS} (h : newEncoder RS p = .ok e) :
    e.rsParity = p.withDefaults.parityShards := by
  unfold newEncoder at h
  dsimp only at h
  split at h
  · split at h
    · cases h
    · cases h
      rfl
  · cases h
    rfl

omit [Float64 F] in
theorem rsParity_emitBlock (e : Encoder F RS) (data : List Frame) :
    (e.emitBlock data).1.rsParity = e.rsParity := by
  unfold Encoder.emitBlock
  dsimp only
  split <;> rfl

theorem floored_newEncoder (hone : Float64.CeilMulOne F) (henabled : cfg.fec.enabled = true)
    (hvalid : cfg.fec.Valid) (hmode : cfg.fec.mode = .crosspath)
    (hlevel : cfg.fec.protectionLevel = Float64.ofInt 1) {p : Params F}
    (hp : fecParamsFor cfg none = .ok p) {e : Encoder F RS} (he : newEncoder RS p = .ok e) {k : ℕ}
    (hk : cfg.fec.dataShards = k) : e.Floored k := by
  obtain ⟨hlo, hhi⟩ := hvalid.shards
  have hof := params_fecParamsFor hp henabled hvalid
  obtain ⟨hparity, hmin⟩ := hof.cross hmode
  have hcount : p.parityShards = k := by
    rw [hparity, hlevel, hone _ (by omega) (by omega), atLeastOne, if_neg (by omega), hk]
  have hparams := params_newEncoder he
  have hrs := rsParity_newEncoder he
  have hshards : p.withDefaults.dataShards = k := by
    have hpos : ¬ p.dataShards ≤ 0 := by
      rw [hof.dataShards]
      omega
    change positiveOr p.dataShards _ = _
    rw [positiveOr, if_neg hpos, hof.dataShards, hk]
  have hparity' : p.withDefaults.parityShards = k := hcount
  refine ⟨?_, ?_, ?_, by omega, ?_, ?_, ?_⟩
  · rw [hparams, Params.withDefaults_enabled, Params.enabled, hcount, decide_eq_true_eq]
    omega
  · rw [hparams, hshards]
  · rw [hparams, Params.withDefaults_crossPath, hof.crossPath, hmode]
    rfl
  · rw [hparams]
    change (k : ℤ) ≤ p.crossPathMinParity
    rw [hmin, hcount]
  · rw [hrs, hparity']
  · rw [hrs, hparity']
    omega

open CodedBlock in
/-- **Level 1.0 survives the loss of one of two equal uplinks.**  Take a checked document with
cross-path coding at protection level 1.0, balancing by capacity, and two uplinks of one effective
capacity whose double is exact; a client of it, and its encoder after any calls; a push that
completes a block, and the scheduler after any number of picks with both uplinks healthy.
Whichever uplink is lost with all frames of the block on it: at least `k` frames are left, and
however they arrive the decoder yields all data frames, each once. -/
theorem level_one_survives (hone : Float64.CeilMulOne F) {net : Resolver}
    {file file' : ConfigFile F} (hvalid : file.validate net = .ok file')
    (henabled : file'.fec.enabled = true) (hmode : file'.fec.mode = .crosspath)
    (hlevel : file'.fec.protectionLevel = Float64.ofInt 1)
    (hbalance : file'.config.scheduler.balanceBy = .capacity) (hwans : file'.config.wans.length = 2)
    {p : Params F} (hp : fecParamsFor file'.config none = .ok p) {cap : F}
    (hcap : ∀ wan ∈ file'.config.wans, effectiveCapacity wan p .capacity = cap)
    (hpos : Float64.le cap (Float64.ofInt 0) = false) {m : ℤ → F} (hm : Float64.Multiples cap 2 m)
    {json : AnnounceCodec F} {priv : PrivateKey} {env : ClientEnv F P}
    (henv : newClientEnv P json file'.config priv = .ok env) {id : UInt64} {c : Client F RS P}
    (hclient : newClient RS env id = .ok c) {i : ℕ} (hxenc : c.xenc = some i) {e₀ : Encoder F RS}
    (henc : c.encs[i]? = some e₀) {ecalls : List (Encoder.Call F)} {e : Encoder F RS}
    (he : Run.exec Encoder.step e₀ ecalls = e) {k : ℕ} (hk : file'.fec.dataShards = k)
    {now start : Time} {f : Frame} (hfull : e.pending.length + 1 = k) {sid : UInt64}
    (hdata : DataBlock k sid (e.pending ++ [f])) {q : ℕ}
    (hq : (e.push now start f).1.rsParity = q) (hmds : RS.MDS k q) {params : Params F}
    (hcoding : params.enabled = true) (hcross : params.crossPath = true)
    {history : List Decoder.Call} (hsame : ∀ c ∈ history, SameK k c) {d : Decoder F C}
    (hd : Run.exec (Decoder.step RS) (some (newDecoder params)) history = some d)
    (hfresh : d.blocks.lookup ⟨sid, "", e.block + 1⟩ = none)
    (hlast : d.lastFlushed.getD ⟨sid, ""⟩ 0 < e.block + 1) (earlier : ℕ) (lost : String) :
    let left := survivors lost (spread (c.sched.picks earlier).1 (e.push now start f).2)
    k ≤ left.length ∧ ∀ (now₀ : Time) (path₀ : String) (g₀ : Frame) (calls : List Decoder.Call),
      let run := Decoder.Call.push now₀ path₀ g₀ :: calls
      let deadline := now₀ + params.withDefaults.blockTimeout
      (∀ c ∈ run, SurvivorCall left deadline c) →
      (∀ fp ∈ left, fp.1 ∈ run.flatMap Decoder.Call.pushed) →
      ∃ d', Run.exec (Decoder.step RS) (some d) run = some d' ∧
        ∀ (σ σ' : IterOrder BlockKey) (now' : Time), deadline ≤ now' →
          (Decoder.pushReturns RS (some d) run ++ (d'.tick σ now').2).Perm
            ((e.pending ++ [f]).map Frame.plain ++
              (({ d' with blocks := d'.blocks.erase ⟨sid, "", e.block + 1⟩ } :
                Decoder F C).tick σ' now').2) := by
  obtain ⟨hcfg, -⟩ := newClientEnv_eq_ok henv
  obtain ⟨hfec, -⟩ := ConfigFile.valid_fec hvalid henabled
  obtain ⟨w₁, w₂, hpair⟩ := List.length_eq_two.mp hwans
  have hne : w₁.id ≠ w₂.id := by
    have hnodup := nodup_wans hvalid
    rw [hpair] at hnodup
    simpa using hnodup
  rw [← hcfg] at hp hpair hbalance hcap
  have hmode' : env.cfg.fec.mode = .crosspath := by
    rw [hcfg]
    exact hmode
  obtain ⟨p', enc, hp', hnew, hencs, hx, hopts, hpaths⟩ := sched_newClient hmode' hpair hne hclient
  rw [hp] at hp'
  cases hp'
  -- the shared encoder, and its parity
  have hfloor : e.Floored k := by
    rw [hx] at hxenc
    cases hxenc
    rw [hencs] at henc
    cases henc
    rw [← he]
    rw [hcfg] at hp
    exact Encoder.floored_exec
      (floored_newEncoder hone henabled hfec hmode hlevel hp hnew hk) ecalls
  obtain ⟨e₁, hfloor₁, hblock, hpush⟩ := hfloor.push_full now start f hfull
  have hparity : e₁.rsParity = q := by
    rw [← hq, hpush, rsParity_emitBlock]
  have hkq := hfloor₁.parity
  have htotal := hfloor₁.total
  rw [hparity] at hkq htotal
  have hcodes : e₁.Codes k q :=
    ⟨by omega, by exact_mod_cast htotal, hmds, hfloor₁.enabled, hfloor₁.shards, hparity⟩
  -- both uplinks start with nothing and have the same weight
  have hturn : c.sched.Turn cap 2 m (0 % 2) := by
    refine Scheduler.turn_zero hm (by rw [hpaths]; rfl) ?_
    have hweight : ∀ wan ∈ env.cfg.wans, c.sched.weight (freshPath wan.id
        (effectiveCapacity wan p env.cfg.scheduler.balanceBy)) = cap := by
      intro wan hwan
      have hno : ¬ (decide (c.sched.opts.balanceBy = .roundrobin) ||
          Float64.le cap (Float64.ofInt 0)) = true := by
        rw [hopts, hbalance, hpos]
        decide
      rw [hbalance, hcap wan hwan]
      exact if_neg hno
    intro path hpath
    rw [hpaths, List.mem_cons, List.mem_singleton] at hpath
    rcases hpath with rfl | rfl
    · exact ⟨rfl, hweight w₁ (by rw [hpair]; simp), rfl⟩
    · exact ⟨rfl, hweight w₂ (by rw [hpair]; simp), rfl⟩
  obtain ⟨-, -, hturn'⟩ := hturn.picks hm earlier (by decide)
  have hshare : k ≤ q * (2 - 1) := by omega
  intro left
  have hleft : left = survivors lost ((e₁.emitBlock (e.pending ++ [f])).2.zip
      ((c.sched.picks earlier).1.picks (k + q)).2) := by
    rw [← length_emitBlock hcodes hdata, ← hpush]
    rfl
  rw [← hblock] at hfresh hlast ⊢
  rw [hleft]
  exact survivors_recovered hcross hcodes hdata
    ⟨hcoding, onlyK_of_history hsame hd, hfresh, hlast⟩ (length_picks _ _)
    (hturn'.countP_block_le hm (le_refl 2) hshare lost)

/-! ### Two uplinks -/

/-- The document of a client with cross-path coding at level 1.0, blocks of two data frames, and
two uplinks of the given capacities. -/
def twoWansFile (first second : ℤ) : ConfigFile Binary64 where
  mode := .known .client
  listen := "127.0.0.1:51820"
  server := "198.51.100.1:4000"
  wgPeer := ""
  sessionID := ""
  scheduler :=
    { mode := .unset, affinity := .unset, balanceBy := .unset, capacityCapMbps := Float64.ofInt 0 }
  fec :=
    { enabled := true, mode := .crosspath, dataShards := 2, maxLossPct := Float64.ofInt 0
      blockTimeoutMS := 8, fixedOverheadPct := Float64.ofInt 0
      adaptMinLossPct := Float64.ofInt 0, adaptResumePct := Float64.ofInt 0
      adaptHoldSec := Float64.ofInt 0, protectionLevel := Float64.ofInt 1 }
  mtu := 0
  wans :=
    [{ id := "wan1", capacityMbps := first, weight := Float64.ofInt 1, transport := .unset },
      { id := "wan2", capacityMbps := second, weight := Float64.ofInt 1, transport := .unset }]
  delivery := { gapTimeoutMS := 0, maxPending := 0 }
  health :=
    { lossAlphaFast := Float64.ofInt 0, lossAlphaSlow := Float64.ofInt 0
      jitterAlpha := Float64.ofInt 0, degradeSec := Float64.ofInt 0, recoverMin := Float64.ofInt 0
      probeInterval := Float64.ofInt 0, downAfterMisses := 0, downGraceSec := Float64.ofInt 0 }
  crypto := { key := "psk", cipher := "" }
  logLevel := ""
  telemetry := { listen := "", path := "", intervalSec := Float64.ofInt 0 }
  queue := { enabled := none, maxBytes := 0, drop := "", rateLimit := false }
  transport := .unset

def twoWansChecked (first second : ℤ) : ConfigFile Binary64 :=
  ((twoWansFile first second).validate smallNet).toOption.getD (twoWansFile first second)

/-- A JSON library that reads nothing. -/
def silentJson : AnnounceCodec Binary64 where
  marshal _ := []
  unmarshal _ := none

/-- What a client derives from the document. -/
def twoWansEnv (first second : ℤ) : ClientEnv Binary64 smallPrimitives :=
  (newClientEnv smallPrimitives silentJson (twoWansChecked first second).config
      (smallKey 7)).toOption.getD
    { cfg := (twoWansChecked first second).config, psk := [], baseAEAD := smallBaseAEAD
      clientPriv := smallKey 7, json := silentJson }

def twoWansClient (first second : ℤ) : Client Binary64 pairCodes smallPrimitives :=
  (newClient pairCodes (twoWansEnv first second) 5).toOption.getD
    (Client.blank (twoWansEnv first second) 5)

theorem twoWansClient_encs : (twoWansClient 100 100).encs ≠ [] := by
  have hlen : (twoWansClient 100 100).encs.length = 1 := by decide +kernel
  intro hnil
  rw [hnil] at hlen
  cases hlen

/-- The encoder that its uplinks share, once the first frame of a block is pending. -/
def twoWansEncoder : Encoder Binary64 pairCodes :=
  Run.exec Encoder.step ((twoWansClient 100 100).encs.head twoWansClient_encs)
    [.push 0 0 { sessionID := 5, seq := 1, payload := [7] }]

def pairParityFrame : Frame := parityFrame 1 2 2 block21 0 (sum22 [7, 0] [8, 9])

/-- The document of two equal uplinks is accepted, and yields a client. -/
theorem made_twoWans : (twoWansFile 100 100).validate smallNet = .ok (twoWansChecked 100 100) ∧
    newClientEnv smallPrimitives silentJson (twoWansChecked 100 100).config (smallKey 7) =
      .ok (twoWansEnv 100 100) ∧
    newClient pairCodes (twoWansEnv 100 100) 5 = .ok (twoWansClient 100 100) := by
  refine ⟨Except.eq_ok_getD ?_, Except.eq_ok_getD ?_, Except.eq_ok_getD ?_⟩
  all_goals decide +kernel

/-- The first uplink is lost, and with it a data frame and a parity frame. -/
theorem level_one_survives_hundred :
    survivors "wan1" (spread ((twoWansClient 100 100).sched.picks 1).1
        (twoWansEncoder.push 0 0 { sessionID := 5, seq := 2, payload := [8, 9] }).2) =
      [({ sessionID := 5, seq := 1, blockSeq := 1, payload := [7] }, some "wan2"),
        (pairParityFrame, some "wan2")] ∧
    ∃ d', Run.exec (Decoder.step pairCodes) (some (newDecoder crossParams21))
        [.push 0 "wan2" pairParityFrame,
          .push 1 "wan2" { sessionID := 5, seq := 1, blockSeq := 1, payload := [7] }] = some d' ∧
      (Decoder.pushReturns pairCodes (some (newDecoder crossParams21))
          [.push 0 "wan2" pairParityFrame,
            .push 1 "wan2" { sessionID := 5, seq := 1, blockSeq := 1, payload := [7] }] ++
        (d'.tick .plain (8 * millisecond)).2).Perm (block21.map Frame.plain ++
          (({ d' with blocks := d'.blocks.erase ⟨5, "", 1⟩ } : Decoder Binary64 Unit).tick .plain
            (8 * millisecond)).2) := by
  have hleft : survivors "wan1" (spread ((twoWansClient 100 100).sched.picks 1).1
        (twoWansEncoder.push 0 0 { sessionID := 5, seq := 2, payload := [8, 9] }).2) =
      [({ sessionID := 5, seq := 1, blockSeq := 1, payload := [7] }, some "wan2"),
        (pairParityFrame, some "wan2")] := by decide +kernel
  obtain ⟨hvalid, henv, hclient⟩ := made_twoWans
  have hp : fecParamsFor (twoWansChecked 100 100).config none = .ok
      ((fecParamsFor (twoWansChecked 100 100).config none).toOption.getD crossParams21) :=
    Except.eq_ok_getD (by decide +kernel)
  have hcap : ∀ wan ∈ (twoWansChecked 100 100).config.wans, effectiveCapacity wan
      ((fecParamsFor (twoWansChecked 100 100).config none).toOption.getD crossParams21) .capacity =
        Float64.ofInt 100 := by decide +kernel
  have hm : Float64.Multiples (Float64.ofInt 100 : Binary64) 2 _ :=
    Binary64.multiples (c := 100) (by decide) (by decide) (by decide)
  have henc : (twoWansClient 100 100).encs[0]? =
      some ((twoWansClient 100 100).encs.head twoWansClient_encs) := by
    rw [← List.head?_eq_getElem?, List.head?_eq_some_head]
  have hpending : twoWansEncoder.pending ++ [{ sessionID := 5, seq := 2, payload := [8, 9] }] =
      block21 := by decide +kernel
  have hblock : DataBlock 2 5 (twoWansEncoder.pending ++
      [{ sessionID := 5, seq := 2, payload := [8, 9] }]) := by
    rw [hpending]
    exact ⟨rfl, by decide, by decide, by decide, by decide, by decide⟩
  have hnumber : twoWansEncoder.block + 1 = 1 := by decide +kernel
  have hparity : (twoWansEncoder.push 0 0
      { sessionID := 5, seq := 2, payload := [8, 9] }).1.rsParity = (2 : ℕ) := by decide +kernel
  have hstart : Run.exec (Decoder.step pairCodes) (some (newDecoder crossParams21)) [] =
      some (newDecoder crossParams21) := rfl
  have hrun := level_one_survives Binary64.ceilMulOne hvalid (by decide +kernel) (by decide +kernel)
    (by decide +kernel) (by decide +kernel) (by decide +kernel) hp hcap (by decide +kernel) hm henv
    hclient (show (twoWansClient 100 100).xenc = some 0 by decide +kernel) henc
    (rfl : _ = twoWansEncoder) (show (twoWansChecked 100 100).fec.dataShards = (2 : ℕ) by
      decide +kernel)
    (show twoWansEncoder.pending.length + 1 = 2 by decide +kernel) hblock hparity mds_pairCodes
    (show crossParams21.enabled = true from rfl) rfl (fun c hc => absurd hc List.not_mem_nil) hstart
    rfl (by rw [hnumber]; decide) 1 "wan1"
  dsimp only at hrun
  rw [hleft, hpending, hnumber] at hrun
  obtain ⟨d', hexec, hperm⟩ := hrun.2 0 "wan2" pairParityFrame
    [.push 1 "wan2" { sessionID := 5, seq := 1, blockSeq := 1, payload := [7] }]
    (by simp [SurvivorCall]) (by simp [Decoder.Call.pushed])
  exact ⟨hleft, d', hexec, hperm .plain .plain (8 * millisecond) (by decide)⟩

/-- **Uplinks of 90 and 10 Mbps do not survive it**: the first block lies on the first of them. -/
theorem level_one_loses :
    (twoWansFile 90 10).validate smallNet = .ok (twoWansChecked 90 10) ∧
      (twoWansChecked 90 10).fec.protectionLevel = Float64.ofInt 1 ∧
      newClientEnv smallPrimitives silentJson (twoWansChecked 90 10).config (smallKey 7) =
        .ok (twoWansEnv 90 10) ∧
      newClient pairCodes (twoWansEnv 90 10) 5 = .ok (twoWansClient 90 10) ∧
      (let frames := (twoWansClient 90 10).encs.flatMap fun e =>
        (Run.outputs Encoder.step e (block21.map (Encoder.Call.push 0 0))).flatten
      frames.length = 2 + 2 ∧
        survivors "wan1" (spread (twoWansClient 90 10).sched frames) = []) := by
  refine ⟨Except.eq_ok_getD ?_, ?_, Except.eq_ok_getD ?_, Except.eq_ok_getD ?_, ?_⟩
  all_goals decide +kernel

end FlexBraid
