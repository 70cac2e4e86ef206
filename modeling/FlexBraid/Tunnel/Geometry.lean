import FlexBraid.Tunnel.Announce
import FlexBraid.Tunnel.Server
import FlexBraid.Tunnel.Validate

/-!
# The codecs of a configuration

The codecs of a client are built from parameters that its configuration yields, and after an
announce from those that the announced section yields.  In cross-path mode the WANs share one
pair of codecs.

## Main definitions

* `Client.Codecs` — the codecs in the slots were built from parameters with a property.

## Main results

* `Client.codecs_newClient` — the codecs of a new client.
* `Client.codecs_applyAnnounce` — the codecs after an announce.
* `blockTimeout_fecParamsFor` — the timeout is the configured one in every mode.
-/

namespace FlexBraid

variable {F C : Type} [Float64 F] {RS : ReedSolomon C} {P : Primitives}

/-! ### Parameters -/

/-- The field and the path have room for blocks with so many parity frames. -/
structure Config.Fits (cfg : Config F) (parity : ℤ) : Prop where
  field : cfg.fec.shards + parity ≤ 256
  path : cfg.mtu ≤ pathMTU - (headerSize + tagSize + parityHeaderSize cfg.fec.shards.toNat : ℤ)

/-- How the parameters of a path follow from the configuration, mode by mode. -/
inductive Params.Derived (cfg : Config F) (wan : Option (WanConfig F)) : Params F → Prop
  | off (hoff : cfg.fec.enabled = false ∨ cfg.fec.mode = .off) :
      Derived cfg wan { dataShards := 0, parityShards := 0
                        blockTimeout := cfg.fec.blockTimeoutMS * millisecond }
  | cross {n : ℤ} (hon : cfg.fec.enabled = true) (hmode : cfg.fec.mode = .crosspath)
      (hn : n = atLeastOne
        (Float64.ceil (Float64.ofInt cfg.fec.shards * cfg.fec.protectionLevel))) :
      Derived cfg wan { dataShards := cfg.fec.shards, parityShards := n
                        blockTimeout := cfg.fec.blockTimeoutMS * millisecond
                        crossPath := true, crossPathMinParity := n }
  | fixed {n : ℤ} (hon : cfg.fec.enabled = true) (hmode : cfg.fec.mode = .fixed)
      (hn : n = atLeastOne (Float64.ceil
        (Float64.ofInt cfg.fec.shards * cfg.fec.fixedOverheadPct / Float64.ofInt 100)))
      (hfits : cfg.Fits n) :
      Derived cfg wan { dataShards := cfg.fec.shards, parityShards := n
                        blockTimeout := cfg.fec.blockTimeoutMS * millisecond }
  | adaptive {n : ℤ} {hold : Duration} (hon : cfg.fec.enabled = true)
      (hmode : cfg.fec.mode = .adaptive)
      (hlo : Float64.le (cfg.fec.ceiling wan) (Float64.ofInt 0) = false)
      (hhi : Float64.le (Float64.ofInt 1) (cfg.fec.ceiling wan) = false)
      (hn : n = atLeastOne (Float64.ceil (Float64.ofInt cfg.fec.shards * cfg.fec.ceiling wan /
        (Float64.ofInt 1 - cfg.fec.ceiling wan))))
      (hfits : cfg.Fits n) :
      Derived cfg wan { dataShards := cfg.fec.shards, parityShards := n
                        blockTimeout := cfg.fec.blockTimeoutMS * millisecond
                        adaptive := some
                          { onLossPct := cfg.fec.adaptMinLossPct
                            offLossPct := cfg.fec.adaptResumePct
                            hold := hold
                            maxLossPct := cfg.fec.maxLossPct
                            safety := Float64.ofInt 13 / Float64.ofInt 10 } }

variable {p : Params F} {cfg : Config F} {wan : Option (WanConfig F)}

omit [Float64 F] in
theorem boundedParams_eq_ok {mtu k parity : ℤ} {timeout : Duration}
    {adaptive : Option (AdaptiveParams F)}
    (h : boundedParams mtu k parity timeout adaptive = .ok p) : k + atLeastOne parity ≤ 256 ∧
      mtu ≤ pathMTU - (headerSize + tagSize + parityHeaderSize k.toNat : ℤ) ∧
      p = { dataShards := k, parityShards := atLeastOne parity, blockTimeout := timeout
            adaptive := adaptive } := by
  unfold boundedParams at h
  dsimp only at h
  split_ifs at h with hfield hpath
  cases h
  exact ⟨not_lt.mp hfield, not_lt.mp hpath, rfl⟩

/-- **What the parameters of a path are.** -/
theorem derived_fecParamsFor (h : fecParamsFor cfg wan = .ok p) : p.Derived cfg wan := by
  unfold fecParamsFor at h
  dsimp only at h
  split at h
  · next hoff =>
    cases h
    refine .off ?_
    simpa using hoff
  · next hon =>
    have hon : cfg.fec.enabled = true := by
      simp only [Bool.or_eq_true, Bool.not_eq_true', decide_eq_true_eq, not_or] at hon
      simpa using hon.1
    split at h
    · next hmode =>
      cases h
      exact .cross hon hmode rfl
    · next hmode =>
      obtain ⟨hfield, hpath, rfl⟩ := boundedParams_eq_ok h
      exact .fixed hon hmode rfl ⟨hfield, hpath⟩
    · next hmode =>
      split at h
      · cases h
      · next hrange =>
        simp only [Bool.or_eq_true, not_or, Bool.not_eq_true] at hrange
        obtain ⟨hfield, hpath, rfl⟩ := boundedParams_eq_ok h
        exact .adaptive hon hmode hrange.1 hrange.2 rfl ⟨hfield, hpath⟩
    · cases h

theorem blockTimeout_fecParamsFor (h : fecParamsFor cfg wan = .ok p) :
    p.blockTimeout = cfg.fec.blockTimeoutMS * millisecond := by
  cases derived_fecParamsFor h <;> rfl

/-- What coding adds to the longest payload: header, tag and the sub-header of a parity frame. -/
def FecConfig.headroom (f : FecConfig F) : ℤ :=
  headerSize + tagSize + parityHeaderSize f.dataShards.toNat

/-- What the parameters of a path are for the coding section `f` and the MTU, coding enabled.
In cross-path mode neither the size of the blocks nor the MTU is checked. -/
structure Params.Of (f : FecConfig F) (mtu : ℤ) (p : Params F) : Prop where
  dataShards : p.dataShards = f.dataShards
  parity_pos : 0 < p.parityShards
  timeout : p.blockTimeout = f.blockTimeoutMS * millisecond
  crossPath : p.crossPath = decide (f.mode = .crosspath)
  cross : f.mode = .crosspath →
    p.parityShards = atLeastOne (Float64.ceil (Float64.ofInt f.dataShards * f.protectionLevel)) ∧
      p.crossPathMinParity = p.parityShards
  checked : f.mode ≠ .crosspath →
    f.dataShards + p.parityShards ≤ 256 ∧ mtu ≤ pathMTU - f.headroom

theorem atLeastOne_pos (n : ℤ) : 0 < atLeastOne n := by
  unfold atLeastOne
  split <;> omega

omit [Float64 F] in
theorem FecConfig.shards_eq {f : FecConfig F} (h : 0 < f.dataShards) : f.shards = f.dataShards :=
  if_pos h

/-- **The parameters of an accepted section**, coding enabled. -/
theorem params_fecParamsFor (h : fecParamsFor cfg wan = .ok p) (henabled : cfg.fec.enabled = true)
    (hvalid : cfg.fec.Valid) : p.Of cfg.fec cfg.mtu := by
  have hshards : cfg.fec.shards = cfg.fec.dataShards :=
    FecConfig.shards_eq (by linarith [hvalid.shards.1])
  -- the modes that check the size of the blocks and the MTU
  have hchecked : ∀ {n : ℤ}, cfg.Fits n →
      cfg.fec.dataShards + n ≤ 256 ∧ cfg.mtu ≤ pathMTU - cfg.fec.headroom := by
    intro n hfits
    rw [← hshards, FecConfig.headroom, ← hshards]
    exact ⟨hfits.field, hfits.path⟩
  cases derived_fecParamsFor h with
  | off hoff =>
    have hcodes := hvalid.codes
    rcases hoff with hoff | hoff
    · rw [henabled] at hoff
      cases hoff
    · rw [hoff] at hcodes
      cases hcodes
  | cross _ hmode hn =>
    subst hn
    exact ⟨hshards, atLeastOne_pos _, rfl, (decide_eq_true hmode).symm,
      fun _ => ⟨by rw [hshards], rfl⟩, fun hne => absurd hmode hne⟩
  | fixed _ hmode hn hfits =>
    have hne : cfg.fec.mode ≠ .crosspath := by rw [hmode]; decide
    exact ⟨hshards, by rw [hn]; exact atLeastOne_pos _, rfl, (decide_eq_false hne).symm,
      fun hcross => absurd hcross hne, fun _ => hchecked hfits⟩
  | adaptive _ hmode _ _ hn hfits =>
    have hne : cfg.fec.mode ≠ .crosspath := by rw [hmode]; decide
    exact ⟨hshards, by rw [hn]; exact atLeastOne_pos _, rfl, (decide_eq_false hne).symm,
      fun hcross => absurd hcross hne, fun _ => hchecked hfits⟩

theorem fecParamsFor_disabled (h : cfg.fec.enabled = false) (wan : Option (WanConfig F)) :
    fecParamsFor cfg wan = .ok { dataShards := 0, parityShards := 0
                                 blockTimeout := cfg.fec.blockTimeoutMS * millisecond } := by
  unfold fecParamsFor
  dsimp only
  rw [h]
  rfl

theorem fecParamsFor_congr {cfg' : Config F} {wan' : Option (WanConfig F)}
    (hfec : cfg'.fec = cfg.fec) (hmtu : cfg'.mtu = cfg.mtu)
    (hwan : wan'.bind WanConfig.fecMaxLossPct = wan.bind WanConfig.fecMaxLossPct) :
    fecParamsFor cfg' wan' = fecParamsFor cfg wan := by
  unfold fecParamsFor FecConfig.ceiling
  rw [hfec, hmtu, hwan]

theorem params_newEncoder {e : Encoder F RS} (h : newEncoder RS p = .ok e) :
    e.params = p.withDefaults := by
  unfold newEncoder at h
  dsimp only at h
  split at h
  · split at h
    · cases h
    · cases h
      rfl
  · cases h
    rfl

theorem exists_newEncoder
    (h : p.enabled = true → (RS.new p.withDefaults.dataShards p.withDefaults.parityShards).isSome) :
    ∃ e, newEncoder RS p = .ok e := by
  unfold newEncoder
  dsimp only
  split
  · next henabled =>
    split
    · next hnone =>
      have hsome := h henabled
      rw [hnone] at hsome
      cases hsome
    · exact ⟨_, rfl⟩
  · exact ⟨_, rfl⟩

theorem newServerEnv_eq_ok {json : AnnounceCodec F} {env : ServerEnv F P}
    (h : newServerEnv P json cfg = .ok env) :
    fecParamsFor cfg none = .ok env.fecParams ∧ env.cfg = cfg ∧
      env.ann = json.marshal { version := announceVersion, mtu := cfg.mtu, fec := cfg.fec } ∧
      env.psk = stringBytes cfg.crypto.key ∧
      ∃ key, deriveKey P env.psk = .ok key ∧ newAEAD P key cfg.crypto.cipher = .ok env.baseAEAD := by
  unfold newServerEnv at h
  dsimp only at h
  split at h
  · cases h
  · next key hkey =>
    split at h
    · cases h
    · next haead =>
      split at h
      · cases h
      · next p hp =>
        cases h
        exact ⟨hp, rfl, rfl, rfl, key, hkey, haead⟩

omit [Float64 F] in
theorem newClientEnv_eq_ok {json : AnnounceCodec F} {priv : PrivateKey} {env : ClientEnv F P}
    (h : newClientEnv P json cfg priv = .ok env) :
    env.cfg = cfg ∧ env.json = json ∧ env.psk = stringBytes cfg.crypto.key ∧
      ∃ key, deriveKey P env.psk = .ok key ∧ newAEAD P key cfg.crypto.cipher = .ok env.baseAEAD := by
  unfold newClientEnv at h
  dsimp only at h
  split_ifs at h
  split at h
  · cases h
  · next key hkey =>
    split at h
    · cases h
    · next haead =>
      cases h
      exact ⟨rfl, rfl, rfl, key, hkey, haead⟩

/-! ### The codecs in the slots -/

namespace Client

/-- The codecs in a pair of slots are unused ones, built from the same parameters with the
property `Q`. -/
def Holds (Q : Params F → Prop) (c : Client F RS P) (enc dec : Option ℕ) : Prop :=
  ∃ p i j e, Q p ∧ enc = some i ∧ dec = some j ∧ c.encs[i]? = some e ∧ newEncoder RS p = .ok e ∧
    c.decs[j]? = some (newDecoder p)

/-- The codecs in all slots that are used. -/
structure Codecs (Q : Params F → Prop) (c : Client F RS P) : Prop where
  cross : c.crossPath = true → c.Holds Q c.xenc c.xdec
  wans : ∀ w ∈ c.wans, c.Holds Q w.enc w.dec

variable {Q : Params F → Prop} {c c' : Client F RS P}

theorem Holds.append {enc dec : Option ℕ} (h : c.Holds Q enc dec) {encs : List (Encoder F RS)}
    {decs : List (Decoder F C)} (hencs : c'.encs = c.encs ++ encs)
    (hdecs : c'.decs = c.decs ++ decs) : c'.Holds Q enc dec := by
  obtain ⟨p, i, j, e, hp, hi, hj, he, hnew, hd⟩ := h
  refine ⟨p, i, j, e, hp, hi, hj, ?_, hnew, ?_⟩
  · rw [hencs]
    exact List.getElem?_append_left (List.getElem?_eq_some_iff.mp he).1 ▸ he
  · rw [hdecs]
    exact List.getElem?_append_left (List.getElem?_eq_some_iff.mp hd).1 ▸ hd

theorem holds_new {p : Params F} {e : Encoder F RS} (hp : Q p) (hnew : newEncoder RS p = .ok e)
    (hencs : c'.encs = c.encs ++ [e]) (hdecs : c'.decs = c.decs ++ [newDecoder p]) :
    c'.Holds Q (some c.encs.length) (some c.decs.length) := by
  refine ⟨p, _, _, e, hp, rfl, rfl, ?_, hnew, ?_⟩
  · rw [hencs, List.getElem?_concat_length]
  · rw [hdecs, List.getElem?_concat_length]

/-! ### New clients -/

variable {env : ClientEnv F P}

theorem codecs_setUpCross (hQ : ∀ wan p, fecParamsFor env.cfg wan = .ok p → Q p)
    (hcross : c.crossPath = false) (hwans : c.wans = []) (hset : setUpCross env c = .ok c') :
    c'.Codecs Q := by
  cases setUp hset with
  | perWan =>
    refine ⟨fun h => ?_, fun w hw => ?_⟩
    · rw [hcross] at h
      cases h
    · rw [hwans] at hw
      cases hw
  | cross p e _ hp hnew =>
    refine ⟨fun _ => holds_new (hQ _ p hp) hnew rfl rfl, fun w hw => ?_⟩
    change w ∈ c.wans at hw
    rw [hwans] at hw
    cases hw

theorem codecs_addWan (hQ : ∀ wan p, fecParamsFor env.cfg wan = .ok p → Q p) (h : c.Codecs Q)
    {wcfg : WanConfig F} (hadd : addWan env c wcfg = .ok c') : c'.Codecs Q := by
  cases added hadd with
  | cross p hcross =>
    refine ⟨h.cross, fun w hw => ?_⟩
    rcases List.mem_append.mp hw with hw | hw
    · exact h.wans w hw
    · rw [List.mem_singleton.mp hw]
      exact h.cross hcross
  | perWan p e _ hp hnew =>
    refine ⟨fun hcross => (h.cross hcross).append rfl rfl, fun w hw => ?_⟩
    rcases List.mem_append.mp hw with hw | hw
    · exact (h.wans w hw).append rfl rfl
    · rw [List.mem_singleton.mp hw]
      exact holds_new (hQ _ p hp) hnew rfl rfl

/-- **The codecs of a new client** are built from the parameters of its configuration. -/
theorem codecs_newClient (hQ : ∀ wan p, fecParamsFor env.cfg wan = .ok p → Q p) {id : UInt64}
    (h : newClient RS env id = .ok c) : c.Codecs Q := by
  obtain ⟨c₁, hset, hwans⟩ := Except.bind_eq_ok h
  have h₁ : c₁.Codecs Q := codecs_setUpCross hQ rfl rfl hset
  exact Except.foldlM_induct (I := Codecs Q) (fun _ _ _ h hadd => codecs_addWan hQ h hadd) h₁ hwans

/-! ### After an announce -/

variable {tmp : Config F}

/-- Adopting the parameters for one WAN leaves its slots with their codecs, and those of the
other WANs as they were. -/
theorem holds_adoptWan (hQ : ∀ (i : ℕ) p, fecParamsFor tmp env.cfg.wans[i]? = .ok p → Q p) {i : ℕ}
    (h : c.adoptWan env tmp i = (.ok (), c')) {n : ℕ} {w : WanLink F} (hw : c'.wans[n]? = some w)
    (hold : n ≠ i → ∀ w, c.wans[n]? = some w → c.Holds Q w.enc w.dec) : c'.Holds Q w.enc w.dec := by
  rw [adoptWan] at h
  split at h
  · cases h
  · next p hp =>
    split at h
    · cases h
    · next e hnew =>
      cases h
      dsimp only at hw
      rw [List.getElem?_modify] at hw
      split at hw
      · obtain ⟨w₀, -, rfl⟩ := Option.map_eq_some_iff.mp hw
        exact holds_new (hQ _ p hp) hnew rfl rfl
      · next hne =>
        rw [id_map'] at hw
        exact (hold (fun h => hne h.symm) w hw).append rfl rfl

theorem holds_adoptWans (hQ : ∀ (i : ℕ) p, fecParamsFor tmp env.cfg.wans[i]? = .ok p → Q p)
    {is : List ℕ} (h : c.adoptWans env tmp is = (.ok (), c')) {n : ℕ} {w : WanLink F}
    (hw : c'.wans[n]? = some w) (hold : n ∉ is → ∀ w, c.wans[n]? = some w → c.Holds Q w.enc w.dec) :
    c'.Holds Q w.enc w.dec := by
  induction is generalizing c with
  | nil =>
    cases h
    exact hold List.not_mem_nil w hw
  | cons i is ih =>
    rw [adoptWans] at h
    split at h
    · cases h
    · next c₁ h₁ =>
      refine ih h fun hn w₁ hw₁ => holds_adoptWan hQ h₁ hw₁ fun hne => hold ?_
      exact fun hmem => (List.mem_cons.mp hmem).elim hne hn

theorem crossPath_adoptWans {is : List ℕ} {r : Except (AnnounceError F) Unit}
    (h : c.adoptWans env tmp is = (r, c')) : c'.crossPath = c.crossPath := by
  have hwan : ∀ (c : Client F RS P) (i : ℕ),
      (c.adoptWan env tmp i).2.crossPath = c.crossPath := by
    intro c i
    rw [adoptWan]
    split
    · rfl
    · split <;> rfl
  induction is generalizing c with
  | nil =>
    cases h
    rfl
  | cons i is ih =>
    have h₁ := hwan c i
    rw [adoptWans] at h
    split at h
    · next e c₁ hc₁ =>
      cases h
      rw [hc₁] at h₁
      exact h₁
    · next c₁ hc₁ =>
      rw [hc₁] at h₁
      exact (ih h).trans h₁

theorem codecs_adoptCross {p : Params F} (hp : Q p) (h : c.adoptCross p = (.ok (), c')) :
    c'.Codecs Q := by
  rw [adoptCross] at h
  split at h
  · cases h
  · next e hnew =>
    cases h
    refine ⟨fun _ => holds_new hp hnew rfl rfl, fun w hw => ?_⟩
    obtain ⟨w₀, -, rfl⟩ := List.mem_map.mp hw
    exact holds_new hp hnew rfl rfl

/-- The configuration that an announce is checked with. -/
def announced (env : ClientEnv F P) (ann : ServerAnnounce F) : Config F :=
  { env.cfg with fec := normalize ann.fec, mtu := ann.mtu }

theorem codecs_adoptCodecs {ann : ServerAnnounce F}
    (hQ : ∀ (i : ℕ) p, fecParamsFor (announced env ann) env.cfg.wans[i]? = .ok p → Q p)
    (h : c.adoptCodecs env ann = (.ok (), c')) :
    c'.Codecs Q ∧ c'.crossPath = decide ((normalize ann.fec).mode = .crosspath) := by
  rw [adoptCodecs] at h
  dsimp only at h
  split at h
  · next hcross =>
    split at h
    · cases h
    · next p hp =>
      have hnone : env.cfg.wans[env.cfg.wans.length]? = none := List.getElem?_eq_none le_rfl
      refine ⟨codecs_adoptCross (hQ env.cfg.wans.length p (by rw [hnone]; exact hp)) h, ?_⟩
      rw [adoptCross] at h
      split at h
      · cases h
      · cases h
        rfl
  · next hcross =>
    have hsame := crossPath_adoptWans h
    refine ⟨⟨fun hc => ?_, fun w hw => ?_⟩, hsame⟩
    · rw [hsame] at hc
      exact absurd hc hcross
    · obtain ⟨n, hn⟩ := List.mem_iff_getElem?.mp hw
      refine holds_adoptWans hQ h hn fun hnot w₀ hw₀ => absurd (List.mem_range.mpr ?_) hnot
      exact (List.getElem?_eq_some_iff.mp hw₀).1

/-- **The codecs after an announce** are built from the parameters of the announced section, and
the mode and the MTU are the announced ones. -/
theorem codecs_applyAnnounce {data : Bytes} {ann : ServerAnnounce F}
    (hdata : env.json.unmarshal data = some ann)
    (hQ : ∀ (i : ℕ) p, fecParamsFor (announced env ann) env.cfg.wans[i]? = .ok p → Q p)
    (h : c.applyAnnounce env data = (.ok (), c')) :
    c'.Codecs Q ∧ c'.crossPath = decide ((normalize ann.fec).mode = .crosspath) ∧
      c'.mtu = ann.mtu := by
  rw [applyAnnounce] at h
  split at h
  · cases h
  · rw [hdata] at h
    dsimp only at h
    split at h
    · cases h
    · split at h
      · cases h
      · next c₁ h₁ =>
        cases h
        obtain ⟨hcodecs, hcross⟩ := codecs_adoptCodecs hQ h₁
        exact ⟨⟨fun hc => hcodecs.cross hc, hcodecs.wans⟩, hcross, rfl⟩

end Client

end FlexBraid
