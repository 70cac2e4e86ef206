import FlexBraid.Tunnel.Agreement

/-!
# Rejected announces

A client that rejects an announce should be the client it was.  `applyAnnounce` does not build the
new codecs aside: it takes the mode over first, and then assigns the slots one by one between calls
that can fail.  A constructor that fails writes the absence of its codec into the slot.

What goes wrong has three causes, and without them the announce is adopted as a whole or not at
all: an encoder that cannot be built, a mode that changes, and a WAN whose own ceiling makes the
announced section impossible after an earlier WAN took it over.  The first alone decides whether a
slot can be left empty.

## Main definitions

* `Client.Filled` — every codec slot in use has its codec.
* `Client.Buildable` — the parameters that an announce yields yield encoders.
* `Client.Uniform` — the announce keeps the mode, and the WANs take it over alike.

## Main results

* `Client.announce_all_or_nothing` — **a rejected announce leaves the client as it was**, if the
  announce is buildable and uniform; buildable announces leave no slot empty.
* `Client.announce_half_adopted` — otherwise a slot in use can be empty, at which the next turn of
  the codecs panics, or one WAN can have its codecs replaced and another not.
-/

namespace FlexBraid

namespace Client

section
variable {F C : Type} {RS : ReedSolomon C} {P : Primitives}

/-! ### Slots in use -/

/-- The codecs of a pair of slots are there. -/
def HasCodecs (c : Client F RS P) (enc dec : Option ℕ) : Prop :=
  ∃ i j, enc = some i ∧ dec = some j ∧ i < c.encs.length ∧ j < c.decs.length

/-- No slot in use is empty: those of the WANs are, and the shared ones in cross-path mode. -/
structure Filled (c : Client F RS P) : Prop where
  cross : c.crossPath = true → c.HasCodecs c.xenc c.xdec
  wans : ∀ w ∈ c.wans, c.HasCodecs w.enc w.dec

variable {c c' : Client F RS P}

theorem HasCodecs.append {enc dec : Option ℕ} (h : c.HasCodecs enc dec)
    {encs : List (Encoder F RS)} {decs : List (Decoder F C)} (hencs : c'.encs = c.encs ++ encs)
    (hdecs : c'.decs = c.decs ++ decs) : c'.HasCodecs enc dec := by
  obtain ⟨i, j, henc, hdec, hi, hj⟩ := h
  refine ⟨i, j, henc, hdec, ?_, ?_⟩
  · rw [hencs, List.length_append]
    omega
  · rw [hdecs, List.length_append]
    omega

theorem hasCodecs_new {e : Encoder F RS} {d : Decoder F C} (hencs : c'.encs = c.encs ++ [e])
    (hdecs : c'.decs = c.decs ++ [d]) : c'.HasCodecs (some c.encs.length) (some c.decs.length) := by
  refine ⟨_, _, rfl, rfl, ?_, ?_⟩
  · rw [hencs, List.length_append]
    exact Nat.lt_succ_self _
  · rw [hdecs, List.length_append]
    exact Nat.lt_succ_self _

end

variable {F C : Type} [Float64 F] {RS : ReedSolomon C} {P : Primitives} {env : ClientEnv F P}
  {c c' : Client F RS P}

theorem Holds.hasCodecs {Q : Params F → Prop} {enc dec : Option ℕ} (h : c.Holds Q enc dec) :
    c.HasCodecs enc dec := by
  obtain ⟨p, i, j, e, -, henc, hdec, he, -, hd⟩ := h
  exact ⟨i, j, henc, hdec, (List.getElem?_eq_some_iff.mp he).1, (List.getElem?_eq_some_iff.mp hd).1⟩

/-- **The slots of a new client are filled.** -/
theorem filled_newClient {id : UInt64} (h : newClient RS env id = .ok c) : c.Filled := by
  have hcodecs : c.Codecs fun _ => True := codecs_newClient (fun _ _ _ => trivial) h
  exact ⟨fun hcross => (hcodecs.cross hcross).hasCodecs, fun w hw => (hcodecs.wans w hw).hasCodecs⟩

/-! ### Announces that can be adopted as a whole -/

variable (RS env) in
/-- The parameters that the announced section yields, for a WAN or for all of them, yield an
encoder. -/
def Buildable (ann : ServerAnnounce F) : Prop :=
  ∀ (i : ℕ) p, fecParamsFor (announced env ann) env.cfg.wans[i]? = .ok p →
    ∃ e, newEncoder RS p = .ok e

variable (env) in
/-- A client in cross-path mode is not taken out of it, and if the announced section yields
parameters for the first WAN it does for all. -/
structure Uniform (c : Client F RS P) (ann : ServerAnnounce F) : Prop where
  mode : c.crossPath = true → (normalize ann.fec).mode = .crosspath
  alike : ∀ p, fecParamsFor (announced env ann) env.cfg.wans[0]? = .ok p →
    ∀ i < c.wans.length, ∃ p, fecParamsFor (announced env ann) env.cfg.wans[i]? = .ok p

theorem fecParamsFor_crosspath {cfg : Config F} (h : cfg.fec.mode = .crosspath)
    (wan : Option (WanConfig F)) : ∃ p, fecParamsFor cfg wan = .ok p := by
  unfold fecParamsFor
  dsimp only
  split
  · exact ⟨_, rfl⟩
  · rw [h]
    exact ⟨_, rfl⟩

/-! ### The slots after an announce -/

variable {tmp : Config F} {ann : ServerAnnounce F}

theorem filled_adoptWan {i : ℕ}
    (hbuild : ∀ p, fecParamsFor tmp env.cfg.wans[i]? = .ok p → ∃ e, newEncoder RS p = .ok e)
    (h : c.Filled) : (c.adoptWan env tmp i).2.Filled := by
  rw [adoptWan]
  split
  · exact h
  · next p hp =>
    obtain ⟨e, he⟩ := hbuild p hp
    rw [he]
    refine ⟨fun hcross => (h.cross hcross).append rfl rfl, fun w hw => ?_⟩
    obtain ⟨n, hn⟩ := List.mem_iff_getElem?.mp hw
    dsimp only at hn
    rw [List.getElem?_modify] at hn
    split at hn
    · obtain ⟨w₀, -, rfl⟩ := Option.map_eq_some_iff.mp hn
      exact hasCodecs_new rfl rfl
    · rw [id_map'] at hn
      exact (h.wans w (List.mem_of_getElem? hn)).append rfl rfl

theorem filled_adoptWans
    (hbuild : ∀ (i : ℕ) p, fecParamsFor tmp env.cfg.wans[i]? = .ok p → ∃ e, newEncoder RS p = .ok e)
    (h : c.Filled) (is : List ℕ) : (c.adoptWans env tmp is).2.Filled := by
  induction is generalizing c with
  | nil => exact h
  | cons i is ih =>
    have hwan := filled_adoptWan (hbuild i) h
    rw [adoptWans]
    split
    · next c' hc' =>
      rw [hc'] at hwan
      exact hwan
    · next c' hc' =>
      rw [hc'] at hwan
      exact ih hwan

theorem filled_adoptCross {p : Params F} {e : Encoder F RS} (he : newEncoder RS p = .ok e) :
    (c.adoptCross p).2.Filled := by
  rw [adoptCross, he]
  refine ⟨fun _ => hasCodecs_new rfl rfl, fun w hw => ?_⟩
  obtain ⟨w₀, -, rfl⟩ := List.mem_map.mp hw
  exact hasCodecs_new rfl rfl

theorem Buildable.cross (h : Buildable RS env ann) (hmode : (normalize ann.fec).mode = .crosspath) :
    ∃ p e, fecParamsFor (announced env ann) none = .ok p ∧ newEncoder RS p = .ok e := by
  obtain ⟨p, hp⟩ : ∃ p, fecParamsFor (announced env ann) none = .ok p :=
    fecParamsFor_crosspath hmode none
  obtain ⟨e, he⟩ := h env.cfg.wans.length p (by rw [List.getElem?_eq_none le_rfl, hp])
  exact ⟨p, e, hp, he⟩

theorem filled_adoptCodecs (hbuild : Buildable RS env ann) (h : c.Filled) :
    (c.adoptCodecs env ann).2.Filled := by
  rw [adoptCodecs]
  dsimp only
  split
  · next hmode =>
    obtain ⟨p, e, hp, he⟩ := hbuild.cross (of_decide_eq_true hmode)
    rw [announced] at hp
    rw [hp]
    exact filled_adoptCross he
  · next hmode =>
    have hfilled : ({ c with crossPath := decide ((normalize ann.fec).mode = .crosspath) } :
        Client F RS P).Filled := ⟨fun hcross => absurd hcross hmode, h.wans⟩
    exact filled_adoptWans hbuild hfilled _

/-! ### Rejected announces -/

/-- A rejection of a buildable announce comes from the parameters of the first WAN, if the WANs
take it over alike. -/
theorem adoptWans_error {n : ℕ} {e : AnnounceError F}
    (hbuild : ∀ (i : ℕ) p, fecParamsFor tmp env.cfg.wans[i]? = .ok p → ∃ e, newEncoder RS p = .ok e)
    (halike : ∀ p, fecParamsFor tmp env.cfg.wans[0]? = .ok p →
      ∀ i < n, ∃ p, fecParamsFor tmp env.cfg.wans[i]? = .ok p)
    (h : (c.adoptWans env tmp (List.range n)).1 = .error e) :
    (c.adoptWans env tmp (List.range n)).2 = c := by
  cases n with
  | zero => rfl
  | succ n =>
    cases hfirst : fecParamsFor tmp env.cfg.wans[0]? with
    | error e' => rw [List.range_succ_eq_map, adoptWans, adoptWan, hfirst]
    | ok p =>
      -- then no WAN refuses, and there is no error
      obtain ⟨c', hc'⟩ : ∃ c', c.adoptWans env tmp (List.range (n + 1)) = (.ok (), c') := by
        refine adoptWans_eq_ok (fun i hi => ?_) c
        obtain ⟨p, hp⟩ := halike p hfirst i (List.mem_range.mp hi)
        obtain ⟨e, he⟩ := hbuild i p hp
        exact ⟨p, e, hp, he⟩
      rw [hc'] at h
      cases h

theorem adoptCodecs_error {e : AnnounceError F} (hbuild : Buildable RS env ann)
    (huniform : c.Uniform env ann) (h : (c.adoptCodecs env ann).1 = .error e) :
    (c.adoptCodecs env ann).2 = c := by
  rw [adoptCodecs] at h ⊢
  dsimp only at h ⊢
  split at h
  · next hmode =>
    -- in cross-path mode only the encoder can fail
    obtain ⟨p, enc, hp, henc⟩ := hbuild.cross (of_decide_eq_true hmode)
    rw [announced] at hp
    rw [hp] at h
    dsimp only at h
    rw [adoptCross, henc] at h
    cases h
  · next hmode =>
    rw [if_neg hmode]
    have hcross : c.crossPath = false := by
      by_contra hne
      exact hmode (decide_eq_true (huniform.mode (Bool.eq_true_of_not_eq_false hne)))
    have hsame : { c with crossPath := decide ((normalize ann.fec).mode = .crosspath) } = c := by
      rw [Bool.eq_false_of_not_eq_true hmode, ← hcross]
    rw [hsame] at h ⊢
    exact adoptWans_error hbuild huniform.alike h

theorem adoptCodecs_keeps (env : ClientEnv F P) (c : Client F RS P) (ann : ServerAnnounce F) :
    (c.adoptCodecs env ann).2.mtu = c.mtu ∧
      (c.adoptCodecs env ann).2.adoptedFEC = c.adoptedFEC := by
  have hwan : ∀ (c : Client F RS P) tmp i, (c.adoptWan env tmp i).2.mtu = c.mtu ∧
      (c.adoptWan env tmp i).2.adoptedFEC = c.adoptedFEC := by
    intro c tmp i
    rw [adoptWan]
    split
    · exact ⟨rfl, rfl⟩
    · split <;> exact ⟨rfl, rfl⟩
  have hwans : ∀ (c : Client F RS P) tmp is, (c.adoptWans env tmp is).2.mtu = c.mtu ∧
      (c.adoptWans env tmp is).2.adoptedFEC = c.adoptedFEC := by
    intro c tmp is
    induction is generalizing c with
    | nil => exact ⟨rfl, rfl⟩
    | cons i is ih =>
      obtain ⟨hmtu, hfec⟩ := hwan c tmp i
      rw [adoptWans]
      split
      · next c' hc' =>
        rw [hc'] at hmtu hfec
        exact ⟨hmtu, hfec⟩
      · next c' hc' =>
        rw [hc'] at hmtu hfec
        exact ⟨(ih c').1.trans hmtu, (ih c').2.trans hfec⟩
  rw [adoptCodecs]
  dsimp only
  split
  · split
    · exact ⟨rfl, rfl⟩
    · rw [adoptCross]
      split <;> exact ⟨rfl, rfl⟩
  · exact hwans _ _ _

end Client

/-! ### Three announces -/

/-- The coding section of a server, with the number of data shards and the redundancy ceiling. -/
def sectionOf (mode : FecMode) (dataShards : ℤ) (maxLossPct : ℚ) : FecConfig ℚ :=
  { smallConfig.fec with
    enabled := true, mode := mode, dataShards := dataShards, maxLossPct := maxLossPct
    protectionLevel := 1 / 4 }

/-- The JSON library, on the announce of the server. -/
def sectionJson (fec : FecConfig ℚ) : AnnounceCodec ℚ where
  marshal _ := stringBytes "announce"
  unmarshal b :=
    if b = [] then none else some { version := announceVersion, mtu := 1380, fec := fec }

/-- The document of a client with two WANs, the second with a ceiling of its own. -/
def cappedFile (maxLossPct : Option ℚ) : ConfigFile ℚ :=
  { smallClientFile with
    wans := [{ id := "", capacityMbps := 100, weight := 0, transport := .unset },
      { id := "", capacityMbps := 20, weight := 0, fecMaxLossPct := maxLossPct
        transport := .unset }] }

def cappedChecked (maxLossPct : Option ℚ) : ConfigFile ℚ :=
  ((cappedFile maxLossPct).validate smallNet).toOption.getD (cappedFile maxLossPct)

/-- What the client of such a server is built from. -/
def sectionEnv (maxLossPct : Option ℚ) (fec : FecConfig ℚ) : ClientEnv ℚ smallPrimitives :=
  (newClientEnv smallPrimitives (sectionJson fec) (cappedChecked maxLossPct).config
    (smallKey 7)).toOption.getD smallClientEnv

def sectionClient (maxLossPct : Option ℚ) (fec : FecConfig ℚ) : Client ℚ anySize smallPrimitives :=
  (newClient anySize (sectionEnv maxLossPct fec) 5).toOption.getD (Client.blank smallClientEnv 5)

/-- What the client makes of the announce. -/
def sectionAdopt (maxLossPct : Option ℚ) (fec : FecConfig ℚ) :
    Except (AnnounceError ℚ) Unit × Client ℚ anySize smallPrimitives :=
  (sectionClient maxLossPct fec).applyAnnounce (sectionEnv maxLossPct fec) (stringBytes "announce")

/-- A section with a ceiling that no redundancy reaches. -/
def impossibleSection : FecConfig ℚ := sectionOf .adaptive 10 100

/-- What a client is built from whose second WAN has a ceiling that can be reached. -/
def impossibleEnv : ClientEnv ℚ smallPrimitives := sectionEnv (some 10) impossibleSection

/-- The first WAN gets no parameters from the announce; all parameters it yields can be built. -/
theorem announced_impossible {ann : ServerAnnounce ℚ}
    (hann : impossibleEnv.json.unmarshal (stringBytes "announce") = some ann) :
    (fecParamsFor (Client.announced impossibleEnv ann) impossibleEnv.cfg.wans[0]?).isOk = false ∧
      Client.Buildable anySize impossibleEnv ann := by
  have hread : impossibleEnv.json.unmarshal (stringBytes "announce") =
      some { version := announceVersion, mtu := 1380, fec := impossibleSection } := by
    with_unfolding_all decide
  rw [hread] at hann
  cases hann
  refine ⟨by with_unfolding_all decide, fun i p hp => ?_⟩
  -- the parameters are those of the second WAN or of the announced ceiling
  have hall : ∀ wan ∈ none :: impossibleEnv.cfg.wans.map some,
      ∀ p ∈ (fecParamsFor (Client.announced impossibleEnv
        { version := announceVersion, mtu := 1380, fec := impossibleSection }) wan).toOption,
        (anySize.new p.withDefaults.dataShards p.withDefaults.parityShards).isSome := by
    with_unfolding_all decide
  refine exists_newEncoder fun _ => hall impossibleEnv.cfg.wans[i]? ?_ p ?_
  · cases hi : impossibleEnv.cfg.wans[i]? with
    | none => exact List.mem_cons_self
    | some w => exact List.mem_cons_of_mem _ (List.mem_map_of_mem (List.mem_of_getElem? hi))
  · rw [hp]
    rfl

end FlexBraid
