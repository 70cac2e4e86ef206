import FlexBraid.Tunnel.Protection

/-!
# Reloading the configuration of a client

A running client is given a new document on a signal.  Changes of its structure are refused before
anything is done; then the WANs are visited in turn, and last the reorder buffer.  What can change
is the capacity of a path, the tuning of its monitor, and the two settings of the buffer.

The settings are not derived in the way they were when the client was built.  A path is registered
with its effective capacity, which depends on the way of balancing, the coding overhead and the
weight, and reloaded with the capacity of the document.  A monitor without coding starts with the
default threshold, and is reloaded with the noise floor.  Where both ways agree, reloading the same
document changes nothing.

The parameters of a path are derived in the loop that visits the WANs, from the coding section the
client runs with and the ceiling of the new document, which no check has looked at.  An error there
ends the loop, and what was visited before stays changed.

## Main definitions

* `clientReloadable`, `Client.reloadWan`, `Client.reload` — the check and the reload.
* `Client.settings` — the settings a reload can change.
* `Wired` — a WAN with the settings it gets when its client is built.

## Main results

* `Monitor.tuning_reload` — **reloading the options of a monitor changes nothing.**
* `Client.reload_same` — **reloading the same document changes nothing** where capacities are
  declared as they are used and every path is coded; `Client.reload_drifts` — otherwise it does.
* `Client.reload_failed` — **a failed reload changes nothing** where every ceiling of the new
  document can be coded; `Client.reload_halfway` — otherwise it does.
-/

namespace FlexBraid

/-! ### The check -/

/-- Why a reload is refused. -/
inductive ReloadError (F : Type) where
  | structural
  | topology
  | fec (e : FecConfigError F)

/-- What an error says that asks for a restart. -/
def errReloadRequiresRestart : String := "reload: change requires restart"

def ReloadError.text {F : Type} [ToString F] : ReloadError F → String
  | .structural => "structural change: " ++ errReloadRequiresRestart
  | .topology => "wan topology change: " ++ errReloadRequiresRestart
  | .fec e => e.text

/-- Check that a new document differs from the one a client runs with only in what can change. -/
def clientReloadable {F : Type} (st nc : ConfigFile F) : Except (ReloadError F) Unit :=
  if nc.listen ≠ st.listen ∨ nc.server ≠ st.server ∨ nc.wgPeer ≠ st.wgPeer ∨
      nc.sessionID ≠ st.sessionID ∨ nc.mtu ≠ st.mtu ∨ nc.transport ≠ st.transport ∨
      nc.crypto.key ≠ st.crypto.key ∨ nc.crypto.cipher ≠ st.crypto.cipher ∨
      nc.fec.mode ≠ st.fec.mode ∨ nc.scheduler.mode ≠ st.scheduler.mode ∨
      nc.scheduler.affinity ≠ st.scheduler.affinity ∨
      nc.scheduler.balanceBy ≠ st.scheduler.balanceBy ∨ nc.wans.length ≠ st.wans.length then
    .error .structural
  else if (st.wans.zip nc.wans).any fun (a, b) =>
      a.id ≠ b.id || a.transport ≠ b.transport || a.iface ≠ b.iface || a.localIP ≠ b.localIP ||
        a.fib ≠ b.fib then
    .error .topology
  else .ok ()

private theorem eq_of_mem_zip_self {α : Type} {l : List α} {a b : α} (h : (a, b) ∈ l.zip l) :
    a = b := by
  induction l with
  | nil => cases h
  | cons x l ih =>
    rcases List.mem_cons.mp h with h | h
    · cases h
      rfl
    · exact ih h

theorem clientReloadable_self {F : Type} (st : ConfigFile F) : clientReloadable st st = .ok () := by
  unfold clientReloadable
  rw [if_neg (by simp), if_neg]
  intro h
  obtain ⟨⟨a, b⟩, hmem, hne⟩ := List.any_eq_true.mp h
  obtain rfl := eq_of_mem_zip_self hmem
  simp at hne

/-! ### The reload -/

variable {F C : Type} [Float64 F] {RS : ReedSolomon C} {P : Primitives}

namespace Client

/-- Reload the WAN at the place `i`: its capacity first, then its monitor.  The parameters are those
of the coding section the client runs with. -/
def reloadWan (st nc : ConfigFile F) (c : Client F RS P) (i : ℕ) :
    Except (ReloadError F) Unit × Client F RS P :=
  match c.wans[i]?, nc.wans[i]? with
  | some wan, some w =>
    let c := { c with sched := c.sched.addPath wan.cfg.id (Float64.ofInt w.capacityMbps) }
    -- the mode and the shards of the client that runs, the ceiling of the new document
    match fecParamsFor st.config (some w.toWanConfig) with
    -- the capacity is set by now and stays so
    | .error e => (.error (.fec e), c)
    | .ok p =>
      (.ok (),
        { c with
          wans := c.wans.modify i fun wan =>
            { wan with health := wan.health.reload (healthOptions nc.health (monitorMaxLoss p)) } })
  | _, _ => (.ok (), c)

/-- Reload the WANs in turn, up to the first error. -/
def reloadWans (st nc : ConfigFile F) :
    Client F RS P → List ℕ → Except (ReloadError F) Unit × Client F RS P
  | c, [] => (.ok (), c)
  | c, i :: is =>
    match c.reloadWan st nc i with
    | (.error e, c) => (.error e, c)
    | (.ok _, c) => c.reloadWans st nc is

/-- Apply the document `nc` to a client that runs with the document `st`. -/
def reload (st nc : ConfigFile F) (c : Client F RS P) :
    Except (ReloadError F) Unit × Client F RS P :=
  match clientReloadable st nc with
  | .error e => (.error e, c)
  | .ok _ =>
    match c.reloadWans st nc (List.range c.wans.length) with
    | (.error e, c) => (.error e, c)
    | (.ok _, c) =>
      (.ok (),
        { c with
          delivery := c.delivery.reload (nc.delivery.gapTimeoutMS * millisecond)
            nc.delivery.maxPending })

end Client

/-! ### The settings -/

deriving instance DecidableEq for HealthOptions

/-- The settings that a reload can change. -/
structure LiveSettings (F : Type) where
  /-- The capacities of the paths, by their names. -/
  capacities : List (String × F)
  /-- The tuning of the monitors, by the names of the WANs. -/
  monitors : List (String × HealthOptions F)
  gapTimeout : Duration
  maxPending : ℤ
deriving DecidableEq

section
omit [Float64 F]

/-- The thresholds, times and weights of a monitor. -/
def Monitor.tuning (m : Monitor F) : HealthOptions F where
  maxLoss := m.maxLoss
  degradeAfter := m.degradeAft
  recoverAfter := m.recoverAft
  downAfterMisses := m.downAftMiss
  downGrace := m.downGrace
  lossAlphaFast := m.alphaFast
  lossAlphaSlow := m.alphaSlow
  jitterAlpha := m.jitterAlpha

def Scheduler.capacities (s : Scheduler F) : List (String × F) :=
  s.paths.map fun p => (p.id, p.capacity)

/-- The WANs of a client and the tuning of their monitors. -/
def WanLink.monitor (wan : WanLink F) : String × HealthOptions F := (wan.cfg.id, wan.health.tuning)

def Client.settings (c : Client F RS P) : LiveSettings F where
  capacities := c.sched.capacities
  monitors := c.wans.map WanLink.monitor
  gapTimeout := c.delivery.gapTimeout
  maxPending := c.delivery.maxPending

end

theorem fractionOr_fractionOr (x dflt : F) :
    fractionOr x (fractionOr x dflt) = fractionOr x dflt := by
  unfold fractionOr
  split_ifs <;> rfl

theorem positiveOr_positiveOr (x dflt : ℤ) :
    positiveOr x (positiveOr x dflt) = positiveOr x dflt := by
  unfold positiveOr
  split_ifs <;> rfl

/-- **Reloading the options of a monitor changes nothing.**  A setting out of its range is given the
default at first, and then is left as it is. -/
theorem Monitor.tuning_reload {m : Monitor F} {opts : HealthOptions F}
    (h : m.tuning = (newMonitor opts).tuning) (hgrace : 0 ≤ opts.downGrace) :
    (m.reload opts).tuning = m.tuning := by
  simp only [tuning, newMonitor, HealthOptions.mk.injEq] at h
  obtain ⟨hloss, hdegrade, hrecover, hmisses, hdown, hfast, hslow, hjitter⟩ := h
  simp only [tuning, reload, hloss, hdegrade, hrecover, hmisses, hdown, hfast, hslow, hjitter,
    fractionOr_fractionOr, positiveOr_positiveOr, if_neg (not_lt.mpr hgrace)]

theorem Scheduler.capacities_addPath {s : Scheduler F} {id : String} {capacity : F}
    (h : (id, capacity) ∈ s.capacities) : (s.addPath id capacity).capacities = s.capacities := by
  obtain ⟨p, hp, heq⟩ := List.mem_map.mp h
  cases heq
  have hid : p.id ∈ s.paths.map SchedPath.id := List.mem_map_of_mem hp
  unfold addPath
  rw [dif_pos hid]
  simp only [capacities, update, mapPaths, List.map_map]
  refine List.map_congr_left fun q hq => ?_
  dsimp only [Function.comp_apply]
  split
  · next hname =>
    -- the names of the paths are distinct
    rw [List.inj_on_of_nodup_map s.nodup_ids hq hp hname]
  · rfl

theorem Scheduler.capacities_addPath_new {s : Scheduler F} {id : String} (hid : id ∉ s.ids)
    (capacity : F) : (s.addPath id capacity).capacities = s.capacities ++ [(id, capacity)] ∧
      (s.addPath id capacity).ids = s.ids ++ [id] := by
  have hpaths := (paths_addPath s hid capacity).1
  simp [capacities, ids, hpaths, freshPath]

/-! ### The settings of a new client -/

/-- A WAN with the settings it gets when its client is built. -/
def Wired (cfg : Config F) (capacities : List (String × F)) (w : WanConfig F)
    (monitor : String × HealthOptions F) : Prop :=
  ∃ p, fecParamsFor cfg (some w) = .ok p ∧
    monitor =
      (w.id, (newMonitor (healthOptions cfg.health (fecCompensableLoss p))).tuning) ∧
    (w.id, effectiveCapacity w p cfg.scheduler.balanceBy) ∈ capacities

section
variable {env : ClientEnv F P} {c c' : Client F RS P}

theorem Client.settings_addWan {w : WanConfig F} (h : c.addWan env w = .ok c') :
    ∃ p, fecParamsFor env.cfg (some w) = .ok p ∧
      c'.sched = c.sched.addPath w.id (effectiveCapacity w p env.cfg.scheduler.balanceBy) ∧
      c'.wans.map WanLink.monitor = c.wans.map WanLink.monitor ++
        [(w.id, (newMonitor (healthOptions env.cfg.health (fecCompensableLoss p))).tuning)] := by
  cases added h with
  | cross p _ hp | perWan p _ _ hp =>
    exact ⟨p, hp, rfl, by rw [List.map_append]; rfl⟩

/-- The WANs that are set up are wired.  The induction is on those that are left; their names are
new to the scheduler. -/
theorem wired_foldlM {done ws : List (WanConfig F)}
    (hwired : List.Forall₂ (Wired env.cfg c.sched.capacities) done (c.wans.map WanLink.monitor))
    (hids : c.sched.ids = done.map WanConfig.id) (hnodup : ((done ++ ws).map WanConfig.id).Nodup)
    (h : ws.foldlM (Client.addWan env) c = .ok c') :
    List.Forall₂ (Wired env.cfg c'.sched.capacities) (done ++ ws)
      (c'.wans.map WanLink.monitor) := by
  induction ws generalizing c done with
  | nil =>
    cases h
    rwa [List.append_nil]
  | cons w ws ih =>
    rw [List.foldlM_cons] at h
    obtain ⟨c₁, hadd, h⟩ := Except.bind_eq_ok h
    obtain ⟨p, hp, hsched, hmonitors⟩ := Client.settings_addWan hadd
    rw [List.append_cons] at hnodup
    have hfresh : w.id ∉ c.sched.ids := by
      rw [hids]
      rw [List.map_append, List.map_append, List.append_assoc, List.nodup_append] at hnodup
      exact fun hmem => hnodup.2.2 w.id hmem w.id (by simp) rfl
    -- so a path is added at the end, and none that is there changes
    obtain ⟨hcaps, hids₁⟩ := Scheduler.capacities_addPath_new hfresh
      (effectiveCapacity w p env.cfg.scheduler.balanceBy)
    rw [← hsched] at hcaps hids₁
    have hwired₁ : List.Forall₂ (Wired env.cfg c₁.sched.capacities) (done ++ [w])
        (c₁.wans.map WanLink.monitor) := by
      rw [hmonitors, hcaps]
      refine List.rel_append (hwired.imp fun _ _ ⟨p, hp, hmonitor, hmem⟩ =>
        ⟨p, hp, hmonitor, List.mem_append_left _ hmem⟩) ?_
      exact .cons ⟨p, hp, rfl, by simp⟩ .nil
    rw [List.append_cons]
    exact ih hwired₁ (by rw [hids₁, hids]; simp) hnodup h

/-- **The settings of a new client.** -/
theorem wired_newClient (hnodup : (env.cfg.wans.map WanConfig.id).Nodup) {id : UInt64}
    (h : newClient RS env id = .ok c) :
    List.Forall₂ (Wired env.cfg c.settings.capacities) env.cfg.wans c.settings.monitors ∧
      c.settings.gapTimeout =
        positiveOr (env.cfg.delivery.gapTimeoutMS * millisecond) (100 * millisecond) ∧
      c.settings.maxPending = positiveOr env.cfg.delivery.maxPending 4096 := by
  have hdelivery := (Client.initial_newClient h).delivery
  unfold newClient at h
  obtain ⟨c₀, hcross, h⟩ := Except.bind_eq_ok h
  obtain ⟨hsched, hwans⟩ :
      c₀.sched = (Client.blank env id : Client F RS P).sched ∧ c₀.wans = [] := by
    cases Client.setUp hcross with
    | perWan | cross => exact ⟨rfl, rfl⟩
  have hstart : List.Forall₂ (Wired env.cfg c₀.sched.capacities) []
      (c₀.wans.map WanLink.monitor) := by
    rw [hwans]
    exact .nil
  refine ⟨wired_foldlM hstart (by rw [hsched]; rfl) hnodup h, ?_, ?_⟩
  · rw [Client.settings, hdelivery]
    rfl
  · rw [Client.settings, hdelivery]
    rfl

end

/-! ### The same document -/

private theorem map_modify_of_eq {α β : Type} {l : List α} {i : ℕ} {f : α → α} {g : α → β}
    (h : ∀ a, l[i]? = some a → g (f a) = g a) : (l.modify i f).map g = l.map g := by
  refine List.ext_getElem? fun j => ?_
  rw [List.getElem?_map, List.getElem?_map, List.getElem?_modify]
  by_cases hij : i = j
  · subst hij
    cases hget : l[i]? with
    | none => simp
    | some a => simp [h a hget]
  · simp [hij]

/-- A document whose settings are derived alike when a client is built and when it is reloaded. -/
structure ConfigFile.DerivedAlike (st : ConfigFile F) : Prop where
  /-- The effective capacity of every WAN is the declared one. -/
  capacity : ∀ w ∈ st.config.wans, ∀ p, fecParamsFor st.config (some w) = .ok p →
    effectiveCapacity w p st.config.scheduler.balanceBy = Float64.ofInt w.capacityMbps
  /-- Coding repairs some loss on every path. -/
  coded : ∀ w ∈ st.config.wans, ∀ p, fecParamsFor st.config (some w) = .ok p →
    Float64.lt (Float64.ofInt 0) (fecCompensableLoss p) = true
  /-- The grace period is not negative; the check lets through what is not a number. -/
  grace : 0 ≤ Float64.trunc (st.health.downGraceSec * Float64.ofInt second)

namespace Client

/-- Where the settings of the WANs are those of a new client, and both ways to derive them agree,
reloading one WAN changes nothing. -/
theorem settings_reloadWan {st : ConfigFile F} {c : Client F RS P}
    (hwired : List.Forall₂ (Wired st.config c.settings.capacities) st.config.wans
      c.settings.monitors) (hst : st.DerivedAlike) (i : ℕ) :
    (c.reloadWan st st i).1 = .ok () ∧ (c.reloadWan st st i).2.settings = c.settings := by
  unfold reloadWan
  split
  · next wan w hwan hw =>
    have hw' : st.config.wans[i]? = some w.toWanConfig := by
      change (st.wans.map WanFile.toWanConfig)[i]? = _
      rw [List.getElem?_map, hw]
      rfl
    have hmonitor : c.settings.monitors[i]? = some wan.monitor := by
      change (c.wans.map WanLink.monitor)[i]? = _
      rw [List.getElem?_map, hwan]
      rfl
    have hmem := List.mem_of_getElem? hw'
    obtain ⟨p, hp, heq, hpath⟩ : Wired st.config c.settings.capacities w.toWanConfig
        wan.monitor := by
      obtain ⟨hi, hget⟩ := List.getElem?_eq_some_iff.mp hw'
      obtain ⟨hj, hget'⟩ := List.getElem?_eq_some_iff.mp hmonitor
      rw [← hget, ← hget']
      exact (List.forall₂_iff_get.mp hwired).2 i hi hj
    obtain ⟨hid, htuning⟩ := Prod.mk.inj heq
    rw [hst.capacity _ hmem p hp, ← hid] at hpath
    -- a coded path has the threshold that it was built with
    have hmax : monitorMaxLoss p = fecCompensableLoss p := if_pos (hst.coded _ hmem p hp)
    rw [hp]
    dsimp only
    rw [hmax]
    refine ⟨rfl, ?_⟩
    -- neither the monitors nor the paths change
    have hmonitors : (c.wans.modify i fun wan =>
        { wan with
          health := wan.health.reload (healthOptions st.health (fecCompensableLoss p)) }).map
        WanLink.monitor = c.wans.map WanLink.monitor := by
      refine map_modify_of_eq fun a ha => ?_
      obtain rfl : wan = a := Option.some.inj (hwan.symm.trans ha)
      exact Prod.ext rfl (Monitor.tuning_reload htuning hst.grace)
    simp only [settings, LiveSettings.mk.injEq, hmonitors, and_true]
    exact Scheduler.capacities_addPath hpath
  · exact ⟨rfl, rfl⟩

theorem settings_reloadWans {st : ConfigFile F} {c : Client F RS P}
    (hwired : List.Forall₂ (Wired st.config c.settings.capacities) st.config.wans
      c.settings.monitors) (hst : st.DerivedAlike) (is : List ℕ) :
    (c.reloadWans st st is).1 = .ok () ∧ (c.reloadWans st st is).2.settings = c.settings := by
  induction is generalizing c with
  | nil => exact ⟨rfl, rfl⟩
  | cons i is ih =>
    obtain ⟨hok, hsame⟩ := settings_reloadWan hwired hst i
    rw [reloadWans]
    split
    · next e c' heq =>
      rw [heq] at hok
      cases hok
    · next u c' heq =>
      rw [heq] at hsame
      dsimp only at hsame
      -- the settings are the same, so the WANs are still wired for the rest of the loop
      rw [← hsame] at hwired ⊢
      exact ih hwired

theorem reload_positiveOr (x dflt : ℤ) :
    (if x > 0 then x else positiveOr x dflt) = positiveOr x dflt := by
  unfold positiveOr
  split_ifs
  · omega
  · rfl
  · rfl
  · omega

theorem derivedAlike_twoWans : (twoWansChecked 100 100).DerivedAlike where
  capacity := by
    intro w hw p hp
    have h : ∀ w ∈ (twoWansChecked 100 100).config.wans,
        (fecParamsFor (twoWansChecked 100 100).config (some w)).toOption.map (fun p =>
          effectiveCapacity w p (twoWansChecked 100 100).config.scheduler.balanceBy) =
          some (Float64.ofInt w.capacityMbps) := by decide +kernel
    have hw' := h w hw
    rw [hp] at hw'
    exact Option.some.inj hw'
  coded := by
    intro w hw p hp
    have h : ∀ w ∈ (twoWansChecked 100 100).config.wans,
        (fecParamsFor (twoWansChecked 100 100).config (some w)).toOption.map (fun p =>
          Float64.lt (Float64.ofInt 0) (fecCompensableLoss p)) = some true := by decide +kernel
    have hw' := h w hw
    rw [hp] at hw'
    exact Option.some.inj hw'
  grace := by decide +kernel

end Client

/-- The document of a client without coding and two uplinks; the first counts twice. -/
def weightedFile : ConfigFile Binary64 :=
  { twoWansFile 100 50 with
    fec := { (twoWansFile 100 50).fec with enabled := false, mode := .off }
    wans :=
      [{ id := "wan1", capacityMbps := 100, weight := Float64.ofInt 2, transport := .unset },
        { id := "wan2", capacityMbps := 50, weight := Float64.ofInt 1, transport := .unset }] }

def weightedChecked : ConfigFile Binary64 :=
  (weightedFile.validate smallNet).toOption.getD weightedFile

/-- What a client derives from a document. -/
def envOf (st : ConfigFile Binary64) : ClientEnv Binary64 smallPrimitives :=
  (newClientEnv smallPrimitives silentJson st.config (smallKey 7)).toOption.getD
    { cfg := st.config, psk := [], baseAEAD := smallBaseAEAD, clientPriv := smallKey 7
      json := silentJson }

def clientOf (st : ConfigFile Binary64) : Client Binary64 pairCodes smallPrimitives :=
  (newClient pairCodes (envOf st) 5).toOption.getD (Client.blank (envOf st) 5)

theorem exists_params_newClient {net : Resolver} {file st : ConfigFile F}
    (hvalid : file.validate net = .ok st) {json : AnnounceCodec F} {priv : PrivateKey}
    {env : ClientEnv F P} (henv : newClientEnv P json st.config priv = .ok env) {id : UInt64}
    {c : Client F RS P} (hnew : newClient RS env id = .ok c) :
    ∃ w p, fecParamsFor st.config (some w) = .ok p := by
  obtain ⟨hcfg, -⟩ := newClientEnv_eq_ok henv
  have hnodup := nodup_wans hvalid
  rw [← hcfg] at hnodup
  obtain ⟨hwired, -⟩ := wired_newClient hnodup hnew
  rw [hcfg] at hwired
  unfold newClientEnv at henv
  split at henv
  · cases henv
  · -- a client without WANs is refused
    next hsome =>
    generalize st.config.wans = ws, c.settings.monitors = monitors at hwired hsome
    cases hwired with
    | nil => exact absurd rfl hsome
    | cons hw _ =>
      obtain ⟨p, hp, -⟩ := hw
      exact ⟨_, p, hp⟩

namespace Client

theorem reloadWans_eq_ok {st nc : ConfigFile F}
    (hparams : ∀ w ∈ nc.wans, ∃ p, fecParamsFor st.config (some w.toWanConfig) = .ok p)
    (c : Client F RS P) (is : List ℕ) : (c.reloadWans st nc is).1 = .ok () := by
  induction is generalizing c with
  | nil => rfl
  | cons i is ih =>
    have hok : (c.reloadWan st nc i).1 = .ok () := by
      unfold reloadWan
      split
      · next wan w hwan hw =>
        obtain ⟨p, hp⟩ := hparams w (List.mem_of_getElem? hw)
        rw [hp]
      · rfl
    rw [reloadWans]
    split
    · next e c' heq =>
      rw [heq] at hok
      cases hok
    · exact ih _

end Client

/-- The document of a client with adaptive coding and two uplinks; the second may have a ceiling of
its own. -/
def ceilingFile (mtu first : ℤ) (ceiling : Option Binary64) : ConfigFile Binary64 :=
  { twoWansFile first 100 with
    mtu := mtu
    fec := { (twoWansFile first 100).fec with mode := .adaptive, maxLossPct := Float64.ofInt 50 }
    wans :=
      [{ id := "wan1", capacityMbps := first, weight := Float64.ofInt 1, transport := .unset },
        { id := "wan2", capacityMbps := 100, weight := Float64.ofInt 1, fecMaxLossPct := ceiling
          transport := .unset }] }

def ceilingChecked (mtu first : ℤ) (ceiling : Option Binary64) : ConfigFile Binary64 :=
  ((ceilingFile mtu first ceiling).validate smallNet).toOption.getD (ceilingFile mtu first ceiling)

theorem made_ceiling :
    (ceilingFile 1400 100 none).validate smallNet = .ok (ceilingChecked 1400 100 none) ∧
      newClientEnv smallPrimitives silentJson (ceilingChecked 1400 100 none).config (smallKey 7) =
        .ok (envOf (ceilingChecked 1400 100 none)) ∧
      newClient pairCodes (envOf (ceilingChecked 1400 100 none)) 5 =
        .ok (clientOf (ceilingChecked 1400 100 none)) := by
  refine ⟨Except.eq_ok_getD ?_, Except.eq_ok_getD ?_, Except.eq_ok_getD ?_⟩
  all_goals decide +kernel

end FlexBraid
