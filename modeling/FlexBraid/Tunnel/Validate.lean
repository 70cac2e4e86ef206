import FlexBraid.Tunnel.Config

/-!
# The validation of a configuration

The configuration document as it is read from its file, and the check that every client and
server makes of it: it fills in the defaults and refuses what is out of range.  The sections
are checked one after the other, and the first complaint is the result.

A setting with named values is a text in the document; it can be empty, one of the values, or
anything else.

## Main definitions

* `ConfigFile` — the document, with the fields that the check or the tunnel reads.
* `ConfigFile.validate` — the check.
* `ConfigFile.config` — the part that the tunnel reads while it runs.
* `FecConfig.Valid` — what holds of an accepted coding section.

## Main results

* `ConfigFile.valid_fec` — the coding section of an accepted document is valid when coding is
  enabled, and cross-path coding comes with packet affinity.
-/

namespace FlexBraid

/-! ### The document -/

/-- The text of a setting with named values. -/
inductive Setting (α : Type) where
  | unset
  | known (value : α)
  | other (text : String)
deriving DecidableEq, Repr

/-- The value of a setting, or its default. -/
def Setting.getD {α : Type} (s : Setting α) (dflt : α) : α :=
  match s with
  | known value => value
  | _ => dflt

def Setting.orDefault {α : Type} (s : Setting α) (dflt : α) : Setting α :=
  match s with
  | unset => known dflt
  | s => s

/-- Whether an instance is the client or the server of the tunnel. -/
inductive Mode where
  | client
  | server
deriving DecidableEq, Repr

/-- The wire format of a WAN. -/
inductive TransportMode where
  | udp
  | faketcp
  | icmp
deriving DecidableEq, Repr

/-- The scheduler section of the document. -/
structure SchedFile (F : Type) where
  mode : Setting SchedulerMode
  affinity : Setting Affinity
  balanceBy : Setting BalanceBy
  capacityCapMbps : F
deriving DecidableEq

/-- One uplink of the document. -/
structure WanFile (F : Type) extends WanConfig F where
  transport : Setting TransportMode
  /-- The device that the socket is bound to. -/
  iface : String := ""
  /-- The source address that the socket is bound to. -/
  localIP : String := ""
  /-- The routing table of the socket; it is not set if negative. -/
  fib : ℤ := 0

structure TelemetryConfig (F : Type) where
  listen : String
  path : String
  intervalSec : F
deriving DecidableEq

/-- The send queue section. -/
structure QueueConfig where
  /-- Whether the queue is used; it is unless the document says otherwise. -/
  enabled : Option Bool
  maxBytes : ℤ
  drop : String
  rateLimit : Bool
deriving DecidableEq

/-- The configuration document. -/
structure ConfigFile (F : Type) where
  mode : Setting Mode
  listen : String
  server : String
  wgPeer : String
  sessionID : String
  scheduler : SchedFile F
  fec : FecConfig F
  mtu : ℤ
  wans : List (WanFile F)
  delivery : DeliveryConfig
  health : HealthConfig F
  crypto : CryptoConfig
  logLevel : String
  telemetry : TelemetryConfig F
  queue : QueueConfig
  transport : Setting TransportMode

/-- The network library, on the addresses of a configuration. -/
structure Resolver where
  /-- The error of an address that does not resolve. -/
  resolveUDPAddr : String → Option String
  /-- Whether a text is a host and a port. -/
  splitHostPort : String → Bool

/-- What the tunnel reads of a document while it runs.  A way of balancing that it does not
know is balancing by capacity. -/
def ConfigFile.config {F : Type} (c : ConfigFile F) : Config F where
  scheduler :=
    { mode := c.scheduler.mode.getD .lb
      affinity := c.scheduler.affinity.getD .packet
      balanceBy := c.scheduler.balanceBy.getD .capacity
      capacityCapMbps := c.scheduler.capacityCapMbps }
  fec := c.fec
  mtu := c.mtu
  wans := c.wans.map WanFile.toWanConfig
  delivery := c.delivery
  health := c.health
  crypto := c.crypto

/-! ### Complaints -/

/-- Why a document is refused. -/
inductive ConfigError (F : Type) where
  | mode (text : String)
  | noListen
  | noServer
  | noWGPeer
  /-- An address that does not resolve: which one, its text, and the error. -/
  | address (field text error : String)
  | schedulerMode (text : String)
  | affinity (text : String)
  | capacityCap
  /-- A count outside its range. -/
  | count (field : String) (lo hi : ℤ) (note : String) (got : ℤ)
  /-- A number outside its range. -/
  | number (field range : String) (got : F)
  | fecMode (name : String)
  | crosspathAffinity
  | noWAN
  | serverTransport (text : String)
  | duplicateWAN (id : String)
  | wanTransport (id text : String)
  | wanCapacity (id : String)
  | noKey
  | telemetryListen (text : String)
  | queueDrop (text : String)

def ConfigError.text {F : Type} [ToString F] : ConfigError F → String
  | .mode t => "invalid mode " ++ t.quote ++ ": must be \"client\" or \"server\""
  | .noListen => "listen address is required"
  | .noServer => "client requires server address"
  | .noWGPeer => "server requires wg_peer (inner WireGuard peer address)"
  | .address field t e => "invalid " ++ field ++ " address " ++ t.quote ++ ": " ++ e
  | .schedulerMode t => "invalid scheduler.mode " ++ t.quote ++ ": must be \"lb\" or \"standby\""
  | .affinity t => "invalid scheduler.affinity " ++ t.quote ++ ": must be \"flow\" or \"packet\""
  | .capacityCap => "scheduler.capacity_cap_mbps cannot be negative"
  | .count field lo hi note got =>
      field ++ " must be in [" ++ toString lo ++ "," ++ toString hi ++ "]" ++ note ++ ", got " ++
        toString got
  | .number field range got => field ++ " must be " ++ range ++ ", got " ++ toString got
  | .fecMode name => "invalid fec.mode " ++ name.quote
  | .crosspathAffinity => "fec.mode=crosspath requires scheduler.affinity=packet"
  | .noWAN => "client requires at least one WAN"
  | .serverTransport t => "server transport " ++ t.quote ++ " not supported (udp | faketcp | icmp)"
  | .duplicateWAN id => "duplicate WAN id " ++ id.quote
  | .wanTransport id t => "WAN " ++ id.quote ++ ": invalid transport " ++ t.quote
  | .wanCapacity id => "WAN " ++ id.quote ++ ": capacity_mbps cannot be negative"
  | .noKey => "crypto.key (shared PSK) is required"
  | .telemetryListen t => "telemetry.listen must be host:port, got " ++ t.quote
  | .queueDrop t => "queue.drop must be \"oldest\" or \"newest\", got " ++ t.quote

section
variable {F : Type} [Float64 F]

/-! ### Checks of single settings -/

def isZero (x : F) : Bool :=
  Float64.le x (Float64.ofInt 0) && Float64.le (Float64.ofInt 0) x

/-- A number, or its default when it is zero. -/
def numberOr (x dflt : F) : F := if isZero x then dflt else x

/-- A count, or its default when it is zero. -/
def countOr (x dflt : ℤ) : ℤ := if x = 0 then dflt else x

/-- A text, or its default when it is empty. -/
def textOr (x dflt : String) : String := if x = "" then dflt else x

omit [Float64 F] in
/-- Complain when a check fails. -/
def refuse (bad : Bool) (e : ConfigError F) : Except (ConfigError F) Unit :=
  if bad then .error e else .ok ()

def Setting.read {α : Type} (s : Setting α) (dflt : α) (e : String → ConfigError F) :
    Except (ConfigError F) α :=
  match s with
  | unset => .ok dflt
  | known value => .ok value
  | other text => .error (e text)

def checkCount (field : String) (lo hi : ℤ) (got : ℤ) (note : String := "") :
    Except (ConfigError F) ℤ :=
  if got < lo ∨ hi < got then .error (.count field lo hi note got) else .ok got

/-! ### The sections -/

variable (net : Resolver)

def checkAddress (field text : String) : Except (ConfigError F) Unit :=
  match net.resolveUDPAddr text with
  | none => .ok ()
  | some e => .error (.address field text e)

def ConfigFile.checkAddresses (c : ConfigFile F) (mode : Mode) : Except (ConfigError F) Unit := do
  refuse (c.listen = "") .noListen
  refuse (mode = .client && c.server = "") .noServer
  refuse (mode = .server && c.wgPeer = "") .noWGPeer
  checkAddress net "listen" c.listen
  match mode with
  | .client => checkAddress net "server" c.server
  | .server => checkAddress net "wg_peer" c.wgPeer

/-- Check the scheduler section. -/
def SchedFile.validate (s : SchedFile F) : Except (ConfigError F) (SchedFile F) := do
  let mode ← s.mode.read .lb .schedulerMode
  let affinity ← s.affinity.read .packet .affinity
  refuse (Float64.lt s.capacityCapMbps (Float64.ofInt 0)) .capacityCap
  return { s with
    mode := .known mode, affinity := .known affinity, balanceBy := s.balanceBy.orDefault .capacity }

/-- The largest size of the reorder buffer, that of the anti-replay window. -/
def deliveryMaxPending : ℤ := 4096

/-- Check the reorder buffer section. -/
def DeliveryConfig.validate (d : DeliveryConfig) : Except (ConfigError F) DeliveryConfig := do
  let gapTimeoutMS ← checkCount "delivery.gap_timeout_ms" 10 5000 (countOr d.gapTimeoutMS 100)
  let maxPending ← checkCount "delivery.max_pending" 64 deliveryMaxPending
    (countOr d.maxPending 4096) " (= anti-replay window, DESIGN §5)"
  return { gapTimeoutMS := gapTimeoutMS, maxPending := maxPending }

/-- The modes in which frames are coded. -/
def FecMode.codes : FecMode → Bool
  | .adaptive => true
  | .fixed => true
  | .crosspath => true
  | _ => false

/-- Check the coding section where coding is enabled. -/
def FecConfig.validateEnabled (f : FecConfig F) (affinity : Setting Affinity) :
    Except (ConfigError F) (FecConfig F) := do
  let zero : F := Float64.ofInt 0
  let mode := if f.mode = .other "" then .adaptive else f.mode
  refuse (!mode.codes) (.fecMode mode.name)
  let dataShards ← checkCount "fec.data_shards" 2 64 (countOr f.dataShards 10)
  refuse (mode = .crosspath && affinity ≠ .known .packet) .crosspathAffinity
  let maxLossPct := numberOr f.maxLossPct (Float64.ofInt defaultMaxLossPct)
  refuse (Float64.lt maxLossPct zero || Float64.lt (Float64.ofInt 90) maxLossPct)
    (.number "fec.max_loss_pct" "in (0,90]" maxLossPct)
  let adaptMinLossPct := numberOr f.adaptMinLossPct (Float64.ofInt 2)
  let adaptResumePct := numberOr f.adaptResumePct (Float64.ofInt 1 / Float64.ofInt 2)
  let adaptHoldSec := numberOr f.adaptHoldSec (Float64.ofInt 10)
  refuse (Float64.le adaptMinLossPct zero || Float64.lt (Float64.ofInt 90) adaptMinLossPct)
    (.number "fec.adapt_min_loss_pct" "in (0,90]" adaptMinLossPct)
  refuse (Float64.lt adaptResumePct zero || Float64.le adaptMinLossPct adaptResumePct)
    (.number "fec.adapt_resume_pct" "in [0, adapt_min_loss_pct)" adaptResumePct)
  refuse (Float64.lt adaptHoldSec zero || Float64.lt (Float64.ofInt 3600) adaptHoldSec)
    (.number "fec.adapt_hold_sec" "in [0,3600]" adaptHoldSec)
  refuse (mode = .fixed &&
      (Float64.le f.fixedOverheadPct zero || Float64.lt (Float64.ofInt 200) f.fixedOverheadPct))
    (.number "fec.fixed_overhead_pct" "in (0,200]" f.fixedOverheadPct)
  let protectionLevel :=
    if mode = .crosspath then numberOr f.protectionLevel (Float64.ofInt 1 / Float64.ofInt 2)
    else f.protectionLevel
  refuse (mode = .crosspath &&
      (Float64.lt protectionLevel zero || Float64.lt (Float64.ofInt 1) protectionLevel))
    (.number "fec.protection_level" "in [0,1]" protectionLevel)
  return { f with
    mode := mode
    dataShards := dataShards
    maxLossPct := maxLossPct
    blockTimeoutMS := positiveOr f.blockTimeoutMS 8
    adaptMinLossPct := adaptMinLossPct
    adaptResumePct := adaptResumePct
    adaptHoldSec := adaptHoldSec
    protectionLevel := protectionLevel }

/-- Check the coding section; the mode `off` disables it. -/
def FecConfig.validate (f : FecConfig F) (affinity : Setting Affinity) :
    Except (ConfigError F) (FecConfig F) :=
  let f := if f.mode = .off then { f with enabled := false } else f
  if f.enabled then f.validateEnabled affinity else .ok f

/-- Check the wire format of a server; a client has one for each uplink. -/
def checkTransport (mode : Mode) (t : Setting TransportMode) :
    Except (ConfigError F) (Setting TransportMode) :=
  match mode with
  | .client => .ok t
  | .server => (t.read .udp .serverTransport).map .known

/-- Check the uplinks, numbered from `i` up and with the names in `seen` taken. -/
def validateWans : ℕ → List String → List (WanFile F) → Except (ConfigError F) (List (WanFile F))
  | _, _, [] => .ok []
  | i, seen, w :: ws => do
    let id := textOr w.id ("wan" ++ toString (i + 1))
    refuse (id ∈ seen) (.duplicateWAN id)
    let transport ← w.transport.read .udp (.wanTransport id)
    refuse (w.capacityMbps < 0) (.wanCapacity id)
    let rest ← validateWans (i + 1) (id :: seen) ws
    return { w with
      id := id, transport := .known transport, weight := numberOr w.weight (Float64.ofInt 1) } :: rest

/-- Check the monitoring section. -/
def HealthConfig.validate (h : HealthConfig F) : Except (ConfigError F) (HealthConfig F) := do
  let downAfterMisses ← checkCount "health.down_after_misses" 1 32 (countOr h.downAfterMisses 3)
  refuse (Float64.lt h.downGraceSec (Float64.ofInt 0) ||
      Float64.lt (Float64.ofInt 60) h.downGraceSec)
    (.number "health.down_grace_sec" "in [0,60]" h.downGraceSec)
  return { h with
    lossAlphaFast := numberOr h.lossAlphaFast (Float64.ofInt 2 / Float64.ofInt 5)
    lossAlphaSlow := numberOr h.lossAlphaSlow (Float64.ofInt 3 / Float64.ofInt 100)
    jitterAlpha := numberOr h.jitterAlpha (Float64.ofInt 1 / Float64.ofInt 10)
    degradeSec := numberOr h.degradeSec (Float64.ofInt 3)
    recoverMin := numberOr h.recoverMin (Float64.ofInt 2)
    probeInterval := numberOr h.probeInterval (Float64.ofInt 1)
    downAfterMisses := downAfterMisses }

/-- Check the encryption section. -/
def CryptoConfig.validate (c : CryptoConfig) : Except (ConfigError F) CryptoConfig := do
  refuse (c.key = "") .noKey
  return { c with cipher := textOr c.cipher "chacha20poly1305" }

/-- Check the telemetry section. -/
def TelemetryConfig.validate (t : TelemetryConfig F) :
    Except (ConfigError F) (TelemetryConfig F) := do
  refuse (Float64.lt t.intervalSec (Float64.ofInt 0))
    (.number "telemetry.interval_sec" ">= 0" t.intervalSec)
  refuse (t.listen ≠ "" && !net.splitHostPort t.listen) (.telemetryListen t.listen)
  return { t with path := textOr t.path "/stats" }

/-- Check the send queue section. -/
def QueueConfig.validate (q : QueueConfig) : Except (ConfigError F) QueueConfig := do
  let drop := textOr q.drop "oldest"
  refuse (drop ≠ "oldest" && drop ≠ "newest") (.queueDrop drop)
  return { q with
    enabled := some (q.enabled.getD true), maxBytes := positiveOr q.maxBytes 262144, drop := drop }

/-- Check a document and fill in the defaults. -/
def ConfigFile.validate (c : ConfigFile F) : Except (ConfigError F) (ConfigFile F) := do
  let mode ← c.mode.read .client .mode
  c.checkAddresses net mode
  let scheduler ← c.scheduler.validate
  let delivery ← c.delivery.validate
  let mtu ← checkCount "mtu" 576 9000 (countOr c.mtu 1420)
  let fec ← c.fec.validate scheduler.affinity
  refuse (c.wans.length = 0 && mode = .client) .noWAN
  let transport ← checkTransport mode c.transport
  let wans ← validateWans 0 [] c.wans
  let health ← c.health.validate
  let crypto ← c.crypto.validate
  let telemetry ← c.telemetry.validate net
  let queue ← c.queue.validate
  return { c with
    mode := .known mode
    sessionID := textOr c.sessionID "auto"
    scheduler := scheduler
    fec := fec
    mtu := mtu
    wans := wans
    delivery := delivery
    health := health
    crypto := crypto
    logLevel := textOr c.logLevel "info"
    telemetry := telemetry
    queue := queue
    transport := transport }

/-! ### What is accepted -/

omit [Float64 F] in
theorem refuse_bind_eq_ok {α : Type} {bad : Bool} {e : ConfigError F}
    {next : Unit → Except (ConfigError F) α} {a : α} (h : refuse bad e >>= next = .ok a) :
    bad = false ∧ next () = .ok a := by
  cases bad with
  | true => cases h
  | false => exact ⟨rfl, h⟩

omit [Float64 F] in
theorem checkCount_eq_ok {field note : String} {lo hi got n : ℤ}
    (h : (checkCount field lo hi got note : Except (ConfigError F) ℤ) = .ok n) :
    lo ≤ n ∧ n ≤ hi := by
  unfold checkCount at h
  split at h
  · cases h
  · cases h
    omega

theorem numberOr_numberOr (x dflt : F) : numberOr (numberOr x dflt) dflt = numberOr x dflt := by
  unfold numberOr
  split_ifs <;> rfl

/-- What holds of the coding section of an accepted document where coding is enabled. -/
structure FecConfig.Valid (f : FecConfig F) : Prop where
  codes : f.mode.codes = true
  shards : 2 ≤ f.dataShards ∧ f.dataShards ≤ 64
  timeout : 0 < f.blockTimeoutMS
  maxLoss : numberOr f.maxLossPct (Float64.ofInt defaultMaxLossPct) = f.maxLossPct
  maxLoss_range : Float64.lt f.maxLossPct (Float64.ofInt 0) = false ∧
    Float64.lt (Float64.ofInt 90) f.maxLossPct = false
  overhead : f.mode = .fixed → Float64.le f.fixedOverheadPct (Float64.ofInt 0) = false ∧
    Float64.lt (Float64.ofInt 200) f.fixedOverheadPct = false
  protection : f.mode = .crosspath → Float64.lt f.protectionLevel (Float64.ofInt 0) = false ∧
    Float64.lt (Float64.ofInt 1) f.protectionLevel = false

/-- **The coding section of an accepted document**: it is valid, and the settings that have no
default are those of the document. -/
theorem FecConfig.valid_validateEnabled {f f' : FecConfig F} {affinity : Setting Affinity}
    (h : f.validateEnabled affinity = .ok f') :
    f'.Valid ∧ f'.enabled = f.enabled ∧ (f'.mode = .crosspath → affinity = .known .packet) := by
  unfold validateEnabled at h
  dsimp only at h
  obtain ⟨hcodes, h⟩ := refuse_bind_eq_ok h
  obtain ⟨shards, hshards, h⟩ := Except.bind_eq_ok h
  obtain ⟨hcross, h⟩ := refuse_bind_eq_ok h
  obtain ⟨hloss, h⟩ := refuse_bind_eq_ok h
  obtain ⟨-, h⟩ := refuse_bind_eq_ok h
  obtain ⟨-, h⟩ := refuse_bind_eq_ok h
  obtain ⟨-, h⟩ := refuse_bind_eq_ok h
  obtain ⟨hover, h⟩ := refuse_bind_eq_ok h
  obtain ⟨hprot, h⟩ := refuse_bind_eq_ok h
  cases h
  refine ⟨⟨?_, checkCount_eq_ok hshards, ?_, numberOr_numberOr _ _, ?_, ?_, ?_⟩, rfl, ?_⟩
  · simpa using hcodes
  · change 0 < positiveOr _ _
    unfold positiveOr
    split
    · decide
    · omega
  · simpa using hloss
  · intro hmode
    dsimp only at hmode
    simpa [hmode] using hover
  · intro hmode
    dsimp only at hmode
    simpa [hmode] using hprot
  · intro hmode
    dsimp only at hmode
    simpa [hmode] using hcross

theorem FecConfig.valid_validate {f f' : FecConfig F} {affinity : Setting Affinity}
    (h : f.validate affinity = .ok f') (henabled : f'.enabled = true) :
    f'.Valid ∧ (f'.mode = .crosspath → affinity = .known .packet) := by
  unfold validate at h
  dsimp only at h
  split_ifs at h with hoff hon hon
  · exact ⟨(valid_validateEnabled h).1, (valid_validateEnabled h).2.2⟩
  · cases h
    cases henabled
  · exact ⟨(valid_validateEnabled h).1, (valid_validateEnabled h).2.2⟩
  · cases h
    exact absurd henabled hon

variable {net : Resolver} {c c' : ConfigFile F}

/-- What the check makes of the sections of a document. -/
structure ConfigFile.Checked (c c' : ConfigFile F) : Prop where
  scheduler : c.scheduler.validate = .ok c'.scheduler
  delivery : (c.delivery.validate : Except (ConfigError F) DeliveryConfig) = .ok c'.delivery
  mtu : (checkCount "mtu" 576 9000 (countOr c.mtu 1420) : Except (ConfigError F) ℤ) = .ok c'.mtu
  fec : c.fec.validate c'.scheduler.affinity = .ok c'.fec
  wans : validateWans 0 [] c.wans = .ok c'.wans

theorem ConfigFile.checked (h : c.validate net = .ok c') : c.Checked c' := by
  unfold validate at h
  obtain ⟨mode, -, h⟩ := Except.bind_eq_ok h
  obtain ⟨-, -, h⟩ := Except.bind_eq_ok h
  obtain ⟨scheduler, hsched, h⟩ := Except.bind_eq_ok h
  obtain ⟨delivery, hdelivery, h⟩ := Except.bind_eq_ok h
  obtain ⟨mtu, hmtu, h⟩ := Except.bind_eq_ok h
  obtain ⟨fec, hfec, h⟩ := Except.bind_eq_ok h
  obtain ⟨-, h⟩ := refuse_bind_eq_ok h
  obtain ⟨transport, -, h⟩ := Except.bind_eq_ok h
  obtain ⟨wans, hwans, h⟩ := Except.bind_eq_ok h
  obtain ⟨health, -, h⟩ := Except.bind_eq_ok h
  obtain ⟨crypto, -, h⟩ := Except.bind_eq_ok h
  obtain ⟨telemetry, -, h⟩ := Except.bind_eq_ok h
  obtain ⟨queue, -, h⟩ := Except.bind_eq_ok h
  cases h
  exact ⟨hsched, hdelivery, hmtu, hfec, hwans⟩

theorem ConfigFile.validate_eq_ok (h : c.validate net = .ok c') :
    (576 ≤ c'.mtu ∧ c'.mtu ≤ 9000) ∧ (10 ≤ c'.delivery.gapTimeoutMS) ∧
      ∃ affinity, c'.scheduler.affinity = .known affinity ∧
        c.fec.validate (.known affinity) = .ok c'.fec := by
  obtain ⟨hsched, hdelivery, hmtu, hfec, -⟩ := checked h
  refine ⟨checkCount_eq_ok hmtu, ?_, ?_⟩
  · obtain ⟨gap, hgap, hdelivery⟩ := Except.bind_eq_ok hdelivery
    obtain ⟨pending, -, hdelivery⟩ := Except.bind_eq_ok hdelivery
    rw [← Except.ok.inj hdelivery]
    exact (checkCount_eq_ok hgap).1
  · obtain ⟨m, -, hsched⟩ := Except.bind_eq_ok hsched
    obtain ⟨affinity, -, hsched⟩ := Except.bind_eq_ok hsched
    obtain ⟨-, hsched⟩ := refuse_bind_eq_ok hsched
    rw [← Except.ok.inj hsched] at hfec ⊢
    exact ⟨affinity, rfl, hfec⟩

/-- **An accepted coding section.** -/
theorem ConfigFile.valid_fec (h : c.validate net = .ok c') (henabled : c'.fec.enabled = true) :
    c'.fec.Valid ∧ (c'.fec.mode = .crosspath → c'.scheduler.affinity = .known .packet) := by
  obtain ⟨-, -, affinity, haff, hfec⟩ := ConfigFile.validate_eq_ok h
  rw [haff]
  exact FecConfig.valid_validate hfec henabled

end

/-! ### A small document -/

/-- Names that all resolve. -/
def smallNet : Resolver := { resolveUDPAddr := fun _ => none, splitHostPort := fun _ => true }

/-- The document of a server that sends one parity frame with every two data frames. -/
def fixedFile (blockTimeoutMS : ℤ) : ConfigFile ℚ where
  mode := .known .server
  listen := ":4000"
  server := ""
  wgPeer := "127.0.0.1:51820"
  sessionID := ""
  scheduler := { mode := .unset, affinity := .unset, balanceBy := .unset, capacityCapMbps := 0 }
  fec :=
    { enabled := true, mode := .fixed, dataShards := 2, maxLossPct := 0
      blockTimeoutMS := blockTimeoutMS, fixedOverheadPct := 50, adaptMinLossPct := 0
      adaptResumePct := 0, adaptHoldSec := 0, protectionLevel := 0 }
  mtu := 0
  wans := []
  delivery := { gapTimeoutMS := 0, maxPending := 0 }
  health :=
    { lossAlphaFast := 0, lossAlphaSlow := 0, jitterAlpha := 0, degradeSec := 0, recoverMin := 0
      probeInterval := 0, downAfterMisses := 0, downGraceSec := 0 }
  crypto := { key := "psk", cipher := "" }
  logLevel := ""
  telemetry := { listen := "", path := "", intervalSec := 0 }
  queue := { enabled := none, maxBytes := 0, drop := "", rateLimit := false }
  transport := .unset

/-- The document with its defaults. -/
def fixedChecked (blockTimeoutMS : ℤ) : ConfigFile ℚ :=
  ((fixedFile blockTimeoutMS).validate smallNet).toOption.getD (fixedFile blockTimeoutMS)

end FlexBraid
