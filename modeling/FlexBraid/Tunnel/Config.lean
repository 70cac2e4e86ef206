import FlexBraid.Fec.Encoder
import FlexBraid.Scheduler

/-!
# The configuration of a tunnel

The part of the configuration that the tunnel reads while it runs, and what it
derives from it: the parameters of the codecs, the options of the path monitors
and the scheduling weights.

## Main definitions

* `Config`, `ServerAnnounce` — the configuration, and the part of it that a server
  announces to its clients.
* `fecParamsFor` — the codec parameters of a path.
* `effectiveCapacity`, `monitorMaxLoss`, `healthOptions` — weights and monitors.
-/

namespace FlexBraid

/-- How erasure coding behaves; `other` is a mode that the program does not know. -/
inductive FecMode where
  | adaptive
  | fixed
  | off
  | crosspath
  | other (name : String)
deriving DecidableEq, Repr

/-- The erasure coding section. -/
structure FecConfig (F : Type) where
  enabled : Bool
  mode : FecMode
  dataShards : ℤ
  maxLossPct : F
  blockTimeoutMS : ℤ
  fixedOverheadPct : F
  adaptMinLossPct : F
  adaptResumePct : F
  adaptHoldSec : F
  protectionLevel : F
deriving DecidableEq

/-- One uplink of a client. -/
structure WanConfig (F : Type) where
  id : String
  capacityMbps : ℤ
  weight : F
  /-- The path's own redundancy ceiling. -/
  fecMaxLossPct : Option F := none

/-- The scheduler section. -/
structure SchedConfig (F : Type) where
  mode : SchedulerMode
  affinity : Affinity
  balanceBy : BalanceBy
  /-- The largest capacity a client may declare; 0 for no limit. -/
  capacityCapMbps : F

/-- The monitoring section. -/
structure HealthConfig (F : Type) where
  lossAlphaFast : F
  lossAlphaSlow : F
  jitterAlpha : F
  degradeSec : F
  recoverMin : F
  probeInterval : F
  downAfterMisses : ℤ
  downGraceSec : F

/-- The reorder buffer section. -/
structure DeliveryConfig where
  gapTimeoutMS : ℤ
  maxPending : ℤ

/-- The encryption section. -/
structure CryptoConfig where
  /-- The shared secret. -/
  key : String
  cipher : String

/-- The configuration of a client or a server. -/
structure Config (F : Type) where
  scheduler : SchedConfig F
  fec : FecConfig F
  mtu : ℤ
  wans : List (WanConfig F)
  delivery : DeliveryConfig
  health : HealthConfig F
  crypto : CryptoConfig

/-- The probe period when none is configured. -/
def defaultProbeInterval : Duration := second

/-! ### The announce -/

def announceVersion : ℤ := 1

/-- The redundancy ceiling when none is configured. -/
def defaultMaxLossPct : ℤ := 20

structure ServerAnnounce (F : Type) where
  version : ℤ
  mtu : ℤ
  fec : FecConfig F
deriving DecidableEq

/-- The JSON library, on announces. -/
structure AnnounceCodec (F : Type) where
  marshal : ServerAnnounce F → Bytes
  unmarshal : Bytes → Option (ServerAnnounce F)

/-! ### Codec parameters -/

/-- Why a configuration yields no codec parameters. -/
inductive FecConfigError (F : Type) where
  | invalidMaxLoss (pct : F)
  | unknownMode (name : String)
  | geometryTooLarge (k parity : ℤ)
  | mtuTooLarge (mtu k headroom maxInner : ℤ)

def FecMode.name : FecMode → String
  | .adaptive => "adaptive"
  | .fixed => "fixed"
  | .off => "off"
  | .crosspath => "crosspath"
  | .other name => name

/-- The path MTU that the frames have to fit. -/
def pathMTU : ℤ := 1500

def FecConfigError.text {F : Type} [ToString F] : FecConfigError F → String
  | .invalidMaxLoss pct =>
      "invalid fec max_loss_pct " ++ toString pct ++ " (must be 0 < x < 100)"
  | .unknownMode name => "unknown fec.mode " ++ name.quote
  | .geometryTooLarge k parity =>
      "fec geometry too large: k=" ++ toString k ++ " + parity=" ++ toString parity ++
        " > 256 (reduce data_shards or max_loss_pct)"
  | .mtuTooLarge mtu k headroom maxInner =>
      "inner mtu " ++ toString mtu ++ " too large with FEC(k=" ++ toString k ++
        "): parity frames need " ++ toString headroom ++ " bytes of headroom on " ++
        toString pathMTU ++ "-byte paths; set mtu <= " ++ toString maxInner ++ " or disable FEC"

section
variable {F : Type} [Float64 F]

/-- The number of data frames in a block. -/
def FecConfig.shards (f : FecConfig F) : ℤ :=
  if f.dataShards > 0 then f.dataShards else defaultDataShards

/-- A number of parity frames, at least one. -/
def atLeastOne (n : ℤ) : ℤ := if n < 1 then 1 else n

/-- The loss that an adaptive path is sized for, as a fraction. -/
def FecConfig.ceiling (f : FecConfig F) (wan : Option (WanConfig F)) : F :=
  ((wan.bind WanConfig.fecMaxLossPct).getD f.maxLossPct) / Float64.ofInt 100

/-- The parameters of a coded mode, after the bounds of the field and of the path. -/
def boundedParams (mtu k parity : ℤ) (timeout : Duration) (adaptive : Option (AdaptiveParams F)) :
    Except (FecConfigError F) (Params F) :=
  let parity := atLeastOne parity
  if k + parity > 256 then .error (.geometryTooLarge k parity)
  else
    let headroom : ℤ := headerSize + tagSize + parityHeaderSize k.toNat
    let maxInner := pathMTU - headroom
    if mtu > maxInner then .error (.mtuTooLarge mtu k headroom maxInner)
    else .ok { dataShards := k, parityShards := parity, blockTimeout := timeout,
               adaptive := adaptive }

/-- The codec parameters of one path, or of all of them. -/
def fecParamsFor (cfg : Config F) (wan : Option (WanConfig F)) :
    Except (FecConfigError F) (Params F) :=
  let f := cfg.fec
  let timeout := f.blockTimeoutMS * millisecond
  if !f.enabled || f.mode = .off then
    .ok { dataShards := 0, parityShards := 0, blockTimeout := timeout }
  else
    let k := f.shards
    let ofK : F := Float64.ofInt k
    match f.mode with
    | .crosspath =>
      let minParity := atLeastOne (Float64.ceil (ofK * f.protectionLevel))
      .ok { dataShards := k, parityShards := minParity, blockTimeout := timeout,
            crossPath := true, crossPathMinParity := minParity }
    | .fixed =>
      boundedParams cfg.mtu k (Float64.ceil (ofK * f.fixedOverheadPct / Float64.ofInt 100)) timeout
        none
    | .adaptive =>
      let l := f.ceiling wan
      if Float64.le l (Float64.ofInt 0) || Float64.le (Float64.ofInt 1) l then
        .error (.invalidMaxLoss (l * Float64.ofInt 100))
      else
        boundedParams cfg.mtu k (Float64.ceil (ofK * l / (Float64.ofInt 1 - l))) timeout
          (some { onLossPct := f.adaptMinLossPct
                  offLossPct := f.adaptResumePct
                  hold := Float64.trunc (f.adaptHoldSec * Float64.ofInt second)
                  maxLossPct := f.maxLossPct
                  safety := Float64.ofInt 13 / Float64.ofInt 10 })
    | mode => .error (.unknownMode mode.name)

/-! ### Weights and monitors -/

/-- The share of parity frames in a block. -/
def Params.overhead (p : Params F) : F :=
  Float64.ofInt p.parityShards / Float64.ofInt (p.dataShards + p.parityShards)

/-- The loss that coding repairs. -/
def fecCompensableLoss (p : Params F) : F :=
  if !p.enabled then Float64.ofInt 0 else p.overhead

/-- The scheduling weight of a path. -/
def effectiveCapacity (wan : WanConfig F) (p : Params F) (balanceBy : BalanceBy) : F :=
  if balanceBy = .roundrobin then Float64.ofInt 1
  else
    let cap : F := Float64.ofInt wan.capacityMbps
    let cap := if Float64.le cap (Float64.ofInt 0) then Float64.ofInt 1 else cap
    let cap := if balanceBy = .fec && p.enabled then cap * (Float64.ofInt 1 - p.overhead) else cap
    if Float64.lt (Float64.ofInt 0) wan.weight then cap * wan.weight else cap

/-- The loss at which a monitor degrades its path; a noise floor without coding. -/
def monitorMaxLoss (p : Params F) : F :=
  let l := fecCompensableLoss p
  if Float64.lt (Float64.ofInt 0) l then l else Float64.ofInt 1 / Float64.ofInt 100

def healthOptions (h : HealthConfig F) (maxLoss : F) : HealthOptions F where
  maxLoss := maxLoss
  degradeAfter := Float64.trunc (h.degradeSec * Float64.ofInt second)
  recoverAfter := Float64.trunc (h.recoverMin * Float64.ofInt minute)
  lossAlphaFast := h.lossAlphaFast
  lossAlphaSlow := h.lossAlphaSlow
  jitterAlpha := h.jitterAlpha
  downAfterMisses := h.downAfterMisses
  downGrace := Float64.trunc (h.downGraceSec * Float64.ofInt second)

end

/-! ### A small configuration -/

/-- The defaults of the configuration, with two uplinks and without coding. -/
def smallConfig : Config ℚ where
  scheduler := { mode := .lb, affinity := .packet, balanceBy := .capacity, capacityCapMbps := 0 }
  fec :=
    { enabled := false, mode := .other "", dataShards := 0, maxLossPct := 0, blockTimeoutMS := 0
      fixedOverheadPct := 0, adaptMinLossPct := 0, adaptResumePct := 0, adaptHoldSec := 0
      protectionLevel := 0 }
  mtu := 1420
  wans := [{ id := "wan1", capacityMbps := 100, weight := 1 },
    { id := "wan2", capacityMbps := 20, weight := 1 }]
  delivery := { gapTimeoutMS := 100, maxPending := 4096 }
  health :=
    { lossAlphaFast := 2 / 5, lossAlphaSlow := 3 / 100, jitterAlpha := 1 / 10, degradeSec := 3
      recoverMin := 2, probeInterval := 1, downAfterMisses := 3, downGraceSec := 0 }
  crypto := { key := "psk", cipher := "chacha20poly1305" }

/-- What a server with the small configuration announces. -/
def smallAnnounce : ServerAnnounce ℚ :=
  { version := announceVersion, mtu := smallConfig.mtu, fec := smallConfig.fec }

def smallAnnounceText : String :=
  "\x7b\"v\":1,\"mtu\":1420,\"fec\":\x7b\"Enabled\":false,\"Mode\":\"\",\"DataShards\":0," ++
  "\"MaxLossPct\":0,\"BlockTimeoutMS\":0,\"FixedOverheadPct\":0,\"AdaptMinLossPct\":0," ++
  "\"AdaptResumePct\":0,\"AdaptHoldSec\":0,\"ProtectionLevel\":0\x7d\x7d"

/-- The JSON library, on the small announce. -/
def smallJson : AnnounceCodec ℚ where
  marshal a := if a = smallAnnounce then smallAnnounceText.toUTF8.toList else []
  unmarshal b := if b = smallAnnounceText.toUTF8.toList then some smallAnnounce else none

end FlexBraid
