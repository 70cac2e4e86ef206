import FlexBraid.Fec.Latency
import FlexBraid.Tunnel.Geometry

/-!
# The ticks of the codecs

Both ends tick their codecs with half the timeout of the blocks, and with another period when
that is short: a server with 250 milliseconds below 25, a client with a quarter of the gap
timeout of its reorder buffer below one.

## Main definitions

* `ServerEnv.fecTickInterval`, `Client.fecTickInterval` — the two periods.
* `Ticked` — an encoder of either end, with its period.
* `Mode.leastTimeoutMS` — the least timeout for which half of it is the period.

## Main results

* `Ticked.latency` — **coding delays a frame by at most twice the timeout**.
* `frame_held` — a server with the default timeout holds a frame for a quarter of a second.
-/

namespace FlexBraid

section
variable {F C : Type} [Float64 F] {RS : ReedSolomon C} {P : Primitives}

/-- The period with which a server ticks its codecs. -/
def ServerEnv.fecTickInterval (env : ServerEnv F P) : Duration :=
  let interval := env.fecParams.blockTimeout.tdiv 2
  if interval < 25 * millisecond then 250 * millisecond else interval

/-- The period with which a client ticks its codecs, from the timeout of the first WAN or of
the codecs that the WANs share. -/
def Client.fecTickInterval (env : ClientEnv F P) (c : Client F RS P) : Duration :=
  let slot := if c.crossPath then c.xenc else c.wans.head?.bind WanLink.enc
  let bt := ((slot.bind fun i => c.encs[i]?).map fun e => e.params.blockTimeout).getD 0
  let interval := bt.tdiv 2
  let interval :=
    if interval < millisecond then
      let gap := env.cfg.delivery.gapTimeoutMS.tdiv 4 * millisecond
      if gap > interval then gap else interval
    else interval
  if interval < millisecond then millisecond else interval

/-- An encoder of a tunnel with the accepted configuration `c`, and the period it is ticked with:
that of a session of a server, that of a WAN of a new client, or that of a WAN of a client to
which a server with the configuration announced it. -/
inductive Ticked (P : Primitives) (c : ConfigFile F) : Mode → Encoder F RS → Duration → Prop
  | session {json : AnnounceCodec F} {env : ServerEnv F P} {e : Encoder F RS}
      (henv : newServerEnv P json c.config = .ok env) (hnew : newEncoder RS env.fecParams = .ok e) :
      Ticked P c .server e env.fecTickInterval
  | wan {env : ClientEnv F P} {id : UInt64} {cl : Client F RS P} {w : WanLink F} {i : ℕ}
      {e : Encoder F RS} (hcfg : env.cfg = c.config) (hnew : newClient RS env id = .ok cl)
      (hw : w ∈ cl.wans) (hslot : w.enc = some i) (he : cl.encs[i]? = some e) :
      Ticked P c .client e (cl.fecTickInterval env)
  | adopted {env : ClientEnv F P} {data : Bytes} {cl cl' : Client F RS P} {w : WanLink F} {i : ℕ}
      {e : Encoder F RS}
      (hdata : env.json.unmarshal data =
        some { version := announceVersion, mtu := c.mtu, fec := c.fec })
      (hadopt : cl.applyAnnounce env data = (.ok (), cl'))
      (hw : w ∈ cl'.wans) (hslot : w.enc = some i) (he : cl'.encs[i]? = some e) :
      Ticked P c .client e (cl'.fecTickInterval env)

/-- The least timeout for which half of it is the period. -/
def Mode.leastTimeoutMS : Mode → ℤ
  | .server => 50
  | .client => 2

/-! ### The period and the timeout -/

theorem half_timeout {bt m : ℤ} (hm : 0 < m) (h : 2 * m ≤ bt) :
    ¬ bt.tdiv 2 < m ∧ bt.tdiv 2 ≤ bt := by
  rw [Int.tdiv_eq_ediv_of_nonneg (by omega)]
  omega

variable {e : Encoder F RS}

theorem blockTimeout_newEncoder {p : Params F} (h : newEncoder RS p = .ok e)
    (hpos : 0 < p.blockTimeout) : e.params.blockTimeout = p.blockTimeout := by
  rw [params_newEncoder h]
  exact if_neg (not_le.mpr hpos)

omit [Float64 F] in
theorem ServerEnv.fecTickInterval_le {env : ServerEnv F P}
    (hbt : 2 * (25 * millisecond) ≤ env.fecParams.blockTimeout) :
    env.fecTickInterval ≤ env.fecParams.blockTimeout := by
  obtain ⟨hhalf, hle⟩ := half_timeout (by decide) hbt
  unfold ServerEnv.fecTickInterval
  dsimp only
  rw [if_neg hhalf]
  exact hle

theorem Client.fecTickInterval_le {c : Client F RS P} {bt : Duration} (env : ClientEnv F P)
    (h : c.Codecs fun p => p.blockTimeout = bt) (hne : c.wans ≠ [])
    (hbt : 2 * millisecond ≤ bt) : c.fecTickInterval env ≤ bt := by
  have hpos : 0 < bt := lt_of_lt_of_le (by decide) hbt
  obtain ⟨hhalf, hle⟩ := half_timeout (by decide) hbt
  -- the slot that is looked at holds a codec
  obtain ⟨p, i, -, e, hp, hi, -, he, hnew, -⟩ :
      c.Holds (fun p => p.blockTimeout = bt)
        (if c.crossPath then c.xenc else c.wans.head?.bind WanLink.enc)
        (if c.crossPath then c.xdec else c.wans.head?.bind WanLink.dec) := by
    split
    · next hcross => exact h.cross hcross
    · obtain ⟨w, ws, hws⟩ := List.exists_cons_of_ne_nil hne
      rw [hws]
      exact h.wans w (by rw [hws]; exact List.mem_cons_self)
  have htimeout : e.params.blockTimeout = bt := by
    rw [blockTimeout_newEncoder hnew (by rwa [hp]), hp]
  unfold Client.fecTickInterval
  dsimp only
  rw [hi, Option.bind_some, he, Option.map_some, Option.getD_some, htimeout, if_neg hhalf,
    if_neg hhalf]
  exact hle

theorem Client.blockTimeoutMS_normalize (f : FecConfig F) :
    (normalize f).blockTimeoutMS = f.blockTimeoutMS := by
  unfold normalize
  split <;> rfl

theorem Client.ticked {c : Client F RS P} {bt : Duration} (env : ClientEnv F P)
    (h : c.Codecs fun p => p.blockTimeout = bt) (hbt : 2 * millisecond ≤ bt) {w : WanLink F} {i : ℕ}
    (hw : w ∈ c.wans) (hslot : w.enc = some i) (he : c.encs[i]? = some e) :
    e.pending = [] ∧ e.params.blockTimeout = bt ∧ c.fecTickInterval env ≤ bt := by
  have hpos : 0 < bt := lt_of_lt_of_le (by decide) hbt
  obtain ⟨p, i', -, e', hp, hi, -, he', hnew, -⟩ := h.wans w hw
  rw [hslot, Option.some_inj] at hi
  rw [← hi, he, Option.some_inj] at he'
  rw [← he'] at hnew
  refine ⟨pending_newEncoder hnew, ?_, fecTickInterval_le env h (List.ne_nil_of_mem hw) hbt⟩
  rw [blockTimeout_newEncoder hnew (by rwa [hp]), hp]

/-- **The period is no longer than the timeout**, from the least timeout on. -/
theorem Ticked.period_le {c : ConfigFile F} {mode : Mode} {period : Duration}
    (h : Ticked P c mode e period) (hlong : mode.leastTimeoutMS ≤ c.fec.blockTimeoutMS) :
    e.pending = [] ∧ e.params.blockTimeout = c.fec.blockTimeoutMS * millisecond ∧
      period ≤ c.fec.blockTimeoutMS * millisecond := by
  have hms : (0 : ℤ) < millisecond := by decide
  cases h with
  | @session json env e henv hnew =>
    have hbt : env.fecParams.blockTimeout = c.fec.blockTimeoutMS * millisecond :=
      blockTimeout_fecParamsFor (newServerEnv_eq_ok henv).1
    have hle : 2 * (25 * millisecond) ≤ c.fec.blockTimeoutMS * millisecond := by
      rw [← mul_assoc]
      exact mul_le_mul_of_nonneg_right hlong hms.le
    rw [← hbt] at hle ⊢
    refine ⟨pending_newEncoder hnew, blockTimeout_newEncoder hnew (lt_of_lt_of_le (by decide) hle),
      ServerEnv.fecTickInterval_le hle⟩
  | wan hcfg hnew hw hslot he =>
    have hle : 2 * millisecond ≤ c.fec.blockTimeoutMS * millisecond :=
      mul_le_mul_of_nonneg_right hlong hms.le
    refine Client.ticked _ (Client.codecs_newClient ?_ hnew) hle hw hslot he
    intro wan p hp
    rw [blockTimeout_fecParamsFor hp, hcfg]
    rfl
  | adopted hdata hadopt hw hslot he =>
    have hle : 2 * millisecond ≤ c.fec.blockTimeoutMS * millisecond :=
      mul_le_mul_of_nonneg_right hlong hms.le
    refine Client.ticked _ (Client.codecs_applyAnnounce hdata ?_ hadopt).1 hle hw hslot he
    intro i p hp
    rw [blockTimeout_fecParamsFor hp, ← Client.blockTimeoutMS_normalize c.fec]
    rfl

/-! ### How long frames wait -/

/-- **Coding delays a frame by at most twice the timeout.**  For every accepted configuration with
coding enabled and a timeout that is not too short for the role, and every run of an encoder that
is ticked with the period of the role: when the run goes on for twice the timeout after a push,
then by that time the calls have returned all frames that were pushed, the pushed one included. -/
theorem Ticked.latency {net : Resolver} {file c : ConfigFile F} (hvalid : file.validate net = .ok c)
    (henabled : c.fec.enabled = true) {mode : Mode} {e : Encoder F RS} {period : Duration}
    (hticked : Ticked P c mode e period) (hlong : mode.leastTimeoutMS ≤ c.fec.blockTimeoutMS)
    {clock due : Time} (hdue : due ≤ clock + period) {before after : List (Encoder.Call F)}
    {now start : Time} {f : Frame}
    (hpaced : Encoder.Paced period clock due (before ++ .push now start f :: after))
    (hafter : ∃ call ∈ after, start + 2 * (c.fec.blockTimeoutMS * millisecond) < call.time) :
    ∃ mid rest, after = mid ++ rest ∧
      (∀ call ∈ mid, call.time ≤ start + 2 * (c.fec.blockTimeoutMS * millisecond)) ∧
      ∃ batches : List Batch,
        Run.outputs Encoder.step e (before ++ .push now start f :: mid) = batches.map Batch.frames ∧
        batches.flatMap Batch.data =
          (before ++ .push now start f :: mid).flatMap Encoder.Call.pushed := by
  have hpos : 0 < c.fec.blockTimeoutMS * millisecond :=
    mul_pos (ConfigFile.valid_fec hvalid henabled).1.timeout (by decide)
  obtain ⟨hnil, hbt, hperiod⟩ := hticked.period_le hlong
  have hsum : start + e.params.blockTimeout + period ≤
      start + 2 * (c.fec.blockTimeoutMS * millisecond) := by
    rw [hbt]
    linarith
  obtain ⟨call, hcall, hlate⟩ := hafter
  obtain ⟨mid, rest, hsplit, hmid, hflushed⟩ := Encoder.returned_in_time hnil (by rw [hbt]; exact hpos.le)
    hdue hpaced ⟨call, hcall, hsum.trans_lt hlate⟩
  refine ⟨mid, rest, hsplit, fun call hcall => (hmid call hcall).trans hsum, ?_⟩
  obtain ⟨batches, hout, hdata, -⟩ :=
    e.batches_of_run (P := fun _ _ => True) (fun _ _ => trivial) (before ++ .push now start f :: mid)
  refine ⟨batches, hout, ?_⟩
  rwa [hflushed, hnil, List.append_nil, List.nil_append] at hdata

end

/-! ### A server with short blocks -/

/-- What the server is built from. -/
def fixedServerEnv (blockTimeoutMS : ℤ) : ServerEnv ℚ smallPrimitives :=
  (newServerEnv smallPrimitives smallJson (fixedChecked blockTimeoutMS).config).toOption.getD
    smallServerEnv

def fixedEncoder (blockTimeoutMS : ℤ) : Encoder ℚ smallCodes :=
  (newEncoder smallCodes (fixedServerEnv blockTimeoutMS).fecParams).toOption.getD encoder21

/-- A frame alone in its block. -/
def loneFrame : Frame := { sessionID := 5, seq := 1, payload := [7] }

/-- Ticks with the period, from its end on. -/
def ticks (period : Duration) (n : ℕ) : List (Encoder.Call ℚ) :=
  (List.range n).map fun i => .tick ((i + 1) * period)

/-- A server with a timeout of 50 milliseconds returns a lone frame within 100 of them. -/
theorem latency_fixed : (fixedFile 50).validate smallNet = .ok (fixedChecked 50) ∧
      ∃ mid rest, ticks (25 * millisecond) 5 = mid ++ rest ∧
        (∀ call ∈ mid, call.time ≤ 0 + 2 * ((fixedChecked 50).fec.blockTimeoutMS * millisecond)) ∧
        ∃ batches : List Batch,
          Run.outputs Encoder.step (fixedEncoder 50) ([] ++ .push 0 0 loneFrame :: mid) =
            batches.map Batch.frames ∧ batches.flatMap Batch.data =
            ([] ++ .push 0 0 loneFrame :: mid : List (Encoder.Call ℚ)).flatMap
              Encoder.Call.pushed := by
  have hvalid : (fixedFile 50).validate smallNet = .ok (fixedChecked 50) :=
    Except.eq_ok_getD
  have henv : newServerEnv smallPrimitives smallJson (fixedChecked 50).config =
      .ok (fixedServerEnv 50) := Except.eq_ok_getD
  have hnew : newEncoder smallCodes (fixedServerEnv 50).fecParams = .ok (fixedEncoder 50) :=
    Except.eq_ok_getD
  have hperiod : (fixedServerEnv 50).fecTickInterval = 25 * millisecond := by
    with_unfolding_all decide
  have hticked := Ticked.session henv hnew
  rw [hperiod] at hticked
  refine ⟨hvalid, Ticked.latency hvalid ?_ hticked ?_ (le_refl (0 + 25 * millisecond)) ?_ ?_⟩
  all_goals with_unfolding_all decide

/-- **A frame can be held for a quarter of a second.**  A server with the default timeout of eight
milliseconds ticks its codecs every 250 milliseconds, and a frame that is alone in its block is
only returned by the tick. -/
theorem frame_held : (fixedFile 0).validate smallNet = .ok (fixedChecked 0) ∧
      (fixedChecked 0).fec.enabled = true ∧ (fixedChecked 0).fec.blockTimeoutMS = 8 ∧
      Ticked smallPrimitives (fixedChecked 0) .server (fixedEncoder 0) (250 * millisecond) ∧
      Encoder.Paced (250 * millisecond) 0 (250 * millisecond)
        (.push 0 0 loneFrame :: ticks (250 * millisecond) 1) ∧
      Run.outputs Encoder.step (fixedEncoder 0)
        (.push 0 0 loneFrame :: ticks (250 * millisecond) 1) = [[], [loneFrame.stamp 1]] ∧
      0 + 2 * ((fixedChecked 0).fec.blockTimeoutMS * millisecond) < 250 * millisecond := by
  have henv : newServerEnv smallPrimitives smallJson (fixedChecked 0).config =
      .ok (fixedServerEnv 0) := Except.eq_ok_getD
  have hnew : newEncoder smallCodes (fixedServerEnv 0).fecParams = .ok (fixedEncoder 0) :=
    Except.eq_ok_getD
  have hperiod : (fixedServerEnv 0).fecTickInterval = 250 * millisecond := by
    with_unfolding_all decide
  have hticked := Ticked.session henv hnew
  rw [hperiod] at hticked
  refine ⟨Except.eq_ok_getD, ?_, ?_, hticked, ?_⟩
  all_goals with_unfolding_all decide

end FlexBraid
