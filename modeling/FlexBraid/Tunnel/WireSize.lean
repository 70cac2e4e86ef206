import FlexBraid.Fec.Batches
import FlexBraid.Tunnel.Geometry

/-!
# The size of the frames on the wire

A sealed frame must fit the path MTU, or it is fragmented.  The largest frames are the parity
frames: they carry a sub-header that grows with the block and a shard as long as the longest
payload.  In the adaptive and the fixed mode the parameters are refused when the inner MTU
leaves no room for them; in cross-path mode nothing is checked.

## Main definitions

* `Frame.sealedLength` — the length of a sealed frame.

## Main results

* `sealed_fits` — **no frame exceeds the path MTU** when there is room for it.
* `parity_too_long` — in cross-path mode a parity frame can.
-/

namespace FlexBraid

/-- The length of a sealed frame: header, payload and tag. -/
def Frame.sealedLength (f : Frame) : ℤ := headerSize + f.payload.length + tagSize

section
variable {F C : Type} [Float64 F] {RS : ReedSolomon C}

/-! ### The frames of a batch -/

variable {n : ℕ} {b : Batch} {f : Frame}

omit [Float64 F] in
theorem maxPayloadLen_le {data : List Frame} (h : ∀ f ∈ data, f.payload.length ≤ n) :
    maxPayloadLen data ≤ n :=
  Nat.lt_succ_iff.mp (maxPayloadLen_lt n.succ_pos fun f hf => Nat.lt_succ_of_le (h f hf))

theorem Batch.payload_stamped (h : f ∈ b.stamped) : ∃ g ∈ b.data, f.payload = g.payload := by
  cases b with
  | nothing => cases h
  | pass data =>
    obtain ⟨g, hg, rfl⟩ := List.mem_map.mp h
    exact ⟨g, hg, rfl⟩
  | transition data => exact ⟨f, h, rfl⟩
  | short number data =>
    obtain ⟨g, hg, rfl⟩ := List.mem_map.mp h
    exact ⟨g, hg, rfl⟩
  | full number data p shards =>
    obtain ⟨g, hg, rfl⟩ := List.mem_map.mp h
    exact ⟨g, hg, rfl⟩

theorem Batch.length_parity (h : f ∈ b.parity) :
    f.payload.length = parityHeaderSize b.data.length + maxPayloadLen b.data := by
  cases b with
  | full number data p shards =>
    cases shards with
    | none => cases h
    | some shards =>
      obtain ⟨i, -, rfl⟩ := List.mem_map.mp h
      exact length_parityPayload _ _ _ _ _
  | nothing => cases h
  | pass => cases h
  | transition => cases h
  | short => cases h

/-- A batch of blocks with `k` data frames. -/
def Batch.Sized (k : ℤ) (b : Batch) : Prop := b.parity ≠ [] → (b.data.length : ℤ) = k

omit [Float64 F] in
theorem Encoder.Returns.sized {e e' : Encoder F RS} {data : List Frame} (h : Returns e data e' b)
    (hparams : e'.params = e.params) : b.Sized e'.params.dataShards := by
  intro hne
  cases h with
  | full _ _ _ hlen => rw [hparams]; exact hlen
  | nothing => exact absurd rfl hne
  | pass => exact absurd rfl hne
  | transition => exact absurd rfl hne
  | short => exact absurd rfl hne

theorem Batch.length_frames {k : ℕ} (hsized : b.Sized k)
    (hdata : ∀ f ∈ b.data, f.payload.length ≤ n) (hf : f ∈ b.frames) :
    f.payload.length ≤ parityHeaderSize k + n := by
  rcases List.mem_append.mp hf with hf | hf
  · obtain ⟨g, hg, heq⟩ := b.payload_stamped hf
    rw [heq]
    exact (hdata g hg).trans (Nat.le_add_left _ _)
  · have hk : b.data.length = k := by exact_mod_cast hsized (List.ne_nil_of_mem hf)
    rw [b.length_parity hf, hk]
    exact Nat.add_le_add_left (maxPayloadLen_le hdata) _

omit [Float64 F] in
theorem exists_of_forall₂ {α β : Type} {R : α → β → Prop} {l : List α} {l' : List β}
    (h : List.Forall₂ R l l') {b : β} (hb : b ∈ l') : ∃ a ∈ l, R a b := by
  induction h with
  | nil => cases hb
  | cons hab _ ih =>
    rcases List.mem_cons.mp hb with rfl | hb
    · exact ⟨_, List.mem_cons_self, hab⟩
    · obtain ⟨a, ha, hR⟩ := ih hb
      exact ⟨a, List.mem_cons_of_mem _ ha, hR⟩

theorem Encoder.params_states (e : Encoder F RS) (calls : List (Call F)) :
    ∀ e' ∈ Run.states step e calls, e'.params = e.params := by
  induction calls generalizing e with
  | nil => exact fun e' he' => by cases he'
  | cons c calls ih =>
    have hparams := (e.batched_step c).1
    intro e' he'
    rcases List.mem_cons.mp he' with rfl | he'
    · exact hparams
    · exact (ih _ e' he').trans hparams

/-- **The frames of a run** are longer than the pushed payloads by a sub-header at most. -/
theorem Encoder.length_outputs {e : Encoder F RS} (hnil : e.pending = []) {k : ℕ}
    (hk : e.params.dataShards = k) {calls : List (Call F)}
    (hdata : ∀ f ∈ calls.flatMap Call.pushed, f.payload.length ≤ n)
    (hf : f ∈ (Run.outputs step e calls).flatten) : f.payload.length ≤ parityHeaderSize k + n := by
  obtain ⟨batches, hout, hpushed, hsized, -⟩ := e.batches_of_run (fun h => h.sized) calls
  rw [hout] at hf
  obtain ⟨frames, hframes, hf⟩ := List.mem_flatten.mp hf
  obtain ⟨b, hb, rfl⟩ := List.mem_map.mp hframes
  rw [hnil, List.nil_append] at hpushed
  obtain ⟨e', he', hb'⟩ := exists_of_forall₂ hsized hb
  rw [e.params_states calls e' he', hk] at hb'
  refine b.length_frames hb' (fun g hg => hdata g ?_) hf
  rw [← hpushed]
  exact List.mem_append_left _ (List.mem_flatMap_of_mem hb hg)

/-! ### Room for the frames -/

/-- **No frame exceeds the path MTU.**  For every accepted configuration with coding enabled, and
in cross-path mode with room for the parity frames, every frame that an encoder returns while the
pushed payloads keep to the inner MTU fits the path when it is sealed. -/
theorem sealed_fits {net : Resolver} {file c : ConfigFile F} (hvalid : file.validate net = .ok c)
    (henabled : c.fec.enabled = true)
    (hroom : c.fec.mode = .crosspath → c.mtu ≤ pathMTU - c.fec.headroom)
    {wan : Option (WanConfig F)} {params : Params F}
    (hparams : fecParamsFor c.config wan = .ok params) {e : Encoder F RS}
    (hnew : newEncoder RS params = .ok e) {calls : List (Encoder.Call F)}
    (hpayload : ∀ f ∈ calls.flatMap Encoder.Call.pushed, (f.payload.length : ℤ) ≤ c.mtu) :
    ∀ f ∈ (Run.outputs Encoder.step e calls).flatten, f.sealedLength ≤ pathMTU := by
  intro f hf
  have hfec := (ConfigFile.valid_fec hvalid henabled).1
  have hmtu := (ConfigFile.validate_eq_ok hvalid).1.1
  have hof : params.Of c.fec c.mtu := params_fecParamsFor hparams henabled hfec
  have hfits : c.mtu ≤ pathMTU - c.fec.headroom := by
    by_cases hmode : c.fec.mode = .crosspath
    · exact hroom hmode
    · exact (hof.checked hmode).2
  have hk : e.params.dataShards = (c.fec.dataShards.toNat : ℤ) := by
    have hpos := hfec.shards.1
    rw [params_newEncoder hnew, Int.toNat_of_nonneg (by omega)]
    refine (if_neg ?_).trans hof.dataShards
    rw [hof.dataShards]
    omega
  have hlen := Encoder.length_outputs (pending_newEncoder hnew) hk (n := c.mtu.toNat)
    (fun f hf => by have := hpayload f hf; omega) hf
  unfold Frame.sealedLength
  unfold FecConfig.headroom at hfits
  omega

end

/-! ### Cross-path blocks -/

/-- The document of a server with cross-path coding of two data frames, and the given MTU. -/
def crossFile (mtu : ℤ) : ConfigFile ℚ :=
  { fixedFile 0 with fec := { (fixedFile 0).fec with mode := .crosspath }, mtu := mtu }

def crossChecked (mtu : ℤ) : ConfigFile ℚ :=
  ((crossFile mtu).validate smallNet).toOption.getD (crossFile mtu)

/-- The parameters of the codecs. -/
def crossParams (mtu : ℤ) : Params ℚ :=
  (fecParamsFor (crossChecked mtu).config none).toOption.getD params21

def crossEncoder (mtu : ℤ) : Encoder ℚ smallCodes :=
  (newEncoder smallCodes (crossParams mtu)).toOption.getD encoder21

/-- The pushes of a full block of payloads with `n` bytes. -/
def fullBlock (n : ℕ) : List (Encoder.Call ℚ) :=
  [1, 2].map fun seq => .push 0 0 { sessionID := 5, seq := seq, payload := List.replicate n 0 }

set_option maxRecDepth 16000

/-- With the default MTU the block fits. -/
theorem sealed_fits_1420 : (crossFile 1420).validate smallNet = .ok (crossChecked 1420) ∧
      ∀ f ∈ (Run.outputs Encoder.step (crossEncoder 1420) (fullBlock 1420)).flatten,
        f.sealedLength ≤ pathMTU := by
  have hvalid : (crossFile 1420).validate smallNet = .ok (crossChecked 1420) :=
    Except.eq_ok_getD
  have hparams : fecParamsFor (crossChecked 1420).config none = .ok (crossParams 1420) :=
    Except.eq_ok_getD
  have hnew : newEncoder smallCodes (crossParams 1420) = .ok (crossEncoder 1420) :=
    Except.eq_ok_getD
  refine ⟨hvalid, sealed_fits hvalid ?_ (fun _ => ?_) hparams hnew ?_⟩
  all_goals with_unfolding_all decide

/-- **A parity frame can be too long.**  With an MTU of 1450 bytes the configuration is accepted
and yields its codecs, but the parity frame of a block of such payloads has 1514 bytes. -/
theorem parity_too_long : (crossFile 1450).validate smallNet = .ok (crossChecked 1450) ∧
      (crossChecked 1450).fec.enabled = true ∧
      fecParamsFor (crossChecked 1450).config none = .ok (crossParams 1450) ∧
      newEncoder smallCodes (crossParams 1450) = .ok (crossEncoder 1450) ∧
      (∀ f ∈ (fullBlock 1450).flatMap Encoder.Call.pushed,
        (f.payload.length : ℤ) ≤ (crossChecked 1450).mtu) ∧
      (Run.outputs Encoder.step (crossEncoder 1450) (fullBlock 1450)).flatten.map
        Frame.sealedLength = [1494, 1494, 1514] ∧ pathMTU < 1514 := by
  refine ⟨Except.eq_ok_getD, ?_, Except.eq_ok_getD, Except.eq_ok_getD, ?_⟩
  all_goals with_unfolding_all decide

end FlexBraid
