import FlexBraid.Fec.Recovery

/-!
# Runs of a decoder on one block

A decoder that receives the frames of one block, in any order and with any
repetition, emits the block's data frames exactly once.  Until it holds enough of
them the pushes return nothing, and the tick at the deadline emits the data frames
that arrived.

## Main definitions

* `BlockCall` — the calls of such a run.
* `RecoveryRun` — where a run on one block stands.
* `OnlyK` — a decoder that has only seen blocks of `k` data frames.

## Main results

* `emitBlock_recovered` — **recovery**, from the frames the encoder emits.
-/

namespace FlexBraid

variable {F C : Type} {RS : ReedSolomon C}

open CodedBlock

section
variable {b : CodedBlock} {key : BlockKey} {d : Decoder F C}

/-! ### Whole runs -/

variable (RS) in
/-- What the pushes of a sequence of calls return. -/
def Decoder.pushReturns : Option (Decoder F C) → List Decoder.Call → List Frame
  | _, [] => []
  | s, c :: cs =>
    (match c with
      | .push .. => (Decoder.step RS s c).2
      | _ => []) ++ Decoder.pushReturns (Decoder.step RS s c).1 cs

/-- The calls of a run on one block: pushes of the block's frames on its stream,
and ticks before the deadline. -/
def BlockCall (frames : List Frame) (crossPath : Bool) (path : String) (deadline : Time) :
    Decoder.Call → Prop
  | .push _ path' g => g ∈ frames ∧ (if crossPath then "" else path') = path
  | .tick _ now => now < deadline
  | _ => False

/-- Where a run on the block stands after the frames `S` were pushed and `out` was
returned: the block is being assembled and nothing came out, or the block was
recovered. -/
structure RecoveryRun (RS : ReedSolomon C) (params : Params F) (b : CodedBlock) (key : BlockKey)
    (deadline : Time) (S out : List Frame) (d : Decoder F C) : Prop where
  params : d.params = params
  cache : d.CacheFor RS b.data.length
  held : ¬ (dataSeqs S = ∅ ∧ parityIdxs S = ∅)
  state : (∃ st, d.blocks.lookup key = some st ∧ Assembly b (dataSeqs S) (parityIdxs S) st ∧
      st.deadline = some deadline ∧ ¬ b.Enough S ∧ out = []) ∨
    (d.blocks.lookup key = none ∧ key.blockSeq ≤ d.lastFlushed.getD key.stream 0 ∧
      b.Enough S ∧ out = b.data.map Frame.plain)

theorem Decoder.tick_without (henabled : d.params.enabled = true) (key : BlockKey)
    (σ σ' : IterOrder BlockKey) (now : Time) : (d.tick σ now).2.Perm (d.dueFrames now key ++
      (({ d with blocks := d.blocks.erase key } : Decoder F C).tick σ' now).2) := by
  rw [(ticked_tick henabled σ now).2,
    (ticked_tick (d := { d with blocks := d.blocks.erase key }) henabled σ' now).2]
  -- without the block, the other blocks are due as before
  have hrest : ((σ'.visit (d.blocks.erase key).keys).flatMap
      (({ d with blocks := d.blocks.erase key } : Decoder F C).dueFrames now)).Perm
      ((d.blocks.keys.erase key).flatMap (d.dueFrames now)) := by
    rw [AList.keys_erase]
    refine (List.Perm.flatMap_right _ (σ'.perm _)).trans (List.Perm.of_eq ?_)
    apply List.flatMap_congr
    intro key' hkey'
    have hne : key' ≠ key := fun h0 => d.blocks.keys_nodup.not_mem_erase (h0 ▸ hkey')
    rw [dueFrames, dueFrames]
    dsimp only
    rw [AList.lookup_erase_ne hne]
  refine (List.Perm.flatMap_right _ (σ.perm _)).trans (List.Perm.trans ?_ (hrest.symm.append_left _))
  cases hl : d.blocks.lookup key with
  | none =>
    have hmem : key ∉ d.blocks.keys := by
      rw [← AList.mem_keys, ← AList.lookup_eq_none]
      exact hl
    rw [List.erase_of_not_mem hmem, dueFrames, hl]
    exact List.Perm.refl _
  | some st =>
    have hmem : key ∈ d.blocks.keys := by
      rw [← AList.mem_keys, ← AList.lookup_isSome, hl]
      rfl
    exact List.Perm.flatMap_right _ (List.perm_cons_erase hmem)

theorem held_append {S : List Frame} (h : ¬ (dataSeqs S = ∅ ∧ parityIdxs S = ∅))
    (T : List Frame) : ¬ (dataSeqs (S ++ T) = ∅ ∧ parityIdxs (S ++ T) = ∅) := by
  rw [dataSeqs_append, parityIdxs_append, Finset.union_eq_empty, Finset.union_eq_empty]
  rintro ⟨⟨h1, -⟩, h2, -⟩
  exact h ⟨h1, h2⟩

namespace RecoveryRun

variable {params : Params F} {deadline : Time} {S out : List Frame}

/-- A push of a further frame of the block. -/
theorem push (hb : b.Recoverable RS) (henabled : params.enabled = true)
    (hsid : key.sessionID = b.sessionID) (hbs : key.blockSeq ≠ 0)
    (h : RecoveryRun RS params b key deadline S out d) {path : String} {g : Frame}
    (hg : g ∈ b.wire key.blockSeq) (hpath : (if params.crossPath then "" else path) = key.path)
    (now : Time) :
    ∃ d' ret, d.push RS now path g = some (d', ret) ∧
      RecoveryRun RS params b key deadline (S ++ [g]) (out ++ ret) d' := by
  have henabled' : d.params.enabled = true := by rw [h.params, henabled]
  have hkey : d.blockKey path g = key := by
    obtain ⟨hseq, hses, -⟩ := mem_wire hb.unflagged hg
    unfold Decoder.blockKey Decoder.streamPath
    rw [hses, hseq, h.params, hpath, ← hsid]
  rcases h.state with ⟨st, hl, hasm, hdl, hnot, rfl⟩ | ⟨hl, hlast, henough, hout⟩
  · have hat : d.blockAt key = st := Decoder.blockAt_of_lookup hl
    have hlate : d.late key = false := by rw [Decoder.late, hl]; rfl
    rw [← hat] at hasm
    obtain ⟨d', hparams, hcache, ⟨hnot', hpush, st', hl', hasm', hdl'⟩ | ⟨henough, hpush, hl', hlast⟩⟩ :=
      push_wire hb henabled' h.cache hsid hbs hasm hlate hg hkey now
    · refine ⟨d', [], hpush, hparams.trans h.params, hcache, held_append h.held _,
        .inl ⟨st', hl', hasm', ?_, hnot', rfl⟩⟩
      rw [hdl', if_neg h.held, hat, hdl]
    · exact ⟨d', _, hpush, hparams.trans h.params, hcache, held_append h.held _,
        .inr ⟨hl', hlast, henough, rfl⟩⟩
  · -- the block is done: its frames are late
    have hlate : d.late key = true := by simp [Decoder.late, hl, hlast]
    refine ⟨d, [], ?_, h.params, h.cache, held_append h.held _,
      .inr ⟨hl, hlast, henough.append _, by simpa using hout⟩⟩
    rw [Decoder.push_of_coded RS henabled' (coded_of_mem_wire hb.unflagged hbs hg), hkey,
      if_pos hlate]

variable {now : Time}

/-- A tick before the deadline. -/
theorem tick (henabled : params.enabled = true) (h : RecoveryRun RS params b key deadline S out d)
    (σ : IterOrder BlockKey) (hnow : now < deadline) :
    RecoveryRun RS params b key deadline S out (d.tick σ now).1 := by
  obtain ⟨ht, -⟩ := Decoder.ticked_tick (by rw [h.params, henabled]) σ now
  refine ⟨ht.params.trans h.params, ?_, h.held, ?_⟩
  · intro p c hc
    rw [ht.rsByParity] at hc
    exact h.cache p c hc
  · have hlookup := ht.lookup key
    change _ = if _ then (d.blocks.lookup key).filter _ else d.blocks.lookup key at hlookup
    rcases h.state with ⟨st, hl, hasm, hdl, hnot, hout⟩ | ⟨hl, hlast, henough, hout⟩
    · refine .inl ⟨st, ?_, hasm, hdl, hnot, hout⟩
      have hdue : st.overdue now = false := by
        simp [BlockState.overdue, hasm.unflushed, hdl, hnow]
      rw [hlookup, hl, Option.filter_some, hdue]
      simp
    · refine .inr ⟨?_, UInt32.le_trans hlast (ht.mono key.stream), henough, hout⟩
      rw [hlookup, hl]
      simp

/-- **The run lemma**: whatever frames of the block are pushed, in whatever order,
and however the ticks before the deadline fall. -/
theorem run (hb : b.Recoverable RS) (henabled : params.enabled = true)
    (hsid : key.sessionID = b.sessionID) (hbs : key.blockSeq ≠ 0) {calls : List Decoder.Call}
    (hcalls : ∀ c ∈ calls, BlockCall (b.wire key.blockSeq) params.crossPath key.path deadline c)
    (h : RecoveryRun RS params b key deadline S out d) :
    ∃ d', Run.exec (Decoder.step RS) (some d) calls = some d' ∧
      RecoveryRun RS params b key deadline (S ++ calls.flatMap Decoder.Call.pushed)
        (out ++ Decoder.pushReturns RS (some d) calls) d' := by
  induction calls generalizing d S out with
  | nil => exact ⟨d, rfl, by simpa [Decoder.pushReturns] using h⟩
  | cons c calls ih =>
    obtain ⟨hc, hrest⟩ := List.forall_mem_cons.mp hcalls
    cases c with
    | push now path g =>
      obtain ⟨d', ret, hpush, h'⟩ := h.push hb henabled hsid hbs hc.1 hc.2 now
      have hstep := Decoder.step_push hpush
      obtain ⟨d'', hexec, h''⟩ := ih hrest h'
      refine ⟨d'', by rw [Run.exec_cons, hstep, hexec], ?_⟩
      rw [Decoder.pushReturns, hstep, List.flatMap_cons, ← List.append_assoc, ← List.append_assoc]
      exact h''
    | tick σ now =>
      obtain ⟨d'', hexec, h''⟩ := ih hrest (h.tick henabled σ hc)
      exact ⟨d'', by rw [Run.exec_cons, Decoder.step, hexec], h''⟩
    | takeStreamStats => exact hc.elim
    | takePathStats => exact hc.elim

/-- The first frame of the block that arrives sets the deadline. -/
theorem first (key : BlockKey) (hb : b.Recoverable RS) (henabled : d.params.enabled = true)
    (hcache : d.CacheFor RS b.data.length) (hsid : key.sessionID = b.sessionID)
    (hfresh : d.blocks.lookup key = none)
    (hlast : d.lastFlushed.getD key.stream 0 < key.blockSeq) {path : String} {g : Frame}
    (hg : g ∈ b.wire key.blockSeq) (hpath : d.streamPath path = key.path) (now : Time) :
    ∃ d' ret, d.push RS now path g = some (d', ret) ∧
      RecoveryRun RS d.params b key (now + d.params.blockTimeout) [g] ret d' := by
  have hbs : key.blockSeq ≠ 0 := by grind
  obtain ⟨hseq, hses, hkind⟩ := mem_wire hb.unflagged hg
  have hkey : d.blockKey path g = key := by
    unfold Decoder.blockKey
    rw [hses, hseq, hpath, ← hsid]
  have hlate : d.late key = false := by
    rw [Decoder.late, hfresh]
    simpa using hlast
  have hheld : ¬ (dataSeqs [g] = ∅ ∧ parityIdxs [g] = ∅) := by
    rcases hkind with ⟨f, -, -, -, h1, -⟩ | ⟨i, -, -, h2⟩
    · simp [h1]
    · simp [h2]
  have hasm : Assembly b (dataSeqs []) (parityIdxs []) (d.blockAt key) := by
    rw [Decoder.blockAt_of_none hfresh]
    exact Assembly.empty b
  obtain ⟨d', hparams, hcache', ⟨hnot, hpush, st', hl, hasm', hdl⟩ | ⟨henough, hpush, hl, hlast'⟩⟩ :=
    push_wire hb henabled hcache hsid hbs hasm hlate hg hkey now
  · refine ⟨d', [], hpush, hparams, hcache', hheld, .inl ⟨st', hl, hasm', ?_, hnot, rfl⟩⟩
    rw [hdl, if_pos ⟨rfl, rfl⟩]
  · exact ⟨d', _, hpush, hparams, hcache', hheld, .inr ⟨hl, hlast', henough, rfl⟩⟩

/-- The tick at the deadline emits the data frames that arrived, and besides them
what it would emit without the block. -/
theorem tick_deadline (henabled : params.enabled = true) (hsid : key.sessionID = b.sessionID)
    (h : RecoveryRun RS params b key deadline S out d) (hnot : ¬ b.Enough S)
    (σ σ' : IterOrder BlockKey) (hnow : deadline ≤ now) : (d.tick σ now).2.Perm
      ((b.data.filter (·.seq ∈ dataSeqs S)).map Frame.plain ++
        (({ d with blocks := d.blocks.erase key } : Decoder F C).tick σ' now).2) := by
  obtain ⟨st, hl, hasm, hdl, -, -⟩ := h.state.resolve_right fun h' => hnot h'.2.2.1
  have hover : st.overdue now = true := by
    simp [BlockState.overdue, hasm.unflushed, hdl, hnow]
  have htick := Decoder.tick_without (by rw [h.params, henabled]) key σ σ' now
  rw [Decoder.dueFrames_of_due hl hover, hsid] at htick
  exact htick.trans (hasm.frames_perm.append_right _)

/-- **As many frames as the block has data frames** yield it whole, by the pushes or at the
deadline. -/
theorem survived (hb : b.Recoverable RS) (henabled : params.enabled = true)
    (hsid : key.sessionID = b.sessionID) (h : RecoveryRun RS params b key deadline S out d)
    (hS : ∀ g ∈ S, g ∈ b.wire key.blockSeq) (hmany : b.data.length ≤ S.toFinset.card)
    (σ σ' : IterOrder BlockKey) (hnow : deadline ≤ now) :
    (out ++ (d.tick σ now).2).Perm (b.data.map Frame.plain ++
      (({ d with blocks := d.blocks.erase key } : Decoder F C).tick σ' now).2) := by
  by_cases henough : b.Enough S
  · -- the block is done, and the tick finds only the others
    obtain ⟨hl, -, -, rfl⟩ := h.state.resolve_left fun ⟨_, _, _, _, hnot, _⟩ => hnot henough
    have htick := Decoder.tick_without (by rw [h.params, henabled]) key σ σ' now
    rw [Decoder.dueFrames, hl, List.nil_append] at htick
    exact htick.append_left _
  · -- without parity the data frames themselves are all there
    obtain ⟨st, -, hasm, -, -, rfl⟩ := h.state.resolve_right fun h' => henough h'.2.2.1
    have hnone : parityIdxs S = ∅ := by
      by_contra hne
      refine henough ⟨Finset.nonempty_iff_ne_empty.mpr hne, ?_⟩
      rwa [← card_toFinset_of_wire hb.unflagged hS]
    have hcard : (dataSeqs S).card = b.data.length := by
      apply le_antisymm
      · rw [← hasm.length_filter_data]
        exact List.length_filter_le _ _
      · rw [card_toFinset_of_wire hb.unflagged hS, hnone] at hmany
        simpa using hmany
    have htick := h.tick_deadline henabled hsid henough σ σ' hnow
    rwa [hasm.filter_eq_data hcard] at htick

end RecoveryRun

/-! ### The decoder before the block -/

/-- The parity frames a call pushes have `k` data frames in their sub-header. -/
def SameK (k : ℕ) : Decoder.Call → Prop
  | .push _ _ f => f.hasFlag flagFECParity = true → (BlockState.readSubHeader f.payload).k = k
  | _ => True

/-- Every geometry a decoder knows, and every codec it cached, is for `k` data
frames. -/
structure OnlyK (RS : ReedSolomon C) (params : Params F) (k : ℕ) (d : Decoder F C) : Prop where
  params : d.params = params
  blocks : ∀ key st, d.blocks.lookup key = some st → st.k = 0 ∨ st.k = k
  cache : d.CacheFor RS k

variable {params : Params F} {k : ℕ}

theorem OnlyK.push (h : OnlyK RS params k d) {now : Time} {path : String} {f : Frame}
    (hf : SameK k (.push now path f)) {r : Decoder F C × List Frame}
    (hpush : d.push RS now path f = some r) : OnlyK RS params k r.1 := by
  have habsorb : ∀ st st' : BlockState, (st.k = 0 ∨ st.k = k) →
      st.absorb now d.params.blockTimeout f = some st' → st'.k = 0 ∨ st'.k = k := by
    intro st st' hst habsorb
    rcases BlockState.absorb_k habsorb with hk | ⟨hpar, hk⟩
    · rw [hk]
      exact hst
    · exact .inr (hk.trans (hf hpar))
  obtain ⟨hparams, hblocks, hcache⟩ :=
    Decoder.forall_buffers_push h.blocks (.inl rfl) habsorb hpush
  refine ⟨hparams.trans h.params, hblocks, fun p c hc => ?_⟩
  rcases hcache p c hc with hc | ⟨st, hst, hk, -, hnew⟩
  · exact h.cache p c hc
  · rwa [hst.resolve_left hk] at hnew

theorem OnlyK.tick (h : OnlyK RS params k d) (σ : IterOrder BlockKey) (now : Time) :
    OnlyK RS params k (d.tick σ now).1 := by
  obtain ⟨hparams, hcodecs, hblocks⟩ := d.tick_leaves σ now
  refine ⟨hparams.trans h.params, fun key st hl => h.blocks key st (hblocks key st hl), ?_⟩
  rw [Decoder.CacheFor, hcodecs]
  exact h.cache

/-- A decoder that has only seen blocks of `k` data frames. -/
theorem onlyK_of_history {history : List Decoder.Call} (hsame : ∀ c ∈ history, SameK k c)
    (hd : Run.exec (Decoder.step RS) (some (newDecoder params)) history = some d) :
    OnlyK RS params.withDefaults k d := by
  refine Decoder.exec_induct (P := SameK k) ?_ ?_ ?_ hsame ?_ hd
  · intro d now path f r h hc hpush
    exact h.push hc hpush
  · intro d σ now h _
    exact h.tick σ now
  · intro d stats pathSeq h
    exact ⟨h.params, h.blocks, h.cache⟩
  · exact ⟨rfl, fun _ _ hl => by simp [newDecoder] at hl, fun _ _ hl => by simp [newDecoder] at hl⟩

end

/-! ### From the encoder to the decoder -/

section
variable {k p : ℕ} {data : List Frame} {sid : UInt64}

/-- The data frames of a block that is to be encoded: `k` frames of one session
with distinct numbers, not all of them empty. -/
structure DataBlock (k : ℕ) (sid : UInt64) (data : List Frame) : Prop where
  length : data.length = k
  seqs : (data.map Frame.seq).Nodup
  session : ∀ f ∈ data, f.sessionID = sid
  flags : ∀ f ∈ data, f.hasFlag flagFECParity = false ∧ f.hasFlag flagPassSeq = false
  size : ∀ f ∈ data, f.payload.length ≤ 65535
  nonempty : ∃ f ∈ data, f.payload ≠ []

/-- An encoder of blocks with `k` data and `p` parity frames. -/
structure Encoder.Codes (k p : ℕ) (e : Encoder F RS) : Prop where
  pos : 1 ≤ k
  total : k + p ≤ 256
  mds : RS.MDS k p
  enabled : e.params.enabled = true
  shards : e.params.dataShards = k
  parity : e.rsParity = p

/-- A decoder with coding that has only seen blocks of `k` data frames, and neither the block `key`
nor a later one of its stream. -/
structure Decoder.Ready (RS : ReedSolomon C) (params : Params F) (k : ℕ) (key : BlockKey)
    (d : Decoder F C) : Prop where
  enabled : params.enabled = true
  only : OnlyK RS params.withDefaults k d
  fresh : d.blocks.lookup key = none
  last : d.lastFlushed.getD key.stream 0 < key.blockSeq

variable {e : Encoder F RS}

theorem emitBlock_recoverable (he : e.Codes k p) (hdata : DataBlock k sid data) :
    ∃ b : CodedBlock, b.data = data ∧ b.parity = p ∧ b.sessionID = sid ∧ b.Recoverable RS ∧
      (e.emitBlock data).2 = b.wire (e.block + 1) := by
  obtain ⟨c, hnew⟩ := he.mds.new
  have hmax : 0 < maxPayloadLen data := by
    obtain ⟨f, hf, hne⟩ := hdata.nonempty
    exact lt_of_lt_of_le (List.length_pos_of_ne_nil hne) (length_le_maxPayloadLen hf)
  have hplain : (data.map fun f => padTo (maxPayloadLen data) f.payload).length = k := by
    rw [List.length_map, hdata.length]
  obtain ⟨parity, hplen, hpsize, henc⟩ := he.mds.encode hnew hplain hmax (by simp)
  have hkp := he.total
  have hlt : ∀ f ∈ data, f.payload.length < 65536 := fun f hf => Nat.lt_succ_of_le (hdata.size f hf)
  have hfits : ParityFits p data :=
    { pos := by rw [hdata.length]; exact he.pos
      k_lt := fun _ => by rw [hdata.length]; omega
      p_lt := by omega
      len_lt := hlt }
  let b : CodedBlock :=
    { sessionID := sid
      data := data
      parity := p
      shard := fun i => ((data.map fun f => padTo (maxPayloadLen data) f.payload) ++ parity).getD
        (k + i) []
      fits := hfits
      nodup := hdata.seqs
      session := hdata.session }
  have hshard : (List.range p).map (fun i => padTo (maxPayloadLen data) (b.shard i)) = parity := by
    have h := map_shards_behind (data.map fun f => padTo (maxPayloadLen data) f.payload) hpsize
    rwa [hplen, hplain] at h
  refine ⟨b, rfl, rfl, rfl, ⟨?_, ⟨c, ?_, ?_⟩, hmax, hdata.flags⟩, ?_⟩
  · change RS.MDS data.length p
    rw [hdata.length]
    exact he.mds
  · change RS.new data.length p = some c
    rw [hdata.length]
    exact hnew
  · change RS.encode c _ = some (_ ++ (List.range p).map _)
    rw [hshard]
    exact henc
  · have hcodec : e.rs = RS.new k p := by
      rw [← he.shards, ← he.parity]
      exact (e.codec he.enabled).2
    unfold Encoder.emitBlock
    rw [hcodec, hnew, he.shards, he.parity, Int.toNat_natCast, Int.toNat_natCast]
    dsimp only [Option.bind_some]
    rw [henc]
    dsimp only [wire]
    rw [hdata.length]

/-- Where a decoder stands that receives frames of a block the encoder emits, in any order and with
ticks before the deadline. -/
theorem exists_recoveryRun {params : Params F} (he : e.Codes k p) (hdata : DataBlock k sid data)
    {d : Decoder F C} {path : String} (hd : d.Ready RS params k ⟨sid, path, e.block + 1⟩) {now₀ : Time}
    {path₀ : String} {g₀ : Frame} {calls : List Decoder.Call}
    (hcalls : ∀ c ∈ .push now₀ path₀ g₀ :: calls, BlockCall (e.emitBlock data).2 params.crossPath path
      (now₀ + params.withDefaults.blockTimeout) c) :
    let run := Decoder.Call.push now₀ path₀ g₀ :: calls
    let pushed := run.flatMap Decoder.Call.pushed
    ∃ b : CodedBlock, b.data = data ∧ b.parity = p ∧ b.sessionID = sid ∧ b.Recoverable RS ∧
      (e.emitBlock data).2 = b.wire (e.block + 1) ∧ (∀ g ∈ pushed, g ∈ b.wire (e.block + 1)) ∧
      ∃ d', Run.exec (Decoder.step RS) (some d) run = some d' ∧
        RecoveryRun RS params.withDefaults b ⟨sid, path, e.block + 1⟩
          (now₀ + params.withDefaults.blockTimeout) pushed (Decoder.pushReturns RS (some d) run) d' := by
  obtain ⟨b, hbdata, hbparity, hbsid, hb, hwire⟩ := emitBlock_recoverable he hdata
  have hlen := hdata.length
  subst hbdata hbparity hbsid hlen
  rw [hwire] at hcalls ⊢
  intro run pushed
  have hparams := hd.only.params
  have henabled : params.withDefaults.enabled = true := hd.enabled
  obtain ⟨⟨hg, hpath⟩, hrest⟩ := List.forall_mem_cons.mp hcalls
  have hbs : e.block + 1 ≠ 0 := by
    have hlast := hd.last
    grind
  -- the first push, and then the others
  obtain ⟨d₁, ret, hpush, h₁⟩ := RecoveryRun.first ⟨b.sessionID, path, e.block + 1⟩ hb
    (by rw [hparams, henabled]) hd.only.cache rfl hd.fresh hd.last hg
    (by rw [Decoder.streamPath, hparams]; exact hpath) now₀
  rw [hparams] at h₁
  obtain ⟨d', hexec, h'⟩ := h₁.run hb henabled rfl hbs hrest
  have hstep := Decoder.step_push hpush
  have hreturns : Decoder.pushReturns RS (some d) run =
      ret ++ Decoder.pushReturns RS (some d₁) calls := by
    rw [Decoder.pushReturns, hstep]
  have hpushed : pushed = [g₀] ++ calls.flatMap Decoder.Call.pushed := rfl
  rw [← hpushed, ← hreturns] at h'
  refine ⟨b, rfl, rfl, rfl, hb, rfl, ?_, d', by rw [Run.exec_cons, hstep, hexec], h'⟩
  intro g hmem
  obtain ⟨c, hc, hgc⟩ := List.mem_flatMap.mp hmem
  have hcall := hcalls c hc
  cases c with
  | push now path' g' =>
    cases List.mem_singleton.mp hgc
    exact hcall.1
  | tick | takeStreamStats | takePathStats => cases hgc

/-- **Recovery.**  Take the `k + p` frames the encoder emits for a block of `k`
data frames, and a decoder that has only seen blocks of `k` data frames and has
flushed neither this nor a later block of the stream.  However the frames are
pushed, with ticks before the deadline in between: the run does not panic; once
`k` distinct frames, one of them parity, were pushed, the pushes returned exactly
the data frames, in block order; and otherwise they returned nothing, and the tick
at the deadline returns the data frames that arrived. -/
theorem emitBlock_recovered {params : Params F} (henabled : params.enabled = true) (hk : 1 ≤ k)
    (hp : 1 ≤ p) (hkp : k + p ≤ 256) (hmds : RS.MDS k p) {e : Encoder F RS}
    (hcoding : e.params.enabled = true) (hshards : e.params.dataShards = k)
    (hparity : e.rsParity = p) (hdata : DataBlock k sid data) {history : List Decoder.Call}
    (hsame : ∀ c ∈ history, SameK k c) {d : Decoder F C}
    (hd : Run.exec (Decoder.step RS) (some (newDecoder params)) history = some d) {path : String}
    (hfresh : d.blocks.lookup ⟨sid, path, e.block + 1⟩ = none)
    (hlast : d.lastFlushed.getD ⟨sid, path⟩ 0 < e.block + 1) {now₀ : Time} {path₀ : String}
    {g₀ : Frame} {calls : List Decoder.Call}
    (hcalls : ∀ c ∈ .push now₀ path₀ g₀ :: calls, BlockCall (e.emitBlock data).2 params.crossPath path
      (now₀ + params.withDefaults.blockTimeout) c) :
    let run := Decoder.Call.push now₀ path₀ g₀ :: calls
    let pushed := run.flatMap Decoder.Call.pushed
    let enough := k ≤ pushed.toFinset.card ∧ ∃ g ∈ pushed, g.hasFlag flagFECParity = true
    (e.emitBlock data).2.length = k + p ∧
      ∃ d', Run.exec (Decoder.step RS) (some d) run = some d' ∧
        (enough → Decoder.pushReturns RS (some d) run = data.map Frame.plain) ∧
        (¬ enough → Decoder.pushReturns RS (some d) run = [] ∧
          ∀ (σ σ' : IterOrder BlockKey) (now : Time),
            now₀ + params.withDefaults.blockTimeout ≤ now →
            (d'.tick σ now).2.Perm
              ((data.filter fun f => f.stamp (e.block + 1) ∈ pushed).map Frame.plain ++
                (({ d' with blocks := d'.blocks.erase ⟨sid, path, e.block + 1⟩ } :
                  Decoder F C).tick σ' now).2)) := by
  intro run pushed enough
  obtain ⟨b, hbdata, hbparity, hbsid, hb, hwire, hS, d', hexec, h'⟩ := exists_recoveryRun
    ⟨hk, hkp, hmds, hcoding, hshards, hparity⟩ hdata
    ⟨henabled, onlyK_of_history hsame hd, hfresh, hlast⟩ hcalls
  have hlen := hdata.length
  subst hbdata hbparity hbsid hlen
  have henabled₀ : params.withDefaults.enabled = true := henabled
  have henough : b.Enough pushed ↔ enough := enough_iff hb.unflagged hS
  refine ⟨by rw [hwire]; simp [wire], d', hexec, fun h => ?_, fun h => ?_⟩
  · rcases h'.state with ⟨-, -, -, -, hnot, -⟩ | ⟨-, -, -, hout⟩
    · exact absurd (henough.mpr h) hnot
    · exact hout
  · have hnot : ¬ b.Enough pushed := fun h0 => h (henough.mp h0)
    refine ⟨?_, fun σ σ' now hnow => ?_⟩
    · rcases h'.state with ⟨-, -, -, -, -, hout⟩ | ⟨-, -, h0, -⟩
      · exact hout
      · exact absurd h0 hnot
    · have harrived : (b.data.filter fun f => f.stamp (e.block + 1) ∈ pushed) =
          b.data.filter (·.seq ∈ dataSeqs pushed) := by
        apply List.filter_congr
        intro f hf
        exact decide_eq_decide.mpr (seq_mem_dataSeqs hb.unflagged hS hf).symm
      rw [harrived]
      exact h'.tick_deadline henabled₀ rfl hnot σ σ' hnow

end

/-! ### A small block -/

/-- The parity frame and the second data frame recover the first one. -/
theorem emitBlock_recovered_block21 : Decoder.pushReturns smallCodes (some (newDecoder params21))
        [.push 0 "wan0" parityFrame21,
          .push 1 "wan0" { sessionID := 5, seq := 2, blockSeq := 1, payload := [8, 9] }] =
      block21.map Frame.plain := by
  have hblock : DataBlock 2 5 block21 := ⟨rfl, by decide, by decide, by decide, by decide, by decide⟩
  have hshards : encoder21.params.dataShards = (2 : ℕ) := rfl
  have hparity : encoder21.rsParity = (1 : ℕ) := rfl
  have hstart : Run.exec (Decoder.step smallCodes) (some (newDecoder params21)) [] =
      some (newDecoder params21) := rfl
  have hcalls : ∀ c ∈ [Decoder.Call.push 0 "wan0" parityFrame21,
        .push 1 "wan0" { sessionID := 5, seq := 2, blockSeq := 1, payload := [8, 9] }],
      BlockCall (encoder21.emitBlock block21).2 params21.crossPath "wan0"
        (0 + params21.withDefaults.blockTimeout) c := by
    simp only [List.forall_mem_cons, BlockCall]
    exact ⟨by decide, by decide, by simp⟩
  have h := emitBlock_recovered rfl (by decide) (by decide) (by decide) mds_smallCodes rfl
    hshards hparity hblock (by simp) hstart rfl (by decide) hcalls
  exact h.2.choose_spec.2.1 (by decide)

end FlexBraid
