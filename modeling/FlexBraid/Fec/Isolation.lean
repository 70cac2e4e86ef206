import FlexBraid.Fec.DecoderCalls

/-!
# Sessions that share a decoder

One decoder serves all sessions of a server.  Buffers and high-water marks are kept
per session, but the codecs are cached by their number of parity shards alone, and a
panic stops the decoder for everyone.  As long as no other session uses a number of
parity shards with another number of data shards than session `A` does, and the
other sessions' parity frames describe their shards truthfully, the frames that
`A` gets do not depend on the other sessions.

The proof compares every run with the run in which the other sessions are silent.

## Main definitions

* `Frame.geometry` — the sub-header of a parity frame.
* `Decoder.Agree` — two decoders that session `A` cannot tell apart.
* `Decoder.Clean` — a decoder whose other sessions cannot disturb `A`.
* `Decoder.purge`, `Decoder.observed` — the calls that concern a session, and what it
  gets out of a run.

## Main results

* `sessions_isolated` — **what a session gets does not depend on the others**, under
  the condition on their parity frames.
* `codec_shared` — without it, another session's block makes `A` lose a block.
-/

namespace FlexBraid

variable {F C : Type} {RS : ReedSolomon C}

/-- The sub-header of a parity frame that is long enough for it. -/
def Frame.geometry (f : Frame) : Option BlockState.SubHeader :=
  let h := BlockState.readSubHeader f.payload
  if f.hasFlag flagFECParity &&
      decide (parityHdrFixed + 4 * h.k + 2 * h.k + h.maxLen ≤ f.payload.length) then some h
  else none

/-! ### Buffers -/

namespace BlockState

variable {G : ℕ → ℕ → Prop} {st st' : BlockState} {now : Time} {timeout : Duration} {f : Frame}

/-- What taking a frame in does to the geometry and the parity shards. -/
theorem absorb_geometry (h : st.absorb now timeout f = some st') :
    (st'.k = st.k ∧ st'.p = st.p ∧ st'.maxLen = st.maxLen ∧ st'.lens = st.lens ∧
      st'.parity = st.parity) ∨
    ∃ hdr shard, f.geometry = some hdr ∧ st'.k = hdr.k ∧ st'.maxLen = hdr.maxLen ∧
      shard.length = hdr.maxLen ∧ st'.parity = st.parity.insert hdr.pidx shard ∧
      if st.k = 0 then st'.p = hdr.p ∧ st'.lens = (List.range hdr.k).map fun i =>
        uint16 (f.payload.drop (parityHdrFixed + 4 * hdr.k + 2 * i))
      else st'.p = st.p ∧ st'.lens = st.lens ∧ st.k = hdr.k ∧ st.maxLen = hdr.maxLen := by
  rcases absorb_cases h with ⟨hparity, hadd⟩ | ⟨-, rfl⟩
  · obtain ⟨hlen, hk, hmax, hst⟩ := addParity_ok hadd
    refine .inr ⟨readSubHeader f.payload, (f.payload.drop (parityHdrFixed +
      4 * (readSubHeader f.payload).k + 2 * (readSubHeader f.payload).k)).take
      (readSubHeader f.payload).maxLen, ?_, by rw [hst]; exact hk, by rw [hst]; exact hmax, ?_,
      ?_, ?_⟩
    · rw [Frame.geometry, hparity, decide_eq_true hlen]
      rfl
    · rw [List.length_take, List.length_drop]
      omega
    · rw [hst]
      dsimp only
      split <;> rfl
    · split
      · next h0 =>
        rw [hst, if_pos h0]
        exact ⟨rfl, rfl⟩
      · next h0 =>
        rw [if_neg h0] at hk hmax hst
        rw [hst]
        exact ⟨rfl, rfl, hk, hmax⟩
  · exact .inl ⟨rfl, rfl, rfl, rfl, rfl⟩

theorem geometry_absorb (hst : st.k ≠ 0 → G st.k st.p)
    (hf : ∀ hdr, f.geometry = some hdr → G hdr.k hdr.p) (h : st.absorb now timeout f = some st')
    (hk' : st'.k ≠ 0) : G st'.k st'.p := by
  rcases absorb_geometry h with ⟨hk, hp, -⟩ | ⟨hdr, shard, hgeo, hk, -, -, -, hrest⟩
  · rw [hk, hp]
    exact hst (hk ▸ hk')
  · by_cases h0 : st.k = 0
    · rw [if_pos h0] at hrest
      rw [hk, hrest.1]
      exact hf hdr hgeo
    · rw [if_neg h0] at hrest
      rw [hk, hrest.1, ← hrest.2.2.1]
      exact hst h0

/-- A buffer of another session that cannot disturb one whose geometries are `G`: its
shards have their size, and it has no use for the codecs of `G`. -/
structure Foreign (G : ℕ → ℕ → Prop) (st : BlockState) : Prop where
  empty : st.k = 0 → st.parity = ∅
  sized : st.k ≠ 0 → st.Sized
  codec : st.k ≠ 0 → ∀ k, G k st.p → k = st.k

theorem foreign_empty (G : ℕ → ℕ → Prop) : Foreign G {} where
  empty _ := rfl
  sized h := absurd rfl h
  codec h := absurd rfl h

end BlockState

/-- A parity frame of another session that describes its shards truthfully and uses no
number of parity shards for which `G` has another number of data shards. -/
def Frame.Harmless (G : ℕ → ℕ → Prop) (f : Frame) : Prop :=
  ∀ h, f.geometry = some h → 0 < h.k ∧ (∀ k, G k h.p → k = h.k) ∧
    ∀ i < h.k, (uint16 (f.payload.drop (parityHdrFixed + 4 * h.k + 2 * i))).toNat ≤ h.maxLen

theorem BlockState.Foreign.absorb {G : ℕ → ℕ → Prop} {st st' : BlockState} {now : Time}
    {timeout : Duration} {f : Frame} (h : st.Foreign G) (hf : f.Harmless G)
    (habsorb : st.absorb now timeout f = some st') : st'.Foreign G := by
  rcases absorb_geometry habsorb with ⟨hk, hp, hmax, hlens, hpar⟩ |
    ⟨hdr, shard, hgeo, hk, hmax, hshard, hpar, hrest⟩
  · refine ⟨fun h0 => ?_, fun h0 => ⟨?_, ?_⟩, fun h0 => ?_⟩
    · rw [hpar]
      exact h.empty (hk ▸ h0)
    · rw [hpar, hmax]
      exact (h.sized (hk ▸ h0)).parity
    · rw [hlens, hmax]
      exact (h.sized (hk ▸ h0)).lens
    · rw [hp, hk]
      exact h.codec (hk ▸ h0)
  · obtain ⟨hpos, hcodec, hlen⟩ := hf hdr hgeo
    by_cases h0 : st.k = 0
    · -- the first parity frame of the block
      rw [if_pos h0] at hrest
      obtain ⟨hp, hlens⟩ := hrest
      refine ⟨fun h1 => by omega, fun _ => ⟨fun i s hs => ?_, fun l hl => ?_⟩, fun _ => ?_⟩
      · rw [hpar, h.empty h0, AList.lookup_insert_eq] at hs
        split at hs
        · cases hs
          rw [hshard, hmax]
        · cases hs
      · rw [hlens] at hl
        obtain ⟨i, hi, rfl⟩ := List.mem_map.mp hl
        rw [hmax]
        exact hlen i (List.mem_range.mp hi)
      · rw [hp, hk]
        exact hcodec
    · rw [if_neg h0] at hrest
      obtain ⟨hp, hlens, hk', hmax'⟩ := hrest
      refine ⟨fun h1 => by omega, fun _ => ⟨fun i s hs => ?_, ?_⟩, fun _ => ?_⟩
      · rw [hpar, AList.lookup_insert_eq] at hs
        split at hs
        · cases hs
          rw [hshard, hmax]
        · rw [hmax, ← hmax']
          exact (h.sized h0).parity i s hs
      · rw [hlens, hmax, ← hmax']
        exact (h.sized h0).lens
      · rw [hp, hk, ← hk']
        exact h.codec h0

namespace Decoder

/-! ### The codec a block gets -/

variable (RS) in
/-- The codec that the cache or the library has for a block. -/
def codecAt (cache : GoMap ℕ C) (k p : ℕ) : Option C := (cache.lookup p).or (RS.new k p)

theorem rsFor_snd (d : Decoder F C) (k p : ℕ) :
    (d.rsFor RS k p).2 = codecAt RS d.rsByParity k p := by
  unfold rsFor codecAt
  cases d.rsByParity.lookup p with
  | some c => rfl
  | none => cases RS.new k p <;> rfl

theorem codecAt_rsFor (d : Decoder F C) (k p k' p' : ℕ) :
    codecAt RS (d.rsFor RS k p).1.rsByParity k' p' =
      if p' = p then (codecAt RS d.rsByParity k p).or (codecAt RS d.rsByParity k' p')
      else codecAt RS d.rsByParity k' p' := by
  by_cases hp : p' = p
  · subst hp
    rw [if_pos rfl]
    unfold rsFor codecAt
    cases hl : d.rsByParity.lookup p' with
    | some c => simp [hl]
    | none =>
      cases hnew : RS.new k p' with
      | none => simp [hl]
      | some c => simp
  · rw [if_neg hp]
    unfold rsFor codecAt
    cases d.rsByParity.lookup p with
    | some c => rfl
    | none =>
      cases RS.new k p with
      | none => rfl
      | some c =>
        dsimp only
        rw [AList.lookup_insert_ne hp]

theorem codecAt_cacheFrom {k p : ℕ} {old cache : GoMap ℕ C} (h : CacheFrom RS k p old cache)
    {k' p' : ℕ} (hne : p' = p → k' = k) : codecAt RS cache k' p' = codecAt RS old k' p' := by
  rcases h with rfl | ⟨hnone, c, hnew, rfl⟩
  · rfl
  · rw [codecAt, codecAt, AList.lookup_insert_eq]
    split
    · next hp => rw [hne hp, hp, hnone, hnew]; rfl
    · rfl

/-! ### Decoders that a session cannot tell apart -/

/-- Two decoders with the same buffers, high-water marks and codecs as far as session
`A` and its geometries `G` are concerned. -/
structure Agree (RS : ReedSolomon C) (A : UInt64) (G : ℕ → ℕ → Prop) (d₁ d₂ : Decoder F C) :
    Prop where
  params : d₁.params = d₂.params
  blocks : ∀ key, key.sessionID = A → d₁.blocks.lookup key = d₂.blocks.lookup key
  last : ∀ sk, sk.sessionID = A → d₁.lastFlushed.getD sk 0 = d₂.lastFlushed.getD sk 0
  codec : ∀ k p, G k p → codecAt RS d₁.rsByParity k p = codecAt RS d₂.rsByParity k p

variable {A : UInt64} {G : ℕ → ℕ → Prop} {d d₁ d₂ d₃ : Decoder F C}

namespace Agree

theorem refl (d : Decoder F C) : Agree RS A G d d :=
  ⟨rfl, fun _ _ => rfl, fun _ _ => rfl, fun _ _ _ => rfl⟩

theorem symm (h : Agree RS A G d₁ d₂) : Agree RS A G d₂ d₁ :=
  ⟨h.params.symm, fun key hk => (h.blocks key hk).symm, fun sk hk => (h.last sk hk).symm,
    fun k p hG => (h.codec k p hG).symm⟩

theorem trans (h : Agree RS A G d₁ d₂) (h' : Agree RS A G d₂ d₃) : Agree RS A G d₁ d₃ :=
  ⟨h.params.trans h'.params, fun key hk => (h.blocks key hk).trans (h'.blocks key hk),
    fun sk hk => (h.last sk hk).trans (h'.last sk hk),
    fun k p hG => (h.codec k p hG).trans (h'.codec k p hG)⟩

theorem flush (h : Agree RS A G d₁ d₂) (key : BlockKey) (st : BlockState) :
    Agree RS A G (d₁.flush key st).1 (d₂.flush key st).1 := by
  refine ⟨h.params, fun key' hk => ?_, fun sk hk => ?_, h.codec⟩
  · rw [flush_blocks, flush_blocks, AList.lookup_erase_eq, AList.lookup_erase_eq, h.blocks key' hk]
  · rw [flush_lastFlushed, flush_lastFlushed, h.last sk hk]

theorem rsFor (h : Agree RS A G d₁ d₂) {k p : ℕ} (hG : G k p) :
    (d₁.rsFor RS k p).2 = (d₂.rsFor RS k p).2 ∧
      Agree RS A G (d₁.rsFor RS k p).1 (d₂.rsFor RS k p).1 := by
  refine ⟨by rw [rsFor_snd, rsFor_snd, h.codec k p hG], ?_⟩
  obtain ⟨cache₁, h₁, -⟩ := d₁.rsFor_eq RS k p
  obtain ⟨cache₂, h₂, -⟩ := d₂.rsFor_eq RS k p
  refine ⟨by rw [h₁, h₂]; exact h.params, by rw [h₁, h₂]; exact h.blocks,
    by rw [h₁, h₂]; exact h.last, fun k' p' hG' => ?_⟩
  rw [codecAt_rsFor, codecAt_rsFor, h.codec k p hG, h.codec k' p' hG']

end Agree

theorem fillMissing_fst (data : GoMap UInt32 Bytes) (n m : ℕ) (seqs : List UInt32)
    (lens : List UInt16) (shards : List Shard) :
    (BlockState.fillMissing data n seqs lens shards).map Prod.fst =
      (BlockState.fillMissing data m seqs lens shards).map Prod.fst := by
  induction data, n, seqs, lens, shards using BlockState.fillMissing.induct generalizing m with
  | case1 data n s seqs len lens shard shards hsome ih =>
    rw [BlockState.fillMissing, if_pos hsome, BlockState.fillMissing, if_pos hsome]
    exact ih m
  | case2 data n s seqs len lens shard shards hsome hslice =>
    rw [BlockState.fillMissing, if_neg hsome, hslice, BlockState.fillMissing, if_neg hsome, hslice]
  | case3 data n s seqs len lens shard shards hsome payload hslice ih =>
    rw [BlockState.fillMissing, if_neg hsome, hslice, BlockState.fillMissing, if_neg hsome, hslice]
    exact ih (m + 1)
  | case4 data n seqs lens shards hne =>
    rw [BlockState.fillMissing, BlockState.fillMissing]
    · rfl
    · exact hne
    · exact hne

/-- The same results: both calls panic, or both return the same frames and leave
decoders that agree. -/
def SameResult (RS : ReedSolomon C) (A : UInt64) (G : ℕ → ℕ → Prop) :
    Option (Decoder F C × List Frame) → Option (Decoder F C × List Frame) → Prop :=
  Option.Rel fun r₁ r₂ => r₁.2 = r₂.2 ∧ Agree RS A G r₁.1 r₂.1

/-- A delivery attempt on a block of session `A`. -/
theorem Agree.maybeDeliver (h : Agree RS A G d₁ d₂) (key : BlockKey) {st : BlockState}
    (hst : st.k ≠ 0 → G st.k st.p) :
    SameResult RS A G (d₁.maybeDeliver RS key st) (d₂.maybeDeliver RS key st) := by
  unfold Decoder.maybeDeliver
  split_ifs with hk
  · exact .some ⟨rfl, h⟩
  · exact .some ⟨rfl, h⟩
  · exact .some ⟨rfl, h.flush key st⟩
  · unfold Decoder.reconstruct
    obtain ⟨hcodec, hagree⟩ := h.rsFor (hst hk)
    cases h₁ : d₁.rsFor RS st.k st.p with
    | mk e₁ c₁ =>
      cases h₂ : d₂.rsFor RS st.k st.p with
      | mk e₂ c₂ =>
        rw [h₁, h₂] at hcodec hagree
        dsimp only at hcodec hagree
        subst hcodec
        cases c₁ with
        | none => exact .some ⟨rfl, hagree⟩
        | some c =>
          dsimp only
          cases RS.reconstruct c st.shards with
          | none => exact .some ⟨rfl, hagree⟩
          | some shards =>
            dsimp only
            have hfill := fillMissing_fst st.data e₁.recovered e₂.recovered st.seqs st.lens shards
            cases hf₁ : BlockState.fillMissing st.data e₁.recovered st.seqs st.lens shards with
            | none =>
              rw [hf₁, Option.map_none] at hfill
              rw [Option.map_eq_none_iff.mp hfill.symm]
              exact .none
            | some r₁ =>
              rw [hf₁, Option.map_some] at hfill
              obtain ⟨r₂, hf₂, hr⟩ := Option.map_eq_some_iff.mp hfill.symm
              rw [hf₂]
              dsimp only
              rw [hr]
              refine .some ⟨rfl, ?_⟩
              have hcount : Agree RS A G { e₁ with recovered := r₁.2 }
                  { e₂ with recovered := r₂.2 } :=
                ⟨hagree.params, hagree.blocks, hagree.last, hagree.codec⟩
              exact hcount.flush key _

variable {f : Frame}

/-- **A push of session `A`** has the same result in decoders that agree. -/
theorem Agree.push (h : Agree RS A G d₁ d₂) (henabled : d₁.params.enabled = true)
    (hown : ∀ key st, key.sessionID = A → d₁.blocks.lookup key = some st → st.k ≠ 0 → G st.k st.p)
    (now : Time) (path : String) (hsid : f.sessionID = A)
    (hgeo : ∀ hdr, f.geometry = some hdr → G hdr.k hdr.p) :
    SameResult RS A G (d₁.push RS now path f) (d₂.push RS now path f) := by
  have henabled' : d₂.params.enabled = true := by rw [← h.params, henabled]
  cases hcoded : f.coded with
  | false =>
    obtain ⟨pathSeq₁, hp₁⟩ := push_of_not_coded RS henabled hcoded
    obtain ⟨pathSeq₂, hp₂⟩ := push_of_not_coded RS henabled' hcoded
    rw [hp₁, hp₂]
    exact .some ⟨rfl, h.params, h.blocks, h.last, h.codec⟩
  | true =>
    have hkey : d₂.blockKey path f = d₁.blockKey path f := by
      rw [blockKey, blockKey, streamPath, streamPath, h.params]
    rw [push_of_coded RS henabled hcoded, push_of_coded RS henabled' hcoded, hkey]
    have hA : (d₁.blockKey path f).sessionID = A := hsid
    generalize d₁.blockKey path f = key at *
    have hlook := h.blocks key hA
    have hlate : d₂.late key = d₁.late key := by
      rw [late, late, hlook, h.last key.stream hA]
    have hat : d₂.blockAt key = d₁.blockAt key := by rw [blockAt, blockAt, hlook]
    rw [hlate, hat]
    split
    · exact .some ⟨rfl, h⟩
    · have hopen : Agree RS A G (d₁.openBlock key) (d₂.openBlock key) := by
        refine ⟨h.params, fun key' hk => ?_, h.last, h.codec⟩
        rw [lookup_openBlock, lookup_openBlock, hat, h.blocks key' hk]
      obtain ⟨stats₁, heq₁⟩ := (d₁.openBlock key).pushBlock_eq RS now key (d₁.blockAt key) f
      obtain ⟨stats₂, heq₂⟩ := (d₂.openBlock key).pushBlock_eq RS now key (d₁.blockAt key) f
      have htimeout : (d₂.openBlock key).params.blockTimeout =
          (d₁.openBlock key).params.blockTimeout := by rw [hopen.params]
      rw [heq₁, heq₂, htimeout]
      split
      · exact .some ⟨rfl, hopen⟩
      · split
        · exact .some ⟨rfl, hopen⟩
        · next st' habsorb =>
          refine Agree.maybeDeliver ?_ key ?_
          · refine ⟨hopen.params, fun key' hk => ?_, hopen.last, hopen.codec⟩
            rw [AList.lookup_insert_eq, AList.lookup_insert_eq, hopen.blocks key' hk]
          · -- the geometry of the buffer comes from a frame of the session
            have hat' := blockAt_induct (Q := fun st => st.k ≠ 0 → G st.k st.p)
              (fun h0 => absurd rfl h0) fun st => hown key st hA
            exact BlockState.geometry_absorb hat' hgeo habsorb

/-! ### Decoders that other sessions cannot disturb -/

/-- A buffer of session `A` has one of its geometries, and one of another session is
harmless. -/
def Fine (A : UInt64) (G : ℕ → ℕ → Prop) (key : BlockKey) (st : BlockState) : Prop :=
  (key.sessionID = A → st.k ≠ 0 → G st.k st.p) ∧ (key.sessionID ≠ A → st.Foreign G)

/-- All buffers are fine, and the cache holds codecs of the library. -/
structure Clean (RS : ReedSolomon C) (A : UInt64) (G : ℕ → ℕ → Prop) (d : Decoder F C) : Prop where
  enabled : d.params.enabled = true
  blocks : ∀ key st, d.blocks.lookup key = some st → Fine A G key st
  cache : ∀ p c, d.rsByParity.lookup p = some c → ∃ k p', RS.new k p' = some c

/-- The parity frames of session `A` have geometries of `G`, and those of other sessions
are harmless. -/
def FineFrame (A : UInt64) (G : ℕ → ℕ → Prop) (f : Frame) : Prop :=
  (f.sessionID = A → ∀ hdr, f.geometry = some hdr → G hdr.k hdr.p) ∧
    (f.sessionID ≠ A → f.Harmless G)

theorem fine_empty (A : UInt64) (G : ℕ → ℕ → Prop) (key : BlockKey) : Fine A G key {} :=
  ⟨fun _ h0 => absurd rfl h0, fun _ => BlockState.foreign_empty G⟩

theorem Fine.absorb {key : BlockKey} {st st' : BlockState} (h : Fine A G key st)
    (hkey : key.sessionID = f.sessionID) (hf : FineFrame A G f) {now : Time} {timeout : Duration}
    (habsorb : st.absorb now timeout f = some st') : Fine A G key st' :=
  ⟨fun hA => BlockState.geometry_absorb (h.1 hA) (hf.1 (hkey ▸ hA)) habsorb,
    fun hA => (h.2 hA).absorb (hf.2 (hkey ▸ hA)) habsorb⟩

theorem Clean.push (h : Clean RS A G d) {now : Time} {path : String} (hf : FineFrame A G f)
    {r : Decoder F C × List Frame} (hpush : d.push RS now path f = some r) : Clean RS A G r.1 := by
  obtain ⟨hparams, hblocks, hcache⟩ := forall_buffers_push h.blocks (fine_empty A G _)
    (fun st st' hst habsorb => hst.absorb rfl hf habsorb) hpush
  refine ⟨by rw [hparams]; exact h.enabled, hblocks, fun p c hc => ?_⟩
  exact (hcache p c hc).elim (h.cache p c) fun ⟨_, _, _, _, hnew⟩ => ⟨_, _, hnew⟩

theorem Clean.tick (h : Clean RS A G d) (σ : IterOrder BlockKey) (now : Time) :
    Clean RS A G (d.tick σ now).1 := by
  obtain ⟨hparams, hcodecs, hblocks⟩ := d.tick_leaves σ now
  exact ⟨by rw [hparams]; exact h.enabled, fun key st hl => h.blocks key st (hblocks key st hl),
    by rw [hcodecs]; exact h.cache⟩

/-- **A push of another session** does not panic, returns nothing to session `A`, and
leaves a decoder that `A` cannot tell from the one before. -/
theorem agree_push_other (hlaw : RS.Lawful) (h : Clean RS A G d) (now : Time) (path : String)
    (hsid : f.sessionID ≠ A) (hf : FineFrame A G f) :
    ∃ r, d.push RS now path f = some r ∧ Agree RS A G d r.1 ∧ ∀ g ∈ r.2, g.sessionID ≠ A := by
  obtain ⟨r, hpush⟩ := exists_push hlaw h.blocks (fine_empty A G _)
    (fun st st' hst habsorb => hst.absorb rfl hf habsorb) (fun st hst => (hst.2 hsid).sized) h.cache
  refine ⟨r, hpush, ?_⟩
  cases hcoded : f.coded with
  | false =>
    obtain ⟨pathSeq, hp⟩ : ∃ pathSeq, d.push RS now path f = _ :=
      push_of_not_coded RS h.enabled hcoded
    rw [hp] at hpush
    cases hpush
    exact ⟨⟨rfl, fun _ _ => rfl, fun _ _ => rfl, fun _ _ _ => rfl⟩, by simpa using hsid⟩
  | true =>
    have hcases := codedPush h.enabled hcoded hpush
    have hkey : (d.blockKey path f).sessionID = f.sessionID := rfl
    generalize d.blockKey path f = key at *
    have hne : ∀ key', key'.sessionID = A → key' ≠ key := by
      rintro key' hA rfl
      exact hsid (hkey ▸ hA)
    have hat : Fine A G key (d.blockAt key) := blockAt_induct (fine_empty A G key) (h.blocks key)
    -- the codec that the block may add is none that session `A` uses
    have hcodec : ∀ {st cache}, (d.blockAt key).absorb now d.params.blockTimeout f = some st →
        (st.k = 0 → cache = d.rsByParity) → CacheFrom RS st.k st.p d.rsByParity cache →
        ∀ k p, G k p → codecAt RS d.rsByParity k p = codecAt RS cache k p := by
      intro st cache habsorb hzero hfrom k p hG
      by_cases hk : st.k = 0
      · rw [hzero hk]
      · have hforeign := (hat.absorb hkey hf habsorb).2 (hkey ▸ hsid)
        exact (codecAt_cacheFrom hfrom fun hp => hforeign.codec hk k (hp ▸ hG)).symm
    cases hcases with
    | late => exact ⟨.refl d, by simp⟩
    | refused =>
      refine ⟨⟨rfl, fun key' hA => ?_, fun _ _ => rfl, fun _ _ _ => rfl⟩, by simp⟩
      rw [lookup_openBlock, if_neg (hne key' hA)]
    | kept _ habsorb hzero hfrom =>
      refine ⟨⟨rfl, fun key' hA => ?_, fun _ _ => rfl, hcodec habsorb hzero hfrom⟩, by simp⟩
      rw [lookup_insert_openBlock, if_neg (hne key' hA)]
    | flushed _ habsorb hk hfrom =>
      refine ⟨⟨rfl, fun key' hA => ?_, fun sk hA => ?_,
        hcodec habsorb (fun h0 => absurd h0 hk) hfrom⟩, fun g hg => ?_⟩
      · rw [flush_blocks, AList.lookup_erase_ne (hne key' hA), lookup_insert_openBlock,
          if_neg (hne key' hA)]
      · rw [flush_lastFlushed, if_neg]
        rintro ⟨rfl, -⟩
        exact hne key hA rfl
      · rw [BlockState.sessionID_of_mem_frames hg, hkey]
        exact hsid

/-! ### Ticks -/

/-- The frames of session `A` among those a call returns. -/
def mine (A : UInt64) (out : List Frame) : Multiset Frame := ↑(out.filter (·.sessionID = A))

theorem mine_of_other {out : List Frame} (h : ∀ g ∈ out, g.sessionID ≠ A) : mine A out = 0 := by
  rw [mine, List.filter_eq_nil_iff.mpr fun g hg => by simpa using h g hg]
  rfl

theorem mine_tick (henabled : d.params.enabled = true) (σ : IterOrder BlockKey) (now : Time) :
    mine A (d.tick σ now).2 = ↑(d.blocks.gather fun key st =>
      if key.sessionID = A ∧ st.overdue now = true then st.frames key.sessionID else []) := by
  rw [mine, (ticked_tick henabled σ now).2, Multiset.coe_eq_coe, List.filter_flatMap]
  refine ((σ.perm _).flatMap_right _).trans (List.Perm.of_eq (List.flatMap_congr fun key _ => ?_))
  unfold dueFrames AList.gatherAt
  cases hl : d.blocks.lookup key with
  | none => rfl
  | some st =>
    dsimp only [Option.elim_some]
    by_cases hA : key.sessionID = A
    · by_cases hdue : st.overdue now = true
      · rw [if_pos hdue, if_pos ⟨hA, hdue⟩, List.filter_eq_self]
        intro g hg
        rw [BlockState.sessionID_of_mem_frames hg, hA]
        exact decide_eq_true rfl
      · rw [if_neg hdue, if_neg fun h0 => hdue h0.2]
        rfl
    · have hnot : ¬ (key.sessionID = A ∧ st.overdue now = true) := fun h0 => hA h0.1
      rw [if_neg hnot, List.filter_eq_nil_iff]
      intro g hg
      split at hg
      · rw [BlockState.sessionID_of_mem_frames hg]
        simpa using hA
      · cases hg

theorem Agree.tick_last_le (h : Agree RS A G d₁ d₂) (h₁ : d₁.params.enabled = true)
    (h₂ : d₂.params.enabled = true) (σ₁ σ₂ : IterOrder BlockKey) (now : Time) {sk : StreamKey}
    (hA : sk.sessionID = A) :
    (d₁.tick σ₁ now).1.lastFlushed.getD sk 0 ≤ (d₂.tick σ₂ now).1.lastFlushed.getD sk 0 := by
  obtain ⟨ht₁, -⟩ := ticked_tick h₁ σ₁ now
  obtain ⟨ht₂, -⟩ := ticked_tick h₂ σ₂ now
  rcases ht₁.last sk with hsame | ⟨key, -, st, hl, hdue, hsk, hlast⟩
  · have hmono : d₂.lastFlushed.getD sk 0 ≤ (d₂.tick σ₂ now).1.lastFlushed.getD sk 0 := ht₂.mono sk
    rw [hsame]
    change d₁.lastFlushed.getD sk 0 ≤ _
    rwa [h.last sk hA]
  · have hkA : key.sessionID = A := by rw [← hA, ← hsk]; rfl
    have hl₂ : d₂.blocks.lookup key = some st := by rw [← h.blocks key hkA]; exact hl
    rw [← hlast, ← hsk]
    exact ht₂.le_last key (σ₂.mem_visit_keys.mpr (AList.mem_of_lookup hl₂)) st hl₂ hdue

/-- **A tick** returns the same frames to session `A` in decoders that agree, whatever the
orders in which their buffers are visited. -/
theorem Agree.tick (h : Agree RS A G d₁ d₂) (h₁ : d₁.params.enabled = true)
    (σ₁ σ₂ : IterOrder BlockKey) (now : Time) : Agree RS A G (d₁.tick σ₁ now).1 (d₂.tick σ₂ now).1 ∧
      mine A (d₁.tick σ₁ now).2 = mine A (d₂.tick σ₂ now).2 := by
  have h₂ : d₂.params.enabled = true := by rw [← h.params, h₁]
  obtain ⟨ht₁, -⟩ := ticked_tick h₁ σ₁ now
  obtain ⟨ht₂, -⟩ := ticked_tick h₂ σ₂ now
  refine ⟨⟨(ht₁.params.trans h.params).trans ht₂.params.symm, fun key hA => ?_, fun sk hA => ?_,
    fun k p hG => ?_⟩, ?_⟩
  · rw [lookup_tick h₁, lookup_tick h₂, h.blocks key hA]
  · exact UInt32.le_antisymm (h.tick_last_le h₁ h₂ σ₁ σ₂ now hA)
      (h.symm.tick_last_le h₂ h₁ σ₂ σ₁ now hA)
  · rw [ht₁.rsByParity, ht₂.rsByParity]
    exact h.codec k p hG
  · rw [mine_tick h₁, mine_tick h₂, Multiset.coe_eq_coe]
    refine AList.gather_perm_of_eq _ fun key => ?_
    by_cases hA : key.sessionID = A
    · rw [AList.gatherAt, AList.gatherAt, h.blocks key hA]
    · have hnil : ∀ m : GoMap BlockKey BlockState, m.gatherAt (fun key st =>
          if key.sessionID = A ∧ st.overdue now = true then st.frames key.sessionID else []) key =
          [] := by
        intro m
        rw [AList.gatherAt]
        cases m.lookup key with
        | none => rfl
        | some st => exact if_neg fun h0 => hA h0.1
      rw [hnil, hnil]

/-! ### Whole runs -/

/-- What a call is to session `A`: its own pushes, and ticks without the order in which
the buffers are visited. -/
def Call.view (A : UInt64) : Call → Option Call
  | .push now path f => if f.sessionID = A then some (.push now path f) else none
  | .tick _ now => some (.tick .plain now)
  | _ => none

theorem view_push_self (hsid : f.sessionID = A) (now : Time) (path : String) :
    Call.view A (.push now path f) = some (.push now path f) := if_pos hsid

theorem view_push_other (hsid : f.sessionID ≠ A) (now : Time) (path : String) :
    Call.view A (.push now path f) = none := if_neg hsid

/-- The calls that concern session `A`. -/
def purge (A : UInt64) (calls : List Call) : List Call := calls.filterMap (Call.view A)

variable (RS) in
/-- What session `A` gets out of a run: the frames with its ID that each call returns,
for the calls that concern it and for any other call that returns such frames. -/
def observed (A : UInt64) : Option (Decoder F C) → List Call → List (Multiset Frame)
  | _, [] => []
  | s, c :: calls =>
    let r := step RS s c
    if (c.view A).isSome ∨ mine A r.2 ≠ 0 then mine A r.2 :: observed A r.1 calls
    else observed A r.1 calls

/-- The geometries of the parity frames that session `A` pushes. -/
def geometries (A : UInt64) (calls : List Call) (k p : ℕ) : Prop :=
  ∃ f ∈ calls.flatMap Call.pushed, f.sessionID = A ∧ ∃ h, f.geometry = some h ∧ h.k = k ∧ h.p = p

/-- Both decoders panicked, or neither did and they agree. -/
def AgreeState (RS : ReedSolomon C) (A : UInt64) (G : ℕ → ℕ → Prop) :
    Option (Decoder F C) → Option (Decoder F C) → Prop :=
  Option.Rel fun d₁ d₂ => Agree RS A G d₁ d₂ ∧ Clean RS A G d₁ ∧ Clean RS A G d₂

theorem agreeState_step (hlaw : RS.Lawful) {s₁ s₂ : Option (Decoder F C)}
    (h : AgreeState RS A G s₁ s₂) {c : Call} (hc : ∀ f ∈ c.pushed, FineFrame A G f) :
    match c.view A with
    | some c' => AgreeState RS A G (step RS s₁ c).1 (step RS s₂ c').1 ∧
        mine A (step RS s₁ c).2 = mine A (step RS s₂ c').2
    | none => AgreeState RS A G (step RS s₁ c).1 s₂ ∧ mine A (step RS s₁ c).2 = 0 := by
  cases h with
  | none =>
    cases c.view A with
    | none => exact ⟨.none, rfl⟩
    | some c' => exact ⟨.none, rfl⟩
  | @some d₁ d₂ h =>
    obtain ⟨hagree, h₁, h₂⟩ := h
    cases c with
    | push now path f =>
      have hf := hc f (List.mem_singleton_self f)
      by_cases hsid : f.sessionID = A
      · rw [view_push_self hsid]
        have hsame := hagree.push h₁.enabled (fun key st hA hl => (h₁.blocks key st hl).1 hA)
          now path hsid (hf.1 hsid)
        dsimp only
        generalize hp₁ : d₁.push RS now path f = o₁, hp₂ : d₂.push RS now path f = o₂ at hsame
        cases hsame with
        | none =>
          rw [step, hp₁, step, hp₂]
          exact ⟨.none, rfl⟩
        | some hsame =>
          rw [step_push hp₁, step_push hp₂]
          exact ⟨.some ⟨hsame.2, h₁.push hf hp₁, h₂.push hf hp₂⟩, by rw [hsame.1]⟩
      · rw [view_push_other hsid]
        obtain ⟨r, hpush, hr, hout⟩ := agree_push_other hlaw h₁ now path hsid hf
        rw [step_push hpush]
        exact ⟨.some ⟨hr.symm.trans hagree, h₁.push hf hpush, h₂⟩, mine_of_other hout⟩
    | tick σ now =>
      obtain ⟨ha, hm⟩ := hagree.tick h₁.enabled σ .plain now
      exact ⟨.some ⟨ha, h₁.tick σ now, h₂.tick .plain now⟩, hm⟩
    | takeStreamStats sid path =>
      exact ⟨.some ⟨⟨hagree.params, hagree.blocks, hagree.last, hagree.codec⟩,
        ⟨h₁.enabled, h₁.blocks, h₁.cache⟩, h₂⟩, rfl⟩
    | takePathStats sid path =>
      exact ⟨.some ⟨⟨hagree.params, hagree.blocks, hagree.last, hagree.codec⟩,
        ⟨h₁.enabled, h₁.blocks, h₁.cache⟩, h₂⟩, rfl⟩

theorem observed_purge (hlaw : RS.Lawful) {s₁ s₂ : Option (Decoder F C)}
    (h : AgreeState RS A G s₁ s₂) {calls : List Call}
    (hcalls : ∀ f ∈ calls.flatMap Call.pushed, FineFrame A G f) :
    observed RS A s₁ calls = observed RS A s₂ (purge A calls) := by
  induction calls generalizing s₁ s₂ with
  | nil => rfl
  | cons c calls ih =>
    rw [List.flatMap_cons, List.forall_mem_append] at hcalls
    have hstep := agreeState_step hlaw h hcalls.1
    rw [purge, List.filterMap_cons, observed]
    cases hview : c.view A with
    | none =>
      rw [hview] at hstep
      obtain ⟨hnext, hnone⟩ := hstep
      rw [if_neg (by simp [hnone])]
      exact ih hnext hcalls.2
    | some c' =>
      rw [hview] at hstep
      obtain ⟨hnext, hsame⟩ := hstep
      have hview' : (c'.view A).isSome := by
        cases c with
        | push now path f =>
          by_cases hsid : f.sessionID = A
          · rw [view_push_self hsid] at hview
            cases hview
            rw [view_push_self hsid]
            rfl
          · rw [view_push_other hsid] at hview
            cases hview
        | tick σ now =>
          cases hview
          rfl
        | takeStreamStats | takePathStats => cases hview
      rw [if_pos (.inl rfl), observed, if_pos (.inl hview'), hsame]
      exact congrArg _ (ih hnext hcalls.2)

theorem mem_pushed_purge {calls : List Call} (hsid : f.sessionID = A) :
    f ∈ (purge A calls).flatMap Call.pushed ↔ f ∈ calls.flatMap Call.pushed := by
  induction calls with
  | nil => rfl
  | cons c calls ih =>
    rw [purge, List.filterMap_cons]
    cases c with
    | push now path g =>
      by_cases hg : g.sessionID = A
      · rw [view_push_self hg]
        simp only [List.flatMap_cons, List.mem_append]
        exact or_congr_right ih
      · rw [view_push_other hg, List.flatMap_cons,
          List.mem_append, Call.pushed, List.mem_singleton]
        have hne : f ≠ g := by
          rintro rfl
          exact hg hsid
        rw [or_iff_right hne]
        exact ih
    | tick σ now => exact ih
    | takeStreamStats | takePathStats => exact ih

/-- **What a session gets does not depend on the others.**  In two runs that agree on the
pushes of session `A` and on the ticks, and in which the parity frames of the other
sessions describe their shards truthfully and use no number of parity shards that
`A` uses with another number of data shards, every call returns the same frames
with the ID of `A`. -/
theorem sessions_isolated (hlaw : RS.Lawful) {params : Params F} (henabled : params.enabled = true)
    {A : UInt64} {calls₁ calls₂ : List Call} (hpurge : purge A calls₁ = purge A calls₂)
    (h₁ : ∀ f ∈ calls₁.flatMap Call.pushed, f.sessionID ≠ A → f.Harmless (geometries A calls₁))
    (h₂ : ∀ f ∈ calls₂.flatMap Call.pushed, f.sessionID ≠ A → f.Harmless (geometries A calls₂)) :
    observed RS A (some (newDecoder params)) calls₁ =
      observed RS A (some (newDecoder params)) calls₂ := by
  have hgeo : geometries A calls₂ = geometries A calls₁ := by
    funext k p
    refine propext (exists_congr fun f => ?_)
    constructor
    · rintro ⟨hmem, hsid, hf⟩
      rw [← mem_pushed_purge hsid, ← hpurge, mem_pushed_purge hsid] at hmem
      exact ⟨hmem, hsid, hf⟩
    · rintro ⟨hmem, hsid, hf⟩
      rw [← mem_pushed_purge hsid, hpurge, mem_pushed_purge hsid] at hmem
      exact ⟨hmem, hsid, hf⟩
  have hstart : AgreeState RS A (geometries A calls₁) (some (newDecoder params : Decoder F C))
      (some (newDecoder params)) := by
    have hclean : Clean RS A (geometries A calls₁) (newDecoder params : Decoder F C) :=
      ⟨henabled, fun _ _ hl => (by cases hl), fun _ _ hl => (by cases hl)⟩
    exact .some ⟨.refl _, hclean, hclean⟩
  have hfine : ∀ calls, geometries A calls = geometries A calls₁ →
      (∀ f ∈ calls.flatMap Call.pushed, f.sessionID ≠ A → f.Harmless (geometries A calls)) →
      ∀ f ∈ calls.flatMap Call.pushed, FineFrame A (geometries A calls₁) f := by
    intro calls heq hother f hf
    rw [← heq]
    exact ⟨fun hsid hdr hg => ⟨f, hf, hsid, hdr, hg, rfl, rfl⟩, hother f hf⟩
  rw [observed_purge hlaw hstart (hfine calls₁ rfl h₁), hpurge,
    ← observed_purge hlaw hstart (hfine calls₂ hgeo h₂)]

/-- A parity frame of another session, for a block of one data frame. -/
def otherParity : Frame :=
  parityFrame 1 1 1 [{ sessionID := 9, seq := 4, payload := [1] }] 0 [1]

/-- A run with another session's block of the same geometry, and one without it. -/
theorem sessions_isolated_block21 : observed smallCodes 5 (some (newDecoder params21))
        [.push 0 "wan0" { parityFrame21 with sessionID := 9 }, .push 1 "wan0" parityFrame21] =
      observed smallCodes 5 (some (newDecoder params21)) [.push 1 "wan0" parityFrame21] := by
  have hgeo : ∀ calls k p, geometries 5 (calls ++ [.push 1 "wan0" parityFrame21]) k p →
      (∀ f ∈ calls.flatMap Call.pushed, f.sessionID ≠ 5) → k = 2 := by
    rintro calls k p ⟨f, hf, hsid, h, hh, rfl, -⟩ hother
    rw [List.flatMap_append, List.mem_append] at hf
    rcases hf with hf | hf
    · exact absurd hsid (hother f hf)
    · cases List.mem_singleton.mp hf
      cases hh
      rfl
  refine sessions_isolated lawful_smallCodes rfl rfl ?_ ?_
  · intro f hf hsid h hh
    have hf' : f = { parityFrame21 with sessionID := 9 } := by
      rcases List.mem_cons.mp hf with rfl | hf
      · rfl
      · cases List.mem_singleton.mp hf
        exact absurd rfl hsid
    subst hf'
    cases hh
    refine ⟨by decide, fun k hk => ?_, by decide⟩
    exact hgeo [.push 0 "wan0" { parityFrame21 with sessionID := 9 }] k _ hk (by decide)
  · intro f hf hsid
    cases List.mem_singleton.mp hf
    exact absurd rfl hsid

/-- **Sessions share codecs.**  A block of one data and one parity frame of session 9 puts
its codec into the cache, and the block of two data frames and one parity frame of
session 5 is then not recovered. -/
theorem codec_shared :
    let own : List Call :=
      [.push 1 "wan0" { sessionID := 5, seq := 2, blockSeq := 1, payload := [8, 9] },
        .push 2 "wan0" parityFrame21]
    purge 5 (.push 0 "wan0" otherParity :: own) = purge 5 own ∧
      observed smallCodes 5 (some (newDecoder params21)) (.push 0 "wan0" otherParity :: own) =
        [0, 0] ∧
      observed smallCodes 5 (some (newDecoder params21)) own = [0, ↑block21] :=
  ⟨rfl, by decide, by decide⟩

end Decoder

end FlexBraid
