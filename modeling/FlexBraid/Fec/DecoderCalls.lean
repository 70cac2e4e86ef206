import FlexBraid.Fec.Decoder

/-!
# What the calls of a decoder do

Each call of the decoder is described once: what it emits, and what it leaves in
the buffers, in the high-water marks and in the codec cache.

## Main definitions

* `Ticked` — what a pass over the buffers leaves.
* `CacheFrom` — how a delivery attempt may extend the codec cache.
* `Completed` — the payloads a block is flushed with.
* `blockAt`, `openBlock`, `late` — the buffer a frame meets, and the frames that
  are dropped.
* `CodedPush` — the four ways a push of a coded frame ends.

## Main results

* `ticked_tick`, `lookup_tick` — a tick flushes exactly the overdue blocks.
* `pushBlock_eq`, `maybeDeliver_completed` — a frame is refused, or taken in and followed
  by a delivery attempt.
* `codedPush` — what a push of a coded frame does.
* `forall_buffers_push` — what every buffer satisfies after a push.
* `exists_push` — when a push does not panic.
* `push_of_coded`, `push_of_not_coded`, `push_of_disabled` — the branches of a push.
* `exec_induct` — the invariant rule of a decoder.
-/

namespace FlexBraid

variable {F C : Type} (RS : ReedSolomon C)

namespace BlockState

theorem fillMissing_ne_none {n : ℕ} {data : GoMap UInt32 Bytes} {recovered : ℕ}
    {seqs : List UInt32} {lens : List UInt16} {shards : List Shard}
    (hlens : ∀ l ∈ lens, l.toNat ≤ n) (hshards : ∀ s ∈ shards, s.bytes.length = n) :
    fillMissing data recovered seqs lens shards ≠ none := by
  induction data, recovered, seqs, lens, shards using fillMissing.induct with
  | case1 data recovered s seqs len lens shard shards hsome ih =>
    rw [fillMissing, if_pos hsome]
    exact ih (fun l hl => hlens l (List.mem_cons_of_mem _ hl))
      (fun s hs => hshards s (List.mem_cons_of_mem _ hs))
  | case2 data recovered s seqs len lens shard shards hsome hslice =>
    have hle : len.toNat ≤ shard.bytes.length := by
      rw [hshards shard List.mem_cons_self]
      exact hlens len List.mem_cons_self
    rw [Shard.slice_of_le hle] at hslice
    cases hslice
  | case3 data recovered s seqs len lens shard shards hsome payload hslice ih =>
    rw [fillMissing, if_neg hsome, hslice]
    exact ih (fun l hl => hlens l (List.mem_cons_of_mem _ hl))
      (fun s hs => hshards s (List.mem_cons_of_mem _ hs))
  | case4 data recovered seqs lens shards hne =>
    rw [fillMissing]
    · simp
    · exact hne

/-- A buffer whose parity shards have the shard size, which no length exceeds. -/
structure Sized (st : BlockState) : Prop where
  parity : ∀ i s, st.parity.lookup i = some s → s.length = st.maxLen
  lens : ∀ l ∈ st.lens, l.toNat ≤ st.maxLen

theorem Sized.shards {st : BlockState} (h : st.Sized) {s : Bytes} (hs : some s ∈ st.shards) :
    s.length = st.maxLen := by
  rw [BlockState.shards, List.mem_append, List.mem_map, List.mem_map] at hs
  rcases hs with ⟨seq, -, hs⟩ | ⟨i, -, hs⟩
  · obtain ⟨payload, -, rfl⟩ := Option.map_eq_some_iff.mp hs
    exact length_padTo _ _
  · exact h.parity i s hs

end BlockState

namespace Decoder

/-! ### Flushing -/

section
variable {RS}

@[simp] theorem flush_blocks (d : Decoder F C) (key : BlockKey) (st : BlockState) :
    (d.flush key st).1.blocks = d.blocks.erase key := rfl

@[simp] theorem flush_snd (d : Decoder F C) (key : BlockKey) (st : BlockState) :
    (d.flush key st).2 = st.frames key.sessionID := rfl

theorem flush_lastFlushed (d : Decoder F C) (key : BlockKey) (st : BlockState) (sk : StreamKey) :
    (d.flush key st).1.lastFlushed.getD sk 0 =
      if sk = key.stream ∧ d.lastFlushed.getD sk 0 < key.blockSeq then key.blockSeq
      else d.lastFlushed.getD sk 0 := by
  change (if _ then _ else _ : GoMap StreamKey UInt32).getD sk 0 = _
  by_cases hlt : key.blockSeq > d.lastFlushed.getD key.stream 0
  · rw [if_pos hlt]
    by_cases hsk : sk = key.stream
    · subst hsk
      rw [AList.getD_insert, if_pos ⟨rfl, hlt⟩]
    · rw [AList.getD_insert_ne hsk, if_neg fun h => hsk h.1]
  · rw [if_neg hlt, if_neg]
    rintro ⟨rfl, h⟩
    exact hlt h

theorem flush_stats (d : Decoder F C) (key : BlockKey) (st : BlockState) (sk : StreamKey) :
    (d.flush key st).1.stats.getD sk {} =
      if sk = key.stream then
        { d.stats.getD sk {} with
          lost := (d.stats.getD sk {}).lost + (st.seqs.length - st.data.size) }
      else d.stats.getD sk {} := by
  change (if _ then _ else _ : GoMap StreamKey StreamStat).getD sk {} = _
  by_cases hsk : sk = key.stream
  · subst hsk
    rw [if_pos rfl]
    split
    · rw [AList.getD_insert]
    · next hfull =>
      -- nothing is missing, and the counter stays
      simp only [Bool.and_eq_true, decide_eq_true_eq, not_and, not_lt] at hfull
      have hzero : st.seqs.length - st.data.size = 0 := by omega
      rw [hzero]
      rfl
  · rw [if_neg hsk]
    split
    · rw [AList.getD_insert_ne hsk]
    · rfl

/-! ### Ticks -/

/-- The frames of one block that a tick at `now` emits. -/
def dueFrames (d : Decoder F C) (now : Time) (key : BlockKey) : List Frame :=
  match d.blocks.lookup key with
  | none => []
  | some st => if st.overdue now then st.frames key.sessionID else []

variable {d d' : Decoder F C} {now : Time} {key : BlockKey} {st : BlockState} {keys : List BlockKey}
  {k p : ℕ} {cache : GoMap ℕ C}

theorem dueFrames_of_due (hl : d.blocks.lookup key = some st) (hdue : st.overdue now = true) :
    d.dueFrames now key = st.frames key.sessionID := by
  rw [dueFrames, hl]
  exact if_pos hdue

/-- What a pass over the blocks `keys` leaves: the overdue blocks among them are
gone, and the high-water marks are the greatest numbers flushed. -/
structure Ticked (d : Decoder F C) (now : Time) (keys : List BlockKey) (d' : Decoder F C) :
    Prop where
  params : d'.params = d.params
  rsByParity : d'.rsByParity = d.rsByParity
  pathSeq : d'.pathSeq = d.pathSeq
  lookup : ∀ key, d'.blocks.lookup key =
    if key ∈ keys then (d.blocks.lookup key).filter (fun st => !st.overdue now)
    else d.blocks.lookup key
  mono : ∀ sk, d.lastFlushed.getD sk 0 ≤ d'.lastFlushed.getD sk 0
  le_last : ∀ key ∈ keys, ∀ st, d.blocks.lookup key = some st → st.overdue now = true →
    key.blockSeq ≤ d'.lastFlushed.getD key.stream 0
  last : ∀ sk, d'.lastFlushed.getD sk 0 = d.lastFlushed.getD sk 0 ∨
    ∃ key ∈ keys, ∃ st, d.blocks.lookup key = some st ∧ st.overdue now = true ∧
      key.stream = sk ∧ key.blockSeq = d'.lastFlushed.getD sk 0

theorem tickBlock_of_due (hl : d.blocks.lookup key = some st) (hdue : st.overdue now = true)
    (out : List Frame) :
    tickBlock now (d, out) key = ((d.flush key st).1, out ++ st.frames key.sessionID) := by
  have hnot : (st.flushed || before now st.deadline) = false := by
    simpa [BlockState.overdue] using hdue
  simp [tickBlock, hl, hnot]

theorem tickBlock_of_not_due (h : ∀ st, d.blocks.lookup key = some st → st.overdue now = false)
    (out : List Frame) : tickBlock now (d, out) key = (d, out) := by
  unfold tickBlock
  dsimp only
  split
  · rfl
  · next st hl =>
    have hnot : (st.flushed || before now st.deadline) = true := by
      have hdue := h st hl
      rwa [BlockState.overdue, Bool.not_eq_false'] at hdue
    rw [if_pos hnot]

theorem Ticked.nil (d : Decoder F C) (now : Time) : Ticked d now [] d where
  params := rfl
  rsByParity := rfl
  pathSeq := rfl
  lookup _ := by simp
  mono _ := UInt32.le_refl _
  le_last _ h := by simp at h
  last _ := .inl rfl

theorem Ticked.cons_not_due (h : Ticked d now keys d')
    (hnot : ∀ st, d.blocks.lookup key = some st → st.overdue now = false) :
    Ticked d now (key :: keys) d' where
  params := h.params
  rsByParity := h.rsByParity
  pathSeq := h.pathSeq
  lookup key' := by
    rw [h.lookup]
    by_cases hkey : key' = key
    · subst hkey
      have hkeep : (d.blocks.lookup key').filter (fun st => !st.overdue now) =
          d.blocks.lookup key' := by
        cases hl : d.blocks.lookup key' with
        | none => rfl
        | some st => simp [hnot st hl]
      simp [hkeep]
    · simp [hkey]
  mono := h.mono
  le_last key' hmem st hl hdue := by
    rcases List.mem_cons.mp hmem with rfl | hmem
    · rw [hnot st hl] at hdue
      cases hdue
    · exact h.le_last key' hmem st hl hdue
  last sk := by
    rcases h.last sk with h1 | ⟨key', hmem, h1⟩
    · exact .inl h1
    · exact .inr ⟨key', List.mem_cons_of_mem _ hmem, h1⟩

theorem Ticked.cons_due (hl : d.blocks.lookup key = some st) (hdue : st.overdue now = true)
    (hkey : key ∉ keys) (h : Ticked (d.flush key st).1 now keys d') :
    Ticked d now (key :: keys) d' where
  params := h.params
  rsByParity := h.rsByParity
  pathSeq := h.pathSeq
  lookup key' := by
    rw [h.lookup, flush_blocks, AList.lookup_erase_eq]
    by_cases hk : key' = key
    · subst hk
      simp [hkey, hl, Option.filter_some, hdue]
    · simp [hk]
  mono sk := by
    have h1 := h.mono sk
    rw [flush_lastFlushed] at h1
    grind
  le_last key' hmem st' hl' hdue' := by
    rcases List.mem_cons.mp hmem with rfl | hmem'
    · have h1 := h.mono key'.stream
      rw [flush_lastFlushed] at h1
      grind
    · refine h.le_last key' hmem' st' ?_ hdue'
      rw [flush_blocks, AList.lookup_erase_eq, if_neg (by rintro rfl; exact hkey hmem'), hl']
  last sk := by
    rcases h.last sk with h1 | ⟨key', hmem, st', hl', hdue', hsk, hb⟩
    · rw [flush_lastFlushed] at h1
      by_cases hup : sk = key.stream ∧ d.lastFlushed.getD sk 0 < key.blockSeq
      · rw [if_pos hup] at h1
        exact .inr ⟨key, List.mem_cons_self, st, hl, hdue, hup.1.symm, h1.symm⟩
      · rw [if_neg hup] at h1
        exact .inl h1
    · rw [flush_blocks, AList.lookup_erase_eq, if_neg (by rintro rfl; exact hkey hmem)] at hl'
      exact .inr ⟨key', List.mem_cons_of_mem _ hmem, st', hl', hdue', hsk, hb⟩

/-- The pass of a tick over the blocks: it emits the frames of the overdue ones,
block by block. -/
theorem ticked_foldl (hnd : keys.Nodup) (d : Decoder F C) (now : Time) (out : List Frame) :
    Ticked d now keys (keys.foldl (tickBlock now) (d, out)).1 ∧
      (keys.foldl (tickBlock now) (d, out)).2 = out ++ keys.flatMap (d.dueFrames now) := by
  induction keys generalizing d out with
  | nil => exact ⟨Ticked.nil d now, by simp⟩
  | cons key keys ih =>
    obtain ⟨hkey, hnd⟩ := List.nodup_cons.mp hnd
    rw [List.foldl_cons, List.flatMap_cons]
    by_cases hdue : ∃ st, d.blocks.lookup key = some st ∧ st.overdue now = true
    · obtain ⟨st, hl, hdue⟩ := hdue
      obtain ⟨h1, h2⟩ := ih hnd (d.flush key st).1 (out ++ st.frames key.sessionID)
      rw [tickBlock_of_due hl hdue]
      refine ⟨Ticked.cons_due hl hdue hkey h1, ?_⟩
      -- the other blocks of the pass are not touched by this flush
      have hrest : keys.flatMap ((d.flush key st).1.dueFrames now) =
          keys.flatMap (d.dueFrames now) := by
        apply List.flatMap_congr
        intro key' hmem
        rw [dueFrames, dueFrames, flush_blocks, AList.lookup_erase_eq,
          if_neg (by rintro rfl; exact hkey hmem)]
      have hself : d.dueFrames now key = st.frames key.sessionID := by
        rw [dueFrames, hl]
        exact if_pos hdue
      rw [h2, hrest, hself, List.append_assoc]
    · have hnot : ∀ st, d.blocks.lookup key = some st → st.overdue now = false := by
        intro st hl
        exact eq_false_of_ne_true fun h => hdue ⟨st, hl, h⟩
      obtain ⟨h1, h2⟩ := ih hnd d out
      rw [tickBlock_of_not_due hnot]
      refine ⟨h1.cons_not_due hnot, ?_⟩
      have hself : d.dueFrames now key = [] := by
        unfold dueFrames
        split
        · rfl
        · next st hl => rw [hnot st hl]; rfl
      rw [h2, hself, List.nil_append]

/-- **A tick** of an enabled decoder flushes exactly the overdue blocks. -/
theorem ticked_tick (henabled : d.params.enabled = true) (σ : IterOrder BlockKey) (now : Time) :
    Ticked (d.flushPathGaps now) now (σ.visit d.blocks.keys) (d.tick σ now).1 ∧
      (d.tick σ now).2 = (σ.visit d.blocks.keys).flatMap (d.dueFrames now) := by
  have h := ticked_foldl (σ.nodup_visit d.blocks.keys_nodup) (d.flushPathGaps now) now []
  rw [List.nil_append] at h
  unfold tick
  dsimp only
  rw [if_neg (by change ¬ (!d.params.enabled) = true; rw [henabled]; decide)]
  exact h

/-- What a tick leaves in the buffers. -/
theorem lookup_tick (henabled : d.params.enabled = true) (σ : IterOrder BlockKey) (now : Time)
    (key : BlockKey) : (d.tick σ now).1.blocks.lookup key =
      (d.blocks.lookup key).filter fun st => !st.overdue now := by
  rw [(ticked_tick henabled σ now).1.lookup]
  split
  · rfl
  · next hkey =>
    have hnone : d.blocks.lookup key = none := by
      rw [AList.lookup_eq_none, AList.mem_keys]
      exact fun hmem => hkey (σ.mem_visit.mpr hmem)
    rw [hnone]
    exact hnone

/-! ### Deliveries -/

/-- The codec cache after a block was looked at: it is unchanged, or the codec of that
block was added. -/
def CacheFrom (RS : ReedSolomon C) (k p : ℕ) (old cache : GoMap ℕ C) : Prop :=
  cache = old ∨ old.lookup p = none ∧ ∃ c, RS.new k p = some c ∧ cache = old.insert p c

theorem CacheFrom.lookup {old : GoMap ℕ C} (h : CacheFrom RS k p old cache) {p' : ℕ} {c : C}
    (hc : cache.lookup p' = some c) : old.lookup p' = some c ∨ p' = p ∧ RS.new k p = some c := by
  rcases h with rfl | ⟨-, c', hnew, rfl⟩
  · exact .inl hc
  · rw [AList.lookup_insert_eq] at hc
    split at hc
    · next hp =>
      cases hc
      exact .inr ⟨hp, hnew⟩
    · exact .inl hc

theorem CacheFrom.forall_lookup {R : ℕ → C → Prop} {old : GoMap ℕ C}
    (h : CacheFrom RS k p old cache) (hold : ∀ p c, old.lookup p = some c → R p c)
    (hnew : ∀ c, RS.new k p = some c → R p c) (p' : ℕ) (c : C) (hc : cache.lookup p' = some c) :
    R p' c := by
  rcases h.lookup hc with hc | ⟨rfl, hc⟩
  · exact hold p' c hc
  · exact hnew c hc

variable (RS) in
theorem rsFor_eq (d : Decoder F C) (k p : ℕ) :
    ∃ cache, (d.rsFor RS k p).1 = { d with rsByParity := cache } ∧
      CacheFrom RS k p d.rsByParity cache := by
  unfold rsFor
  split
  · exact ⟨d.rsByParity, rfl, .inl rfl⟩
  · next hl =>
    split
    · exact ⟨d.rsByParity, rfl, .inl rfl⟩
    · next c hnew => exact ⟨d.rsByParity.insert p c, rfl, .inr ⟨hl, c, hnew, rfl⟩⟩

/-- The payloads a block is flushed with: those it held, or those a codec from the cache or
the library restored. -/
def Completed (RS : ReedSolomon C) (cache : GoMap ℕ C) (st : BlockState)
    (data : GoMap UInt32 Bytes) : Prop :=
  data = st.data ∨ ∃ c shards recovered recovered',
    (cache.lookup st.p = some c ∨ RS.new st.k st.p = some c) ∧
    RS.reconstruct c st.shards = some shards ∧
    BlockState.fillMissing st.data recovered st.seqs st.lens shards = some (data, recovered')

theorem Completed.keeps {data : GoMap UInt32 Bytes} (h : Completed RS cache st data) (seq : UInt32)
    (payload : Bytes) (hl : st.data.lookup seq = some payload) :
    data.lookup seq = some payload := by
  rcases h with rfl | ⟨c, shards, recovered, recovered', -, -, hfill⟩
  · exact hl
  · exact BlockState.fillMissing_keeps hfill seq payload hl

theorem Completed.within {data : GoMap UInt32 Bytes} (h : Completed RS cache st data) (seq : UInt32)
    (hl : (data.lookup seq).isSome) : (st.data.lookup seq).isSome ∨ seq ∈ st.seqs := by
  rcases h with rfl | ⟨c, shards, recovered, recovered', -, -, hfill⟩
  · exact .inl hl
  · rcases BlockState.fillMissing_lookup hfill seq with heq | ⟨-, hmem⟩
    · exact .inl (heq ▸ hl)
    · exact .inr hmem

theorem rsFor_some {c : C} (h : d.rsFor RS k p = (d', some c)) :
    d.rsByParity.lookup p = some c ∨ RS.new k p = some c := by
  unfold rsFor at h
  split at h
  · next c' hl =>
    cases h
    exact .inl hl
  · split at h
    · cases h
    · next c' hnew =>
      cases h
      exact .inr hnew

/-- **A delivery attempt** leaves the block where it is, or completes and flushes it. -/
theorem maybeDeliver_completed {r : Decoder F C × List Frame}
    (h : d.maybeDeliver RS key st = some r) :
    ∃ cache, (st.k = 0 → cache = d.rsByParity) ∧ CacheFrom RS st.k st.p d.rsByParity cache ∧
      (r = ({ d with rsByParity := cache }, []) ∨
        ∃ recovered data, st.k ≠ 0 ∧ Completed RS d.rsByParity st data ∧
          r = ({ d with rsByParity := cache, recovered := recovered } : Decoder F C).flush key
            { st with data := data }) := by
  have hsame : CacheFrom RS st.k st.p d.rsByParity d.rsByParity := .inl rfl
  unfold maybeDeliver at h
  split_ifs at h with hk
  · cases h
    exact ⟨_, fun _ => rfl, hsame, .inl rfl⟩
  · cases h
    exact ⟨_, fun _ => rfl, hsame, .inl rfl⟩
  · cases h
    exact ⟨_, fun _ => rfl, hsame, .inr ⟨d.recovered, st.data, hk, .inl rfl, rfl⟩⟩
  · obtain ⟨cache, hd, hcache⟩ := d.rsFor_eq RS st.k st.p
    refine ⟨cache, fun h0 => absurd h0 hk, hcache, ?_⟩
    unfold reconstruct at h
    split at h
    · next d' hrs =>
      rw [hrs] at hd
      cases hd
      cases h
      exact .inl rfl
    · next d' rs hrs =>
      have hcodec := rsFor_some hrs
      rw [hrs] at hd
      cases hd
      split at h
      · cases h
        exact .inl rfl
      · next shards hshards =>
        split at h
        · cases h
        · next data recovered hfill =>
          cases h
          exact .inr ⟨recovered, data, hk,
            .inr ⟨rs, shards, d.recovered, recovered, hcodec, hshards, hfill⟩, rfl⟩

/-- A lawful library never lets a delivery attempt of a sized buffer panic, whatever
codec the cache holds. -/
theorem maybeDeliver_ne_none (d : Decoder F C) (key : BlockKey) (hlaw : RS.Lawful)
    (hcache : ∀ p c, d.rsByParity.lookup p = some c → ∃ k p', RS.new k p' = some c)
    (hsized : st.k ≠ 0 → st.Sized) : d.maybeDeliver RS key st ≠ none := by
  unfold maybeDeliver
  split_ifs with hk
  · simp
  · simp
  · simp
  · unfold reconstruct
    split
    · simp
    · next d' c hrs =>
      obtain ⟨k, p, hnew⟩ : ∃ k p, RS.new k p = some c :=
        (rsFor_some hrs).elim (hcache _ _) fun hnew => ⟨_, _, hnew⟩
      split
      · simp
      · next shards hrec =>
        have hsize := hlaw.reconstruct_size hnew (fun _ => (hsized hk).shards) hrec
        split
        · next hfill => exact absurd hfill (BlockState.fillMissing_ne_none (hsized hk).lens hsize)
        · simp

/-- The loss counters once a frame that meets buffer `st` of its block is taken in: a data frame
counts when it is the first of its number. -/
def countArrival (d : Decoder F C) (key : BlockKey) (st : BlockState) (f : Frame) :
    GoMap StreamKey StreamStat :=
  if f.hasFlag flagFECParity || (st.data.lookup f.seq).isSome then d.stats
  else
    let s := d.stats.getD key.stream {}
    d.stats.insert key.stream { s with received := s.received + 1 }

variable (RS) in
/-- A frame put into its block is refused, or taken in and counted, and followed by a delivery
attempt. -/
theorem pushBlock_counted (d : Decoder F C) (now : Time) (key : BlockKey) (st : BlockState)
    (f : Frame) : d.pushBlock RS now key st f =
      if st.flushed then some (d, [])
      else match st.absorb now d.params.blockTimeout f with
        | none => some (d, [])
        | some st' =>
          ({ d with
              blocks := d.blocks.insert key st'
              stats := d.countArrival key st f } : Decoder F C).maybeDeliver RS key st' := by
  unfold pushBlock BlockState.absorb countArrival
  by_cases hparity : f.hasFlag flagFECParity = true
  · simp only [hparity, Bool.true_or, if_true]
    cases st.addParity now d.params.blockTimeout f <;> rfl
  · simp only [eq_false_of_ne_true hparity, Bool.false_or]
    rfl

variable (RS) in
/-- A frame put into its block is refused, or taken in and followed by a delivery
attempt. -/
theorem pushBlock_eq (d : Decoder F C) (now : Time) (key : BlockKey) (st : BlockState) (f : Frame) :
    ∃ stats, d.pushBlock RS now key st f =
      if st.flushed then some (d, [])
      else match st.absorb now d.params.blockTimeout f with
        | none => some (d, [])
        | some st' =>
          ({ d with blocks := d.blocks.insert key st', stats := stats } : Decoder F C).maybeDeliver RS
            key st' :=
  ⟨_, d.pushBlock_counted RS now key st f⟩

variable (RS) in
theorem pushBlock_of_absorb (d : Decoder F C) (key : BlockKey) {st' : BlockState} {f : Frame}
    (hflushed : st.flushed = false) (habsorb : st.absorb now d.params.blockTimeout f = some st') :
    ∃ d₁ stats, d₁ = { d with blocks := d.blocks.insert key st', stats := stats } ∧
      d.pushBlock RS now key st f = d₁.maybeDeliver RS key st' := by
  obtain ⟨stats, hpush⟩ := d.pushBlock_eq RS now key st f
  refine ⟨_, stats, rfl, ?_⟩
  rw [hpush, if_neg (by rw [hflushed]; decide), habsorb]

end

/-! ### Whole calls -/

/-- The assembly buffer a frame of block `key` meets. -/
def blockAt (d : Decoder F C) (key : BlockKey) : BlockState := (d.blocks.lookup key).getD {}

/-- The decoder with an assembly buffer for block `key`. -/
def openBlock (d : Decoder F C) (key : BlockKey) : Decoder F C :=
  { d with
    blocks := if (d.blocks.lookup key).isSome then d.blocks else d.blocks.insert key {} }

variable {d : Decoder F C} {key : BlockKey} {now : Time} {path : String} {f : Frame}
  {r : Decoder F C × List Frame}

/-- What the empty buffer and the buffer of a block satisfy, the buffer satisfies that a frame of the
block meets. -/
theorem blockAt_induct {Q : BlockState → Prop} (hempty : Q {})
    (h : ∀ st, d.blocks.lookup key = some st → Q st) : Q (d.blockAt key) := by
  unfold blockAt
  cases hl : d.blocks.lookup key with
  | none => exact hempty
  | some st => exact h st hl

theorem blockAt_of_none (h : d.blocks.lookup key = none) : d.blockAt key = {} := by
  rw [blockAt, h]
  rfl

theorem blockAt_of_lookup {st : BlockState} (h : d.blocks.lookup key = some st) :
    d.blockAt key = st := by
  rw [blockAt, h]
  rfl

theorem lookup_openBlock (d : Decoder F C) (key key' : BlockKey) :
    (d.openBlock key).blocks.lookup key' =
      if key' = key then some (d.blockAt key) else d.blocks.lookup key' := by
  unfold openBlock blockAt
  cases hl : d.blocks.lookup key with
  | none =>
    change (d.blocks.insert key {}).lookup key' = _
    rw [AList.lookup_insert_eq]
    rfl
  | some st =>
    change d.blocks.lookup key' = _
    split
    · next heq => rw [heq, hl, Option.getD_some]
    · rfl

theorem lookup_insert_openBlock (d : Decoder F C) (key : BlockKey) (st : BlockState)
    (key' : BlockKey) :
    ((d.openBlock key).blocks.insert key st).lookup key' =
      if key' = key then some st else d.blocks.lookup key' := by
  rw [AList.lookup_insert_eq, lookup_openBlock]
  split <;> rfl

/-- Whether a frame of block `key` is late: the block is not being assembled and
its number is not above the stream's high-water mark. -/
def late (d : Decoder F C) (key : BlockKey) : Bool :=
  (d.blocks.lookup key).isNone && decide (d.lastFlushed.getD key.stream 0 ≥ key.blockSeq)

theorem observePathSeq_eq (d : Decoder F C) (now : Time) (sessionID : UInt64) (path : String)
    (seq : UInt32) : d.observePathSeq now sessionID path seq =
      { d with pathSeq := (d.observePathSeq now sessionID path seq).pathSeq } := by
  unfold observePathSeq
  dsimp only
  split <;> rfl

/-- A frame that belongs to no block is returned at once. -/
theorem push_of_not_coded (henabled : d.params.enabled = true) (hf : f.coded = false) :
    ∃ pathSeq, d.push RS now path f = some ({ d with pathSeq := pathSeq }, [f]) := by
  rw [Frame.coded, Bool.or_eq_false_iff] at hf
  obtain ⟨hparity, hpass⟩ := hf
  unfold push
  rw [hparity, henabled]
  by_cases hp : f.hasFlag flagPassSeq = true
  · rw [hp]
    refine ⟨(d.observePathSeq now f.sessionID path f.blockSeq).pathSeq, ?_⟩
    simpa using observePathSeq_eq d now f.sessionID path f.blockSeq
  · rw [eq_false_of_ne_true hp] at hpass ⊢
    have hzero : f.blockSeq = 0 := by simpa using hpass
    exact ⟨d.pathSeq, by simp [hzero]⟩

/-- A decoder without coding returns every data frame at once and drops parity. -/
theorem push_of_disabled (hoff : d.params.enabled = false) (now : Time) (path : String)
    (f : Frame) :
    ∃ pathSeq, d.push RS now path f =
      some ({ d with pathSeq := pathSeq }, if f.hasFlag flagFECParity then [] else [f]) := by
  unfold push
  cases hp : f.hasFlag flagPassSeq && !f.hasFlag flagFECParity with
  | true =>
    have hparity : f.hasFlag flagFECParity = false := by
      rw [Bool.and_eq_true, Bool.not_eq_true'] at hp
      exact hp.2
    refine ⟨(d.observePathSeq now f.sessionID path f.blockSeq).pathSeq, ?_⟩
    simpa [hparity] using observePathSeq_eq d now f.sessionID path f.blockSeq
  | false => exact ⟨d.pathSeq, by simp [hoff]⟩

/-- A frame that belongs to no block, or one that meets a decoder without coding, changes the
counters of its path at most. -/
theorem push_of_uncoded (h : (d.params.enabled && f.coded) = false) (now : Time) (path : String) :
    ∃ pathSeq out, d.push RS now path f = some ({ d with pathSeq := pathSeq }, out) := by
  cases henabled : d.params.enabled with
  | false =>
    obtain ⟨pathSeq, hp⟩ := push_of_disabled RS henabled now path f
    exact ⟨pathSeq, _, hp⟩
  | true =>
    rw [henabled, Bool.true_and] at h
    obtain ⟨pathSeq, hp⟩ := push_of_not_coded RS henabled h
    exact ⟨pathSeq, _, hp⟩

theorem tick_of_disabled (hoff : d.params.enabled = false) (σ : IterOrder BlockKey) (now : Time) :
    d.tick σ now = (d.flushPathGaps now, []) := by
  have h : (d.flushPathGaps now).params.enabled = false := hoff
  rw [tick, h]
  rfl

theorem tick_leaves (d : Decoder F C) (σ : IterOrder BlockKey) (now : Time) :
    (d.tick σ now).1.params = d.params ∧ (d.tick σ now).1.rsByParity = d.rsByParity ∧
      ∀ key st, (d.tick σ now).1.blocks.lookup key = some st → d.blocks.lookup key = some st := by
  cases henabled : d.params.enabled with
  | false =>
    rw [tick_of_disabled henabled]
    exact ⟨rfl, rfl, fun _ _ => id⟩
  | true =>
    obtain ⟨ht, -⟩ := ticked_tick henabled σ now
    refine ⟨ht.params, ht.rsByParity, fun key st hl => ?_⟩
    rw [lookup_tick henabled] at hl
    exact (Option.filter_eq_some_iff.mp hl).1

theorem off_step {d' : Decoder F C} {call : Call} {out : List Frame}
    (hoff : d.params.enabled = false) (h : step RS (some d) call = (some d', out)) :
    d'.params.enabled = false ∧ ∀ f ∈ out, f ∈ call.pushed := by
  cases call with
  | push now path f =>
    obtain ⟨pathSeq, hpush⟩ := push_of_disabled RS hoff now path f
    rw [step, hpush] at h
    cases h
    refine ⟨hoff, ?_⟩
    simp [Call.pushed]
  | tick σ now =>
    rw [step, tick_of_disabled hoff] at h
    cases h
    exact ⟨hoff, by simp⟩
  | takeStreamStats sid path =>
    cases h
    exact ⟨hoff, by simp⟩
  | takePathStats sid path =>
    cases h
    exact ⟨hoff, by simp⟩

/-- A coded frame is dropped as late, or put into its block. -/
theorem push_of_coded (henabled : d.params.enabled = true) (hf : f.coded = true) :
    d.push RS now path f =
      if d.late (d.blockKey path f) then some (d, [])
      else (d.openBlock (d.blockKey path f)).pushBlock RS now (d.blockKey path f)
        (d.blockAt (d.blockKey path f)) f := by
  have hpass : (f.hasFlag flagPassSeq && !f.hasFlag flagFECParity) = false := by
    rw [Frame.coded] at hf
    cases hb : f.hasFlag flagFECParity <;> simp_all
  have hzero : ¬ ((!f.hasFlag flagFECParity && decide (f.blockSeq = 0)) = true) := by
    rw [Frame.coded] at hf
    cases hb : f.hasFlag flagFECParity <;> simp_all
  unfold push late openBlock blockAt
  rw [hpass, henabled]
  simp only [Bool.false_eq_true, if_false, Bool.not_true, hzero]
  cases hl : d.blocks.lookup (d.blockKey path f) with
  | none => simp
  | some st => simp

variable {RS}

/-- What a push of a coded frame of block `key` does: the frame is dropped as late, or
refused, or taken in and kept, or it completes the block. -/
inductive CodedPush (RS : ReedSolomon C) (d : Decoder F C) (now : Time) (key : BlockKey)
    (f : Frame) : Decoder F C × List Frame → Prop
  | late (hlate : d.late key = true) : CodedPush RS d now key f (d, [])
  | refused (hlate : d.late key = false)
      (hno : (d.blockAt key).flushed = true ∨
        (d.blockAt key).absorb now d.params.blockTimeout f = none) :
      CodedPush RS d now key f (d.openBlock key, [])
  | kept {st : BlockState} {stats : GoMap StreamKey StreamStat} {cache : GoMap ℕ C}
      (hlate : d.late key = false)
      (habsorb : (d.blockAt key).absorb now d.params.blockTimeout f = some st)
      (hzero : st.k = 0 → cache = d.rsByParity)
      (hcache : CacheFrom RS st.k st.p d.rsByParity cache) :
      CodedPush RS d now key f
        ({ d with
            blocks := (d.openBlock key).blocks.insert key st
            stats := stats
            rsByParity := cache }, [])
  | flushed {st : BlockState} {stats : GoMap StreamKey StreamStat} {cache : GoMap ℕ C}
      {recovered : ℕ} {data : GoMap UInt32 Bytes} (hlate : d.late key = false)
      (habsorb : (d.blockAt key).absorb now d.params.blockTimeout f = some st) (hk : st.k ≠ 0)
      (hcache : CacheFrom RS st.k st.p d.rsByParity cache)
      (hcomp : Completed RS d.rsByParity st data) :
      CodedPush RS d now key f
        (({ d with
            blocks := (d.openBlock key).blocks.insert key st
            stats := stats
            rsByParity := cache
            recovered := recovered } : Decoder F C).flush key { st with data := data })

/-- **A push of a coded frame** does one of the four. -/
theorem codedPush (henabled : d.params.enabled = true) (hf : f.coded = true)
    (hpush : d.push RS now path f = some r) : CodedPush RS d now (d.blockKey path f) f r := by
  rw [push_of_coded RS henabled hf] at hpush
  generalize d.blockKey path f = key at *
  split at hpush
  · next hlate =>
    cases hpush
    exact .late hlate
  · next hlate =>
    have hlate' : d.late key = false := eq_false_of_ne_true hlate
    obtain ⟨stats, heq⟩ := (d.openBlock key).pushBlock_eq RS now key (d.blockAt key) f
    rw [heq] at hpush
    split at hpush
    · next hflushed =>
      cases hpush
      exact .refused hlate' (.inl hflushed)
    · split at hpush
      · next hnone =>
        cases hpush
        exact .refused hlate' (.inr hnone)
      · next st habsorb =>
        obtain ⟨cache, hzero, hfrom, rfl | ⟨recovered, data, hk, hcomp, rfl⟩⟩ :=
          maybeDeliver_completed hpush
        · exact .kept hlate' habsorb hzero hfrom
        · exact .flushed hlate' habsorb hk hfrom hcomp

/-- **The buffers after a push.**  A condition that the empty buffer meets and that
taking the frame in keeps holds of all buffers; the codec cache may get the codec of
one of them. -/
theorem forall_buffers_push {Q : BlockKey → BlockState → Prop}
    (hd : ∀ key st, d.blocks.lookup key = some st → Q key st) (hempty : Q (d.blockKey path f) {})
    (habsorb : ∀ st st', Q (d.blockKey path f) st →
      st.absorb now d.params.blockTimeout f = some st' → Q (d.blockKey path f) st')
    (hpush : d.push RS now path f = some r) :
    r.1.params = d.params ∧ (∀ key st, r.1.blocks.lookup key = some st → Q key st) ∧
      ∀ p c, r.1.rsByParity.lookup p = some c → d.rsByParity.lookup p = some c ∨
        ∃ st, Q (d.blockKey path f) st ∧ st.k ≠ 0 ∧ p = st.p ∧ RS.new st.k p = some c := by
  cases hcoded : d.params.enabled && f.coded with
  | false =>
    obtain ⟨pathSeq, out, hp⟩ := push_of_uncoded RS hcoded now path
    rw [hp] at hpush
    cases hpush
    exact ⟨rfl, hd, fun _ _ => .inl⟩
  | true =>
    obtain ⟨henabled, hcoded⟩ := Bool.and_eq_true_iff.mp hcoded
    have hcases := codedPush henabled hcoded hpush
    generalize d.blockKey path f = key at *
    have hat : Q key (d.blockAt key) := blockAt_induct hempty (hd key)
    -- one buffer changes
    have hput : ∀ {st}, Q key st → ∀ key' st',
        (if key' = key then some st else d.blocks.lookup key') = some st' → Q key' st' := by
      intro st hst key' st' hl
      split at hl
      · next hkey =>
        cases hl
        exact hkey ▸ hst
      · exact hd key' st' hl
    cases hcases with
    | late => exact ⟨rfl, hd, fun _ _ => .inl⟩
    | refused =>
      refine ⟨rfl, fun key' st hl => ?_, fun _ _ => .inl⟩
      rw [lookup_openBlock] at hl
      exact hput hat key' st hl
    | @kept st stats cache _ hst hzero hfrom =>
      have hQ := habsorb _ st hat hst
      refine ⟨rfl, fun key' st' hl => ?_, fun p c hc => ?_⟩
      · rw [lookup_insert_openBlock] at hl
        exact hput hQ key' st' hl
      · by_cases hk : st.k = 0
        · exact .inl (hzero hk ▸ hc)
        · exact (hfrom.lookup hc).imp_right fun ⟨hp, hnew⟩ => ⟨st, hQ, hk, hp, hp ▸ hnew⟩
    | @flushed st stats cache recovered data _ hst hk hfrom =>
      have hQ := habsorb _ st hat hst
      refine ⟨rfl, fun key' st' hl => ?_, fun p c hc => ?_⟩
      · have hl' := AList.lookup_of_erase hl
        rw [lookup_insert_openBlock] at hl'
        exact hput hQ key' st' hl'
      · exact (hfrom.lookup hc).imp_right fun ⟨hp, hnew⟩ => ⟨st, hQ, hk, hp, hp ▸ hnew⟩

/-- **A push does not panic** when taking its frame in leaves a buffer whose length table
stays within its shards. -/
theorem exists_push {Q : BlockKey → BlockState → Prop} (hlaw : RS.Lawful)
    (hd : ∀ key st, d.blocks.lookup key = some st → Q key st) (hempty : Q (d.blockKey path f) {})
    (habsorb : ∀ st st', Q (d.blockKey path f) st →
      st.absorb now d.params.blockTimeout f = some st' → Q (d.blockKey path f) st')
    (hsized : ∀ st, Q (d.blockKey path f) st → st.k ≠ 0 → st.Sized)
    (hcache : ∀ p c, d.rsByParity.lookup p = some c → ∃ k p', RS.new k p' = some c) :
    ∃ r, d.push RS now path f = some r := by
  cases hcoded : d.params.enabled && f.coded with
  | false =>
    obtain ⟨pathSeq, out, hp⟩ := push_of_uncoded RS hcoded now path
    exact ⟨_, hp⟩
  | true =>
    obtain ⟨henabled, hcoded⟩ := Bool.and_eq_true_iff.mp hcoded
    rw [push_of_coded RS henabled hcoded]
    generalize d.blockKey path f = key at *
    have hat : Q key (d.blockAt key) := blockAt_induct hempty (hd key)
    obtain ⟨stats, heq⟩ := (d.openBlock key).pushBlock_eq RS now key (d.blockAt key) f
    rw [heq]
    split_ifs
    · exact ⟨_, rfl⟩
    · exact ⟨_, rfl⟩
    · split
      · exact ⟨_, rfl⟩
      · next st' hst' =>
        exact Option.ne_none_iff_exists'.mp
          (maybeDeliver_ne_none _ key hlaw hcache (hsized st' (habsorb _ st' hat hst')))

theorem step_push (h : d.push RS now path f = some r) :
    step RS (some d) (.push now path f) = (some r.1, r.2) := by
  rw [step, h]

theorem exec_panicked (calls : List Call) :
    Run.exec (step RS) (none : Option (Decoder F C)) calls = none := by
  induction calls with
  | nil => rfl
  | cons call calls ih => exact ih

/-- **The invariant rule of a decoder**: what every push and tick keeps holds after
every sequence of calls that does not panic. -/
theorem exec_induct {Inv : Decoder F C → Prop} {P : Call → Prop}
    (hpush : ∀ d now path f r, Inv d → P (.push now path f) → d.push RS now path f = some r →
      Inv r.1) (htick : ∀ d σ now, Inv d → P (.tick σ now) → Inv (d.tick σ now).1)
    (hstats : ∀ d stats pathSeq, Inv d → Inv { d with stats := stats, pathSeq := pathSeq })
    {calls : List Call} (hP : ∀ c ∈ calls, P c) {d' : Decoder F C} (hd : Inv d)
    (hexec : Run.exec (step RS) (some d) calls = some d') : Inv d' := by
  refine @Run.exec_induct _ _ _ (step RS) (fun _ => P) (fun s => ∀ d, s = some d → Inv d)
    ?_ _ _ ?_ (Run.along_of_forall _ hP (some d)) d' hexec
  · rintro (- | d) c hs hc d' hd'
    · cases hd'
    · have h := hs d rfl
      cases c with
      | push now path f =>
        cases hp : d.push RS now path f with
        | none =>
          rw [step, hp] at hd'
          cases hd'
        | some r =>
          rw [step_push hp] at hd'
          cases hd'
          exact hpush d now path f r h hc hp
      | tick σ now =>
        cases hd'
        exact htick d σ now h hc
      | takeStreamStats sessionID path =>
        cases hd'
        exact hstats d _ d.pathSeq h
      | takePathStats sessionID path =>
        cases hd'
        exact hstats d d.stats _ h
  · rintro d' ⟨⟩
    exact hd

end Decoder

end FlexBraid
