import FlexBraid.Fec.Emissions

/-!
# The loss counters of a stream

A decoder counts, for every stream, the data frames it takes into blocks and the data frames its
blocks lack when they are flushed; a reader takes both counters out and resets them.  A log of
the run says what there is to count: the frames that are taken into a block, the blocks that are
flushed with the frames they hand on, and the numbers that are read out.  Fed with the frames of
honest encoders, the counters and the numbers read out so far add up to what the log says,
whenever and however often they are read.

## Main definitions

* `StatEntry`, `Decoder.account` — the log of a run.
* `StatEntry.acceptedIn`, `StatEntry.armed` — the data frames taken into blocks, and the blocks of
  which parity arrived.
* `StatEntry.missing`, `StatEntry.lostIn` — the data frames on the wire that a flushed block
  lacks.
* `Decoder.Counts` — the counters agree with the log.

## Main results

* `stream_stats_exact` — **the loss counters of a stream are exact**.
-/

namespace FlexBraid

variable {F C : Type} {RS : ReedSolomon C}

/-! ### The log -/

/-- What bears on the loss counters. -/
inductive StatEntry where
  /-- A data frame is taken into its block. -/
  | accepted (key : BlockKey) (seq : UInt32)
  /-- A parity frame is taken into its block. -/
  | parity (key : BlockKey)
  /-- A block is flushed, and hands frames on. -/
  | flushed (key : BlockKey) (frames : List Frame)
  /-- The counters of a stream are read out. -/
  | taken (sk : StreamKey) (lost received : ℕ)
deriving DecidableEq

namespace StatEntry

/-- The entry of a coded frame that is not late. -/
def arrival (key : BlockKey) (f : Frame) : StatEntry :=
  if f.hasFlag flagFECParity then parity key else accepted key f.seq

/-- The data frame an entry takes in. -/
def datum : StatEntry → Option (BlockKey × UInt32)
  | .accepted key seq => some (key, seq)
  | _ => none

/-- The block an entry brings parity of. -/
def parityOf : StatEntry → Option BlockKey
  | .parity key => some key
  | _ => none

/-- The distinct data frames taken into blocks. -/
def acceptedIn (log : List StatEntry) : Finset (BlockKey × UInt32) := (log.filterMap datum).toFinset

/-- The blocks of which a parity frame arrived. -/
def armed (log : List StatEntry) : Finset BlockKey := (log.filterMap parityOf).toFinset

/-- The data frames of a block on the wire that were neither taken in before, nor are handed on
when the block is flushed; none of a block without parity. -/
def missing (wires : StreamKey → List Frame) (seen : List StatEntry) (key : BlockKey)
    (frames : List Frame) : ℕ :=
  if key ∈ armed seen then
    ((wires key.stream).filter (Frame.dataOf key.blockSeq)).countP fun f =>
      decide ((key, f.seq) ∉ acceptedIn seen ∧ f.seq ∉ frames.map Frame.seq)
  else 0

/-- What one entry adds to the frames lost in a stream. -/
def lostBy (wires : StreamKey → List Frame) (sk : StreamKey) (seen : List StatEntry) :
    StatEntry → ℕ
  | .flushed key frames => if key.stream = sk then missing wires seen key frames else 0
  | _ => 0

/-- The frames lost in a stream, entry by entry with those before it. -/
def lostIn (wires : StreamKey → List Frame) (sk : StreamKey) :
    List StatEntry → List StatEntry → ℕ
  | _, [] => 0
  | seen, e :: log => lostBy wires sk seen e + lostIn wires sk (seen ++ [e]) log

/-- The number of losses an entry reads out of a stream. -/
def lostRead (sk : StreamKey) : StatEntry → ℕ
  | .taken sk' lost _ => if sk' = sk then lost else 0
  | _ => 0

/-- The number of arrivals an entry reads out of a stream. -/
def receivedRead (sk : StreamKey) : StatEntry → ℕ
  | .taken sk' _ received => if sk' = sk then received else 0
  | _ => 0

theorem acceptedIn_concat (log : List StatEntry) (e : StatEntry) :
    acceptedIn (log ++ [e]) = acceptedIn log ∪ e.datum.toFinset := by
  cases h : e.datum <;> simp [acceptedIn, h]

theorem armed_concat (log : List StatEntry) (e : StatEntry) :
    armed (log ++ [e]) = armed log ∪ e.parityOf.toFinset := by
  cases h : e.parityOf <;> simp [armed, h]

theorem mem_acceptedIn_arrival {log : List StatEntry} {key key' : BlockKey} {g : Frame} {s : UInt32} :
    (key', s) ∈ acceptedIn (log ++ [.arrival key g]) ↔
      g.hasFlag flagFECParity = false ∧ key' = key ∧ s = g.seq ∨ (key', s) ∈ acceptedIn log := by
  rw [acceptedIn_concat, arrival]
  cases g.hasFlag flagFECParity <;> simp [datum]

theorem mem_armed_arrival {log : List StatEntry} {key key' : BlockKey} {g : Frame} :
    key' ∈ armed (log ++ [.arrival key g]) ↔
      g.hasFlag flagFECParity = true ∧ key' = key ∨ key' ∈ armed log := by
  rw [armed_concat, arrival]
  cases g.hasFlag flagFECParity <;> simp [parityOf]

theorem lostIn_append (wires : StreamKey → List Frame) (sk : StreamKey)
    (seen log log' : List StatEntry) : lostIn wires sk seen (log ++ log') =
      lostIn wires sk seen log + lostIn wires sk (seen ++ log) log' := by
  induction log generalizing seen with
  | nil => simp [lostIn]
  | cons e log ih => simp [lostIn, ih, Nat.add_assoc]

theorem lostIn_concat (wires : StreamKey → List Frame) (sk : StreamKey) (log : List StatEntry)
    (e : StatEntry) :
    lostIn wires sk [] (log ++ [e]) = lostIn wires sk [] log + lostBy wires sk log e := by
  simp [lostIn_append, lostIn]

end StatEntry

def Emitted.entry : Emitted → Option StatEntry
  | .passed _ => none
  | .flushed key frames => some (.flushed key frames)

namespace Decoder

/-- The entry of a frame that is pushed. -/
def arrivals (d : Decoder F C) : Call → List StatEntry
  | .push _ path f =>
    if d.params.enabled && f.coded && !d.late (d.blockKey path f) then
      [.arrival (d.blockKey path f) f]
    else []
  | _ => []

/-- The entry of a call that reads the counters out. -/
def readOuts (d : Decoder F C) : Call → List StatEntry
  | .takeStreamStats sessionID path =>
    let r := d.takeStreamStats sessionID path
    [.taken ⟨sessionID, path⟩ r.2.1 r.2.2]
  | _ => []

variable (RS) in
/-- One call of a decoder: the next state, and the entries of the log. -/
def account : Option (Decoder F C) → Call → Option (Decoder F C) × List StatEntry
  | none, _ => (none, [])
  | some d, call =>
    ((step RS (some d) call).1,
      d.arrivals call ++ (emit RS (some d) call).2.filterMap Emitted.entry ++ d.readOuts call)

variable (RS) in
theorem exec_account (s : Option (Decoder F C)) (calls : List Call) :
    Run.exec (account RS) s calls = Run.exec (step RS) s calls := by
  induction calls generalizing s with
  | nil => rfl
  | cons call calls ih =>
    rw [Run.exec_cons, Run.exec_cons]
    cases s with
    | none => exact ih none
    | some d => exact ih _

variable {now : Time} {g : Frame}

theorem account_push {d : Decoder F C} {path : String} {r : Decoder F C × List Frame}
    (hpush : d.push RS now path g = some r) :
    account RS (some d) (.push now path g) = (some r.1,
      if d.params.enabled && g.coded && !d.late (d.blockKey path g) then
        .arrival (d.blockKey path g) g ::
          if (r.1.blocks.lookup (d.blockKey path g)).isNone then
            [.flushed (d.blockKey path g) r.2] else []
      else []) := by
  have hemit : emit RS (some d) (.push now path g) = (some r.1,
      if d.params.enabled && g.coded then
        if !d.late (d.blockKey path g) && (r.1.blocks.lookup (d.blockKey path g)).isNone then
          [.flushed (d.blockKey path g) r.2] else []
      else r.2.map .passed) := by
    rw [emit, hpush]
  change ((step RS (some d) (.push now path g)).1, (if _ then _ else _) ++
    (emit RS (some d) (.push now path g)).2.filterMap Emitted.entry ++ []) = _
  rw [hemit, step_push hpush, List.append_nil]
  dsimp only
  cases d.params.enabled && g.coded with
  | false => simp [Emitted.entry, Function.comp_def]
  | true =>
    cases d.late (d.blockKey path g) with
    | true => rfl
    | false => cases (r.1.blocks.lookup (d.blockKey path g)).isNone <;> rfl

theorem account_tick (d : Decoder F C) (σ : IterOrder BlockKey) (now : Time) :
    account RS (some d) (.tick σ now) = (some (d.tick σ now).1,
      if d.params.enabled then
        ((σ.visit d.blocks.keys).filter (d.due now)).map fun key =>
          .flushed key (d.dueFrames now key)
      else []) := by
  change (_, [] ++ (if d.params.enabled then _ else []).filterMap Emitted.entry ++ []) = _
  rw [List.nil_append, List.append_nil]
  split
  · rw [List.filterMap_map, ← List.filterMap_eq_map]
    rfl
  · rfl

/-! ### The counters agree with the log -/

open StatEntry

/-- The counters agree with the log: what is read out and what the decoder still holds add up. -/
structure Counts (RS : ReedSolomon C) (params : Params F)
    (B : StreamKey → UInt32 → Option CodedBlock) (wires : StreamKey → List Frame)
    (d : Decoder F C) (log : List StatEntry) : Prop where
  collecting : Collecting RS params B (fun _ => True) d
  data : ∀ key, d.late key = false → ∀ s,
    (key, s) ∈ acceptedIn log ↔ ((d.blockAt key).data.lookup s).isSome
  parity : ∀ key, d.late key = false → (key ∈ armed log ↔ (d.blockAt key).seqs ≠ [])
  received : ∀ sk, (log.map (receivedRead sk)).sum + (d.stats.getD sk {}).received =
    ((acceptedIn log).filter fun p => p.1.stream = sk).card
  lost : ∀ sk, (log.map (lostRead sk)).sum + (d.stats.getD sk {}).lost = lostIn wires sk [] log

variable {params : Params F} {B : StreamKey → UInt32 → Option CodedBlock}
  {wires sent : StreamKey → List Frame} {d : Decoder F C} {log : List StatEntry}

theorem Counts.pathSeq (h : Counts RS params B wires d log) (pathSeq : GoMap StreamKey RawPathStat) :
    Counts RS params B wires { d with pathSeq := pathSeq } log :=
  ⟨⟨h.collecting.params, h.collecting.blocks, h.collecting.cache⟩, h.data, h.parity, h.received,
    h.lost⟩

theorem counts_newDecoder (RS : ReedSolomon C) (params : Params F)
    (B : StreamKey → UInt32 → Option CodedBlock) (wires : StreamKey → List Frame) :
    Counts RS params.withDefaults B wires (newDecoder params : Decoder F C) [] where
  collecting := collecting_new params B _
  data key _ s := by simp [acceptedIn, newDecoder, Decoder.blockAt]
  parity key _ := by simp [armed, newDecoder, Decoder.blockAt]
  received sk := by simp [acceptedIn, newDecoder, AList.getD]
  lost sk := by simp [lostIn, newDecoder, AList.getD]

/-- **Reading the counters out** moves them into the log. -/
theorem Counts.take (h : Counts RS params B wires d log) (sessionID : UInt64) (path : String) :
    let r := d.takeStreamStats sessionID path
    Counts RS params B wires r.1 (log ++ [.taken ⟨sessionID, path⟩ r.2.1 r.2.2]) := by
  intro r
  have haccepted : acceptedIn (log ++ [.taken ⟨sessionID, path⟩ r.2.1 r.2.2]) = acceptedIn log := by
    simp [acceptedIn_concat, datum]
  constructor
  · exact ⟨h.collecting.params, h.collecting.blocks, h.collecting.cache⟩
  · intro key hlate s
    rw [haccepted]
    exact h.data key hlate s
  · intro key hlate
    rw [show armed (log ++ [_]) = armed log by simp [armed_concat, parityOf]]
    exact h.parity key hlate
  · intro sk
    have hold := h.received sk
    rw [haccepted, ← hold, List.map_append, List.sum_append]
    change _ + (receivedRead sk _ + 0) + ((d.stats.insert ⟨sessionID, path⟩ {}).getD sk {}).received = _
    by_cases hsk : sk = ⟨sessionID, path⟩
    · subst hsk
      simp [receivedRead, r, takeStreamStats]
    · rw [AList.getD_insert_ne hsk]
      simp [receivedRead, Ne.symm hsk]
  · intro sk
    have hold := h.lost sk
    rw [lostIn_concat, ← hold, List.map_append, List.sum_append]
    change _ + (lostRead sk _ + 0) + ((d.stats.insert ⟨sessionID, path⟩ {}).getD sk {}).lost = _
    by_cases hsk : sk = ⟨sessionID, path⟩
    · subst hsk
      simp [lostRead, lostBy, r, takeStreamStats]
    · rw [AList.getD_insert_ne hsk]
      simp [lostRead, lostBy, Ne.symm hsk]

/-! ### Arrivals -/

theorem countArrival_getD (d : Decoder F C) (key : BlockKey) (st : BlockState) (f : Frame)
    (sk : StreamKey) : (d.countArrival key st f).getD sk {} =
      { d.stats.getD sk {} with
        received := (d.stats.getD sk {}).received +
          if f.hasFlag flagFECParity = false ∧ (st.data.lookup f.seq).isSome = false ∧
            key.stream = sk then 1 else 0 } := by
  unfold countArrival
  split
  · next hold =>
    rw [if_neg]
    · rfl
    · rintro ⟨h1, h2, -⟩
      rw [h1, h2] at hold
      cases hold
  · next hnew =>
    rw [Bool.or_eq_true, not_or, Bool.not_eq_true, Bool.not_eq_true] at hnew
    by_cases hsk : sk = key.stream
    · subst hsk
      rw [AList.getD_insert, if_pos ⟨hnew.1, hnew.2, rfl⟩]
    · rw [AList.getD_insert_ne hsk, if_neg fun h0 => hsk h0.2.2.symm]
      rfl

theorem Counts.card_arrival (h : Counts RS params B wires d log) {key : BlockKey}
    (hlate : d.late key = false) (g : Frame) (sk : StreamKey) :
    ((acceptedIn (log ++ [.arrival key g])).filter fun p => p.1.stream = sk).card =
      ((acceptedIn log).filter fun p => p.1.stream = sk).card +
        if g.hasFlag flagFECParity = false ∧ ((d.blockAt key).data.lookup g.seq).isSome = false ∧
          key.stream = sk then 1 else 0 := by
  have hmem := h.data key hlate g.seq
  rw [acceptedIn_concat, arrival]
  cases g.hasFlag flagFECParity with
  | true => simp [datum]
  | false =>
    have hunion : acceptedIn log ∪ (datum (.accepted key g.seq)).toFinset =
        insert (key, g.seq) (acceptedIn log) := by
      rw [Finset.union_comm, Finset.insert_eq]
      rfl
    rw [if_neg Bool.false_ne_true, hunion, Finset.filter_insert]
    by_cases hsk : key.stream = sk
    · rw [if_pos hsk, Finset.card_insert_eq_ite]
      cases hold : ((d.blockAt key).data.lookup g.seq).isSome <;> simp [hsk, hmem, hold]
    · simp [hsk]

/-- **A frame that is taken in** is counted once. -/
theorem Counts.arrive (h : Counts RS params B wires d log) {key : BlockKey} {g : Frame}
    {b : CodedBlock} (hlate : d.late key = false) (hb : B key.stream key.blockSeq = some b)
    (hg : (∃ f, b.IsData f g) ∨ ∃ i, b.IsParity i g) {now : Time} {st : BlockState}
    (habsorb : (d.blockAt key).absorb now d.params.blockTimeout g = some st) {cache : GoMap ℕ C}
    (hcache : ∀ p c, cache.lookup p = some c → ∃ k : ℕ, RS.new k p = some c) (recovered : ℕ) :
    Counts RS params B wires { d with
        blocks := (d.openBlock key).blocks.insert key st
        stats := d.countArrival key (d.blockAt key) g
        rsByParity := cache
        recovered := recovered } (log ++ [.arrival key g]) := by
  obtain ⟨D, P, D', P', st', hasm, habsorb', hasm', hdl, hD, hP, -⟩ :=
    h.collecting.takes hb hg now trivial
  obtain rfl : st' = st := Option.some.inj (habsorb'.symm.trans habsorb)
  have hlook := lookup_insert_openBlock d key st'
  have hreads : ∀ sk seen, receivedRead sk (.arrival key g) = 0 ∧ lostRead sk (.arrival key g) = 0 ∧
      lostBy wires sk seen (.arrival key g) = 0 := by
    intro sk seen
    unfold StatEntry.arrival
    split <;> exact ⟨rfl, rfl, rfl⟩
  refine ⟨⟨h.collecting.params, h.collecting.insert hlate hb hasm' hdl, hcache⟩, fun key' hlate' s => ?_,
    fun key' hlate' => ?_, fun sk => ?_, fun sk => ?_⟩
  · rw [Decoder.late, hlook] at hlate'
    rw [mem_acceptedIn_arrival, Decoder.blockAt, hlook]
    by_cases hkey : key' = key
    · simp [hkey, hasm'.isSome_lookup_data, hD, ← hasm.isSome_lookup_data, ← h.data key hlate]
    · rw [if_neg hkey] at hlate' ⊢
      simpa [hkey, Decoder.blockAt] using h.data key' hlate' s
  · rw [Decoder.late, hlook] at hlate'
    rw [mem_armed_arrival, Decoder.blockAt, hlook]
    by_cases hkey : key' = key
    · simp [hkey, hasm'.seqs_ne_nil, hP, ← hasm.seqs_ne_nil, ← h.parity key hlate]
    · rw [if_neg hkey] at hlate' ⊢
      simpa [hkey, Decoder.blockAt] using h.parity key' hlate'
  · rw [h.card_arrival hlate, ← h.received sk, countArrival_getD, List.map_append, List.sum_append]
    simp [(hreads sk []).1, Nat.add_assoc]
  · rw [lostIn_concat, ← h.lost sk, countArrival_getD, List.map_append, List.sum_append]
    simp [(hreads sk log).2]

/-! ### Flushes -/

theorem mem_seq_frames (st : BlockState) (hseqs : st.seqs ≠ []) (sid : UInt64) (s : UInt32) :
    s ∈ (st.frames sid).map Frame.seq ↔ s ∈ st.seqs ∧ (st.data.lookup s).isSome := by
  have hlen : st.seqs.length ≠ 0 := fun h0 => hseqs (List.length_eq_zero_iff.mp h0)
  rw [BlockState.frames, if_neg hlen, List.mem_map]
  constructor
  · rintro ⟨f, hf, rfl⟩
    obtain ⟨seq, hseq, hf⟩ := List.mem_filterMap.mp hf
    obtain ⟨payload, hl, rfl⟩ := Option.map_eq_some_iff.mp hf
    exact ⟨hseq, by rw [hl]; rfl⟩
  · rintro ⟨hmem, hsome⟩
    obtain ⟨payload, hl⟩ := Option.isSome_iff_exists.mp hsome
    exact ⟨_, List.mem_filterMap.mpr ⟨s, hmem, by rw [hl]; rfl⟩, rfl⟩

theorem size_eq_countP {m : GoMap UInt32 Bytes} {l : List UInt32} (hnd : l.Nodup)
    (hmem : ∀ s, (m.lookup s).isSome → s ∈ l) : m.size = l.countP fun s => (m.lookup s).isSome := by
  rw [List.countP_eq_length_filter, ← List.toFinset_card_of_nodup (hnd.filter _)]
  apply AList.size_eq_card
  intro s
  rw [List.mem_toFinset, List.mem_filter]
  exact ⟨fun hs => ⟨hmem s hs, hs⟩, fun hs => hs.2⟩

/-- All data frames of a block are on the wire of its stream. -/
def OnWire (B : StreamKey → UInt32 → Option CodedBlock) (wires : StreamKey → List Frame) : Prop :=
  ∀ (key : BlockKey) b, 0 < key.blockSeq → B key.stream key.blockSeq = some b →
    (wires key.stream).filter (Frame.dataOf key.blockSeq) = b.data.map (Frame.stamp key.blockSeq)

theorem Counts.missing_eq (h : Counts RS params B wires d log) {key : BlockKey} {st : BlockState}
    (hl : d.blocks.lookup key = some st) {cache : GoMap ℕ C} {data : GoMap UInt32 Bytes}
    (hcomp : Completed RS cache st data) (hwire : OnWire B wires) :
    missing wires log key (({ st with data := data } : BlockState).frames key.sessionID) =
      st.seqs.length - data.size := by
  obtain ⟨hpos, b, D, P, hb, hasm, -⟩ := h.collecting.blocks key st hl
  have hdata := h.data key (not_late_of_lookup hl)
  have hparity := h.parity key (not_late_of_lookup hl)
  rw [blockAt_of_lookup hl] at hdata hparity
  unfold missing
  by_cases hseqs : st.seqs = []
  · rw [if_neg fun h0 => hparity.mp h0 hseqs, hseqs]
    simp
  · obtain ⟨-, -, -, hknown, -⟩ := hasm.known (hasm.seqs_ne_nil.mp hseqs)
    have hmem : ∀ s, (data.lookup s).isSome → s ∈ st.seqs := by
      intro s hs
      rcases hcomp.within s hs with h0 | h0
      · rw [hknown]
        exact hasm.seqs_mem s ((hasm.isSome_lookup_data s).mp h0)
      · exact h0
    have hsize := size_eq_countP (by rw [hknown]; exact b.nodup) hmem
    have hsplit := List.length_eq_countP_add_countP (fun s => (data.lookup s).isSome) (l := st.seqs)
    have hframes := mem_seq_frames { st with data := data } hseqs key.sessionID
    generalize ({ st with data := data } : BlockState).frames key.sessionID = frames at hframes ⊢
    rw [if_pos (hparity.mpr hseqs), hwire key b hpos hb, List.countP_map]
    -- what the log calls missing is what the payloads lack
    have hcount : b.data.countP ((fun f => decide ((key, f.seq) ∉ acceptedIn log ∧
          f.seq ∉ frames.map Frame.seq)) ∘ Frame.stamp key.blockSeq) =
        st.seqs.countP fun s => decide (¬ (data.lookup s).isSome = true) := by
      rw [hknown, List.countP_map]
      apply List.countP_congr
      intro f hf
      have hstamp : (f.stamp key.blockSeq).seq = f.seq := rfl
      rw [Function.comp_apply, Function.comp_apply, hstamp, decide_eq_true_iff, decide_eq_true_iff,
        hdata, hframes]
      have hin : f.seq ∈ st.seqs := by
        rw [hknown]
        exact List.mem_map_of_mem hf
      constructor
      · rintro ⟨-, hno⟩ hsome
        exact hno ⟨hin, hsome⟩
      · intro hno
        refine ⟨fun h0 => hno ?_, fun h0 => hno h0.2⟩
        obtain ⟨payload, hpayload⟩ := Option.isSome_iff_exists.mp h0
        exact Option.isSome_iff_exists.mpr ⟨payload, hcomp.keeps _ _ hpayload⟩
    rw [hcount]
    omega

/-- **A flush** counts what its block lacks. -/
theorem Counts.flush (h : Counts RS params B wires d log) {key : BlockKey} {st : BlockState}
    (hl : d.blocks.lookup key = some st) {cache : GoMap ℕ C} {data : GoMap UInt32 Bytes}
    (hcomp : Completed RS cache st data) (hwire : OnWire B wires) :
    Counts RS params B wires (d.flush key { st with data := data }).1
      (log ++ [.flushed key (({ st with data := data } : BlockState).frames key.sessionID)]) := by
  have hmissing := h.missing_eq hl hcomp hwire
  generalize hst' : ({ st with data := data } : BlockState) = st' at hmissing ⊢
  have hsize : st'.seqs.length - st'.data.size = st.seqs.length - data.size := by rw [← hst']
  have haccepted : acceptedIn (log ++ [.flushed key (st'.frames key.sessionID)]) = acceptedIn log := by
    simp [acceptedIn_concat, datum]
  -- a block that is not late now was not late before, and is another one
  have hback : ∀ key', (d.flush key st').1.late key' = false →
      d.late key' = false ∧ (d.flush key st').1.blockAt key' = d.blockAt key' := by
    intro key' hlate'
    have hne : key' ≠ key := by
      rintro rfl
      rw [late_flush_self] at hlate'
      cases hlate'
    refine ⟨eq_false_of_ne_true fun h0 => ?_, ?_⟩
    · rw [late_flush d key st' h0] at hlate'
      cases hlate'
    · rw [Decoder.blockAt, flush_blocks, AList.lookup_erase_eq, if_neg hne, Decoder.blockAt]
  constructor
  · exact ⟨h.collecting.params, fun key' st'' hl' => h.collecting.blocks key' st''
      (AList.lookup_of_erase hl'), h.collecting.cache⟩
  · intro key' hlate' s
    obtain ⟨hlate, hat⟩ := hback key' hlate'
    rw [haccepted, hat]
    exact h.data key' hlate s
  · intro key' hlate'
    obtain ⟨hlate, hat⟩ := hback key' hlate'
    simpa [armed_concat, StatEntry.parityOf, hat] using h.parity key' hlate
  · intro sk
    rw [flush_stats, haccepted, List.map_append, List.sum_append, ← h.received sk]
    split <;> rfl
  · intro sk
    rw [flush_stats, lostIn_concat, List.map_append, List.sum_append, ← h.lost sk, lostBy, hmissing,
      hsize]
    change _ + 0 + _ = _
    by_cases hsk : sk = key.stream
    · rw [if_pos hsk, if_pos hsk.symm]
      dsimp only
      omega
    · rw [if_neg hsk, if_neg (Ne.symm hsk)]
      omega

/-- **The pass of a tick** counts what the overdue blocks lack. -/
theorem Counts.foldl (hwire : OnWire B wires) (now : Time) {keys : List BlockKey} (hnd : keys.Nodup) {d : Decoder F C} {log : List StatEntry}
    (h : Counts RS params B wires d log) (out : List Frame) :
    Counts RS params B wires (keys.foldl (tickBlock now) (d, out)).1
      (log ++ (keys.filter (d.due now)).map fun key => .flushed key (d.dueFrames now key)) := by
  induction keys generalizing d log out with
  | nil => simpa using h
  | cons key keys ih =>
    obtain ⟨hkey, hnd⟩ := List.nodup_cons.mp hnd
    rw [List.foldl_cons, List.filter_cons]
    cases hdue : d.due now key with
    | false =>
      have hnot : ∀ st, d.blocks.lookup key = some st → st.overdue now = false := by
        intro st hl
        unfold due at hdue
        rw [hl] at hdue
        exact hdue
      rw [tickBlock_of_not_due hnot]
      exact ih hnd h out
    | true =>
      obtain ⟨st, hl, hover, -⟩ := mem_visit_of_due (σ := .plain) hdue
      have hcomp : Completed RS d.rsByParity st st.data := .inl rfl
      have hflush := h.flush hl hcomp hwire
      -- the other blocks of the pass are not touched by this flush
      have hsame : ∀ key' ∈ keys, (d.flush key st).1.blocks.lookup key' = d.blocks.lookup key' := by
        intro key' hmem
        rw [flush_blocks, AList.lookup_erase_eq, if_neg (by rintro rfl; exact hkey hmem)]
      have hfilter : keys.filter ((d.flush key st).1.due now) = keys.filter (d.due now) := by
        apply List.filter_congr
        intro key' hmem
        rw [due, due, hsame key' hmem]
      have hmap : (keys.filter (d.due now)).map (fun key' =>
            StatEntry.flushed key' ((d.flush key st).1.dueFrames now key')) =
          (keys.filter (d.due now)).map fun key' => .flushed key' (d.dueFrames now key') := by
        apply List.map_congr_left
        intro key' hmem
        rw [dueFrames, dueFrames, hsame key' (List.mem_filter.mp hmem).1]
      have hrest := ih hnd hflush (out ++ st.frames key.sessionID)
      rw [hfilter, hmap] at hrest
      rw [tickBlock_of_due hl hover, if_pos rfl, List.map_cons, dueFrames_of_due hl hover]
      rwa [List.append_assoc] at hrest

/-! ### Calls and runs -/

/-- **A push of a coded frame** of honest traffic whose block is not late. -/
theorem Counts.codedPush (hwire : OnWire B wires) (h : Counts RS params B wires d log)
    (henabled : d.params.enabled = true) {now : Time}
    {path : String} {g : Frame} (hcoded : g.coded = true) {b : CodedBlock}
    (hlate : d.late (d.blockKey path g) = false)
    (hb : B (d.blockKey path g).stream (d.blockKey path g).blockSeq = some b)
    (hg : (∃ f, b.IsData f g) ∨ ∃ i, b.IsParity i g) {r : Decoder F C × List Frame}
    (hpush : d.push RS now path g = some r) :
    Counts RS params B wires r.1 (log ++ [.arrival (d.blockKey path g) g] ++
      (if (r.1.blocks.lookup (d.blockKey path g)).isNone then
        [.flushed (d.blockKey path g) r.2] else [])) := by
  rw [push_of_coded RS henabled hcoded, if_neg (by rw [hlate]; decide), pushBlock_counted] at hpush
  generalize d.blockKey path g = key at *
  obtain ⟨D, P, -, -, st, hasm, habsorb, -⟩ := h.collecting.takes hb hg now trivial
  have habsorb' : (d.blockAt key).absorb now (d.openBlock key).params.blockTimeout g = some st :=
    habsorb
  rw [if_neg (by rw [hasm.unflushed]; decide), habsorb'] at hpush
  dsimp only at hpush
  obtain ⟨cache, -, hfrom, rfl | ⟨recovered, data, -, hcomp, rfl⟩⟩ := maybeDeliver_completed hpush
  · -- the block is kept
    have hkept := h.arrive hlate hb hg habsorb (hfrom.indexed h.collecting.cache) d.recovered
    rw [if_neg (by dsimp only; rw [AList.lookup_insert]; simp), List.append_nil]
    exact hkept
  · -- the block is completed
    have harrived := h.arrive hlate hb hg habsorb (hfrom.indexed h.collecting.cache) recovered
    rw [flush_blocks, AList.lookup_erase_eq, if_pos rfl, if_pos Option.isNone_none]
    exact harrived.flush (AList.lookup_insert _) hcomp hwire

/-- **One call** on honest traffic. -/
theorem Counts.step (hlaw : RS.Lawful) (hsound : RS.Sound)
    (hB : ∀ sk : StreamKey, Coding RS sk.sessionID (sent sk) (B sk))
    (hwires : ∀ sk, ∀ f ∈ wires sk, ∀ g, f.SentAs g → HonestFrame (B sk) g)
    (hwire : OnWire B wires) (h : Counts RS params B wires d log) {call : Call} (hcall : Fed params.crossPath wires call) :
    ∃ d', (account RS (some d) call).1 = some d' ∧
      Counts RS params B wires d' (log ++ (account RS (some d) call).2) := by
  cases call with
  | push now path g =>
    cases hcoded : d.params.enabled && g.coded with
    | false =>
      -- a frame that belongs to no block, or to none for this decoder, leaves no entry
      obtain ⟨pathSeq, out, hpush⟩ := push_of_uncoded RS hcoded now path
      rw [account_push hpush, hcoded, Bool.false_and]
      refine ⟨_, rfl, ?_⟩
      simpa using h.pathSeq pathSeq
    | true =>
      obtain ⟨henabled, hcoded⟩ := Bool.and_eq_true_iff.mp hcoded
      have hframe := honestFrame_of_wire h.collecting.params hwires hcall
      obtain ⟨b, hb, -, hkind⟩ := hframe.resolve_left (by rw [hcoded]; decide)
      obtain ⟨d', events, hemit, -⟩ := h.collecting.step hlaw hsound hB hwires hcall
      cases hpush : d.push RS now path g with
      | none =>
        rw [emit, hpush] at hemit
        cases hemit
      | some r =>
        rw [account_push hpush, henabled, hcoded]
        refine ⟨r.1, rfl, ?_⟩
        cases hlate : d.late (d.blockKey path g) with
        | true =>
          -- a late frame is dropped
          rw [push_of_coded RS henabled hcoded, if_pos hlate] at hpush
          cases hpush
          simpa using h
        | false =>
          have hcounted := h.codedPush hwire henabled hcoded hlate hb hkind hpush
          rwa [List.append_assoc] at hcounted
  | tick σ now =>
    rw [account_tick]
    refine ⟨_, rfl, ?_⟩
    cases henabled : d.params.enabled with
    | false =>
      have hgaps : Counts RS params B wires (d.flushPathGaps now) log := h.pathSeq _
      rw [tick_of_disabled henabled]
      simpa using hgaps
    | true =>
      have htick : d.tick σ now =
          (σ.visit d.blocks.keys).foldl (tickBlock now) (d.flushPathGaps now, []) := by
        rw [tick]
        exact if_neg (by change ¬ (!d.params.enabled) = true; rw [henabled]; decide)
      rw [htick]
      exact Counts.foldl hwire now (σ.nodup_visit d.blocks.keys_nodup) (h.pathSeq _) []
  | takeStreamStats sid path => exact ⟨_, rfl, h.take sid path⟩
  | takePathStats sid path =>
    refine ⟨_, rfl, ?_⟩
    change Counts RS params B wires _ (log ++ [])
    rw [List.append_nil]
    exact h.pathSeq _

/-- **The loss counters of a stream are exact.**  A decoder is fed with the frames of honest
encoders, one for each stream, any of them in any order and any number of times, with ticks and
read-outs at any times.  For every stream, the arrivals read out so far and the counter are
together the number of distinct coded data frames that were taken into blocks; the losses read
out so far and the counter are together the number of data frames that the flushed blocks with
parity had neither received nor reconstructed. -/
theorem stream_stats_exact [Float64 F] (hlaw : RS.Lawful) (hsound : RS.Sound) {params : Params F}
    {wires : StreamKey → List Frame}
    (hwires : ∀ sk : StreamKey, ∃ (params' : Params F) (calls : List (Encoder.Call F)),
      Honest RS sk.sessionID params' calls (wires sk))
    {calls : List Call} (hcalls : ∀ c ∈ calls, Fed params.crossPath wires c) (sk : StreamKey) :
    let start : Option (Decoder F C) := some (newDecoder params)
    let log := (Run.outputs (account RS) start calls).flatten
    ∃ d : Decoder F C, Run.exec (step RS) start calls = some d ∧
      (log.map (receivedRead sk)).sum + (d.stats.getD sk {}).received =
        ((acceptedIn log).filter fun p => p.1.stream = sk).card ∧
      (log.map (lostRead sk)).sum + (d.stats.getD sk {}).lost = lostIn wires sk [] log := by
  intro start log
  choose params' ecalls hhonest using hwires
  choose B hwire hB hdata using fun sk => (hhonest sk).exists_coding hlaw
  replace hB := fun sk => hB sk hsound
  have hstep : ∀ s out c,
      (∃ d, s = some d ∧ Counts RS params.withDefaults B wires d out) →
      Fed params.crossPath wires c →
      ∃ d, (account RS s c).1 = some d ∧
        Counts RS params.withDefaults B wires d (out ++ (account RS s c).2) := by
    rintro s out c ⟨d, rfl, h⟩ hc
    exact h.step hlaw hsound hB hwire (fun key b hpos hb => hdata _ _ b hpos hb) hc
  obtain ⟨d, hexec, hd⟩ := Run.exec_induct_outputs hstep
    ⟨_, rfl, counts_newDecoder RS params B wires⟩ (Run.along_of_forall _ hcalls start)
  rw [List.nil_append] at hd
  exact ⟨d, (exec_account RS start calls).symm.trans hexec, hd.received sk, hd.lost sk⟩

/-- The parity frame of a block of two arrives alone, and its deadline passes; a data frame comes
too late.  The counters are read out twice. -/
def lossy21 : List Call :=
  [.push 0 "wan0" parityFrame21, .takeStreamStats 5 "wan0", .tick .plain (9 * millisecond),
    .push (10 * millisecond) "wan0" { sessionID := 5, seq := 1, blockSeq := 1, payload := [7] },
    .takeStreamStats 5 "wan0"]

/-- Both data frames are counted as lost, once. -/
theorem stream_stats_exact_lossy21 :
    let log := (Run.outputs (account smallCodes) (some (newDecoder params21)) lossy21).flatten
    (log.map (lostRead ⟨5, "wan0"⟩)).sum = 2 ∧
      ∃ d, Run.exec (step smallCodes) (some (newDecoder params21)) lossy21 = some d ∧
        2 + (d.stats.getD ⟨5, "wan0"⟩ {}).lost = 2 := by
  intro log
  have hcalls : ∀ c ∈ lossy21, Fed params21.crossPath wires21 c := by
    simp only [lossy21, List.forall_mem_cons]
    exact ⟨fed_push (by decide), trivial, trivial, fed_push (by decide), trivial, by simp⟩
  obtain ⟨d, hexec, -, hlost⟩ := stream_stats_exact lawful_smallCodes sound_smallCodes
    (fun sk => (honest_wires21 sk).imp fun _ h => h.imp fun _ h => h.1) hcalls ⟨5, "wan0"⟩
  have hread : (log.map (lostRead ⟨5, "wan0"⟩)).sum = 2 := by decide
  have hmissing : lostIn wires21 ⟨5, "wan0"⟩ [] log = 2 := by decide
  rw [hread, hmissing] at hlost
  exact ⟨hread, d, hexec, hlost⟩

end Decoder

end FlexBraid
