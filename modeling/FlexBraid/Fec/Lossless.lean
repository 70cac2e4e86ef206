import FlexBraid.Fec.Stage

/-!
# The codec on a lossless channel

When everything an encoder emits reaches a decoder with the same parameters in
order, and no tick cuts a block short, the decoder hands on exactly the data frames
that were pushed into the encoder, whatever mixture of pass-through frames, short
blocks, full blocks and changes of redundancy the encoder went through.

The proof follows the emission stage by stage.  At every moment the frames handed
on, those held in buffers and those still to come make up what was pushed.

## Main definitions

* `Conserves` — no data frame is lost or made up by a call.
* `InTime` — no tick falls at or after a block's deadline before its last frame.

## Main results

* `codec_lossless` — **the decoder hands on exactly the frames pushed into the
  encoder**.
-/

namespace FlexBraid

variable {F C : Type} {RS : ReedSolomon C}

open Segment

namespace Decoder

variable {params : Params F} {sk : StreamKey} {T : Time} {n : ℕ} {d : Decoder F C}
  {hist : List Call} {segs segs' : List Segment} {p : ℕ} {shard : ℕ → Bytes} {now : Time}
  {path : String} {g : Frame}

/-! ### One call -/

/-- No data frame is lost or made up: what a call hands on, what is held afterwards
and what is still to come are what was held and was to come. -/
def Conserves (d : Decoder F C) (todo : List Frame) (out : List Frame) (d' : Decoder F C)
    (todo' : List Frame) : Prop :=
  ((out ++ (d'.held ++ todo')).map Frame.content).Perm ((d.held ++ todo).map Frame.content)

variable {d' : Decoder F C} {f : Frame} {todo rest : List Frame}

theorem conserves_solo (hblocks : d'.blocks = d.blocks) {g : Frame}
    (hcontent : g.content = f.content) (todo : List Frame) :
    Conserves d (f :: todo) [g] d' todo := by
  rw [Conserves, held, held, hblocks, List.singleton_append, List.map_cons, hcontent, List.map_append,
    List.map_append, List.map_cons]
  exact List.perm_middle.symm

theorem conserves_update {key : BlockKey}
    (hlook : ∀ key', key' ≠ key → d'.blocks.lookup key' = d.blocks.lookup key') {old : List Frame}
    (new : List Frame) {out todo' : List Frame}
    (hold : ((d.blocks.gatherAt heldIn key).map Frame.content).Perm (old.map Frame.content))
    (hnew : ((d'.blocks.gatherAt heldIn key).map Frame.content).Perm (new.map Frame.content))
    (h : ((out ++ (new ++ todo')).map Frame.content).Perm ((old ++ todo).map Frame.content)) :
    Conserves d todo out d' todo' := by
  have hheld : (d'.held ++ _).Perm (d.held ++ _) := AList.gather_update heldIn hlook
  have hupdate := hheld.map Frame.content
  rw [List.perm_iff_count] at hold hnew h hupdate
  rw [Conserves, List.perm_iff_count]
  intro x
  have h1 := hold x
  have h2 := hnew x
  have h3 := h x
  have h4 := hupdate x
  simp only [List.map_append, List.count_append] at h1 h2 h3 h4 ⊢
  omega

theorem Waiting.lookup_next (h : Waiting params sk T n d) (hn : n + 1 ≤ 2 ^ 32) :
    d.blocks.lookup (sk.block (n + 1)) = none := by
  cases hl : d.blocks.lookup (sk.block (n + 1)) with
  | none => rfl
  | some st =>
    obtain ⟨⟨m, hm, hmn, hkey⟩, -⟩ := h.blocks _ st hl
    have hbs : UInt32.ofNat (n + 1) = UInt32.ofNat m := congrArg BlockKey.blockSeq hkey
    exact absurd hbs.symm (ofNat_ne_ofNat hm (by omega) hn)

variable (RS) in
/-- The push of `g` does not panic, loses nothing and leads to a stage with `rest` still
to come. -/
def Advances (params : Params F) (sk : StreamKey) (T : Time) (hist : List Call) (d : Decoder F C)
    (todo : List Frame) (now : Time) (path : String) (g : Frame) (rest : List Frame) : Prop :=
  ∃ (d' : Decoder F C) (out todo' : List Frame), d.push RS now path g = some (d', out) ∧
    Stage params sk T (hist ++ [.push now path g]) d' rest todo' ∧ Conserves d todo out d' todo'

theorem content_gatherAt {key : BlockKey} {got : List Frame} (h : (d.blockAt key).Partial got) :
    ((d.blocks.gatherAt heldIn key).map Frame.content).Perm (got.map Frame.content) := by
  cases hl : d.blocks.lookup key with
  | none =>
    rw [blockAt_of_none hl] at h
    have hnil : got = [] := List.map_eq_nil_iff.mp (List.nil_perm.mp h.keys)
    rw [AList.gatherAt_of_none _ hl, hnil]
  | some st =>
    rw [blockAt_of_lookup hl] at h
    rw [AList.gatherAt_of_some _ hl]
    exact h.frames key.sessionID

theorem ofNat_succ_ne_zero (hn : n + 1 < 2 ^ 32) : UInt32.ofNat (n + 1) ≠ 0 := by
  have := ofNat_lt_ofNat (Nat.succ_pos n) hn
  grind

/-- A push that belongs to no block, and one that only drops a frame of block `n`. -/
theorem Between.push (h : Between hist params sk T n d segs) (ha : Ahead params sk.sessionID n segs')
    (q : GoMap StreamKey RawPathStat) (hg : g.coded = true → 0 < n ∧ g.blockSeq = UInt32.ofNat n) :
    Between (hist ++ [.push now path g]) params sk T n { d with pathSeq := q } segs' := by
  have hw : Waiting params sk T n { d with pathSeq := q } := ⟨h.params, h.blocks, h.last⟩
  refine h.call (le_refl n) hw ha fun g' hg' => ?_
  rw [List.mem_singleton.mp hg']
  exact hg

/-- A data frame of the block being filled, or the first one of the next block. -/
theorem advances_data {N : ℕ} (h : Between hist params sk T N d segs') (hN : N ≤ n + 1)
    (ha : Ahead params sk.sessionID (n + 1) segs) (hn : n + 1 < 2 ^ 32) {got left : List Frame}
    (hw : Whole sk.sessionID (got ++ f :: left) p)
    (hg : (f.stamp (UInt32.ofNat (n + 1))).SentAs g) (hpath : d.streamPath path = sk.path)
    (hnow : now + params.blockTimeout ≤ T) (hlate : d.late (sk.block (n + 1)) = false)
    (hst : (d.blockAt (sk.block (n + 1))).Partial got)
    (hfirst : N = n ∧ d.blockAt (sk.block (n + 1)) = {} ∨
      got ≠ [] ∧ ∃ st, d.blocks.lookup (sk.block (n + 1)) = some st ∧
        FirstAt params.blockTimeout hist (UInt32.ofNat (n + 1)) st.deadline) :
    Advances RS params sk T hist d (f :: left ++ segs.flatMap Segment.data) now path g
      (remaining (n + 1) (got ++ f :: left) p shard left (List.range p) ++ emit (n + 1) segs) := by
  obtain ⟨hdata, hseq, hpayload, hsid, hbs, hcoded⟩ := stamp_sent (hw.inner f (by simp)) hg
  rw [decide_eq_true (ofNat_succ_ne_zero hn)] at hcoded
  have hkey : d.blockKey path g = sk.block (n + 1) := by rw [blockKey, hsid, hpath, hbs]; rfl
  have hnew : f.seq ∉ got.map Frame.seq := by
    have hnd := hw.nodup
    rw [List.map_append, List.map_cons, List.nodup_append] at hnd
    exact fun h0 => hnd.2.2 _ h0 _ List.mem_cons_self rfl
  rw [← hkey] at hlate hst
  have henabled : d.params.enabled = true := by
    rw [h.params]
    exact ha.enabled (by omega)
  obtain ⟨d', hpush, hparams, hlast, hlook⟩ :=
    push_partial RS henabled now hcoded hdata hseq hpayload hlate hst hnew
  obtain ⟨hst', hdl⟩ := hst.addData hseq hpayload hnew now d.params.blockTimeout
  rw [hkey] at hlook hst hst' hdl
  generalize hst'' : (d.blockAt (sk.block (n + 1))).addData now d.params.blockTimeout g = st' at *
  -- the deadline was set by the first frame of the block, perhaps by this one
  have hfirst' : FirstAt params.blockTimeout (hist ++ [.push now path g]) (UInt32.ofNat (n + 1))
      st'.deadline ∧ ∃ t, st'.deadline = some t ∧ t ≤ T := by
    rcases hfirst with ⟨rfl, hempty⟩ | ⟨hne, st, hl, hfirst⟩
    · rw [← hst'', hempty, h.params]
      refine ⟨⟨hist, now, path, g, [], rfl, hcoded, hbs, fun g' hg' hcoded' => ?_, rfl⟩, _, rfl, hnow⟩
      obtain ⟨m, hm, hmn, hbs'⟩ := h.seen g' hg' hcoded'
      rw [hbs']
      exact ofNat_ne_ofNat hm (by omega) hn.le
    · rw [hdl hne, blockAt_of_lookup hl]
      exact ⟨hfirst.snoc _, (h.blocks _ st hl).2.2⟩
  have hb : Between (hist ++ [.push now path g]) params sk T (n + 1) d' segs := by
    refine h.call hN (h.next hN hparams (fun key st hl => ?_) (.inl (by rw [hlast]))) ha ?_
    · rw [hlook] at hl
      split at hl
      · next hkey' =>
        cases hl
        exact .inr ⟨hkey', Nat.succ_pos n, hst'.flushed, hfirst'.2⟩
      · exact .inl hl
    · intro g' hg' _
      rw [List.mem_singleton.mp hg']
      exact ⟨Nat.succ_pos n, hbs⟩
  have hsplit : got ++ f :: left = got ++ [f] ++ left := by simp
  rw [hsplit] at hw ⊢
  refine ⟨d', [], left ++ segs.flatMap Segment.data, hpush,
    Stage.fill hb hw (by simp) hn (by rw [hlook, if_pos rfl]) hst' hfirst'.1, ?_⟩
  refine conserves_update (fun key' hne => by rw [hlook, if_neg hne]) (got ++ [f])
    (content_gatherAt hst) ?_ (by simp)
  rw [AList.gatherAt_of_some _ (by rw [hlook, if_pos rfl])]
  exact hst'.frames _

/-- The first parity frame of a block whose data frames have all come. -/
theorem advances_parity (h : Between hist params sk T (n + 1) d segs) {data : List Frame}
    (hw : Whole sk.sessionID data p) (hp : 0 < p) {st : BlockState}
    (hl : d.blocks.lookup (sk.block (n + 1)) = some st) (hst : st.Partial data) {i : ℕ} {js : List ℕ}
    (hg : (parityFrame (UInt32.ofNat (n + 1)) data.length p data i (shard i)).SentAs g)
    (hpath : d.streamPath path = sk.path) :
    Advances RS params sk T hist d (segs.flatMap Segment.data) now path g
      (remaining (n + 1) data p shard [] js ++ emit (n + 1) segs) := by
  obtain ⟨hparity, hpayload, hsid, hbs, hcoded⟩ := parity_sent hw hg
  have hkey : d.blockKey path g = sk.block (n + 1) := by rw [blockKey, hsid, hpath, hbs]; rfl
  obtain ⟨d', out, hpush, hparams, hout, hlook, hlast⟩ :=
    push_complete RS h.coding now hw.ne_nil (hw.size hp) (by rw [hkey, hl]) hst hparity hpayload
  rw [hkey] at hlook hlast
  have hlast' := hlast sk
  rw [hbs] at hlast'
  have hnone : d'.blocks.lookup (sk.block (n + 1)) = none := by rw [hlook, if_pos rfl]
  have hb : Between (hist ++ [.push now path g]) params sk T (n + 1) d' segs := by
    refine h.call (le_refl _) (h.next (le_refl _) hparams (fun key st' hl' => ?_) ?_) h.toAhead ?_
    · rw [hlook] at hl'
      split at hl'
      · cases hl'
      · exact .inl hl'
    · rw [hlast']
      split
      · exact .inr ⟨n + 1, le_refl _, rfl⟩
      · exact .inl rfl
    · intro g' hg' _
      rw [List.mem_singleton.mp hg']
      exact ⟨Nat.succ_pos n, hbs⟩
  have hpast : UInt32.ofNat (n + 1) ≤ d'.lastFlushed.getD sk 0 := by
    rw [hlast']
    split
    · exact UInt32.le_refl _
    · next h0 => exact UInt32.not_lt.mp fun hlt => h0 ⟨rfl, hlt⟩
  refine ⟨d', out, segs.flatMap Segment.data, hpush,
    Stage.settle hb hw (by simp) (fun h0 => absurd rfl h0) hnone hpast, ?_⟩
  refine conserves_update (fun key' hne => by rw [hlook, if_neg hne]) []
    (content_gatherAt (blockAt_of_lookup hl ▸ hst)) ?_ ?_
  · rw [AList.gatherAt_of_none _ hnone]
  · simp [hout]

/-- A frame of a block that needs no buffer: a data frame of the block whose number
wrapped around is handed on at once, and parity frames are dropped. -/
theorem advances_settled (h : Between hist params sk T (n + 1) d segs) {data left : List Frame}
    {js : List ℕ} (hw : Whole sk.sessionID data p) (hleft : ∀ f ∈ left, f ∈ data)
    (hzero : left ≠ [] → UInt32.ofNat (n + 1) = 0)
    (hnone : d.blocks.lookup (sk.block (n + 1)) = none)
    (hlast : UInt32.ofNat (n + 1) ≤ d.lastFlushed.getD sk 0)
    (hrest : remaining (n + 1) data p shard left js = f :: rest) (hg : f.SentAs g)
    (hpath : d.streamPath path = sk.path) :
    Advances RS params sk T hist d (left ++ segs.flatMap Segment.data) now path g
      (rest ++ emit (n + 1) segs) := by
  cases left with
  | cons f₀ left =>
    cases hrest
    have hf₀ := hw.inner f₀ (hleft f₀ List.mem_cons_self)
    obtain ⟨-, hseq, hpayload, -, -, hcoded⟩ := stamp_sent hf₀ hg
    have hbs0 := hzero (by simp)
    rw [hbs0] at hcoded
    obtain ⟨pathSeq, hpush⟩ := push_solo RS d now path hcoded
    refine ⟨_, _, left ++ segs.flatMap Segment.data, hpush, ?_,
      conserves_solo rfl (by rw [Frame.content, Frame.content, hseq, hpayload]) _⟩
    exact Stage.settle (h.push h.toAhead _ fun hc => absurd (hcoded.symm.trans hc) (by decide)) hw
      (fun f hf => hleft f (List.mem_cons_of_mem _ hf)) (fun _ => hbs0) hnone hlast
  | nil =>
    cases js with
    | nil => cases hrest
    | cons j js =>
      cases hrest
      obtain ⟨-, -, hsid, hbs, hcoded⟩ := parity_sent hw hg
      have hkey : d.blockKey path g = sk.block (n + 1) := by rw [blockKey, hsid, hpath, hbs]; rfl
      have hpush := push_late RS h.coding now hcoded (by rw [hkey, hnone])
        (by rw [hkey, hbs]; exact hlast)
      refine ⟨d, [], [] ++ segs.flatMap Segment.data, hpush, ?_, List.Perm.refl _⟩
      exact Stage.settle (h.push h.toAhead d.pathSeq fun _ => ⟨Nat.succ_pos n, hbs⟩) hw
        (by simp) (fun h0 => absurd rfl h0) hnone hlast

variable (RS) in
/-- **A push** of the next frame of the emission leads to the next stage. -/
theorem Stage.push (h : Stage params sk T hist d (f :: rest) todo) (hg : f.SentAs g)
    (hpath : d.streamPath path = sk.path) (hnow : now + params.blockTimeout ≤ T) :
    Advances RS params sk T hist d todo now path g rest := by
  generalize hall : f :: rest = all at h
  cases h with
  | @idle n segs hb =>
    cases segs with
    | nil => cases hall
    | cons s segs =>
      cases s with
      | solo f₀ flagged =>
        cases hall
        obtain ⟨hcoded, -, hseq, hpayload, -⟩ := soloFrame_sent (hb.solo f₀ flagged (by simp)) hg
        obtain ⟨pathSeq, hpush⟩ := push_solo RS d now path hcoded
        refine ⟨_, _, segs.flatMap Segment.data, hpush, ?_,
          conserves_solo rfl (by rw [Frame.content, Frame.content, hseq, hpayload]) _⟩
        exact .idle (hb.push hb.toAhead.tail _ fun hc => absurd (hcoded.symm.trans hc) (by decide))
      | block data p shard =>
        have hw := hb.block data p shard (by simp)
        have ha : Ahead params sk.sessionID (n + 1) segs := hb.toAhead.tail
        have hn : n + 1 ≤ 2 ^ 32 := le_trans (Nat.le_add_right _ _) ha.count
        have hnone := hb.lookup_next hn
        obtain ⟨m, hm, hlast⟩ := hb.last
        obtain ⟨f₀, left, rfl⟩ := List.exists_cons_of_ne_nil hw.ne_nil
        rcases Nat.lt_or_eq_of_le hn with hlt | heq
        · -- the first frame of the block opens its buffer
          cases hall
          have hlate : d.late (sk.block (n + 1)) = false := by
            rw [late, Bool.and_eq_false_iff]
            refine .inr (decide_eq_false (UInt32.not_le.mpr ?_))
            change d.lastFlushed.getD sk 0 < _
            rw [hlast]
            exact ofNat_lt_ofNat (Nat.lt_succ_of_le hm) hlt
          have hat := blockAt_of_none hnone
          exact advances_data hb (Nat.le_succ n) ha hlt hw hg hpath hnow hlate
            (hat ▸ BlockState.partial_nil) (.inl ⟨rfl, hat⟩)
        · -- the number wrapped around to zero
          have hbs0 : UInt32.ofNat (n + 1) = 0 := by rw [heq]; rfl
          cases hall
          have hb' : Between hist params sk T (n + 1) d segs := by
            refine ⟨ha, hb.next (Nat.le_succ n) rfl (fun _ _ => .inl) (.inl rfl), fun g hg hc => ?_⟩
            obtain ⟨j, hj, hjn, hbs⟩ := hb.seen g hg hc
            exact ⟨j, hj, hjn.trans (Nat.le_succ n), hbs⟩
          refine advances_settled hb' hw (fun f (hf : f ∈ f₀ :: left) => hf) (fun _ => hbs0) hnone ?_
            rfl hg hpath
          rw [hbs0]
          exact UInt32.zero_le
  | @filling n p segs got left shard st hb hw hgot hn hmore hl hst hfirst =>
    cases left with
    | cons f₀ left =>
      cases hall
      exact advances_data hb (le_refl _) hb.toAhead hn hw hg hpath hnow (by rw [late, hl]; rfl)
        (blockAt_of_lookup hl ▸ hst) (.inr ⟨hgot, st, hl, hfirst⟩)
    | nil =>
      obtain ⟨i, js, hrange⟩ : ∃ i js, List.range p = i :: js :=
        List.exists_cons_of_ne_nil fun h0 => hmore (by rw [remaining, h0]; rfl)
      have hp : 0 < p := by
        rw [← List.length_range (n := p), hrange]
        exact Nat.succ_pos _
      rw [remaining, hrange] at hall
      cases hall
      rw [List.append_nil] at hw hg ⊢
      exact advances_parity hb hw hp hl hst hg hpath
  | @settled n p segs data left shard js hb hw hleft hzero hmore hnone hlast =>
    obtain ⟨f', rest', hcons⟩ := List.exists_cons_of_ne_nil hmore
    rw [hcons] at hall
    cases hall
    exact advances_settled hb hw hleft hzero hnone hlast hcons hg hpath

theorem Stage.of_eq (h : Stage params sk T hist d rest todo) {c : Call} (hc : c.pushed = [])
    (hparams : d'.params = d.params) (hblocks : d'.blocks = d.blocks)
    (hlast : d'.lastFlushed = d.lastFlushed) : Stage params sk T (hist ++ [c]) d' rest todo := by
  have hnext : ∀ {n segs}, Between hist params sk T n d segs →
      Between (hist ++ [c]) params sk T n d' segs := by
    intro n segs hb
    refine hb.call (le_refl n) (hb.next (le_refl n) hparams (fun key st hl => .inl ?_) (.inl ?_))
      hb.toAhead fun g hg => ?_
    · rwa [hblocks] at hl
    · rw [hlast]
    · rw [hc] at hg
      cases hg
  cases h with
  | idle hb => exact .idle (hnext hb)
  | filling hb hw hgot hn hmore hl hst hfirst =>
    exact .filling (hnext hb) hw hgot hn hmore (hblocks ▸ hl) hst (hfirst.snoc c)
  | settled hb hw hleft hzero hmore hnone hpast =>
    exact .settled (hnext hb) hw hleft hzero hmore (hblocks ▸ hnone) (hlast ▸ hpast)

/-- **A tick** that is in time for the block being filled keeps the stage. -/
theorem Stage.tick (h : Stage params sk T hist d rest todo) (σ : IterOrder BlockKey)
    (htime : ∀ bs t f rest', FirstAt params.blockTimeout hist bs (some t) → rest = f :: rest' →
      (∀ g, f.SentAs g → g.coded = true ∧ g.blockSeq = bs) → now < t) :
    Stage params sk T (hist ++ [.tick σ now]) (d.tick σ now).1 rest todo ∧
      Conserves d todo (d.tick σ now).2 (d.tick σ now).1 todo := by
  constructor
  · have hnext : ∀ {n segs}, Between hist params sk T n d segs →
        Between (hist ++ [.tick σ now]) params sk T n (d.tick σ now).1 segs := fun hb =>
      hb.call (le_refl _) (hb.tick σ now) hb.toAhead fun g hg => by cases hg
    cases h with
    | idle hb => exact .idle (hnext hb)
    | @filling n p segs got left shard st hb hw hgot hn hmore hl hst hfirst =>
      obtain ⟨-, -, t, ht, -⟩ := hb.blocks _ st hl
      -- more frames of the block are to come, so the tick is before its deadline
      have hlt : now < t := by
        obtain ⟨f, rest', hcons⟩ := List.exists_cons_of_ne_nil hmore
        refine htime _ t f (rest' ++ emit (n + 1) segs) (ht ▸ hfirst) (by rw [hcons]; rfl) fun g hg => ?_
        have hsent := remaining_sent hw (List.subset_append_right got left)
          (hcons ▸ List.mem_cons_self) hg
        exact ⟨hsent.2 (ofNat_succ_ne_zero hn), hsent.1⟩
      have hdue : st.overdue now = false := by
        rw [BlockState.overdue, hst.flushed, ht]
        simpa [before] using hlt
      exact .filling (hnext hb) hw hgot hn hmore
        (by rw [lookup_tick hb.coding, hl, Option.filter_some, hdue]; rfl) hst (hfirst.snoc _)
    | settled hb hw hleft hzero hmore hnone hpast =>
      exact .settled (hnext hb) hw hleft hzero hmore (by rw [lookup_tick hb.coding, hnone]; rfl)
        (UInt32.le_trans hpast ((ticked_tick hb.coding σ now).1.mono sk))
  · rw [Conserves, ← List.append_assoc]
    exact ((d.held_tick σ now).symm.append_right todo).map _

/-! ### Whole runs -/

/-- No tick falls at or after the deadline of a block, which its first frame sets, while
frames of the block are still to come. -/
def InTime (timeout : Duration) (calls : List Call) : Prop :=
  ∀ pre now₀ path g mid σ now post,
    calls = pre ++ .push now₀ path g :: (mid ++ .tick σ now :: post) → g.coded = true →
    (∀ g' ∈ pre.flatMap Call.pushed, g'.coded = true → g'.blockSeq ≠ g.blockSeq) →
    (∃ g' ∈ post.flatMap Call.pushed, g'.coded = true ∧ g'.blockSeq = g.blockSeq) →
    now < now₀ + timeout

/-- The pushes of a run go to one stream, on any path in cross-path mode, and their
deadlines are not after `T`. -/
def OnStream (params : Params F) (sk : StreamKey) (T : Time) : Call → Prop
  | .push now path _ =>
    (if params.crossPath then "" else path) = sk.path ∧ now + params.blockTimeout ≤ T
  | _ => True

variable (RS) in
/-- **A run** over what is still to come of an emission. -/
theorem Stage.run {calls : List Call} (h : Stage params sk T hist d rest todo)
    (hsent : List.Forall₂ Frame.SentAs rest (calls.flatMap Call.pushed))
    (hstream : ∀ c ∈ calls, OnStream params sk T c)
    (htime : InTime params.blockTimeout (hist ++ calls)) :
    ∃ d' todo', Run.exec (step RS) (some d) calls = some d' ∧
      Stage params sk T (hist ++ calls) d' [] todo' ∧
      Conserves d todo (Run.outputs (step RS) (some d) calls).flatten d' todo' := by
  induction calls generalizing d hist rest todo with
  | nil =>
    cases hsent
    exact ⟨d, todo, rfl, by simpa using h, List.Perm.refl _⟩
  | cons c calls ih =>
    obtain ⟨hc, hrest⟩ := List.forall_mem_cons.mp hstream
    have happ : hist ++ c :: calls = hist ++ [c] ++ calls := by simp
    -- one call, and then the rest of the run
    have hstep : ∃ d₁ out rest₁ todo₁, step RS (some d) c = (some d₁, out) ∧
        Stage params sk T (hist ++ [c]) d₁ rest₁ todo₁ ∧ Conserves d todo out d₁ todo₁ ∧
        List.Forall₂ Frame.SentAs rest₁ (calls.flatMap Call.pushed) := by
      have hparams : d.params = params := by
        cases h with
        | idle hb => exact hb.params
        | filling hb => exact hb.params
        | settled hb => exact hb.params
      cases c with
      | push now path g =>
        rw [List.flatMap_cons] at hsent
        cases hsent with
        | @cons f _ rest₁ _ hg hsent =>
          obtain ⟨hpath, hnow⟩ := hc
          obtain ⟨d₁, out, todo₁, hpush, h₁, hcons⟩ :=
            h.push RS hg (by rw [streamPath, hparams, hpath]) hnow
          exact ⟨d₁, out, rest₁, todo₁, step_push hpush, h₁, hcons, hsent⟩
      | tick σ now =>
        refine ⟨_, _, rest, todo, rfl, ?_⟩
        rw [← and_assoc]
        refine ⟨h.tick σ fun bs t f rest' hfirst hcons hf => ?_, hsent⟩
        obtain ⟨pre, now₀, path, g, mid, rfl, hg, hbs, hpre, ht⟩ := hfirst
        cases ht
        refine htime pre now₀ path g mid σ now calls (by simp) hg (by rw [hbs]; exact hpre) ?_
        have hsent' : List.Forall₂ Frame.SentAs (f :: rest') (calls.flatMap Call.pushed) :=
          hcons ▸ hsent
        obtain ⟨g', gs, hg', -, hall⟩ := List.forall₂_cons_left_iff.mp hsent'
        rw [hall, hbs]
        exact ⟨g', List.mem_cons_self, hf g' hg'⟩
      | takeStreamStats sid path =>
        exact ⟨_, [], rest, todo, rfl, h.of_eq rfl rfl rfl rfl, List.Perm.refl _, hsent⟩
      | takePathStats sid path =>
        exact ⟨_, [], rest, todo, rfl, h.of_eq rfl rfl rfl rfl, List.Perm.refl _, hsent⟩
    obtain ⟨d₁, out, rest₁, todo₁, hstep, h₁, hcons₁, hsent₁⟩ := hstep
    rw [happ] at htime ⊢
    obtain ⟨d', todo', hexec, h', hcons'⟩ := ih h₁ hsent₁ hrest htime
    refine ⟨d', todo', by rw [Run.exec_cons, hstep, hexec], h', ?_⟩
    rw [Run.outputs_cons, hstep, List.flatten_cons, Conserves, List.append_assoc, List.map_append]
    refine (hcons'.append_left _).trans ?_
    rw [← List.map_append]
    exact hcons₁

/-- At the end of an emission nothing is to come, and a tick past all deadlines hands on
what is held. -/
theorem Stage.final (h : Stage params sk T hist d [] todo) (σ : IterOrder BlockKey) :
    todo = [] ∧ d.held.Perm (d.tick σ T).2 := by
  generalize hall : ([] : List Frame) = all at h
  cases h with
  | @idle n segs hb =>
    cases segs with
    | nil => exact ⟨rfl, hb.tick_final (fun h0 => hb.enabled (by omega)) σ⟩
    | cons s segs =>
      cases s with
      | solo f flagged => cases hall
      | block data p shard =>
        obtain ⟨f, left, rfl⟩ := List.exists_cons_of_ne_nil (hb.block data p shard (by simp)).ne_nil
        cases hall
  | filling _ _ _ _ hmore => exact absurd (List.append_eq_nil_iff.mp hall.symm).1 hmore
  | settled _ _ _ _ hmore => exact absurd (List.append_eq_nil_iff.mp hall.symm).1 hmore

end Decoder

/-! ### The encoder's last tick -/

theorem Encoder.pending_tick [Float64 F] (e : Encoder F RS) {now : Time}
    (hnow : ∀ t, e.blockStart = some t → t + e.params.blockTimeout ≤ now) :
    (e.tick now).1.pending = [] := by
  unfold Encoder.tick
  split
  · next hoff => exact e.idle hoff
  · dsimp only
    split
    · rfl
    · split
      · next hlen => exact List.length_eq_zero_iff.mp hlen
      · split
        · next hbefore =>
          rw [(e.refresh_eq now).2.2.2, (e.refresh_eq now).1] at hbefore
          cases hstart : e.blockStart with
          | none =>
            rw [hstart] at hbefore
            cases hbefore
          | some t =>
            rw [hstart] at hbefore
            have hlt : now < t + e.params.blockTimeout := by simpa [before] using hbefore
            exact absurd (hnow t hstart) (not_le.mpr hlt)
        · rfl

theorem ahead_of_segments (hlaw : RS.Lawful) {params : Params F} {sid : UInt64}
    {segs : List Segment} (hvalid : ∀ s ∈ segs, s.Valid RS params.dataShards)
    (henabled : 0 < blockCount segs → params.enabled = true)
    (hinner : ∀ f ∈ segs.flatMap Segment.data, InnerFrame sid f)
    (hnodup : ((segs.flatMap Segment.data).map Frame.seq).Nodup) :
    Decoder.Ahead params sid 0 segs := by
  have hcount : blockCount segs ≤ 2 ^ 32 := by
    have h1 := blockCount_le hvalid
    have h2 := length_le_of_nodup_seqs hnodup
    rw [List.length_map] at h2
    omega
  refine ⟨by omega, by rwa [Nat.zero_add], fun f flagged hmem => ?_, fun data p shard hmem => ?_⟩
  · exact hinner f (List.mem_flatMap.mpr ⟨_, hmem, List.mem_singleton_self f⟩)
  · have hsub : data.Sublist (segs.flatMap Segment.data) := data_sublist hmem
    obtain ⟨hne, hfull⟩ := hvalid _ hmem
    refine ⟨fun f hf => hinner f (hsub.subset hf), hnodup.sublist (hsub.map _), hne, fun hp => ?_⟩
    obtain ⟨hlen, hsome⟩ := hfull hp
    obtain ⟨c, hnew⟩ := Option.isSome_iff_exists.mp hsome
    have := hlaw.new_bounds hnew
    omega

/-- **The codec is the identity on a lossless channel.**  Data frames with increasing
numbers are pushed into an encoder over any sequence of calls, ended by a tick past
the last deadline.  If everything it emits reaches a decoder with the same
parameters in order, and no tick of the decoder cuts a block short, then after a
tick past all deadlines the decoder has handed on exactly the frames pushed, each
once. -/
theorem codec_lossless [Float64 F] (hlaw : RS.Lawful) {params : Params F} {e : Encoder F RS}
    (hnew : newEncoder RS params = .ok e) {sid : UInt64} {ecalls : List (Encoder.Call F)}
    (hinner : ∀ f ∈ ecalls.flatMap Encoder.Call.pushed, InnerFrame sid f)
    (hseqs : ((ecalls.flatMap Encoder.Call.pushed).map Frame.seq).Pairwise (· < ·)) {U : Time}
    (hU : ∀ t, (Run.exec Encoder.step e ecalls).blockStart = some t →
      t + params.withDefaults.blockTimeout ≤ U) {dcalls : List Decoder.Call}
    (hsent : List.Forall₂ Frame.SentAs (Run.outputs Encoder.step e (ecalls ++ [.tick U])).flatten
      (dcalls.flatMap Decoder.Call.pushed)) {path : String} {T : Time}
    (hstream : ∀ c ∈ dcalls, Decoder.OnStream params.withDefaults ⟨sid, path⟩ T c)
    (htime : Decoder.InTime params.withDefaults.blockTimeout dcalls) (σ : IterOrder BlockKey) :
    (Run.exec (Decoder.step RS) (some (newDecoder params)) (dcalls ++ [.tick σ T])).isSome ∧
      ((Run.outputs (Decoder.step RS) (some (newDecoder params))
          (dcalls ++ [.tick σ T])).flatten.map Frame.content).Perm
        ((ecalls.flatMap Encoder.Call.pushed).map Frame.content) := by
  obtain ⟨hparams, hpending, hcoded⟩ := newEncoder_ok hnew
  obtain ⟨segs, hout, hdata, hvalid, henabled⟩ := segments_of_run e (ecalls ++ [.tick U])
  rw [hparams] at hvalid henabled
  -- the last tick leaves nothing pending, so the segments hold all data frames
  have hflushed : (Run.exec Encoder.step e (ecalls ++ [.tick U])).pending = [] := by
    rw [Run.exec_append, Run.exec_cons, Run.exec_nil]
    refine Encoder.pending_tick _ ?_
    rw [Encoder.params_exec, hparams]
    exact hU
  have hpushed : (ecalls ++ [Encoder.Call.tick U]).flatMap Encoder.Call.pushed =
      ecalls.flatMap Encoder.Call.pushed := by
    rw [List.flatMap_append]
    exact List.append_nil _
  rw [hpending, List.nil_append, hpushed, hflushed, List.append_nil] at hdata
  rw [hout, hcoded] at hsent
  have hnodup : ((ecalls.flatMap Encoder.Call.pushed).map Frame.seq).Nodup := by
    refine List.Pairwise.imp ?_ hseqs
    rintro a b hlt rfl
    exact UInt32.lt_irrefl a hlt
  have hahead : Decoder.Ahead params.withDefaults sid 0 segs :=
    ahead_of_segments hlaw hvalid henabled (hdata ▸ hinner) (hdata ▸ hnodup)
  have hstart : Decoder.Stage params.withDefaults ⟨sid, path⟩ T [] (newDecoder params : Decoder F C)
      (emit 0 segs) (segs.flatMap Segment.data) := by
    refine .idle ⟨hahead, ⟨rfl, fun key st hl => ?_, 0, le_refl 0, rfl⟩, fun g hg => ?_⟩
    · cases hl
    · cases hg
  obtain ⟨d, todo, hexec, hend, hcons⟩ := hstart.run RS hsent hstream htime
  obtain ⟨rfl, hheld⟩ := hend.final σ
  refine ⟨by rw [Run.exec_append, hexec]; rfl, ?_⟩
  have hlast : (Run.outputs (Decoder.step RS) (some d) [.tick σ T]).flatten = (d.tick σ T).2 :=
    List.append_nil _
  rw [Run.outputs_append, hexec, List.flatten_append, hlast, hdata]
  have hall := (hheld.symm.append_left
    (Run.outputs (Decoder.step RS) (some (newDecoder params)) dcalls).flatten).map Frame.content
  rw [Decoder.Conserves, List.append_nil] at hcons
  exact hall.trans hcons

/-- A full block with its parity frame, and a short block. -/
theorem codec_lossless_block21 :
    let third : Frame := { sessionID := 5, seq := 9, payload := [4, 4] }
    ((Run.outputs (Decoder.step smallCodes) (some (newDecoder params21))
        [.push 0 "wan0" { sessionID := 5, seq := 1, blockSeq := 1, payload := [7] },
          .push 1 "wan0" { sessionID := 5, seq := 2, blockSeq := 1, payload := [8, 9] },
          .push 2 "wan0" parityFrame21, .push 3 "wan0" { third with blockSeq := 2 },
          .tick .plain (30 * millisecond)]).flatten.map Frame.content).Perm
      ((block21 ++ [third]).map Frame.content) := by
  intro third
  let ecalls : List (Encoder.Call ℚ) := (block21 ++ [third]).map (Encoder.Call.push 0 0)
  let dcalls : List Decoder.Call :=
    [.push 0 "wan0" { sessionID := 5, seq := 1, blockSeq := 1, payload := [7] },
      .push 1 "wan0" { sessionID := 5, seq := 2, blockSeq := 1, payload := [8, 9] },
      .push 2 "wan0" parityFrame21, .push 3 "wan0" { third with blockSeq := 2 }]
  have hemitted : (Run.outputs Encoder.step encoder21 (ecalls ++ [.tick (8 * millisecond)])).flatten =
      dcalls.flatMap Decoder.Call.pushed := by decide
  have hsent : List.Forall₂ Frame.SentAs
      (Run.outputs Encoder.step encoder21 (ecalls ++ [.tick (8 * millisecond)])).flatten
      (dcalls.flatMap Decoder.Call.pushed) := by
    rw [hemitted]
    exact List.forall₂_same.mpr fun f _ => Frame.SentAs.refl f
  have hinner : ∀ f ∈ ecalls.flatMap Encoder.Call.pushed, InnerFrame 5 f := by
    simp only [ecalls, block21, third, List.cons_append, List.nil_append, List.map_cons,
      List.map_nil, List.flatMap_cons, List.flatMap_nil, Encoder.Call.pushed, List.forall_mem_cons]
    exact ⟨⟨rfl, rfl, rfl⟩, ⟨rfl, rfl, rfl⟩, ⟨rfl, rfl, rfl⟩, by simp⟩
  have hU : ∀ t, (Run.exec Encoder.step encoder21 ecalls).blockStart = some t →
      t + params21.withDefaults.blockTimeout ≤ 8 * millisecond := by
    intro t ht
    have hstart : (Run.exec Encoder.step encoder21 ecalls).blockStart = some 0 := by decide
    rw [hstart] at ht
    cases ht
    decide
  have hstream : ∀ c ∈ dcalls,
      Decoder.OnStream params21.withDefaults ⟨5, "wan0"⟩ (30 * millisecond) c := by
    simp only [dcalls, List.forall_mem_cons, Decoder.OnStream]
    exact ⟨by decide, by decide, by decide, by decide, by simp⟩
  have htime : Decoder.InTime params21.withDefaults.blockTimeout dcalls := by
    intro pre now₀ path g mid σ now post hcalls
    have hmem : Decoder.Call.tick σ now ∈ dcalls := by simp [hcalls]
    simp [dcalls] at hmem
  exact (codec_lossless lawful_smallCodes rfl hinner (by decide) hU hsent hstream htime .plain).2

end FlexBraid
