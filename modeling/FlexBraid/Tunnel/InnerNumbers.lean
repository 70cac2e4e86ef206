import FlexBraid.Fec.Mentions
import FlexBraid.Tunnel.BlockNumbers
import FlexBraid.Tunnel.ClientNonce
import FlexBraid.Tunnel.Provenance

/-!
# The numbers of inner datagrams

Every datagram of the inner peer gets a number before it goes into an encoder.  Below the
limit of the counter no number goes into an encoder twice, whatever the goroutines of the
client do, and so every number leaves the encoders in one batch: it belongs to one block, or
to none.

A goroutine owns the number it has drawn until it calls an encoder; from then on the number
waits in the encoder, and it is used up when the encoder returns its frame.  The numbers that
parity frames, handshakes and probes draw are never used in this sense.

## Main definitions

* `innerNumbering` — the numbers of the frames that the encoders of a client return.

## Main results

* `Client.exists_placed` — **every frame of a client is placed**: it speaks of numbers of its
  block, or it is the only one of its number.
-/

namespace FlexBraid

variable {F C : Type} {RS : ReedSolomon C} {P : Primitives}

/-- The numbers of the frames that the encoders of a client return. -/
def innerNumbering : SeqNumbering (Client F RS P) (ClientOut P) where
  limit := 2 ^ 32
  count c := c.sess.seq
  pending c := waitingSeqs c.encs
  used
    | .coded _ frames => ownSeqs frames
    | _ => 0

namespace Client

open Prog SeqNumbering

/-! ### The goroutines -/

/-- Actions that may draw a number, but have nothing to do with the encoders. -/
structure Spends (c : Client F RS P) (out : List (ClientOut P)) (c' : Client F RS P) : Prop where
  count : c.sess.seq ≤ c'.sess.seq
  waiting : waitingSeqs c'.encs = waitingSeqs c.encs
  uncoded : ∀ o ∈ out, o.Uncoded

variable {c c' : Client F RS P} {out out' : List (ClientOut P)} {m : Multiset ℕ}

theorem Spends.of_encs (hcount : c.sess.seq ≤ c'.sess.seq) (hencs : c'.encs = c.encs)
    (hout : ∀ o ∈ out, o.Uncoded) : Spends c out c' := by
  refine ⟨hcount, ?_, hout⟩
  rw [hencs]

theorem Spends.inv (h : Spends c out' c') (hinv : innerNumbering.Inv c out m) :
    innerNumbering.Inv c' (out ++ out') m := by
  refine hinv.skip h.count h.waiting (List.sum_eq_zero fun n hn => ?_)
  obtain ⟨o, ho, rfl⟩ := List.mem_map.mp hn
  cases o with
  | coded => exact (h.uncoded _ ho).elim
  | _ => rfl

theorem composes_spends : Composes (Spends : Client F RS P → _) where
  nil _ := .of_encs le_rfl rfl (by simp)
  append h h' := ⟨h.count.trans h'.count, h'.waiting.trans h.waiting,
    List.forall_mem_append.mpr ⟨h.uncoded, h'.uncoded⟩⟩

theorem Still.spends (h : c.Still c') : Spends c [] c' :=
  .of_encs (Nat.le_of_eq h.seq.symm) h.encs (by simp)

theorem sendActions_spends : SendActions (Spends : Client F RS P → _) where
  composes := composes_spends
  calm h := h.toStill.spends
  number _ := .of_encs (Nat.le_succ _) rfl (by simp)
  send _ _ _ _ _ := .of_encs le_rfl rfl (by simp [ClientOut.Uncoded])

theorem owns_useEnc_inner (slot : Option ℕ) {call : Encoder F RS → Encoder F RS × List Frame}
    (hcall : ∀ e, ownSeqs (call e).2 + ownSeqs (call e).1.pending = m + ownSeqs e.pending) :
    Owns innerNumbering.Inv (fun _ m' => m' = 0)
      (useEnc slot call : CliProg RS F P (List Frame)) m := by
  refine owns_trade (fun _ => 0) ?_ ?_
  · intro c
    split <;> rfl
  · intro c
    split
    · dsimp only
      rw [SeqNumbering.usedBy_nil, zero_add, add_zero]
      exact Multiset.le_add_left _ _
    · next i e hslot =>
      obtain ⟨-, e, hget, rfl⟩ := get_of_slot hslot
      obtain ⟨rest, hsum, hset⟩ := waitingSeqs_set hget
      have hused : innerNumbering.usedBy (S := Client F RS P) [.coded i (call e).2] =
          ownSeqs (call e).2 := add_zero _
      rw [hused, zero_add]
      show waitingSeqs (c.encs.set i (call e).1) + ownSeqs (call e).2 ≤ m + waitingSeqs c.encs
      rw [hset, hsum, ← add_assoc m, ← hcall e, add_right_comm, add_comm (ownSeqs (call e).1.pending)]

variable [Float64 F] (env : ClientEnv F P)

theorem recvActions_spends : RecvActions env (Spends : Client F RS P → _) where
  composes := composes_spends
  still h := h.spends
  adopt c data := by
    have hadopted := adopted_applyAnnounce env c data
    obtain ⟨new, hencs, hfresh⟩ := hadopted.encs
    refine ⟨?_, ?_, by simp⟩
    · rw [hadopted.sess]
    · rw [hencs, waitingSeqs_append_fresh _ fun e he => (hfresh e he).pending]
  publish _ _ _ := .of_encs le_rfl rfl (by simp)
  pushed _ _ _ _ := .of_encs le_rfl rfl (by simp [ClientOut.Uncoded])
  skipped _ _ _ := .of_encs le_rfl rfl (by simp [ClientOut.Uncoded])
  write _ _ _ := .of_encs le_rfl rfl (by simp [ClientOut.Uncoded])

/-- **The goroutines of a client own the numbers they push.** -/
theorem rules_inner : Rules env (SeqNumbering.Inv (innerNumbering : SeqNumbering (Client F RS P) _))
      (fun q => {q.toNat}) (fun _ => 0) (fun _ => 0) fun _ => True := by
  have hinv : ∀ (c : Client F RS P) o c' out m, Spends c o c' → innerNumbering.Inv c out m →
      innerNumbering.Inv c' (out ++ o) m := fun _ _ _ _ _ hspends h => hspends.inv h
  have hsend : SendRules env (SeqNumbering.Inv (innerNumbering : SeqNumbering (Client F RS P) _))
      (fun _ => 0) (fun _ => 0) (fun _ => 0) := by
    refine sendActions_spends.sendRules hinv ?_ ?_
    · intro slot now
      refine owns_useEnc_inner slot fun e => ?_
      rw [(e.emission_tick now).ownSeqs, zero_add]
    · intro slot now loss
      refine (owns_useEnc_inner slot fun e => ?_).mono fun _ _ _ => trivial
      rw [(e.emission_setLossRate now loss).ownSeqs, zero_add]
  refine { hsend, (recvActions_spends env).recvRules hinv with nextSeq := ?_, push := ?_ }
  · exact owns_issue (fun _ => rfl) (fun _ => rfl) (fun _ => rfl) fun _ h => toNat_wireSeq h
  · intro slot now start id seq payload
    refine (owns_useEnc_inner slot fun e => ?_).mono ?_
    · rw [(e.emission_push now start _).ownSeqs, ownSeqs_append, ownSeqs_singleton, ownSeq_data,
        add_comm (ownSeqs _)]
    · rintro frames m rfl
      rw [List.map_const', List.sum_replicate, nsmul_zero]

/-! ### One number, one frame -/

variable {env} {T : Type} [DecidableEq T] {id : UInt64} {es : List (Pool.Event T (Call F))}

theorem inner_nodup (hnew : newClient RS env id = .ok c)
    (hcount : (Run.exec (step env) (Pool.idle c) es).state.sess.seq < 2 ^ 32) :
    ((innerNumbering : SeqNumbering (Client F RS P) _).usedBy
      (Run.outputs (step env) (Pool.idle c) es).flatten).Nodup := by
  obtain ⟨hseq, hwaiting⟩ := unnumbered_newClient hnew
  have hstart : innerNumbering.Inv c [] 0 := SeqNumbering.inv_start hseq hwaiting
  obtain ⟨m, hinv⟩ := Pool.inv_exec hstart es fun _ call _ =>
    (rules_inner env).owns_body call (by cases call <;> trivial)
  exact SeqNumbering.used_nodup hinv hcount

omit [Float64 F] in
/-- **A number leaves the encoders with one frame.** -/
theorem data_unique
    (hnodup : ((innerNumbering : SeqNumbering (Client F RS P) _).usedBy out).Nodup) {j j' : ℕ}
    {frames frames' : List Frame} {g g' : Frame} (hmem : .coded j frames ∈ out)
    (hmem' : .coded j' frames' ∈ out) (hg : g ∈ frames) (hg' : g' ∈ frames')
    (hdata : g.hasFlag flagFECParity = false) (hdata' : g'.hasFlag flagFECParity = false)
    (hseq : g.seq = g'.seq) : g = g' := by
  have hown : ∀ {f : Frame}, f.hasFlag flagFECParity = false → f.seq.toNat ∈ f.ownSeq := by
    intro f hf
    rw [Frame.ownSeq, hf]
    exact Multiset.mem_singleton_self _
  have hused : g.seq.toNat ∈ ownSeqs frames :=
    Multiset.mem_of_le (Ledger.le_sum_of_mem hg) (hown hdata)
  have hused' : g.seq.toNat ∈ ownSeqs frames' := by
    rw [hseq]
    exact Multiset.mem_of_le (Ledger.le_sum_of_mem hg') (hown hdata')
  -- the two frames lie in one batch, and a batch holds a number once
  have hbatch := SeqNumbering.eq_of_used hnodup hmem hmem' hused hused'
  cases hbatch
  have hframes : (ownSeqs frames).Nodup :=
    Multiset.nodup_of_le (SeqNumbering.used_le hmem) hnodup
  refine Ledger.eq_of_nodup_sum hframes hg hg' (hown hdata) ?_
  rw [hseq]
  exact hown hdata'

/-! ### The blocks of the numbers -/

omit [Float64 F] in
theorem ownSeqs_of_data {data : List Frame} (h : ∀ f ∈ data, f.hasFlag flagFECParity = false) :
    ownSeqs data = ((data.map fun f => f.seq.toNat : List ℕ) : Multiset ℕ) := by
  induction data with
  | nil => rfl
  | cons f data ih =>
    obtain ⟨hf, hdata⟩ := List.forall_mem_cons.mp h
    rw [← List.singleton_append, ownSeqs_append, ih hdata, ownSeqs_singleton, Frame.ownSeq, hf]
    rfl

omit [Float64 F] in
/-- A parity frame comes with the data frames that it speaks of. -/
theorem CodedFrom.parity (hlaw : RS.Lawful) {frames : List Frame} (h : CodedFrom F RS frames)
    (hnodup : (ownSeqs frames).Nodup) {g : Frame} (hg : g ∈ frames)
    (hparity : g.hasFlag flagFECParity = true) :
    g.hasFlag flagPassSeq = false ∧ g.mentions.Nodup ∧ ∀ q ∈ g.mentions, ∃ d ∈ frames,
      d.seq = q ∧ d.flags = 0 ∧ d.blockSeq = g.blockSeq := by
  obtain ⟨e, e', data, hemission, hdata⟩ := h
  have hplain : ∀ {f : Frame}, f.flags = 0 → f.hasFlag flagFECParity = false := by
    intro f hf
    rw [Frame.hasFlag, hf]
    decide
  have hcoded : g.coded = true := by
    rw [Frame.coded, hparity]
    rfl
  cases hemission with
  | hold => cases hg
  | pass =>
    rw [Encoder.coded_markPassSeq hdata g hg] at hcoded
    cases hcoded
  | plain =>
    rw [Encoder.coded_of_plain (hdata g hg)] at hcoded
    cases hcoded
  | block _ _ _ _ _ p shard hfull hcodec =>
    rcases List.mem_append.mp hg with hg | hg
    · obtain ⟨d, hd, rfl⟩ := List.mem_map.mp hg
      rw [hplain (f := d.stamp (e.block + 1)) (hdata d hd).1] at hparity
      cases hparity
    · obtain ⟨i, hi, rfl⟩ := List.mem_map.mp hg
      have hp : 0 < p := Nat.zero_lt_of_lt (List.mem_range.mp hi)
      -- with parity the block is full, and its size fits the table
      have hlen : data.length < 65536 := by
        obtain ⟨codec, hnew⟩ := Option.isSome_iff_exists.mp (hcodec hp)
        have hbounds := hlaw.new_bounds hnew
        have hsize := hfull hp
        omega
      have hmentions : (parityFrame (e.block + 1) data.length p data i (shard i)).mentions =
          data.map Frame.seq := by
        rw [Frame.mentions, if_pos hparity]
        change (List.range (BlockState.readSubHeader
          (parityPayload data.length p data i (shard i))).k).map _ = _
        rw [readSubHeader_mod, Nat.mod_eq_of_lt hlen]
        exact read_seqTable data p i (shard i)
      refine ⟨?_, ?_, ?_⟩
      · change (flagFECParity &&& flagPassSeq != 0) = false
        decide
      · rw [hmentions]
        rw [ownSeqs_append] at hnodup
        have hstamped := Multiset.nodup_of_le (Multiset.le_add_right _ _) hnodup
        rw [ownSeqs_of_data, Multiset.coe_nodup, List.map_map] at hstamped
        · exact List.Nodup.of_map UInt32.toNat (by rw [List.map_map]; exact hstamped)
        · intro f hf
          obtain ⟨d, hd, rfl⟩ := List.mem_map.mp hf
          exact hplain (hdata d hd).1
      · rw [hmentions]
        intro q hq
        obtain ⟨d, hd, rfl⟩ := List.mem_map.mp hq
        exact ⟨d.stamp (e.block + 1), List.mem_append_left _ (List.mem_map_of_mem hd), rfl,
          (hdata d hd).1, rfl⟩

omit [Float64 F] in
/-- **Every frame of a client is placed**, as long as no number was pushed twice. -/
theorem exists_placed (hlaw : RS.Lawful) (haccounted : Accounted RS env id out)
    (hnodup : ((innerNumbering : SeqNumbering (Client F RS P) _).usedBy out).Nodup) :
    ∃ block : UInt32 → Option UInt32, ∀ f, FromEncoder out f → f.Placed block := by
  classical
  -- the data frame of a number tells its block
  have hexists : ∀ q : UInt32, ∃ b : Option UInt32, ∀ j frames g, .coded j frames ∈ out →
      g ∈ frames → g.hasFlag flagFECParity = false → g.seq = q →
      b = if g.hasFlag flagPassSeq then none else some g.blockSeq := by
    intro q
    by_cases hq : ∃ j frames g, .coded j frames ∈ out ∧ g ∈ frames ∧
        g.hasFlag flagFECParity = false ∧ g.seq = q
    · obtain ⟨j, frames, g, hmem, hg, hdata, hseq⟩ := hq
      refine ⟨if g.hasFlag flagPassSeq then none else some g.blockSeq, ?_⟩
      intro j' frames' g' hmem' hg' hdata' hseq'
      rw [data_unique hnodup hmem hmem' hg hg' hdata hdata' (hseq.trans hseq'.symm)]
    · refine ⟨none, fun j frames g hmem hg hdata hseq => ?_⟩
      exact absurd ⟨j, frames, g, hmem, hg, hdata, hseq⟩ hq
  choose block hblock using hexists
  refine ⟨block, ?_⟩
  rintro f ⟨j, frames, g, hmem, hg, hsent⟩
  cases hparity : g.hasFlag flagFECParity with
  | true =>
    have hframes : (ownSeqs frames).Nodup :=
      Multiset.nodup_of_le (SeqNumbering.used_le hmem) hnodup
    obtain ⟨hpass, hmentions, hdata⟩ :=
      (haccounted.coded j frames hmem).parity hlaw hframes hg hparity
    have hsame : f.mentions = g.mentions := by
      rw [Frame.mentions, Frame.mentions, hsent.hasFlag, hsent.payload, hparity]
      rfl
    constructor
    · intro _
      rw [hsame]
      refine ⟨hmentions, fun q hq => ?_⟩
      obtain ⟨d, hd, hseq, hflags, hbs⟩ := hdata q hq
      have hno : ∀ flag, d.hasFlag flag = (0 &&& flag != 0) := fun flag => by
        rw [Frame.hasFlag, hflags]
      rw [hblock q j frames d hmem hd (by rw [hno]; decide) hseq, hno, hsent.blockSeq hpass, hbs]
      rfl
    · intro h0
      rw [Frame.coded, hsent.hasFlag, hparity] at h0
      cases h0
  | false =>
    have hseq := hsent.seq hparity
    have hown := hblock f.seq j frames g hmem hg hparity hseq.symm
    constructor
    · intro hcoded
      rw [Frame.coded, hsent.hasFlag, hsent.hasFlag, hparity, Bool.false_or, Bool.and_eq_true,
        Bool.not_eq_true'] at hcoded
      have hmentions : f.mentions = [f.seq] := by
        rw [Frame.mentions, hsent.hasFlag, hparity]
        rfl
      rw [hmentions]
      refine ⟨List.nodup_singleton _, fun q hq => ?_⟩
      rw [List.mem_singleton.mp hq, hown, hcoded.1, hsent.blockSeq hcoded.1]
      rfl
    · intro huncoded
      rw [hown]
      cases hpass : g.hasFlag flagPassSeq with
      | true => exact .inl rfl
      | false =>
        rw [Frame.coded, hsent.hasFlag, hsent.hasFlag, hparity, hpass, hsent.blockSeq hpass] at huncoded
        right
        have hzero : g.blockSeq = 0 := by simpa using huncoded
        rw [hzero]
        rfl

end Client

end FlexBraid
