import FlexBraid.Lib.Numbering
import FlexBraid.Tunnel.ServerSteps

/-!
# The numbers of frames

The nonce of a frame is its direction and its sequence number, and an endpoint of a
session seals in one direction only, so its nonces are unique if its numbers are.  A
data frame gets its number before the encoder, waits there for its block, and is
sealed later by whichever goroutine completes or flushes the block; a parity frame
gets its number when it is sent.

A number is a resource: the goroutine that calls `NextSeq` owns it, hands it to an
encoder with its frame, gets it back with the frames the encoder returns, and gives
it up when it seals the frame.  This module has the programs of the server.

## Main definitions

* `Frame.ownSeq` — the number that a frame carries.
* `sessNumbering` — the numbers of a session on the server.

## Main results

* `Encoder.Emission.ownSeqs` — an encoder returns every frame once.
* `Server.rules_numbering` — the goroutines of a session own what they seal.
-/

namespace FlexBraid

/-! ### The numbers of frames -/

/-- The number that a frame carries; a parity frame gets its own when it is sent. -/
def Frame.ownSeq (f : Frame) : Multiset ℕ :=
  if f.hasFlag flagFECParity then 0 else {f.seq.toNat}

/-- The numbers that frames carry. -/
def ownSeqs (frames : List Frame) : Multiset ℕ := (frames.map Frame.ownSeq).sum

@[simp] theorem ownSeqs_nil : ownSeqs [] = 0 := rfl

@[simp] theorem ownSeqs_append (frames frames' : List Frame) :
    ownSeqs (frames ++ frames') = ownSeqs frames + ownSeqs frames' := by
  rw [ownSeqs, List.map_append, List.sum_append]
  rfl

@[simp] theorem ownSeqs_singleton (f : Frame) : ownSeqs [f] = f.ownSeq := by
  simp [ownSeqs]

theorem ownSeq_data (id : UInt64) (seq : UInt32) (payload : Bytes) :
    ({ sessionID := id, seq := seq, payload := payload } : Frame).ownSeq = {seq.toNat} :=
  if_neg (show ¬ (0 &&& flagFECParity != 0) = true by decide)

theorem ownSeqs_map {g : Frame → Frame} (hg : ∀ f, (g f).ownSeq = f.ownSeq) (frames : List Frame) :
    ownSeqs (frames.map g) = ownSeqs frames := by
  rw [ownSeqs, List.map_map, show Frame.ownSeq ∘ g = Frame.ownSeq from funext hg]
  rfl

theorem ownSeqs_markPassSeq (frames : List Frame) : ownSeqs (markPassSeq frames) = ownSeqs frames := by
  refine ownSeqs_map (fun f => ?_) frames
  have hparity : ({ f with flags := f.flags ||| flagPassSeq } : Frame).hasFlag flagFECParity =
      f.hasFlag flagFECParity := by
    have hbits : (f.flags ||| flagPassSeq) &&& flagFECParity = f.flags &&& flagFECParity := by
      apply UInt8.toBitVec_inj.mp
      rw [UInt8.toBitVec_and, UInt8.toBitVec_or, BitVec.and_or_distrib_right,
        show flagPassSeq.toBitVec &&& flagFECParity.toBitVec = 0#8 by decide, BitVec.or_zero,
        UInt8.toBitVec_and]
    exact congrArg (· != 0) hbits
  rw [Frame.ownSeq, Frame.ownSeq, hparity]

theorem ownSeqs_parity (bs : UInt32) (k p : ℕ) (data : List Frame) (shard : ℕ → Bytes) (is : List ℕ) :
    ownSeqs (is.map fun i => parityFrame bs k p data i (shard i)) = 0 := by
  induction is with
  | nil => rfl
  | cons i is ih =>
    rw [List.map_cons, ← List.singleton_append, ownSeqs_append, ih, add_zero, ownSeqs_singleton,
      Frame.ownSeq]
    exact if_pos (show (flagFECParity &&& flagFECParity != 0) = true by decide)

/-- An encoder returns every frame once: the numbers of what it returns and of what it
keeps are those of what it was given. -/
theorem Encoder.Emission.ownSeqs {F C : Type} {RS : ReedSolomon C} {e e' : Encoder F RS}
    {data out : List Frame} (h : Emission e data e' out) :
    FlexBraid.ownSeqs out + FlexBraid.ownSeqs e'.pending = FlexBraid.ownSeqs data := by
  cases h with
  | hold hparams hcoded hpending => rw [hpending, ownSeqs_nil, zero_add]
  | pass hparams hcoded hpending => rw [hpending, ownSeqs_nil, add_zero, ownSeqs_markPassSeq]
  | plain hparams hcoded hpending => rw [hpending, ownSeqs_nil, add_zero]
  | block hparams hcoded hpending hne henabled p shard hfull hcodec =>
    rw [hpending, ownSeqs_nil, add_zero, ownSeqs_append, ownSeqs_parity, add_zero]
    exact ownSeqs_map (fun f => show (f.stamp (e.block + 1)).ownSeq = f.ownSeq from rfl) data

theorem frameSeq_encode {f : Frame} {plain : Bytes} (h : f.encode = .ok plain) :
    frameSeq plain = f.seq := by
  rw [Frame.encode] at h
  split at h
  · cases h
  · cases h
    rw [frameSeq, Frame.drop_sixteen_header, uint32_put]

/-! ### The server's end -/

section
variable {F C : Type} {RS : ReedSolomon C} {P : Primitives}

/-- The numbers of a session on the server. -/
def sessNumbering : SeqNumbering (SessView F RS P) (ServerOut P) where
  limit := 2 ^ 32
  count v := v.sess.seq
  pending v := ownSeqs v.sess.enc.pending
  used
    | .sealed _ _ plain => {(frameSeq plain).toNat}
    | _ => 0

theorem quiet_of_sess {v v' : SessView F RS P} (hseq : v'.sess.seq = v.sess.seq)
    (henc : v'.sess.enc = v.sess.enc) : sessNumbering.Quiet v [] v' := by
  refine ⟨hseq, ?_, rfl⟩
  show ownSeqs v'.sess.enc.pending = ownSeqs v.sess.enc.pending
  rw [henc]

namespace Server

open Prog SeqNumbering

theorem owns_nextSeq :
    Owns sessNumbering.Inv (fun q m => m = {q.toNat}) (nextSeq : SessProg RS F P UInt32) 0 :=
  owns_issue (fun _ => rfl) (fun _ => rfl) (fun _ => rfl) fun _ h => toNat_wireSeq h

theorem owns_sendToAddrKey (addr : UDPAddr) (f : Frame) (aead : AEAD P) :
    Owns sessNumbering.Inv (fun _ _ => True) (sendToAddrKey addr f aead : SessProg RS F P Unit)
      {f.seq.toNat} := by
  rw [sendToAddrKey]
  split
  · exact owns_pure trivial
  · next plain hplain =>
    split
    · exact owns_pure trivial
    · refine owns_use (fun _ => rfl) (fun _ => rfl) fun v => ?_
      rw [← frameSeq_encode hplain]
      rfl

theorem owns_read_sess {α : Type} (f : SessView F RS P → α) (m : Multiset ℕ) :
    Owns sessNumbering.Inv (fun _ m' => m' = m) (Prog.read f : SessProg RS F P α) m :=
  owns_read fun _ _ _ _ => rfl

theorem owns_sendToAddr (addr : UDPAddr) (f : Frame) :
    Owns sessNumbering.Inv (fun _ _ => True) (sendToAddr addr f : SessProg RS F P Unit)
      {f.seq.toNat} := by
  refine (owns_read_sess _ _).bind ?_
  rintro aead m rfl
  exact owns_sendToAddrKey addr f aead

variable [Float64 F] (env : ServerEnv F P)

/-- Every program of a session owns the numbers it seals. -/
theorem rules_numbering :
    SessRules env (SeqNumbering.Inv (sessNumbering : SeqNumbering (SessView F RS P) _))
      (fun q => {q.toNat}) Frame.ownSeq fun f => {f.seq.toNat} where
  quiet hstill hinv := by
    obtain ⟨replay, endpoints, lastSeen, -, hsess⟩ := hstill.sess
    have hquiet := hinv.quiet (quiet_of_sess (by rw [hsess]) (by rw [hsess]))
    rwa [List.append_nil] at hquiet
  nextSeq := owns_nextSeq
  number f hparity := by
    rw [Frame.ownSeq, if_pos hparity]
    exact owns_nextSeq
  data f hdata := by
    rw [Frame.ownSeq, hdata]
    rfl
  push now start id seq payload := by
    -- the number goes into the encoder with its frame, and comes back with its block
    refine owns_exchange ownSeqs (fun _ => rfl) (fun _ => rfl) fun v => ?_
    show ownSeqs _ + ownSeqs (v.sess.enc.push now start _).1.pending ≤ _
    rw [(v.sess.enc.emission_push now start _).ownSeqs, ownSeqs_append, ownSeqs_singleton,
      ownSeq_data, add_comm (ownSeqs _)]
    rfl
  tick now := by
    refine owns_exchange ownSeqs (fun _ => rfl) (fun _ => rfl) fun v => ?_
    show ownSeqs _ + ownSeqs (v.sess.enc.tick now).1.pending ≤ _
    rw [(v.sess.enc.emission_tick now).ownSeqs, zero_add]
    rfl
  setLossRate now rate := by
    refine (owns_quiet (Q := fun _ => True) (fun v => ⟨rfl, ?_, rfl⟩) fun _ => trivial).mono
      fun _ _ _ => trivial
    have hsame := (v.sess.enc.emission_setLossRate now rate).ownSeqs
    rwa [ownSeqs_nil, zero_add] at hsame
  stamp addr f := by
    rw [stampPass]
    split
    · have hstamp : ∀ v : SessView F RS P, (v.stampPathSeq env addr f).1.seq = f.seq := by
        intro v
        rw [SessView.stampPathSeq]
        dsimp only
        split <;> rfl
      refine (owns_quiet (Q := fun f' => f'.seq = f.seq) (fun v => quiet_of_sess ?_ ?_) hstamp).mono ?_
      · rw [v.sess_stampPathSeq]
      · rw [v.sess_stampPathSeq]
      · rintro f' m ⟨rfl, hseq⟩
        rw [hseq]
    · exact owns_pure rfl
  send := owns_sendToAddr
  pong ua ts := by
    refine (owns_read_sess _ 0).bind ?_
    rintro id m rfl
    refine owns_nextSeq.bind ?_
    rintro seq m rfl
    exact owns_sendToAddr ua _
  ack ua := by
    refine (owns_read_sess _ 0).bind ?_
    rintro sess m rfl
    refine owns_nextSeq.bind ?_
    rintro seq m rfl
    exact owns_sendToAddrKey ua _ _

end Server

end

end FlexBraid
