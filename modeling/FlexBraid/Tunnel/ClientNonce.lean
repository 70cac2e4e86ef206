import FlexBraid.Tunnel.Announce
import FlexBraid.Tunnel.ClientRules
import FlexBraid.Tunnel.Nonce

/-!
# Nonces under the session key

The programs of the client own the numbers of the frames they seal, as those of the
server do.  The numbers that wait in the client are those in all of its encoders,
also in those that are in no slot any more.

## Main definitions

* `clientNumbering` — the numbers of a client.
* `Client.sealedSeqs`, `SessView.sealedSeqs` — the numbers of the frames sealed under
  a key.

## Main results

* `session_seqs_unique` — **no two frames of an endpoint are sealed under one key with
  the same number**, in every interleaving of its goroutines.
-/

namespace FlexBraid

section
variable {F C : Type} {RS : ReedSolomon C} {P : Primitives}

/-- The numbers that wait in encoders. -/
def waitingSeqs (encs : List (Encoder F RS)) : Multiset ℕ :=
  (encs.map fun e => ownSeqs e.pending).sum

def clientNumbering : SeqNumbering (Client F RS P) (ClientOut P) where
  limit := 2 ^ 32
  count c := c.sess.seq
  pending c := waitingSeqs c.encs
  used
    | .sealed _ plain => {(frameSeq plain).toNat}
    | _ => 0

theorem waitingSeqs_append_fresh (encs : List (Encoder F RS)) {new : List (Encoder F RS)}
    (h : ∀ e ∈ new, e.pending = []) : waitingSeqs (encs ++ new) = waitingSeqs encs := by
  have hnew : (new.map fun e => ownSeqs e.pending).sum = 0 := by
    refine List.sum_eq_zero ?_
    intro m hm
    obtain ⟨e, he, rfl⟩ := List.mem_map.mp hm
    rw [h e he, ownSeqs_nil]
  rw [waitingSeqs, List.map_append, List.sum_append, hnew, add_zero]
  rfl

theorem waitingSeqs_set {encs : List (Encoder F RS)} {i : ℕ} {e : Encoder F RS}
    (h : encs[i]? = some e) : ∃ rest, waitingSeqs encs = ownSeqs e.pending + rest ∧
      ∀ e', waitingSeqs (encs.set i e') = ownSeqs e'.pending + rest := by
  induction encs generalizing i with
  | nil => cases h
  | cons e₀ encs ih =>
    cases i with
    | zero =>
      cases h
      exact ⟨waitingSeqs encs, rfl, fun e' => rfl⟩
    | succ i =>
      obtain ⟨rest, hsum, hset⟩ := ih h
      refine ⟨ownSeqs e₀.pending + rest, ?_, ?_⟩
      · show ownSeqs e₀.pending + waitingSeqs encs = _
        rw [hsum, add_left_comm]
      · intro e'
        show ownSeqs e₀.pending + waitingSeqs (encs.set i e') = _
        rw [hset, add_left_comm]

variable {c : Client F RS P} {T : Type}

theorem quiet_of_client {c' : Client F RS P} {out : List (ClientOut P)}
    (hseq : c'.sess.seq = c.sess.seq) (hencs : c'.encs = c.encs)
    (hout : clientNumbering.usedBy (S := Client F RS P) out = 0) :
    clientNumbering.Quiet c out c' := by
  refine ⟨hseq, ?_, hout⟩
  show waitingSeqs c'.encs = waitingSeqs c.encs
  rw [hencs]

namespace Client

open Prog SeqNumbering

theorem owns_nextSeq :
    Owns clientNumbering.Inv (fun q m => m = {q.toNat}) (nextSeq : CliProg RS F P UInt32) 0 :=
  owns_issue (fun _ => rfl) (fun _ => rfl) (fun _ => rfl) fun _ h => toNat_wireSeq h

theorem owns_useEnc (slot : Option ℕ) {call : Encoder F RS → Encoder F RS × List Frame}
    {m : Multiset ℕ}
    (hcall : ∀ e, ownSeqs (call e).2 + ownSeqs (call e).1.pending ≤ m + ownSeqs e.pending) :
    Owns clientNumbering.Inv (fun frames m' => m' = ownSeqs frames)
      (useEnc slot call : CliProg RS F P (List Frame)) m := by
  refine owns_exchange ownSeqs ?_ ?_ ?_
  · intro c
    split <;> rfl
  · intro c
    split <;> rfl
  · intro c
    split
    · rw [ownSeqs_nil, zero_add]
      exact Multiset.le_add_left _ _
    · next i e hslot =>
      obtain ⟨-, e, hget, rfl⟩ := get_of_slot hslot
      obtain ⟨rest, hsum, hset⟩ := waitingSeqs_set hget
      show ownSeqs (call e).2 + waitingSeqs (c.encs.set i (call e).1) ≤ m + waitingSeqs c.encs
      rw [hset, hsum, ← add_assoc, ← add_assoc]
      exact add_le_add_left (hcall e) rest

theorem owns_transmit (i : ℕ) (f : Frame) (aead : AEAD P) :
    Owns clientNumbering.Inv (fun _ _ => True) (transmit i f aead : CliProg RS F P Unit)
      {f.seq.toNat} := by
  rw [transmit]
  split
  · exact owns_pure trivial
  · next plain hplain =>
    split
    · exact owns_pure trivial
    · refine owns_use (fun _ => rfl) (fun _ => rfl) fun c => ?_
      rw [← frameSeq_encode hplain]
      rfl

theorem owns_stampPass (i : ℕ) (f : Frame) :
    Owns clientNumbering.Inv (fun f' m' => m' = {f'.seq.toNat})
      (stampPass i f : CliProg RS F P Frame) {f.seq.toNat} := by
  rw [stampPass]
  split
  · refine (owns_quiet (Q := fun f' => f'.seq = f.seq)
      (fun c => quiet_of_client rfl rfl rfl) fun c => ?_).mono ?_
    · cases c.wans[i]? <;> rfl
    · rintro f' m ⟨rfl, hseq⟩
      rw [hseq]
  · exact owns_pure rfl

theorem owns_sendLocked (i : ℕ) (f : Frame) (aead : AEAD P) :
    Owns clientNumbering.Inv (fun _ _ => True) (sendLocked i f aead : CliProg RS F P Unit)
      {f.seq.toNat} := by
  refine (owns_stampPass i f).bind ?_
  rintro f' m rfl
  exact owns_transmit i f' aead

theorem owns_read_client {α : Type} (f : Client F RS P → α) (m : Multiset ℕ) :
    Owns clientNumbering.Inv (fun _ m' => m' = m) (Prog.read f : CliProg RS F P α) m :=
  owns_read fun _ _ _ _ => rfl

variable [Float64 F] (env : ClientEnv F P)

theorem recvActions_quiet : RecvActions env (clientNumbering.Quiet : Client F RS P → _) where
  composes := SeqNumbering.composes_quiet
  still h := quiet_of_client h.seq h.encs rfl
  adopt c data := by
    have hadopted := adopted_applyAnnounce env c data
    obtain ⟨new, hencs, hfresh⟩ := hadopted.encs
    refine ⟨?_, ?_, rfl⟩
    · show (c.applyAnnounce env data).2.sess.seq = c.sess.seq
      rw [hadopted.sess]
    · show waitingSeqs (c.applyAnnounce env data).2.encs = waitingSeqs c.encs
      rw [hencs, waitingSeqs_append_fresh _ fun e he => (hfresh e he).pending]
  publish _ _ _ := quiet_of_client rfl rfl rfl
  pushed _ _ _ _ := quiet_of_client rfl rfl rfl
  skipped _ _ _ := quiet_of_client rfl rfl rfl
  write _ _ _ := quiet_of_client rfl rfl rfl

/-- The goroutines of a client own what they seal. -/
theorem rules_numbering :
    Rules env (SeqNumbering.Inv (clientNumbering : SeqNumbering (Client F RS P) _))
      (fun q => {q.toNat}) Frame.ownSeq (fun f => {f.seq.toNat}) fun _ => True where
  toRecvRules := (recvActions_quiet env).recvRules fun _ _ _ _ _ hquiet hinv => hinv.quiet hquiet
  nextSeq := owns_nextSeq
  number f hparity := by
    rw [Frame.ownSeq, if_pos hparity]
    exact owns_nextSeq
  data f hdata := by
    rw [Frame.ownSeq, hdata]
    rfl
  push slot now start id seq payload := by
    refine owns_useEnc slot fun e => ?_
    rw [(e.emission_push now start _).ownSeqs, ownSeqs_append, ownSeqs_singleton, ownSeq_data,
      add_comm (ownSeqs _)]
  tick slot now := by
    refine owns_useEnc slot fun e => ?_
    rw [(e.emission_tick now).ownSeqs, zero_add]
  setLossRate slot now loss := by
    refine Owns.mono (owns_useEnc slot fun e => ?_) fun _ _ _ => trivial
    rw [(e.emission_setLossRate now loss).ownSeqs, zero_add]
  stamp := owns_stampPass
  send := owns_transmit
  handshake i := by
    refine (owns_read_client _ 0).bind ?_
    rintro c m rfl
    refine owns_nextSeq.bind ?_
    rintro seq m rfl
    exact owns_sendLocked i _ _
  probe i now := by
    refine (owns_read_client _ 0).bind ?_
    rintro aead m rfl
    split
    · exact owns_pure trivial
    · refine (owns_read_client _ 0).bind ?_
      rintro id m rfl
      refine owns_nextSeq.bind ?_
      rintro seq m rfl
      refine (owns_sendLocked i _ _).bind ?_
      rintro _ m -
      refine (owns_quiet (Q := fun _ => True) (fun _ => ?_) fun _ => trivial).mono fun _ _ _ => trivial
      exact quiet_of_client rfl rfl rfl

end Client

/-! ### One number, one frame -/

/-- The numbers of the frames that a client sealed under a key. -/
def Client.sealedSeqs (a : AEAD P) (out : List (ClientOut P)) : List UInt32 :=
  out.filterMap fun
    | .sealed a' plain => if a' = a then some (frameSeq plain) else none
    | _ => none

/-- The numbers of the frames that the server sealed under a key. -/
def SessView.sealedSeqs (a : AEAD P) (out : List (ServerOut P)) : List UInt32 :=
  out.filterMap fun
    | .sealed _ a' plain => if a' = a then some (frameSeq plain) else none
    | _ => none

variable [Float64 F]

/-- A new client has numbered nothing. -/
theorem Client.unnumbered_newClient {env : ClientEnv F P} {id : UInt64}
    (hnew : newClient RS env id = .ok c) : c.sess.seq = 0 ∧ waitingSeqs c.encs = 0 := by
  have hinit := initial_newClient hnew
  refine ⟨?_, waitingSeqs_append_fresh [] fun e he => (hinit.fresh e he).pending⟩
  rw [hinit.sess]
  rfl

theorem Client.used_nodup [DecidableEq T] {env : ClientEnv F P} {id : UInt64}
    (hnew : newClient RS env id = .ok c) (es : List (Pool.Event T (Client.Call F)))
    (hcount : (Run.exec (Client.step env) (Pool.idle c) es).state.sess.seq < 2 ^ 32) :
    ((clientNumbering : SeqNumbering (Client F RS P) _).usedBy
      (Run.outputs (Client.step env) (Pool.idle c) es).flatten).Nodup := by
  obtain ⟨hseq, hwaiting⟩ := unnumbered_newClient hnew
  have hstart : clientNumbering.Inv c [] 0 := SeqNumbering.inv_start hseq hwaiting
  obtain ⟨m, hinv⟩ := Pool.inv_exec hstart es fun _ call _ =>
    (rules_numbering env).owns_body call (by cases call <;> trivial)
  exact SeqNumbering.used_nodup hinv hcount

/-- Frames that a client sealed under the same number are the same. -/
theorem Client.eq_of_seq [DecidableEq T] {env : ClientEnv F P} {id : UInt64}
    (hnew : newClient RS env id = .ok c) {es : List (Pool.Event T (Client.Call F))}
    (hcount : (Run.exec (Client.step env) (Pool.idle c) es).state.sess.seq < 2 ^ 32) {a a' : AEAD P}
    {plain plain' : Bytes}
    (ho : .sealed a plain ∈ (Run.outputs (Client.step env) (Pool.idle c) es).flatten)
    (ho' : .sealed a' plain' ∈ (Run.outputs (Client.step env) (Pool.idle c) es).flatten)
    (hseq : frameSeq plain = frameSeq plain') : plain = plain' := by
  have heq : ClientOut.sealed a plain = .sealed a' plain' := by
    refine SeqNumbering.eq_of_used (Client.used_nodup hnew es hcount) ho ho'
      (Multiset.mem_singleton_self _) ?_
    rw [hseq]
    exact Multiset.mem_singleton_self _
  cases heq
  rfl

theorem SessView.used_nodup [DecidableEq T] {env : ServerEnv F P} {v : SessView F RS P}
    (hseq : v.sess.seq = 0) (hpending : v.sess.enc.pending = [])
    (es : List (Pool.Event T (SessCall F)))
    (hcount : (Run.exec (SessView.step env) (Pool.idle v) es).state.sess.seq < 2 ^ 32) :
    ((sessNumbering : SeqNumbering (SessView F RS P) _).usedBy
      (Run.outputs (SessView.step env) (Pool.idle v) es).flatten).Nodup := by
  have hstart : sessNumbering.Inv v [] 0 := by
    refine SeqNumbering.inv_start hseq ?_
    show ownSeqs v.sess.enc.pending = 0
    rw [hpending, ownSeqs_nil]
  obtain ⟨m, hinv⟩ := Pool.inv_exec hstart es fun _ call _ =>
    (Server.rules_numbering env).owns_body call fun _ _ _ _ _ hinv => hinv
  exact SeqNumbering.used_nodup hinv hcount

/-- **No two frames of an endpoint are sealed under one key with the same number**: of
a client, and of the server for one session, whatever goroutines there are and however
they interleave, while `NextSeq` is called fewer than 2³² times. -/
theorem session_seqs_unique {T : Type} [DecidableEq T] (a : AEAD P) :
    (∀ (env : ClientEnv F P) (id : UInt64) (c : Client F RS P), newClient RS env id = .ok c →
      ∀ es : List (Pool.Event T (Client.Call F)),
        (Run.exec (Client.step env) (Pool.idle c) es).state.sess.seq < 2 ^ 32 →
        (Client.sealedSeqs a (Run.outputs (Client.step env) (Pool.idle c) es).flatten).Nodup) ∧
    (∀ (env : ServerEnv F P) (now : Time) (id : UInt64) (aead : AEAD P) (enc : Encoder F RS)
        (serverPub : Bytes) (st : Option (SessState F)), newEncoder RS env.fecParams = .ok enc →
      ∀ es : List (Pool.Event T (SessCall F)),
        let v : SessView F RS P := ⟨newServerSession now id aead enc serverPub, st⟩
        (Run.exec (SessView.step env) (Pool.idle v) es).state.sess.seq < 2 ^ 32 →
        (SessView.sealedSeqs a (Run.outputs (SessView.step env) (Pool.idle v) es).flatten).Nodup) := by
  refine ⟨?_, ?_⟩
  · intro env id c hnew es hcount
    refine SeqNumbering.nodup_filterMap UInt32.toNat ?_ (Client.used_nodup hnew es hcount)
    intro o seq hseq
    split at hseq
    · split at hseq
      · cases hseq
        rfl
      · cases hseq
    · cases hseq
  · intro env now id aead enc serverPub st henc es v hcount
    refine SeqNumbering.nodup_filterMap UInt32.toNat ?_
      (SessView.used_nodup rfl (pending_newEncoder henc) es hcount)
    intro o seq hseq
    split at hseq
    · split at hseq
      · cases hseq
        rfl
      · cases hseq
    · cases hseq

/-- Two handshakes of the small client overtake one another. -/
def overtakingHandshakes : List (Pool.Event Bool (Client.Call ℚ)) :=
  [.start false (.handshake 0), .sched false, .sched false, .start true (.handshake 1),
    .sched true, .sched true, .sched true, .sched false]

def smallSession : ServerSession ℚ smallCodes smallPrimitives :=
  newServerSession 0 5 smallBaseAEAD
    (freshEncoder smallServerEnv.fecParams none fun h => absurd h (by decide)) []

/-- The small session answers a handshake and relays a datagram. -/
def smallAnswers : List (Pool.Event Bool (SessCall ℚ)) :=
  [.start false (.first 0 1 ⟨"192.0.2.1", 40000⟩ (putUint32 100)), .start true (.egress 0 0 0 [9])] ++
    List.replicate 8 (.sched false) ++ List.replicate 8 (.sched true)

theorem session_seqs_unique_small :
    (Client.sealedSeqs smallBaseAEAD (Run.outputs (Client.step smallClientEnv)
        (Pool.idle smallClient) overtakingHandshakes).flatten).Nodup ∧
      (SessView.sealedSeqs smallBaseAEAD (Run.outputs (SessView.step smallServerEnv)
        (Pool.idle ⟨smallSession, none⟩) smallAnswers).flatten).Nodup :=
  ⟨(session_seqs_unique smallBaseAEAD).1 smallClientEnv 5 smallClient newClient_small
      overtakingHandshakes (by decide +kernel),
    (session_seqs_unique smallBaseAEAD).2 smallServerEnv 0 5 smallBaseAEAD _ [] none rfl
      smallAnswers (by decide +kernel)⟩

end

end FlexBraid
