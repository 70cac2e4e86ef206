import FlexBraid.Tunnel.ClientNonce
import FlexBraid.Tunnel.System

/-!
# Nonces under the base key

All ends that share a PSK share the base key, under which the handshakes and their
acknowledgements are sealed.  Their numbers come from counters that every client process
and every session starts at one, so nonces repeat as soon as there are two of either.
With one client process and one session they do not.

## Main definitions

* `System.sealedUnder`, `NonceUnique` — the frames sealed under a key, and that no nonce
  is used for two of them.
* `System.OneSession`, `System.Below` — one client process and one session, whose
  counters have not wrapped.
* `Server.Single` — the numbers of the only session there has been.

## Main results

* `System.base_nonces_unique` — **no nonce is used twice** in a run with one client
  process and one session.
* `System.base_nonce_reused` — two clients use the same nonce.
-/

namespace FlexBraid

/-- No nonce is used for two different frames. -/
def NonceUnique (frames : List (NonceDirection × Bytes)) : Prop :=
  ∀ x ∈ frames, ∀ y ∈ frames,
    makeNonce x.1 (frameSeq x.2) = makeNonce y.1 (frameSeq y.2) → x = y

instance (frames : List (NonceDirection × Bytes)) : Decidable (NonceUnique frames) :=
  inferInstanceAs (Decidable (∀ x ∈ frames, ∀ y ∈ frames, _ → _))

variable {F C : Type} {RS : ReedSolomon C} {P : Primitives}

/-! ### The only session of a server -/

namespace Server

/-- There has been at most one session, and a ledger accounts for its numbers. -/
structure Single (s : Server F RS P) (out : List (ServerOut P)) (sid : UInt64) : Prop where
  before : (∀ o ∈ out, o.isPut = false) →
    s.mgr.get sid = none ∧ sessNumbering.usedBy (S := SessView F RS P) out = 0
  table : ∀ id, id ≠ sid → s.mgr.get id = none
  numbered : ∀ sess st, s.mgr.get sid = some sess → sessNumbering.Inv ⟨sess, st⟩ out 0
  gone : s.mgr.get sid = none → (sessNumbering.usedBy (S := SessView F RS P) out).Nodup

/-- The counters of the sessions have not wrapped. -/
def Below (s : Server F RS P) : Prop := ∀ id sess, s.mgr.get id = some sess → sess.seq < 2 ^ 32

instance (s : Server F RS P) : Decidable s.Below :=
  decidable_of_iff (∀ x ∈ s.mgr.sessions.entries, x.2.seq < 2 ^ 32)
    ⟨fun h id _ hget => h ⟨id, _⟩ (AList.mem_lookup_iff.mp hget),
      fun h x hx => h x.1 x.2 (AList.mem_lookup_iff.mpr hx)⟩

/-- A handshake finds no session only if there has been none. -/
def CreatesOnce (s : Server F RS P) (out : List (ServerOut P)) : Event F → Prop
  | .datagram _ _ _ d =>
    match Frame.decodeHeader d with
    | .error _ => True
    | .ok hdr =>
      hdr.hasFlag flagFirst = true → (s.mgr.get hdr.sessionID).isNone = true →
        ∀ o ∈ out, o.isPut = false
  | _ => True

instance (s : Server F RS P) (out : List (ServerOut P)) :
    ∀ e, Decidable (CreatesOnce s out e)
  | .datagram _ _ _ d =>
    match h : Frame.decodeHeader d with
    | .error _ => .isTrue (by rw [CreatesOnce, h]; trivial)
    | .ok hdr =>
      decidable_of_iff (hdr.hasFlag flagFirst = true → (s.mgr.get hdr.sessionID).isNone = true →
        ∀ o ∈ out, o.isPut = false) (by rw [CreatesOnce, h])
  | .egress .. => inferInstanceAs (Decidable True)
  | .encTick .. => inferInstanceAs (Decidable True)
  | .decTick .. => inferInstanceAs (Decidable True)
  | .healthTick .. => inferInstanceAs (Decidable True)
  | .expire _ => inferInstanceAs (Decidable True)
  | .expireFirsts _ => inferInstanceAs (Decidable True)
  | .dropStates => inferInstanceAs (Decidable True)

variable {s s' : Server F RS P} {out o : List (ServerOut P)} {sid : UInt64}

theorem Single.used_nodup (h : Single s out sid) (hbelow : s.Below) :
    (sessNumbering.usedBy (S := SessView F RS P) out).Nodup := by
  cases hget : s.mgr.get sid with
  | none => exact h.gone hget
  | some sess => exact SeqNumbering.used_nodup (h.numbered sess none hget) (hbelow sid sess hget)

theorem Single.eq_of_seq (h : Single s out sid) (hbelow : s.Below) {id id' : UInt64} {a a' : AEAD P}
    {plain plain' : Bytes} (ho : .sealed id a plain ∈ out) (ho' : .sealed id' a' plain' ∈ out)
    (hseq : frameSeq plain = frameSeq plain') : plain = plain' := by
  have heq : ServerOut.sealed id a plain = .sealed id' a' plain' := by
    refine SeqNumbering.eq_of_used (h.used_nodup hbelow) ho ho' (Multiset.mem_singleton_self _) ?_
    rw [hseq]
    exact Multiset.mem_singleton_self _
  cases heq
  rfl

theorem usedBy_inner (ho : ∀ x ∈ o, x.Inner) :
    sessNumbering.usedBy (S := SessView F RS P) o = 0 := by
  refine List.sum_eq_zero ?_
  intro n hn
  obtain ⟨x, hx, rfl⟩ := List.mem_map.mp hn
  cases x with
  | sealed id a plain => exact (ho _ hx).elim
  | _ => rfl

theorem Single.of_get (h : Single s out sid) (hbelow : s.Below)
    (hget : ∀ id, s'.mgr.get id = s.mgr.get id ∨ s'.mgr.get id = none) (ho : ∀ x ∈ o, x.Inner) :
    Single s' (out ++ o) sid := by
  have hused : sessNumbering.usedBy (S := SessView F RS P) (out ++ o) =
      sessNumbering.usedBy (S := SessView F RS P) out := by
    rw [SeqNumbering.usedBy_append, usedBy_inner ho, add_zero]
  have hnone : ∀ id, s.mgr.get id = none → s'.mgr.get id = none := fun id hid =>
    (hget id).elim (fun heq => heq.trans hid) fun heq => heq
  refine ⟨?_, ?_, ?_, ?_⟩
  · intro hput
    obtain ⟨hempty, hzero⟩ := h.before fun o ho => hput o (List.mem_append_left _ ho)
    exact ⟨hnone sid hempty, hused.trans hzero⟩
  · intro id hid
    exact hnone id (h.table id hid)
  · intro sess st hsess
    rcases hget sid with heq | heq
    · exact (h.numbered sess st (heq ▸ hsess)).quiet ⟨rfl, rfl, usedBy_inner ho⟩
    · rw [heq] at hsess
      cases hsess
  · intro _
    rw [hused]
    exact h.used_nodup hbelow

variable [Float64 F] {env : ServerEnv F P} {e : Event F}

variable {sess : ServerSession F RS P}

theorem single_onSession (env : ServerEnv F P) (inner : List (ServerOut P)) {c : SessCall F}
    (hc : ∀ st, c ≠ .paths st) (hinv : ∀ st, sessNumbering.Inv ⟨sess, st⟩ out 0)
    (hother : ∀ id, id ≠ sess.id → s.mgr.get id = none) {s' : Server F RS P}
    (hs' : s'.mgr = (s.onSession sess (c.body env)).2.1.mgr) (hinner : ∀ x ∈ inner, x.Inner)
    (hput : ¬ ∀ o ∈ out ++ ((s.onSession sess (c.body env)).2.2 ++ inner), o.isPut = false) :
    Single s' (out ++ ((s.onSession sess (c.body env)).2.2 ++ inner)) sess.id := by
  obtain ⟨-, hget, -⟩ := get_onSession env hc s sess
  refine ⟨fun h => absurd h hput, ?_, ?_, ?_⟩
  · intro id hid
    rw [hs', hget, if_neg hid]
    exact hother id hid
  · intro sess' st hsess'
    rw [hs', hget, if_pos rfl] at hsess'
    cases hsess'
    obtain ⟨m, hrun, -⟩ := ((rules_numbering env).owns_body c fun _ _ _ _ _ hinv => hinv).run 0
      (hinv (s.states.lookup sess.id))
    rw [← List.append_assoc]
    exact hrun.drop.quiet ⟨rfl, rfl, usedBy_inner hinner⟩
  · intro hnone
    rw [hs', hget, if_pos rfl] at hnone
    cases hnone

theorem single_create {now : Time} {fresh : Fresh} {d : Bytes} {ua : UDPAddr} {hdr f : Frame}
    (hnew : Creation env s now fresh d hdr f sess) (hnone : ∀ id, s.mgr.get id = none)
    (hzero : sessNumbering.usedBy (S := SessView F RS P) out = 0) :
    Single (openSession env (s.checked now fresh hdr) now hdr.seq ua f.payload sess).1
      (out ++ .dialEgress sess.id ::
        (openSession env (s.checked now fresh hdr) now hdr.seq ua f.payload sess).2) sess.id := by
  obtain ⟨sPriv, shared, aead, enc, -, -, -, henc, hsess⟩ := hnew.keys
  let opening : List (ServerOut P) := [.dialEgress sess.id, .putSession sess.id]
  have hstart : ∀ st, sessNumbering.Inv (⟨sess, st⟩ : SessView F RS P) (out ++ opening) 0 := by
    intro st
    have hinv : sessNumbering.Inv (⟨sess, st⟩ : SessView F RS P) [] 0 := by
      subst hsess
      refine SeqNumbering.inv_start rfl ?_
      show ownSeqs enc.pending = 0
      rw [pending_newEncoder henc, ownSeqs_nil]
    have hopening : sessNumbering.usedBy (S := SessView F RS P) (out ++ opening) = 0 := by
      rw [SeqNumbering.usedBy_append, hzero]
      rfl
    exact hinv.quiet ⟨rfl, rfl, hopening⟩
  have hsingle := single_onSession (s := { s.checked now fresh hdr with
      mgr := (s.checked now fresh hdr).mgr.put sess })
    env [] (c := .first now hdr.seq ua f.payload) (by simp) hstart (fun id hid => ?_) rfl
    (fun _ hx => by cases hx) ?_
  · rw [List.append_nil, List.append_assoc] at hsingle
    exact hsingle
  · rw [Manager.get_put, if_neg hid]
    exact hnone id
  · intro hput
    have hmem : .putSession sess.id ∈ opening := by simp [opening]
    cases hput _ (List.mem_append_left _ (List.mem_append_right _ hmem))

theorem single_monitor {now : Time} {σ : IterOrder String} {st : SessState F} {dec : Decoder F C}
    (hst : s.states.lookup sid = some st) (hget : s.mgr.get sid = some sess)
    (hdec : s.fecDec = some dec) (h : Single s out sid) :
    Single (s.healthTick env now sid σ) out sid := by
  obtain ⟨rate, hget'⟩ := get_healthTick env now σ hst hget hdec
  refine ⟨?_, ?_, ?_, ?_⟩
  · intro hput
    rw [(h.before hput).1] at hget
    cases hget
  · intro id hid
    rw [hget', if_neg hid]
    exact h.table id hid
  · intro sess' st' hsess'
    rw [hget', if_pos rfl] at hsess'
    cases hsess'
    obtain ⟨m, hrun, -⟩ := ((rules_numbering env).setLossRate now rate).run 0
      (h.numbered sess st' hget)
    rw [Server.setLossRate, Prog.run_modify, List.append_nil] at hrun
    exact hrun.drop
  · intro hnone
    rw [hget', if_pos rfl] at hnone
    cases hnone

/-- **An event keeps the session the only one** if it does not create a second. -/
theorem single_of_turn (hturn : Turn env s e s' o) (h : Single s out sid) (hbelow : s.Below)
    (honce : CreatesOnce s out e) : ∃ sid, Single s' (out ++ o) sid := by
  have honly : ∀ {id sess}, s.mgr.get id = some sess → id = sid := by
    intro id sess hget
    by_contra hne
    rw [h.table _ hne] at hget
    cases hget
  cases hturn with
  | idle hsessions hstates ho =>
    refine ⟨sid, h.of_get hbelow (fun id => .inl ?_) ho⟩
    rw [Manager.get, Manager.get, hsessions]
  | @call _ sess c dec inner hc hget hinner =>
    obtain rfl := honly hget
    refine ⟨sess.id, single_onSession env inner hc (fun st => h.numbered sess st hget) h.table rfl hinner ?_⟩
    intro hput
    rw [(h.before fun o ho => hput o (List.mem_append_left _ ho)).1] at hget
    cases hget
  | @create now fresh addr d ua hdr f sess hnew =>
    rw [CreatesOnce, hnew.header] at honce
    obtain ⟨hempty, hzero⟩ := h.before (honce hnew.first (by rw [hnew.absent]; rfl))
    refine ⟨sess.id, single_create hnew (fun id => ?_) hzero⟩
    by_cases hid : id = sid
    · rw [hid, hempty]
    · exact h.table id hid
  | monitor hst hget hdec =>
    obtain rfl := honly hget
    rw [List.append_nil]
    exact ⟨_, single_monitor hst hget hdec h⟩
  | expire now =>
    refine ⟨sid, h.of_get hbelow (fun id => ?_) ?_⟩
    · rw [Manager.get_expire]
      cases s.mgr.get id with
      | none => exact .inl rfl
      | some sess =>
        rw [Option.filter_some]
        split
        · exact .inl rfl
        · exact .inr rfl
    · intro x hx
      obtain ⟨id, -, rfl⟩ := List.mem_map.mp hx
      trivial
  | drop => exact ⟨sid, h.of_get hbelow (fun id => .inl rfl) fun _ hx => by cases hx⟩

end Server

/-! ### One client process and one session -/

namespace System

variable {κ T : Type}

/-- The frames sealed under a key, with their directions. -/
def sealedUnder (a : AEAD P) (log : List (SystemOut κ P)) : List (NonceDirection × Bytes) :=
  log.filterMap fun
    | .server (.sealed _ a' plain) => if a' = a then some (.serverToClient, plain) else none
    | .client _ (.sealed a' plain) => if a' = a then some (.clientToServer, plain) else none
    | _ => none

theorem mem_sealedUnder {a : AEAD P} {log : List (SystemOut κ P)} {x : NonceDirection × Bytes}
    (h : x ∈ sealedUnder a log) : (x.1 = .serverToClient ∧ ∃ id, .server (.sealed id a x.2) ∈ log) ∨
      (x.1 = .clientToServer ∧ ∃ i, .client i (.sealed a x.2) ∈ log) := by
  obtain ⟨o, ho, hx⟩ := List.mem_filterMap.mp h
  split at hx
  · next id a' plain =>
    split at hx
    · next ha =>
      cases hx
      exact .inl ⟨rfl, id, ha ▸ ho⟩
    · cases hx
  · next i a' plain =>
    split at hx
    · next ha =>
      cases hx
      exact .inr ⟨rfl, i, ha ▸ ho⟩
    · cases hx
  · cases hx

variable [Float64 F] [DecidableEq κ] [DecidableEq T]

/-- The counters have not wrapped. -/
structure Below (i₀ : κ) (s : System F RS P κ T) : Prop where
  server : s.server.Below
  client : (s.client i₀).state.sess.seq < 2 ^ 32

instance (i₀ : κ) (s : System F RS P κ T) : Decidable (s.Below i₀) :=
  decidable_of_iff (s.server.Below ∧ (s.client i₀).state.sess.seq < 2 ^ 32)
    ⟨fun h => ⟨h.1, h.2⟩, fun h => ⟨h.1, h.2⟩⟩

/-- An event of the given client process, or one of the server that does not create a
second session; the counters have not wrapped. -/
def OneSession (i₀ : κ) (s : System F RS P κ T) : SystemEvent F κ T → Prop
  | .client i _ => i = i₀ ∧ s.Below i₀
  | .server e => s.server.CreatesOnce (s.log.filterMap SystemOut.ofServer) e ∧ s.Below i₀

instance (i₀ : κ) (s : System F RS P κ T) : ∀ e, Decidable (OneSession i₀ s e)
  | .client i _ => inferInstanceAs (Decidable (i = i₀ ∧ s.Below i₀))
  | .server _ => inferInstanceAs (Decidable (Server.CreatesOnce _ _ _ ∧ s.Below i₀))

variable {senv : ServerEnv F P} {cenv : κ → ClientEnv F P} {i₀ : κ}

/-- What was emitted comes from the one client process and the one session. -/
structure Single (i₀ : κ) (s : System F RS P κ T) : Prop where
  client : ∀ i o, .client i o ∈ s.log → i = i₀
  server : ∃ sid, s.server.Single (s.log.filterMap SystemOut.ofServer) sid

theorem single_step {s : System F RS P κ T} {e : SystemEvent F κ T} (h : Single i₀ s)
    (hone : OneSession i₀ s e) : Single i₀ (step senv cenv s e).1 := by
  obtain ⟨sid, hsid⟩ := h.server
  cases e with
  | server e =>
    refine ⟨?_, ?_⟩
    · intro i o hmem
      rcases List.mem_append.mp hmem with hmem | hmem
      · exact h.client i o hmem
      · obtain ⟨o', -, ho'⟩ := List.mem_map.mp hmem
        cases ho'
    · show ∃ sid, Server.Single _ ((s.log ++ _).filterMap _) sid
      rw [List.filterMap_append, filterMap_ofServer_map]
      exact Server.single_of_turn (Server.turn_step senv s.server e) hsid hone.2.server hone.1
  | client j e =>
    refine ⟨?_, sid, ?_⟩
    · intro i o hmem
      rcases List.mem_append.mp hmem with hmem | hmem
      · exact h.client i o hmem
      · obtain ⟨o', -, ho'⟩ := List.mem_map.mp hmem
        cases ho'
        exact hone.1
    · show Server.Single _ ((s.log ++ _).filterMap _) sid
      rw [List.filterMap_append, filterMap_ofServer_client, List.append_nil]
      exact hsid

/-- **No nonce is used twice under the base key**, nor under any other, in a run of one
server and one client process in which the server creates one session and no counter
wraps. -/
theorem base_nonces_unique {id : κ → UInt64} {c : κ → Client F RS P}
    (hnew : ∀ i, newClient RS (cenv i) (id i) = .ok (c i)) {es : List (SystemEvent F κ T)}
    (hone : Run.Along (step senv cenv) (OneSession i₀) (new senv c) es)
    (hbelow : (Run.exec (step senv cenv) (new senv c) es).Below i₀) (a : AEAD P) :
    NonceUnique (sealedUnder a (Run.exec (step senv cenv) (new senv c) es).log) := by
  have hsingle : Single i₀ (Run.exec (step senv cenv) (new senv c) es) := by
    have hstart : Server.Single (newServer RS senv) [] 0 :=
      ⟨fun _ => ⟨rfl, rfl⟩, fun _ _ => rfl, fun _ _ h => (by cases h), fun _ => Multiset.nodup_zero⟩
    refine Run.exec_induct (fun s e h hP => single_step h hP) ⟨?_, 0, hstart⟩ hone
    intro i o ho
    cases ho
  obtain ⟨sid, hserver⟩ := hsingle.server
  obtain ⟨hstate, hlog⟩ := client_exec senv cenv (s := new senv c) i₀ es
  have hcount := hbelow.client
  rw [hstate] at hcount
  intro x hx y hy hnonce
  obtain ⟨hdir, hseq⟩ := makeNonce_injective hnonce
  refine Prod.ext hdir ?_
  rcases mem_sealedUnder hx with ⟨hx₁, j, hxlog⟩ | ⟨hx₁, j, hxlog⟩ <;>
    rcases mem_sealedUnder hy with ⟨hy₁, k, hylog⟩ | ⟨hy₁, k, hylog⟩
  · exact hserver.eq_of_seq hbelow.server (mem_ofServer hxlog) (mem_ofServer hylog) hseq
  · rw [hx₁, hy₁] at hdir
    cases hdir
  · rw [hx₁, hy₁] at hdir
    cases hdir
  · have hxout := mem_ofClient (hsingle.client j _ hxlog ▸ hxlog)
    have hyout := mem_ofClient (hsingle.client k _ hylog ▸ hylog)
    rw [hlog] at hxout hyout
    exact Client.eq_of_seq (hnew i₀) hcount hxout hyout hseq

end System

/-! ### Two clients -/

/-- Two client processes that share a PSK and have keys of their own. -/
def smallClientEnvs (i : Bool) : ClientEnv ℚ smallPrimitives :=
  { smallClientEnv with clientPriv := smallKey (if i then 8 else 7) }

/-- Their names. -/
def smallClientIDs (i : Bool) : UInt64 := if i then 6 else 5

theorem newClient_smallClientEnvs (i : Bool) :
    newClient smallCodes (smallClientEnvs i) (smallClientIDs i) =
      .ok (smallClientNamed (smallClientIDs i)) := by
  rw [newClient_of_cfg (smallClientEnvs i) smallClientEnv rfl]
  cases i with
  | false => exact newClient_smallClientNamed (by decide +kernel)
  | true => exact newClient_smallClientNamed (by decide +kernel)

def handshakeOf (i : Bool) : List (SystemEvent ℚ Bool Unit) :=
  .client i (.start () (.handshake 0)) :: List.replicate 3 (.client i (.sched ()))

/-- The small server and two clients. -/
def smallSystem : System ℚ smallCodes smallPrimitives Bool Unit :=
  System.new smallServerEnv fun i => smallClientNamed (smallClientIDs i)

/-- A client sends a handshake, and the server answers it. -/
def answeredHandshake : List (SystemEvent ℚ Bool Unit) :=
  handshakeOf false ++
    [.server (.datagram 0 (smallFresh (smallKey 9)) smallAddr
      (smallDatagram smallBaseAEAD .clientToServer (smallFirst 5 1 (smallKey 7))))]

theorem System.base_nonces_unique_small :
    let log := (Run.exec (step smallServerEnv smallClientEnvs) smallSystem answeredHandshake).log
    (sealedUnder smallBaseAEAD log).length = 2 ∧ NonceUnique (sealedUnder smallBaseAEAD log) := by
  refine ⟨by decide +kernel, ?_⟩
  have hone : Run.Along (step smallServerEnv smallClientEnvs) (OneSession false) smallSystem
      answeredHandshake := by decide +kernel
  exact base_nonces_unique newClient_smallClientEnvs hone (by decide +kernel) smallBaseAEAD

/-- **Two clients use the same nonce**: each numbers its first handshake one. -/
theorem System.base_nonce_reused :
    (∀ i, newClient smallCodes (smallClientEnvs i) (smallClientIDs i) =
        .ok (smallClientNamed (smallClientIDs i))) ∧
      (∀ i, (smallClientEnvs i).baseAEAD = smallServerEnv.baseAEAD) ∧
      ¬ NonceUnique (sealedUnder smallServerEnv.baseAEAD
        (Run.exec (step smallServerEnv smallClientEnvs) smallSystem
          (handshakeOf false ++ handshakeOf true)).log) :=
  ⟨newClient_smallClientEnvs, fun _ => rfl, by decide +kernel⟩

end FlexBraid
