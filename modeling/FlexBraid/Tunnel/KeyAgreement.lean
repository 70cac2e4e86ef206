import FlexBraid.Tunnel.CleanDownlink
import FlexBraid.Tunnel.Geometry
import FlexBraid.Tunnel.Provenance
import FlexBraid.Tunnel.ServerSteps
import FlexBraid.Tunnel.System

/-!
# Do client and server agree on the session key?

The client sends its public key with every handshake, and the server answers with the public key
of the session.  The client publishes the key of the first acknowledgement and ignores the others.
The server keeps a session until it has been idle for five minutes, and creates it again, with
another key, for the next handshake of that name with a new number, be it an old one that the
network has held back.

So both ends agree as long as no handshake revives a session, in every interleaving of the client's
goroutines and whatever the network drops, repeats, delays and reorders.

## Main definitions

* `IsAck` — an acknowledgement for a session.
* `SessView.Acking`, `Server.Keyed` — the acknowledgements of a session and of a server carry the
  key of their session.
* `System.Honest` — the network delivers what was sent.
* `Server.NoRevival` — no handshake creates a session that existed before.

## Main results

* `System.keys_agree` — **both ends hold the same key** when no session is revived.
* `System.keys_differ` — a delayed handshake that revives a session leaves them with two keys.
-/

namespace FlexBraid

variable {F C : Type} {RS : ReedSolomon C} {P : Primitives}

/-! ### What encoders return -/

/-- The frames of an encoder that holds inner data carry no flags but its own. -/
theorem Encoder.Emission.flags {e e' : Encoder F RS} {data out : List Frame}
    (h : Emission e data e' out) (hdata : ∀ f ∈ data, f.flags = 0) :
    ∀ f ∈ out, f.flags = 0 ∨ f.flags = flagPassSeq ∨ f.flags = flagFECParity := by
  intro f hf
  cases h with
  | hold => cases hf
  | pass =>
    obtain ⟨g, hg, rfl⟩ := List.mem_map.mp hf
    refine .inr (.inl ?_)
    change g.flags ||| flagPassSeq = flagPassSeq
    rw [hdata g hg]
    rfl
  | plain => exact .inl (hdata f hf)
  | block =>
    rcases List.mem_append.mp hf with hf | hf
    · obtain ⟨g, hg, rfl⟩ := List.mem_map.mp hf
      exact .inl (hdata g hg)
    · obtain ⟨i, -, rfl⟩ := List.mem_map.mp hf
      exact .inr (.inr rfl)

theorem hasFlag_of_coded {f : Frame} (h : f.flags = 0 ∨ f.flags = flagPassSeq ∨ f.flags = flagFECParity) :
    f.hasFlag flagFirst = false ∧ f.hasFlag flagKex = false := by
  simp only [Frame.hasFlag]
  rcases h with h | h | h <;> rw [h] <;> decide

variable {id : UInt64} {d : Bytes}

/-- The handshakes among the datagrams of a client. -/
theorem Client.Accounted.first {env : ClientEnv F P} {out : List (ClientOut P)}
    (h : Accounted RS env id out) {wan : ℕ} (hsend : .send wan d ∈ out) {hdr : Frame}
    (hhdr : Frame.decodeHeader d = .ok hdr) (hfirst : hdr.hasFlag flagFirst = true) :
    hdr.sessionID = id ∧ ∃ seq capacity plain, env.baseAEAD.sealFrame .clientToServer plain = .ok d ∧
      Frame.encode { flags := flagFirst, sessionID := id, seq := seq
                     payload := putUint32 capacity ++ env.clientPriv.pub P } = .ok plain := by
  obtain ⟨a, plain, hsealed, hd⟩ := h.sent wan d hsend
  obtain ⟨f, hencode, horigin⟩ := h.sealed a plain hsealed
  rw [AEAD.decodeHeader_sealFrame hencode hd] at hhdr
  cases hhdr
  cases horigin with
  | handshake seq capacity => exact ⟨rfl, seq, capacity, plain, hd, hencode⟩
  | probe =>
    change (flagKeepalive &&& flagFirst != 0) = true at hfirst
    exact absurd hfirst (by decide)
  | coded a hf =>
    obtain ⟨j, frames, g, hcoded, hg, hsent⟩ := hf
    obtain ⟨e, e', data, hemission, hdata⟩ := h.coded j frames hcoded
    have hflags := hemission.flags (fun f hf => (hdata f hf).1) g hg
    rw [← hsent.flags] at hflags
    have hno := (hasFlag_of_coded hflags).1
    rw [Frame.hasFlag] at hno hfirst
    rw [hno] at hfirst
    cases hfirst

/-! ### The acknowledgements of a session -/

/-- An acknowledgement for a session, with the given public key. -/
def IsAck (env : ServerEnv F P) (id : UInt64) (pub d : Bytes) : Prop :=
  ∃ seq plain, Frame.encode { flags := flagControl ||| flagKex, sessionID := id, seq := seq
                              payload := pub ++ env.ann } = .ok plain ∧
    env.baseAEAD.sealFrame .serverToClient plain = .ok d

/-- The acknowledgements among the datagrams. -/
def Acks (env : ServerEnv F P) (id : UInt64) (pub : Bytes) (out : List (ServerOut P)) : Prop :=
  ∀ addr d hdr, .send addr d ∈ out → Frame.decodeHeader d = .ok hdr → hdr.hasFlag flagKex = true →
    IsAck env id pub d

theorem Acks.append {env : ServerEnv F P} {pub : Bytes} {out out' : List (ServerOut P)}
    (h : Acks env id pub out) (h' : Acks env id pub out') : Acks env id pub (out ++ out') :=
  fun addr d hdr hmem => (List.mem_append.mp hmem).elim (h addr d hdr) (h' addr d hdr)

/-- The acknowledgements of a session carry its public key; what it has yet to send are none. -/
structure SessView.Acking (env : ServerEnv F P) (id : UInt64) (pub : Bytes) (v : SessView F RS P)
    (out : List (ServerOut P)) (owned : Multiset Frame) : Prop where
  name : v.sess.id = id
  serverPub : v.sess.serverPub = pub
  pending : ∀ f ∈ v.sess.enc.pending, f.flags = 0
  owned : ∀ f ∈ owned, f.hasFlag flagKex = false
  acks : Acks env id pub out

namespace Server

open Prog SessView

variable {env : ServerEnv F P} {id : UInt64} {pub : Bytes} {m : Multiset Frame}

theorem owns_acking_silent {α : Type} {f : SessView F RS P → α × SessView F RS P × List (ServerOut P)}
    {Q : α → Multiset Frame → Prop}
    (hf : ∀ v, (f v).2.1.sess.id = v.sess.id ∧ (f v).2.1.sess.serverPub = v.sess.serverPub ∧
      (f v).2.1.sess.enc = v.sess.enc ∧ (f v).2.2 = [])
    (hQ : ∀ v, (∀ g ∈ m, g.hasFlag flagKex = false) →
      ∃ m', (∀ g ∈ m', g.hasFlag flagKex = false) ∧ Q (f v).1 m') :
    Owns (Acking env id pub) Q (Prog.atomic f) m := by
  refine owns_atomic fun v out others h => ?_
  obtain ⟨m', hm', hq⟩ := hQ v fun g hg => h.owned g (Multiset.mem_add.mpr (.inl hg))
  obtain ⟨hid, hpub, henc, hout⟩ := hf v
  refine ⟨m', ⟨hid.trans h.name, hpub.trans h.serverPub, ?_, fun g hg => ?_, ?_⟩, hq⟩
  · rw [henc]
    exact h.pending
  · rcases Multiset.mem_add.mp hg with hg | hg
    · exact hm' g hg
    · exact h.owned g (Multiset.mem_add.mpr (.inr hg))
  · rw [hout, List.append_nil]
    exact h.acks

theorem owns_nextSeq_acking (m : Multiset Frame) :
    Owns (Acking env id pub) (fun _ m' => m' = m) (nextSeq : SessProg RS F P UInt32) m :=
  owns_acking_silent (fun _ => ⟨rfl, rfl, rfl, rfl⟩) fun _ hm => ⟨m, hm, rfl⟩

theorem owns_encoder_acking {f : SessView F RS P → List Frame × Encoder F RS} {pushed : List Frame}
    (hpushed : ∀ g ∈ pushed, g.flags = 0)
    (hf : ∀ v, Encoder.Emission v.sess.enc (v.sess.enc.pending ++ pushed) (f v).2 (f v).1) :
    Owns (Acking env id pub) (fun frames m => m = (frames.map fun g => ({g} : Multiset Frame)).sum)
      (Prog.atomic fun v : SessView F RS P =>
        ((f v).1, { v with sess := { v.sess with enc := (f v).2 } }, [])) 0 := by
  refine owns_atomic fun v out others h => ?_
  have hdata : ∀ g ∈ v.sess.enc.pending ++ pushed, g.flags = 0 :=
    List.forall_mem_append.mpr ⟨h.pending, hpushed⟩
  refine ⟨_, ⟨h.name, h.serverPub, fun g hg => hdata g ((hf v).pending_subset hg), fun g hg => ?_, ?_⟩, rfl⟩
  · rcases Multiset.mem_add.mp hg with hg | hg
    · rw [← Multiset.sum_coe, ← Multiset.map_coe, Multiset.sum_map_singleton] at hg
      exact (hasFlag_of_coded ((hf v).flags hdata g hg)).2
    · exact h.owned g (Multiset.mem_add.mpr (.inr hg))
  · rw [List.append_nil]
    exact h.acks

theorem owns_sendToAddrKey_acking (addr : UDPAddr) (f : Frame) (aead : AEAD P)
    (hack : ∀ plain d, f.encode = .ok plain → aead.sealFrame .serverToClient plain = .ok d →
      (∀ g ∈ m, g.hasFlag flagKex = false) → f.hasFlag flagKex = true → IsAck env id pub d) :
    Owns (Acking env id pub) (fun _ _ => True) (sendToAddrKey addr f aead : SessProg RS F P Unit)
      m := by
  rw [sendToAddrKey]
  split
  · exact owns_pure trivial
  · next plain hencode =>
    split
    · exact owns_pure trivial
    · next d hd =>
      refine owns_atomic fun v out others h => ⟨m, ⟨h.name, h.serverPub, h.pending, h.owned, ?_⟩, trivial⟩
      refine h.acks.append ?_
      intro addr' d' hdr hmem hhdr hkex
      simp only [List.mem_cons, ServerOut.send.injEq, List.not_mem_nil, or_false, reduceCtorEq,
        false_or] at hmem
      obtain ⟨-, rfl⟩ := hmem
      rw [AEAD.decodeHeader_sealFrame hencode hd] at hhdr
      cases hhdr
      exact hack plain d' hencode hd (fun g hg => h.owned g (Multiset.mem_add.mpr (.inl hg))) hkex

theorem owns_sendToAddr_acking (addr : UDPAddr) {f : Frame}
    (hno : (∀ g ∈ m, g.hasFlag flagKex = false) → f.hasFlag flagKex = false) :
    Owns (Acking env id pub) (fun _ _ => True) (sendToAddr addr f : SessProg RS F P Unit) m := by
  refine (owns_read (Q := fun _ m' => m' = m) fun _ _ _ _ => rfl).bind ?_
  rintro aead m rfl
  refine owns_sendToAddrKey_acking addr f aead fun plain d _ _ hm hkex => ?_
  rw [hno hm] at hkex
  cases hkex

variable [Float64 F]

/-- **Every program of a session acknowledges with its public key.** -/
theorem rules_acking (env : ServerEnv F P) (id : UInt64) (pub : Bytes) :
    SessRules env (Acking env id pub : SessView F RS P → _) (fun _ => 0) (fun f => {f})
      (fun f => {f}) where
  quiet hstill h := by
    obtain ⟨replay, endpoints, lastSeen, -, hsess⟩ := hstill.sess
    refine ⟨?_, ?_, ?_, h.owned, h.acks⟩ <;> rw [hsess]
    exacts [h.name, h.serverPub, h.pending]
  nextSeq := owns_nextSeq_acking 0
  number f _ := by
    refine owns_acking_silent (fun _ => ⟨rfl, rfl, rfl, rfl⟩) fun v hm => ?_
    refine ⟨_, fun g hg => ?_, rfl⟩
    rw [Multiset.mem_singleton.mp hg]
    exact hm f (Multiset.mem_singleton_self f)
  data _ _ := rfl
  push now start id seq payload :=
    owns_encoder_acking (f := fun v =>
      ((v.sess.enc.push now start { sessionID := id, seq := seq, payload := payload }).2,
        (v.sess.enc.push now start { sessionID := id, seq := seq, payload := payload }).1))
      (by simp) fun v => v.sess.enc.emission_push now start _
  tick now := by
    refine owns_encoder_acking (f := fun v => ((v.sess.enc.tick now).2, (v.sess.enc.tick now).1))
      (List.forall_mem_nil _) fun v => ?_
    rw [List.append_nil]
    exact v.sess.enc.emission_tick now
  setLossRate now rate := by
    refine owns_atomic fun v out others h => ⟨0, ⟨h.name, h.serverPub, fun g hg => ?_, h.owned, ?_⟩, trivial⟩
    · exact h.pending g ((v.sess.enc.emission_setLossRate now rate).pending_subset hg)
    · rw [List.append_nil]
      exact h.acks
  stamp addr f := by
    rw [stampPass]
    split
    · have hflags : ∀ v : SessView F RS P, (v.stampPathSeq env addr f).1.flags = f.flags := by
        intro v
        rw [SessView.stampPathSeq]
        dsimp only
        split <;> rfl
      refine owns_acking_silent (fun v => ?_) fun v hm => ?_
      · rw [v.sess_stampPathSeq]
        exact ⟨rfl, rfl, rfl, rfl⟩
      · refine ⟨_, fun g hg => ?_, rfl⟩
        rw [Multiset.mem_singleton.mp hg, Frame.hasFlag, hflags]
        exact hm f (Multiset.mem_singleton_self f)
    · exact owns_pure rfl
  send addr f := owns_sendToAddr_acking addr fun hm => hm f (Multiset.mem_singleton_self f)
  pong ua ts := by
    refine (owns_read (Q := fun _ m' => m' = 0) fun _ _ _ _ => rfl).bind ?_
    rintro id m rfl
    refine (owns_nextSeq_acking 0).bind ?_
    rintro seq m rfl
    refine owns_sendToAddr_acking ua fun _ => ?_
    change (flagPong &&& flagKex != 0) = false
    decide
  ack ua := by
    refine (owns_read (Q := fun sess m' => m' = 0 ∧ sess.id = id ∧ sess.serverPub = pub) ?_).bind ?_
    · exact fun v _ _ h => ⟨rfl, h.name, h.serverPub⟩
    · rintro sess m ⟨rfl, rfl, rfl⟩
      refine (owns_nextSeq_acking 0).bind ?_
      rintro seq m rfl
      exact owns_sendToAddrKey_acking ua _ _ fun plain d hencode hd _ _ => ⟨seq, plain, hencode, hd⟩

/-! ### The acknowledgements of a server -/

/-- The session with the name `x`, if there was one, has the private key `key`, and its session key
follows from it and the public key of a peer; so do its acknowledgements.  No session holds
acknowledgements back. -/
structure Keyed (env : ServerEnv F P) (x : UInt64) (Peer : Bytes → Prop) (key : Option PrivateKey)
    (s : Server F RS P) (out : List (ServerOut P)) : Prop where
  put : key.isSome = true → .putSession x ∈ out
  table : ∀ sess, s.mgr.get x = some sess → ∃ k peer shared, key = some k ∧
    sess.serverPub = k.pub P ∧ Peer peer ∧ ecdhShared P k.bytes peer = .ok shared ∧
    newAEAD P (derivePFSKey P env.psk shared x) env.cfg.crypto.cipher = .ok sess.aead
  pending : ∀ id sess, s.mgr.get id = some sess → ∀ f ∈ sess.enc.pending, f.flags = 0
  acks : ∀ addr d hdr, .send addr d ∈ out → Frame.decodeHeader d = .ok hdr →
    hdr.hasFlag flagKex = true →
      ∃ id pub, IsAck env id pub d ∧ (id = x → ∃ k, key = some k ∧ pub = k.pub P)

/-- No handshake creates the session with the name `x` when it existed before. -/
def NoRevival (x : UInt64) (s : Server F RS P) (out : List (ServerOut P)) : Event F → Prop
  | .datagram _ _ _ d =>
    match Frame.decodeHeader d with
    | .error _ => True
    | .ok hdr =>
      hdr.hasFlag flagFirst = true → hdr.sessionID = x → (s.mgr.get x).isNone = true →
        .putSession x ∉ out
  | _ => True

/-- The header of the frame that an event brings. -/
def Event.header? : Event F → Option Frame
  | .datagram _ _ _ d => (Frame.decodeHeader d).toOption
  | _ => none

omit [Float64 F] in
theorem noRevival_iff (x : UInt64) (s : Server F RS P) (out : List (ServerOut P)) (e : Event F) :
    (∀ hdr ∈ e.header?, ¬ (hdr.hasFlag flagFirst = true ∧ hdr.sessionID = x ∧
      (s.mgr.get x).isNone = true ∧ .putSession x ∈ out)) ↔ NoRevival x s out e := by
  cases e with
  | datagram now fresh addr d =>
    rw [NoRevival, Event.header?]
    cases Frame.decodeHeader d with
    | error _ => simp [Except.toOption]
    | ok hdr => simp [Except.toOption, not_and]
  | _ => simp [NoRevival, Event.header?]

instance (x : UInt64) (s : Server F RS P) (out : List (ServerOut P)) (e : Event F) :
    Decidable (NoRevival x s out e) :=
  decidable_of_iff _ (noRevival_iff x s out e)

/-- The handshakes for the name `x` that a datagram can carry have the public key of a peer. -/
def FirstFrom (env : ServerEnv F P) (x : UInt64) (Peer : Bytes → Prop) : Event F → Prop
  | .datagram _ _ _ d => ∀ hdr plain f, Frame.decodeHeader d = .ok hdr →
      hdr.hasFlag flagFirst = true → hdr.sessionID = x →
      env.baseAEAD.openFrame .clientToServer d = .ok plain → Frame.decode plain = .ok f →
      Peer ((f.payload.drop 4).take publicKeySize)
  | _ => True

variable {x : UInt64} {Peer : Bytes → Prop} {key : Option PrivateKey} {s s' : Server F RS P}
  {out o : List (ServerOut P)} {e : Event F}

variable {sess : ServerSession F RS P}

omit [Float64 F] in
/-- An event that creates no session, and acknowledges with the keys of sessions. -/
theorem Keyed.next (h : Keyed env x Peer key s out)
    (hget : ∀ id sess', s'.mgr.get id = some sess' → ∃ sess, s.mgr.get id = some sess ∧
      sess'.serverPub = sess.serverPub ∧ sess'.aead = sess.aead ∧
      ((∀ f ∈ sess.enc.pending, f.flags = 0) → ∀ f ∈ sess'.enc.pending, f.flags = 0))
    (ho : ∀ y ∈ o, y.Inner ∨ ∃ sess out, s.mgr.get sess.id = some sess ∧
      Acks env sess.id sess.serverPub out ∧ y ∈ out) : Keyed env x Peer key s' (out ++ o) := by
  refine ⟨fun hkey => List.mem_append_left _ (h.put hkey), ?_, ?_, ?_⟩
  · intro sess' hsess'
    obtain ⟨sess, hsess, hpub, haead, -⟩ := hget x sess' hsess'
    rw [hpub, haead]
    exact h.table sess hsess
  · intro id sess' hsess'
    obtain ⟨sess, hsess, -, -, hpending⟩ := hget id sess' hsess'
    exact hpending (h.pending id sess hsess)
  · intro addr d hdr hmem hhdr hkex
    rcases List.mem_append.mp hmem with hmem | hmem
    · exact h.acks addr d hdr hmem hhdr hkex
    · obtain hinner | ⟨sess, out, hsess, hacks, hmem⟩ := ho _ hmem
      · exact hinner.elim
      · refine ⟨sess.id, sess.serverPub, hacks addr d hdr hmem hhdr hkex, fun hx => ?_⟩
        obtain ⟨k, peer, shared, hkey, hpub, -⟩ := h.table sess (hx ▸ hsess)
        exact ⟨k, hkey, hpub⟩

theorem acking_onSession (env : ServerEnv F P) (s : Server F RS P) {c : SessCall F}
    (hc : ∀ st, c ≠ .paths st) (hpending : ∀ f ∈ sess.enc.pending, f.flags = 0) :
    (∀ id, ∃ sess', (s.onSession sess (c.body env)).2.1.mgr.get id =
        (if id = sess.id then some sess' else s.mgr.get id) ∧ sess'.serverPub = sess.serverPub ∧
        sess'.aead = sess.aead ∧ ∀ f ∈ sess'.enc.pending, f.flags = 0) ∧
      Acks env sess.id sess.serverPub (s.onSession sess (c.body env)).2.2 := by
  obtain ⟨hgrow, hget, -⟩ := get_onSession env hc s sess
  have hstart : Acking env sess.id sess.serverPub ⟨sess, s.states.lookup sess.id⟩ [] 0 :=
    ⟨rfl, rfl, hpending, fun f hf => absurd hf (Multiset.notMem_zero f), fun _ _ _ h => by cases h⟩
  obtain ⟨m, hrun, -⟩ := ((rules_acking env sess.id sess.serverPub).owns_body c
    fun st v out m hst _ => absurd hst (hc st)).run 0 hstart
  exact ⟨fun id => ⟨_, hget id, hgrow.serverPub, hgrow.aead, hrun.pending⟩, hrun.acks⟩

/-- A program on a session keeps the keys. -/
theorem Keyed.call (h : Keyed env x Peer key s out) {c : SessCall F} (hc : ∀ st, c ≠ .paths st)
    (hget : s.mgr.get sess.id = some sess) (hs' : s'.mgr = (s.onSession sess (c.body env)).2.1.mgr)
    (ho : ∀ x ∈ o, x.Inner) :
    Keyed env x Peer key s' (out ++ ((s.onSession sess (c.body env)).2.2 ++ o)) := by
  obtain ⟨hafter, hacks⟩ := acking_onSession env s hc (h.pending _ sess hget)
  refine h.next (fun id sess' hsess' => ?_) fun y hy => ?_
  · obtain ⟨sess'', hget', hpub, haead, hpending⟩ := hafter id
    rw [hs', hget'] at hsess'
    split at hsess'
    · next hid =>
      cases hsess'
      exact ⟨sess, hid ▸ hget, hpub, haead, fun _ => hpending⟩
    · exact ⟨sess', hsess', rfl, rfl, fun h => h⟩
  · exact (List.mem_append.mp hy).elim (fun hy => .inr ⟨sess, _, hget, hacks, hy⟩) (.inl <| ho y ·)

/-- The table with a new session in it, before the session accepts its handshake. -/
theorem Keyed.create (h : Keyed env x Peer key s out) {now : Time} {fresh : Fresh} {d : Bytes}
    {hdr f : Frame} {addr : Addr} (hnew : Creation env s now fresh d hdr f sess)
    (hrevival : NoRevival x s out (.datagram (F := F) now fresh addr d))
    (hfirst : FirstFrom env x Peer (.datagram (F := F) now fresh addr d)) :
    ∃ key', Keyed env x Peer key'
      { s.checked now fresh hdr with mgr := (s.checked now fresh hdr).mgr.put sess }
      (out ++ [.dialEgress sess.id, .putSession sess.id]) := by
  obtain ⟨sPriv, shared, aead, enc, -, hshared, haead, henc, hsess⟩ := hnew.keys
  have hname := hnew.id
  have hget : ∀ id, ((s.checked now fresh hdr).mgr.put sess).get id =
      if id = sess.id then some sess else s.mgr.get id := fun id => Manager.get_put _ _ id
  have hpending : ∀ f ∈ sess.enc.pending, f.flags = 0 := by
    rw [hsess]
    change ∀ f ∈ enc.pending, f.flags = 0
    simp [pending_newEncoder henc]
  have hall : ∀ id sess', ((s.checked now fresh hdr).mgr.put sess).get id = some sess' →
      ∀ f ∈ sess'.enc.pending, f.flags = 0 := by
    intro id sess' hsess'
    rw [hget] at hsess'
    split at hsess'
    · cases hsess'
      exact hpending
    · exact h.pending id sess' hsess'
  have hacks : ∀ addr d, .send addr d ∈ out ++ [.dialEgress sess.id, .putSession sess.id] →
      .send addr d ∈ out := by
    intro addr d hmem
    simpa using hmem
  by_cases hx : hdr.sessionID = x
  · -- the session is the one looked at: there was none, so no acknowledgement either
    rw [NoRevival, hnew.header] at hrevival
    have hnone : key = none := by
      have habsent : (s.mgr.get x).isNone = true := by rw [← hx, hnew.absent]; rfl
      have hput := hrevival hnew.first hx habsent
      by_contra hkey
      exact hput (h.put (Option.isSome_iff_ne_none.mpr hkey))
    refine ⟨some sPriv, fun _ => ?_, ?_, hall, ?_⟩
    · rw [← hx, ← hname]
      simp
    · intro sess' hsess'
      rw [hget, hname, if_pos hx.symm] at hsess'
      cases hsess'
      obtain ⟨plain, hopen, hdecode⟩ := hnew.authentic
      refine ⟨sPriv, _, shared, rfl, ?_, hfirst hdr plain f hnew.header hnew.first hx hopen hdecode,
        hshared, ?_⟩
      · rw [hsess]
        rfl
      · rw [← hx, haead, hsess]
        rfl
    · intro addr d hdr' hmem hhdr hkex
      obtain ⟨id, pub, hack, hkey⟩ := h.acks addr d hdr' (hacks addr d hmem) hhdr hkex
      refine ⟨id, pub, hack, fun hid => ?_⟩
      obtain ⟨k, hk, -⟩ := hkey hid
      simp [hnone] at hk
  · refine ⟨key, fun hkey => List.mem_append_left _ (h.put hkey), ?_, hall, ?_⟩
    · intro sess' hsess'
      rw [hget, hname, if_neg (Ne.symm hx)] at hsess'
      exact h.table sess' hsess'
    · exact fun addr d hdr' hmem => h.acks addr d hdr' (hacks addr d hmem)

/-- **An event keeps the keys** if it does not revive the session. -/
theorem keyed_of_turn (hturn : Turn env s e s' o) (h : Keyed env x Peer key s out)
    (hrevival : NoRevival x s out e) (hfirst : FirstFrom env x Peer e) :
    ∃ key', Keyed env x Peer key' s' (out ++ o) := by
  cases hturn with
  | idle hsessions _ ho =>
    refine ⟨key, h.next (fun id sess hsess => ?_) (.inl <| ho · ·)⟩
    rw [Manager.get, hsessions] at hsess
    exact ⟨sess, hsess, rfl, rfl, fun h => h⟩
  | call c hc hget ho => exact ⟨key, h.call hc hget rfl ho⟩
  | @create now fresh addr d ua hdr f sess hnew =>
    obtain ⟨key', hkeyed⟩ := h.create hnew hrevival hfirst
    have hcall := hkeyed.call (c := .first now hdr.seq ua f.payload) (by simp) (o := [])
      (by rw [Manager.get_put, if_pos rfl]) rfl (by simp)
    rw [List.append_nil, List.append_assoc] at hcall
    exact ⟨key', hcall⟩
  | @monitor id now σ st sess dec hst hget hdec =>
    obtain ⟨rate, hget'⟩ := get_healthTick env now σ hst hget hdec
    refine ⟨key, h.next (fun id' sess' hsess' => ?_) (by simp)⟩
    rw [hget'] at hsess'
    split at hsess'
    · next hid =>
      cases hsess'
      exact ⟨sess, hid ▸ hget, rfl, rfl,
        fun h f hf => h f ((sess.enc.emission_setLossRate now rate).pending_subset hf)⟩
    · exact ⟨sess', hsess', rfl, rfl, fun h => h⟩
  | expire now =>
    refine ⟨key, h.next (fun id sess hsess => ?_) fun y hy => ?_⟩
    · rw [Manager.get_expire] at hsess
      exact ⟨sess, (Option.filter_eq_some_iff.mp hsess).1, rfl, rfl, fun h => h⟩
    · obtain ⟨id, -, rfl⟩ := List.mem_map.mp hy
      exact .inl trivial
  | drop => exact ⟨key, h.next (fun _ sess hsess => ⟨sess, hsess, rfl, rfl, fun h => h⟩) (by simp)⟩

end Server

/-! ### The two ends of an exchange -/

theorem IsAck.openAck (hP : P.Lawful) {senv : ServerEnv F P} {cenv : ClientEnv F P}
    (hbase : cenv.baseAEAD = senv.baseAEAD) {id' : UInt64} {pub payload : Bytes}
    (hack : IsAck senv id' pub d) (h : Client.openAck cenv id d = some payload) :
    id' = id ∧ payload = pub ++ senv.ann := by
  obtain ⟨seq, plain, hencode, hseal⟩ := hack
  rw [Client.openAck, hbase, AEAD.openFrame_sealFrame hP hseal] at h
  dsimp only at h
  rw [Frame.decode_encode hencode] at h
  dsimp only at h
  split at h
  · cases h
  · next hid =>
    split at h
    · cases h
    · cases h
      exact ⟨not_not.mp hid, rfl⟩

/-- The key that a client computes from the server's public key is made from the shared secret
that the server computes. -/
theorem Client.sessionKey_eq (hP : P.Lawful) {env : ClientEnv F P} {k : PrivateKey}
    {ann shared : Bytes} {a : AEAD P} (h : sessionKey env id (k.pub P ++ ann) = some a)
    (hshared : ecdhShared P k.bytes (env.clientPriv.pub P) = .ok shared) :
    newAEAD P (derivePFSKey P env.psk shared id) env.cfg.crypto.cipher = .ok a := by
  rw [sessionKey, List.take_left' (PrivateKey.length_pub P k), ecdhShared_comm hP, hshared] at h
  exact Except.eq_ok_of_toOption h

theorem keys_of_crypto [Float64 F] {sjson cjson : AnnounceCodec F} {scfg ccfg : Config F} {priv : PrivateKey}
    {senv : ServerEnv F P} {cenv : ClientEnv F P} (hsenv : newServerEnv P sjson scfg = .ok senv)
    (hcenv : newClientEnv P cjson ccfg priv = .ok cenv) (hcrypto : ccfg.crypto = scfg.crypto) :
    cenv.psk = senv.psk ∧ cenv.baseAEAD = senv.baseAEAD ∧
      cenv.cfg.crypto.cipher = senv.cfg.crypto.cipher := by
  obtain ⟨-, hscfg, -, hspsk, skey, hskey, hsaead⟩ := newServerEnv_eq_ok hsenv
  obtain ⟨hccfg, -, hcpsk, ckey, hckey, hcaead⟩ := newClientEnv_eq_ok hcenv
  have hpsk : cenv.psk = senv.psk := by rw [hcpsk, hspsk, hcrypto]
  refine ⟨hpsk, ?_, by rw [hccfg, hscfg, hcrypto]⟩
  rw [hpsk, hskey] at hckey
  cases hckey
  rw [hcrypto, hsaead] at hcaead
  exact (Except.ok.inj hcaead).symm

/-! ### The system -/

/-- Whether an output is the datagram on its way to the server. -/
def SystemOut.ToServer {κ : Type} (d : Bytes) : SystemOut κ P → Prop
  | .client _ (.send _ d') => d' = d
  | _ => False

/-- Whether an output is the datagram on its way to a client. -/
def SystemOut.ToClient {κ : Type} (d : Bytes) : SystemOut κ P → Prop
  | .server (.send _ d') => d' = d
  | _ => False

instance {κ : Type} (d : Bytes) : ∀ o : SystemOut κ P, Decidable (o.ToServer d)
  | .client _ (.send _ d') => inferInstanceAs (Decidable (d' = d))
  | .client _ (.sealed ..) => inferInstanceAs (Decidable False)
  | .client _ (.coded ..) => inferInstanceAs (Decidable False)
  | .client _ (.pushed ..) => inferInstanceAs (Decidable False)
  | .client _ (.skipped ..) => inferInstanceAs (Decidable False)
  | .client _ (.write ..) => inferInstanceAs (Decidable False)
  | .server _ => inferInstanceAs (Decidable False)

instance {κ : Type} (d : Bytes) : ∀ o : SystemOut κ P, Decidable (o.ToClient d)
  | .server (.send _ d') => inferInstanceAs (Decidable (d' = d))
  | .server (.sealed ..) => inferInstanceAs (Decidable False)
  | .server (.egress ..) => inferInstanceAs (Decidable False)
  | .server (.dialEgress ..) => inferInstanceAs (Decidable False)
  | .server (.closeEgress ..) => inferInstanceAs (Decidable False)
  | .server (.putSession ..) => inferInstanceAs (Decidable False)
  | .client _ _ => inferInstanceAs (Decidable False)

theorem SystemOut.exists_of_toServer {κ : Type} {o : SystemOut κ P} (h : o.ToServer d) :
    ∃ i wan, o = .client i (.send wan d) := by
  unfold ToServer at h
  split at h
  · next i wan d' =>
    subst h
    exact ⟨i, wan, rfl⟩
  · exact h.elim

theorem SystemOut.exists_of_toClient {κ : Type} {o : SystemOut κ P} (h : o.ToClient d) :
    ∃ addr, o = .server (.send addr d) := by
  unfold ToClient at h
  split at h
  · next addr d' =>
    subst h
    exact ⟨addr, rfl⟩
  · exact h.elim

namespace System

variable {κ T : Type}

/-- The network delivers what was sent: in any order, any number of times, or never. -/
def Honest (s : System F RS P κ T) : SystemEvent F κ T → Prop
  | .server (.datagram _ _ _ d) => ∃ o ∈ s.log, o.ToServer d
  | .client _ (.start _ (.recv _ _ _ d)) => ∃ o ∈ s.log, o.ToClient d
  | _ => True

instance (s : System F RS P κ T) : ∀ e, Decidable (Honest s e)
  | .server (.datagram _ _ _ d) => inferInstanceAs (Decidable (∃ o ∈ s.log, o.ToServer d))
  | .server (.egress ..) => inferInstanceAs (Decidable True)
  | .server (.encTick ..) => inferInstanceAs (Decidable True)
  | .server (.decTick ..) => inferInstanceAs (Decidable True)
  | .server (.healthTick ..) => inferInstanceAs (Decidable True)
  | .server (.expire _) => inferInstanceAs (Decidable True)
  | .server (.expireFirsts _) => inferInstanceAs (Decidable True)
  | .server .dropStates => inferInstanceAs (Decidable True)
  | .client _ (.start _ (.recv _ _ _ d)) => inferInstanceAs (Decidable (∃ o ∈ s.log, o.ToClient d))
  | .client _ (.start _ (.handshake _)) => inferInstanceAs (Decidable True)
  | .client _ (.start _ (.keepaliveSend ..)) => inferInstanceAs (Decidable True)
  | .client _ (.start _ (.keepaliveTick ..)) => inferInstanceAs (Decidable True)
  | .client _ (.start _ (.ingress ..)) => inferInstanceAs (Decidable True)
  | .client _ (.start _ (.fecTick ..)) => inferInstanceAs (Decidable True)
  | .client _ (.start _ (.healthTick _)) => inferInstanceAs (Decidable True)
  | .client _ (.sched _) => inferInstanceAs (Decidable True)

/-- No handshake revives the session with the name `x`. -/
def NoRevival (x : UInt64) (s : System F RS P κ T) : SystemEvent F κ T → Prop
  | .server e => s.server.NoRevival x (s.log.filterMap SystemOut.ofServer) e
  | .client _ _ => True

instance (x : UInt64) (s : System F RS P κ T) : ∀ e, Decidable (NoRevival x s e)
  | .server _ => inferInstanceAs (Decidable (Server.NoRevival _ _ _ _))
  | .client _ _ => inferInstanceAs (Decidable True)

variable [Float64 F] [DecidableEq κ] [DecidableEq T] {senv : ServerEnv F P} {cenv : κ → ClientEnv F P}
  {id : κ → UInt64} {c : κ → Client F RS P} {s : System F RS P κ T} {i : κ}

/-- The datagrams of all clients are accounted for, and the acknowledgements for one of them carry
the key of its session. -/
structure Exchanging (senv : ServerEnv F P) (cenv : κ → ClientEnv F P) (id : κ → UInt64) (i : κ)
    (s : System F RS P κ T) : Prop where
  clients : ∀ j, Pool.Sound (Client.Provenance (cenv j) (id j) fun _ => True) (s.client j)
    (s.log.filterMap (SystemOut.ofClient j))
  server : ∃ key, s.server.Keyed senv (id i) (· = (cenv i).clientPriv.pub P) key
    (s.log.filterMap SystemOut.ofServer)

omit [Float64 F] [DecidableEq T] in
theorem Exchanging.firstFrom (hP : P.Lawful) (hbase : (cenv i).baseAEAD = senv.baseAEAD)
    (hid : ∀ j, id j = id i → j = i) (h : Exchanging senv cenv id i s) {e : Server.Event F}
    (hhonest : Honest s (.server e : SystemEvent F κ T)) :
    Server.FirstFrom senv (id i) (· = (cenv i).clientPriv.pub P) e := by
  cases e with
  | datagram now fresh addr d =>
    obtain ⟨o, ho, hto⟩ := hhonest
    obtain ⟨j, wan, rfl⟩ := SystemOut.exists_of_toServer hto
    obtain ⟨own, hprov, -⟩ := h.clients j
    intro hdr plain f hhdr hfirst hname hopen hdecode
    obtain ⟨hj, seq, capacity, plain', hseal, hencode⟩ :=
      hprov.accounted.first (mem_ofClient ho) hhdr hfirst
    obtain rfl := hid j (hj ▸ hname)
    -- the datagram opens to the handshake that was sealed
    rw [hbase] at hseal
    rw [AEAD.openFrame_sealFrame hP hseal] at hopen
    cases hopen
    rw [Frame.decode_encode hencode] at hdecode
    cases hdecode
    have hlen : (putUint32 capacity).length = 4 := length_putUint32 capacity
    change ((putUint32 capacity ++ _).drop 4).take publicKeySize = _
    rw [List.drop_left' hlen]
    exact List.take_of_length_le (by rw [PrivateKey.length_pub])
  | _ => trivial

/-- **An event keeps the exchange going.** -/
theorem Exchanging.step (hP : P.Lawful) (hbase : (cenv i).baseAEAD = senv.baseAEAD)
    (hid : ∀ j, id j = id i → j = i) (h : Exchanging senv cenv id i s) {e : SystemEvent F κ T}
    (hhonest : Honest s e) (hrevival : NoRevival (id i) s e) :
    Exchanging senv cenv id i (step senv cenv s e).1 := by
  cases e with
  | server e =>
    obtain ⟨key, hkey⟩ := h.server
    refine ⟨fun j => ?_, ?_⟩
    · change Pool.Sound _ (s.client j) ((s.log ++ _).filterMap _)
      rw [List.filterMap_append, filterMap_ofClient_server, List.append_nil]
      exact h.clients j
    · change ∃ key, Server.Keyed _ _ _ key _ ((s.log ++ _).filterMap _)
      rw [List.filterMap_append, filterMap_ofServer_map]
      exact Server.keyed_of_turn (Server.turn_step senv s.server e) hkey hrevival
        (h.firstFrom hP hbase hid hhonest)
  | client k e =>
    refine ⟨fun j => ?_, ?_⟩
    · change Pool.Sound _ (Function.update s.client k _ j) ((s.log ++ _).filterMap _)
      rw [List.filterMap_append, filterMap_ofClient_map]
      by_cases hj : k = j
      · subst hj
        rw [Function.update_self, if_pos rfl]
        refine Pool.sound_step (fun t call _ => ?_) (h.clients k)
        refine (Client.rules_provenance (cenv k) (id k) _).owns_body call ?_
        cases call <;> trivial
      · rw [Function.update_of_ne (Ne.symm hj), if_neg hj, List.append_nil]
        exact h.clients j
    · change ∃ key, Server.Keyed _ _ _ key _ ((s.log ++ _).filterMap _)
      rw [List.filterMap_append, filterMap_ofServer_client, List.append_nil]
      exact h.server

theorem brings_of_honest {es : List (SystemEvent F κ T)}
    (hes : Run.Along (System.step senv cenv) Honest s es) {t : T} {call : Client.Call F}
    (hcall : .start t call ∈ es.filterMap (SystemEvent.ofClient i)) :
    call.Brings fun d => ∃ o ∈ (Run.exec (System.step senv cenv) s es).log, o.ToClient d := by
  induction es generalizing s with
  | nil => cases hcall
  | cons e es ih =>
    rw [List.filterMap_cons] at hcall
    have hrest : .start t call ∈ es.filterMap (SystemEvent.ofClient i) →
        call.Brings fun d => ∃ o ∈ (Run.exec (System.step senv cenv) s (e :: es)).log, o.ToClient d :=
      fun h => ih hes.2 h
    split at hcall
    · exact hrest hcall
    · next e' he' =>
      rcases List.mem_cons.mp hcall with rfl | hcall
      · cases e with
        | server e => cases he'
        | client j e =>
          simp only [SystemEvent.ofClient] at he'
          split at he'
          · cases he'
            cases call with
            | recv wan now τ d =>
              obtain ⟨o, ho, hto⟩ := hes.1
              refine ⟨o, ?_, hto⟩
              rw [log_exec]
              exact List.mem_append_left _ ho
            | _ => trivial
          · cases he'
      · exact hrest hcall

/-- **Both ends hold the same key.**  Take a server and any number of clients, one of which, with a
name of its own, shares the key and the cipher of the configuration with the server.  In every run
in which the network delivers what was sent, dropping, repeating, delaying and reordering it at
will, while the goroutines of the clients interleave and sessions expire at any time: if no
handshake revives the client's session, then the key that the client has published is the key of
the session that the server has for it. -/
theorem keys_agree (hP : P.Lawful) {sjson cjson : AnnounceCodec F} {scfg ccfg : Config F}
    {priv : PrivateKey} (hsenv : newServerEnv P sjson scfg = .ok senv)
    (hcenv : newClientEnv P cjson ccfg priv = .ok (cenv i)) (hcrypto : ccfg.crypto = scfg.crypto)
    (hid : ∀ j, id j = id i → j = i) (hnew : ∀ j, newClient RS (cenv j) (id j) = .ok (c j))
    {es : List (SystemEvent F κ T)}
    (hes : Run.Along (System.step senv cenv) (fun s e => Honest s e ∧ NoRevival (id i) s e)
      (new senv c) es) {a : AEAD P} {sess : ServerSession F RS P} :
    let s := Run.exec (System.step senv cenv) (new senv c) es
    (s.client i).state.sessAEAD = some a → s.server.mgr.get (id i) = some sess → sess.aead = a := by
  intro s ha hsess
  obtain ⟨hpsk, hbase, hcipher⟩ := keys_of_crypto hsenv hcenv hcrypto
  -- the server's side of the exchange
  have hstart : Exchanging senv cenv id i (new senv c : System F RS P κ T) :=
    ⟨fun j => Pool.sound_idle (Client.provenance_newClient (hnew j) _), none,
      fun h => (by cases h), fun _ h => (by cases h), fun _ _ h => (by cases h),
      fun _ _ _ h => by cases h⟩
  have hexchange : Exchanging senv cenv id i s :=
    Run.exec_induct (fun s e h hP' => h.step hP hbase hid hP'.1 hP'.2) hstart hes
  obtain ⟨key, hkeyed⟩ := hexchange.server
  obtain ⟨k, _, shared, rfl, -, rfl, hshared, haead⟩ := hkeyed.table sess hsess
  -- the client's side: its key comes from an acknowledgement of the run
  have hhonest : Run.Along (System.step senv cenv) Honest (new senv c) es :=
    hes.mono fun _ _ h => h.1
  obtain ⟨m, hprov⟩ := Client.provenance_exec (hnew i) fun t call hcall =>
    brings_of_honest (i := i) hhonest hcall
  have hstate := (client_exec senv cenv (s := new senv c) i es).1
  change (Run.exec (System.step senv cenv) (new senv c) es |>.client i).state.sessAEAD = some a at ha
  rw [hstate] at ha
  obtain ⟨d, hdr, payload, ⟨o, ho, hto⟩, hhdr, hkex, hopen, hkey⟩ := hprov.published a ha
  obtain ⟨addr, rfl⟩ := SystemOut.exists_of_toClient hto
  obtain ⟨id', pub, hack, hpub⟩ := hkeyed.acks addr d hdr (mem_ofServer ho) hhdr hkex
  obtain ⟨rfl, rfl⟩ := hack.openAck hP hbase hopen
  obtain ⟨k', hk', rfl⟩ := hpub rfl
  cases hk'
  have hagree := Client.sessionKey_eq hP hkey hshared
  rw [hpsk, hcipher, haead] at hagree
  exact Except.ok.inj hagree

end System

/-! ### A small exchange -/

/-- What the server is built from. -/
def exchangeServerEnv : ServerEnv ℚ smallPrimitives :=
  (newServerEnv smallPrimitives smallTextJson smallConfig).toOption.getD smallTextServerEnv

/-- What the client is built from. -/
def exchangeClientEnv : ClientEnv ℚ smallPrimitives :=
  (newClientEnv smallPrimitives smallTextJson smallConfig (smallKey 7)).toOption.getD
    smallTextClientEnv

def exchangeClient : Client ℚ smallCodes smallPrimitives :=
  (newClient smallCodes exchangeClientEnv 5).toOption.getD smallClient

/-- A server and one client with one goroutine. -/
def smallExchange : System ℚ smallCodes smallPrimitives Unit Unit :=
  System.new exchangeServerEnv fun _ => exchangeClient

/-- The client sends a handshake. -/
def smallHandshake : List (SystemEvent ℚ Unit Unit) :=
  .client () (.start () (.handshake 0)) :: List.replicate 3 (.client () (.sched ()))

/-- A handshake of the client arrives at the server, which may need a key. -/
def smallFirstArrives (now : Time) (seq : UInt32) (key : PrivateKey) :
    SystemEvent ℚ Unit Unit :=
  .server (.datagram now (smallFresh key) smallAddr
    (smallDatagram smallBaseAEAD .clientToServer (smallFirst 5 seq (smallKey 7))))

/-- The acknowledgement of the first handshake arrives at the client. -/
def smallAckArrives : List (SystemEvent ℚ Unit Unit) :=
  .client () (.start () (.recv 0 0 .plain (smallDatagram smallBaseAEAD .serverToClient
    { flags := flagControl ||| flagKex, sessionID := 5, seq := 1
      payload := (smallKey 9).pub smallPrimitives ++ exchangeServerEnv.ann }))) ::
    List.replicate 8 (.client () (.sched ()))

/-- Two handshakes, the first of which is answered. -/
def smallAgreement : List (SystemEvent ℚ Unit Unit) :=
  smallHandshake ++ smallHandshake ++ smallFirstArrives 0 1 (smallKey 9) :: smallAckArrives

theorem made_exchange :
    newServerEnv smallPrimitives smallTextJson smallConfig = .ok exchangeServerEnv ∧
      newClientEnv smallPrimitives smallTextJson smallConfig (smallKey 7) = .ok exchangeClientEnv ∧
      newClient smallCodes exchangeClientEnv 5 = .ok exchangeClient :=
  ⟨Except.eq_ok_getD, Except.eq_ok_getD, Except.eq_ok_getD⟩

set_option maxRecDepth 2000

/-- The second handshake finds the session and revives nothing. -/
theorem System.keys_agree_small :
    let s := Run.exec (System.step exchangeServerEnv fun _ => exchangeClientEnv) smallExchange
      (smallAgreement ++ [smallFirstArrives second 2 (smallKey 10)])
    (s.client ()).state.sessAEAD = some smallAgreedAEAD ∧
      (s.server.mgr.get 5).map (·.aead) = some smallAgreedAEAD := by
  intro s
  obtain ⟨hserver, hclient, hnew⟩ := made_exchange
  have hpublished : (s.client ()).state.sessAEAD = some smallAgreedAEAD := by
    with_unfolding_all decide
  have hpresent : (s.server.mgr.get 5).isSome = true := by with_unfolding_all decide
  obtain ⟨sess, hsess⟩ := Option.isSome_iff_exists.mp hpresent
  refine ⟨hpublished, ?_⟩
  rw [hsess, Option.map_some]
  exact congrArg some (keys_agree lawful_smallPrimitives hserver hclient rfl (fun _ _ => rfl)
    (fun _ => hnew) (i := ()) (by with_unfolding_all decide) hpublished hsess)

/-- **The ends hold two keys.**  The network holds the second handshake back until the session has
expired; it then creates the session again, with another key, and the client ignores the
acknowledgement. -/
theorem System.keys_differ :
    newServerEnv smallPrimitives smallTextJson smallConfig = .ok exchangeServerEnv ∧
      newClientEnv smallPrimitives smallTextJson smallConfig (smallKey 7) = .ok exchangeClientEnv ∧
      newClient smallCodes exchangeClientEnv 5 = .ok exchangeClient ∧
      (let es := smallAgreement ++
        [.server (.expire (6 * minute)), smallFirstArrives (6 * minute) 2 (smallKey 10)]
      let s := Run.exec (System.step exchangeServerEnv fun _ => exchangeClientEnv) smallExchange es
      Run.Along (System.step exchangeServerEnv fun _ => exchangeClientEnv) System.Honest
          smallExchange es ∧
        (s.client ()).state.sessAEAD = some smallAgreedAEAD ∧
        (s.server.mgr.get 5).any (fun sess => sess.aead ≠ smallAgreedAEAD) = true) := by
  obtain ⟨hserver, hclient, hnew⟩ := made_exchange
  exact ⟨hserver, hclient, hnew, by with_unfolding_all decide⟩

end FlexBraid
