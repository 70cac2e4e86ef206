import FlexBraid.Tunnel.Turns

/-!
# The fate of a session

Every invariant of a server is about a session, its replay window or the handshake
windows.  This module says once what one event can do to them.

## Main definitions

* `ServerSession.Grows` — what never changes in a session and what only grows.
* `Server.Creates` — a handshake creates a session.
* `Server.Fate` — what an event does to the session with a given name.

## Main results

* `Server.fate_step` — **the fate of a session**: absent, created, grown or expired.
-/

namespace FlexBraid

variable {F C : Type} {RS : ReedSolomon C} {P : Primitives}

/-! ### What programs keep -/

/-- A session later on: its name and keys are the same, its counter and its replay
window have only grown. -/
structure ServerSession.Grows (s s' : ServerSession F RS P) : Prop where
  id : s'.id = s.id
  aead : s'.aead = s.aead
  serverPub : s'.serverPub = s.serverPub
  seq : s.seq ≤ s'.seq
  seen : ∀ q, s.replay.seen q = true → s'.replay.seen q = true

theorem ServerSession.Grows.refl (s : ServerSession F RS P) : s.Grows s :=
  ⟨rfl, rfl, rfl, le_refl _, fun _ h => h⟩

theorem ServerSession.Grows.trans {s₁ s₂ s₃ : ServerSession F RS P} (h : s₁.Grows s₂)
    (h' : s₂.Grows s₃) : s₁.Grows s₃ :=
  ⟨h'.id.trans h.id, h'.aead.trans h.aead, h'.serverPub.trans h.serverPub, h.seq.trans h'.seq,
    fun q hq => h'.seen q (h.seen q hq)⟩

/-- What a program on a session emits: the frames it seals for the session, and
datagrams. -/
def ServerOut.OfSession (id : UInt64) : ServerOut P → Prop
  | .sealed id' _ _ => id' = id
  | .send _ _ => True
  | _ => False

/-- What a program does to its session: it grows, and only its frames are sent. -/
structure SessView.Grows (v : SessView F RS P) (out : List (ServerOut P)) (v' : SessView F RS P) :
    Prop where
  sess : v.sess.Grows v'.sess
  out : ∀ o ∈ out, o.OfSession v.sess.id

theorem SessView.composes_grows :
    Prog.Composes (SessView.Grows : SessView F RS P → List (ServerOut P) → SessView F RS P → Prop) where
  nil v := ⟨.refl v.sess, fun _ h => by cases h⟩
  append := by
    intro v out v' out' v'' h h'
    refine ⟨h.sess.trans h'.sess, ?_⟩
    intro o ho
    rcases List.mem_append.mp ho with ho | ho
    · exact h.out o ho
    · rw [← h.sess.id]
      exact h'.out o ho

variable {v v' : SessView F RS P}

theorem SessView.Grows.silent (h : v.sess.Grows v'.sess) :
    v.Grows [] v' := ⟨h, fun _ ho => by cases ho⟩

theorem SessView.sess_stampPathSeq (env : ServerEnv F P) (v : SessView F RS P) (addr : UDPAddr)
    (f : Frame) : (v.stampPathSeq env addr f).2.sess = v.sess := by
  rw [stampPathSeq]
  dsimp only
  split <;> rfl

variable [Float64 F]

theorem SessView.sess_registerPath (env : ServerEnv F P) (v : SessView F RS P) (now : Time)
    (ua : UDPAddr) (payload : Bytes) : ∃ endpoints, (v.registerPath env now ua payload).sess =
      { v.sess with endpoints := endpoints } := by
  rw [registerPath]
  dsimp only
  split
  · split
    · exact ⟨v.sess.endpoints, rfl⟩
    · exact ⟨_, rfl⟩
  · exact ⟨_, rfl⟩

theorem SessView.sess_observeKeepalive (env : ServerEnv F P) (v : SessView F RS P) (now : Time)
    (pathKey : String) : (v.observeKeepalive env now pathKey).sess = v.sess := by
  rw [observeKeepalive]
  dsimp only
  split <;> rfl

/-- What a still action leaves of a session. -/
theorem SessView.Still.sess {env : ServerEnv F P} (h : v.Still env v') :
    ∃ replay endpoints lastSeen, (replay = v.sess.replay ∨
        ∃ seq, replay = (v.sess.replay.checkAndMark seq).1) ∧
      v'.sess = { v.sess with replay := replay, endpoints := endpoints, lastSeen := lastSeen } := by
  cases h with
  | refl => exact ⟨_, _, _, .inl rfl, rfl⟩
  | replay seq => exact ⟨_, _, _, .inr ⟨seq, rfl⟩, rfl⟩
  | touch now => exact ⟨_, _, _, .inl rfl, rfl⟩
  | register now ua payload =>
    obtain ⟨endpoints, hsess⟩ := v.sess_registerPath env now ua payload
    exact ⟨_, endpoints, _, .inl rfl, hsess⟩
  | observe now pathKey => exact ⟨_, _, _, .inl rfl, v.sess_observeKeepalive env now pathKey⟩
  | pick draw => exact ⟨_, _, _, .inl rfl, rfl⟩
  | pickCross => exact ⟨_, _, _, .inl rfl, rfl⟩

theorem SessView.Still.grows {env : ServerEnv F P} (h : v.Still env v') : v.Grows [] v' := by
  obtain ⟨replay, endpoints, lastSeen, hreplay, hsess⟩ := h.sess
  refine .silent ?_
  rw [hsess]
  refine ⟨rfl, rfl, rfl, le_refl _, ?_⟩
  intro q hq
  rcases hreplay with rfl | ⟨seq, rfl⟩
  · exact hq
  · exact ReplayWindow.seen_checkAndMark hq seq

namespace Server

open Prog SessView

theorem actions_grows (env : ServerEnv F P) :
    SessActions env (SessView.Grows : SessView F RS P → List (ServerOut P) → SessView F RS P → Prop) where
  composes := composes_grows
  still hstill := hstill.grows
  number _ := .silent ⟨rfl, rfl, rfl, Nat.le_succ _, fun _ h => h⟩
  code _ _ := .silent ⟨rfl, rfl, rfl, le_refl _, fun _ h => h⟩
  stamp v addr f := .silent (by rw [v.sess_stampPathSeq]; exact .refl _)
  send v aead plain addr datagram := by
    refine ⟨.refl _, ?_⟩
    intro o ho
    simp only [List.mem_cons, List.not_mem_nil, or_false] at ho
    rcases ho with rfl | rfl
    · exact rfl
    · trivial

theorem get_onSession (env : ServerEnv F P) {c : SessCall F} (hc : ∀ st, c ≠ .paths st)
    (s : Server F RS P) (sess : ServerSession F RS P) :
    let v := (Prog.run (c.body env) ⟨sess, s.states.lookup sess.id⟩).2.1
    sess.Grows v.sess ∧ (∀ id, (s.onSession sess (c.body env)).2.1.mgr.get id =
        if id = sess.id then some v.sess else s.mgr.get id) ∧
      ∀ o ∈ (s.onSession sess (c.body env)).2.2, o.OfSession sess.id := by
  obtain ⟨hgrow, hout⟩ := (actions_grows env).run_body c hc ⟨sess, s.states.lookup sess.id⟩
  refine ⟨hgrow, ?_, hout⟩
  intro id
  exact (Manager.get_put _ _ id).trans (by rw [hgrow.id])

/-! ### The fate of a session -/

variable (env : ServerEnv F P)

/-- A handshake creates a session: it is authentic, its number is new, and the session
key comes from the key exchange. -/
def Creates (m : Manager F RS P) (now : Time) (fresh : Fresh) (d : Bytes) (id : UInt64)
    (sess : ServerSession F RS P) : Prop :=
  ∃ hdr plain f sPriv shared,
    (Frame.decodeHeader d = .ok hdr ∧ hdr.hasFlag flagFirst = true ∧ hdr.sessionID = id ∧
      env.baseAEAD.openFrame .clientToServer d = .ok plain ∧ Frame.decode plain = .ok f) ∧
    m.get id = none ∧ (m.checkFirstReplay fresh.order now id hdr.seq).2 = true ∧
    fresh.key = some sPriv ∧
    ecdhShared P sPriv.bytes ((f.payload.drop 4).take publicKeySize) = .ok shared ∧
    newAEAD P (derivePFSKey P env.psk shared id) env.cfg.crypto.cipher = .ok sess.aead ∧
    sess.serverPub = sPriv.pub P

/-- What an event does to the session with a given name. -/
inductive Fate (m : Manager F RS P) (e : Event F) (id : UInt64) (m' : Manager F RS P)
    (out : List (ServerOut P)) : Prop
  | absent (h : m.get id = none) (h' : m'.get id = none) (hput : .putSession id ∉ out)
  | kept {sess sess' : ServerSession F RS P} (h : m.get id = some sess)
      (h' : m'.get id = some sess') (hgrow : sess.Grows sess') (hput : .putSession id ∉ out)
  | expired {now : Time} {sess : ServerSession F RS P} (he : e = .expire now)
      (h : m.get id = some sess) (hidle : Manager.idle now sessionTTL sess = true)
      (h' : m'.get id = none) (hput : .putSession id ∉ out)
  | created {now : Time} {fresh : Fresh} {addr : Addr} {d : Bytes} {sess : ServerSession F RS P}
      (he : e = .datagram now fresh addr d) (h : m.get id = none) (h' : m'.get id = some sess)
      (hcreates : Creates env m now fresh d id sess)
      (hseen : ∀ hdr, Frame.decodeHeader d = .ok hdr → m'.FirstSeen id hdr.seq)
      (hput : out.count (.putSession id) = 1)

variable {env} {m m' : Manager F RS P} {e : Event F} {id : UInt64} {out : List (ServerOut P)}

omit [Float64 F] in
theorem fate_same (h : m'.get id = m.get id) (hput : .putSession id ∉ out) :
    Fate env m e id m' out := by
  cases hget : m.get id with
  | none => exact .absent hget (h.trans hget) hput
  | some sess => exact .kept hget (h.trans hget) (.refl sess) hput

omit [Float64 F] in
theorem Fate.append {out' : List (ServerOut P)} (h : Fate env m e id m' out)
    (hput : .putSession id ∉ out') : Fate env m e id m' (out ++ out') := by
  have hnot : .putSession id ∉ out → .putSession id ∉ out ++ out' :=
    fun h ho => (List.mem_append.mp ho).elim h hput
  cases h with
  | absent h h' ho => exact .absent h h' (hnot ho)
  | kept h h' hgrow ho => exact .kept h h' hgrow (hnot ho)
  | expired he h hidle h' ho => exact .expired he h hidle h' (hnot ho)
  | created he h h' hcreates hseen ho =>
    refine .created he h h' hcreates hseen ?_
    rw [List.count_append, ho, List.count_eq_zero_of_not_mem hput]

variable {id' : UInt64} {s : Server F RS P} {sess : ServerSession F RS P}

omit [Float64 F] in
theorem putSession_not_mem (h : ∀ o ∈ out, o.OfSession id') (id : UInt64) :
    .putSession id ∉ out := fun ho => h _ ho

variable (env) in
theorem get_openSession (s : Server F RS P) (now : Time) (seq : UInt32) (ua : UDPAddr) (payload : Bytes)
    (sess : ServerSession F RS P) :
    ∃ sess', sess.Grows sess' ∧ (∀ id, (s.openSession env now seq ua payload sess).1.mgr.get id =
        if id = sess.id then some sess' else s.mgr.get id) ∧
      ∃ out', (s.openSession env now seq ua payload sess).2 = .putSession sess.id :: out' ∧
        ∀ o ∈ out', o.OfSession sess.id := by
  obtain ⟨hgrow, hget, hout⟩ := get_onSession env (c := .first now seq ua payload) (by simp)
    { s with mgr := s.mgr.put sess } sess
  refine ⟨_, hgrow, ?_, _, rfl, hout⟩
  intro id
  refine (hget id).trans ?_
  split
  · rfl
  · next hid => rw [Manager.get_put, if_neg hid]

theorem fate_create {now : Time} {fresh : Fresh} {addr : Addr} {d : Bytes} {ua : UDPAddr}
    {hdr f : Frame} (hnew : Creation env s now fresh d hdr f sess) :
    Fate env s.mgr (.datagram now fresh addr d) id
      (openSession env (s.checked now fresh hdr) now hdr.seq ua f.payload sess).1.mgr
      (.dialEgress sess.id ::
        (openSession env (s.checked now fresh hdr) now hdr.seq ua f.payload sess).2) := by
  obtain ⟨sess', hgrow, hget, out', hout, hof⟩ := get_openSession env (s.checked now fresh hdr) now
    hdr.seq ua f.payload sess
  have hname := hnew.id
  have hput := putSession_not_mem hof id
  rw [hout]
  by_cases hid : id = sess.id
  · subst hid
    obtain ⟨plain, hopen, hdecode⟩ := hnew.authentic
    obtain ⟨sPriv, shared, aead, enc, hkey, hshared, haead, -, hsess⟩ := hnew.keys
    refine .created rfl (hname ▸ hnew.absent) ((hget _).trans (if_pos rfl)) ?_ ?_ ?_
    · refine ⟨hdr, plain, f, sPriv, shared, ⟨hnew.header, hnew.first, hname.symm, hopen, hdecode⟩,
        hname ▸ hnew.absent, hname ▸ hnew.check, hkey, hshared, ?_, ?_⟩
      · rw [hgrow.aead, hname, haead, hsess]
        rfl
      · rw [hgrow.serverPub, hsess]
        rfl
    · intro hdr' hhdr'
      rw [hnew.header] at hhdr'
      cases hhdr'
      rw [hname]
      exact Manager.firstSeen_checkFirstReplay s.mgr fresh.order now _ _
    · rw [List.count_cons_of_ne (by simp), List.count_cons_self,
        List.count_eq_zero_of_not_mem hput]
  · have hother : (s.checked now fresh hdr).mgr.get id = s.mgr.get id := rfl
    refine fate_same ((hget id).trans ((if_neg hid).trans hother)) ?_
    simp [hput, hid]

theorem fate_call {c : SessCall F} (hc : ∀ st, c ≠ .paths st)
    (hget : s.mgr.get sess.id = some sess) :
    Fate env s.mgr e id (s.onSession sess (c.body env)).2.1.mgr
      (s.onSession sess (c.body env)).2.2 := by
  obtain ⟨hgrow, hget', hout⟩ := get_onSession env hc s sess
  have hput := putSession_not_mem hout id
  by_cases hid : id = sess.id
  · subst hid
    exact .kept hget ((hget' _).trans (if_pos rfl)) hgrow hput
  · exact fate_same ((hget' _).trans (if_neg hid)) hput

theorem get_healthTick (env : ServerEnv F P) (now : Time) (σ : IterOrder String) {st : SessState F}
    {dec : Decoder F C} (hst : s.states.lookup id' = some st) (hget : s.mgr.get id' = some sess)
    (hdec : s.fecDec = some dec) :
    ∃ rate, ∀ id, (s.healthTick env now id' σ).mgr.get id =
      if id = id' then some { sess with enc := sess.enc.setLossRate now rate } else s.mgr.get id := by
  rw [healthTick, hst, hget, hdec]
  have hput : ∀ rate id, (s.mgr.put { sess with enc := sess.enc.setLossRate now rate }).get id =
      if id = id' then some { sess with enc := sess.enc.setLossRate now rate }
      else s.mgr.get id := by
    intro rate id
    rw [Manager.get_put, ← s.mgr.named _ _ hget]
  exact ⟨_, hput _⟩

theorem fate_healthTick {now : Time} {σ : IterOrder String} {st : SessState F} {dec : Decoder F C}
    (hst : s.states.lookup id' = some st) (hget : s.mgr.get id' = some sess)
    (hdec : s.fecDec = some dec) : Fate env s.mgr e id (s.healthTick env now id' σ).mgr [] := by
  obtain ⟨rate, hget'⟩ := get_healthTick env now σ hst hget hdec
  by_cases hid : id = id'
  · subst hid
    refine .kept hget ((hget' id).trans (if_pos rfl)) ?_ List.not_mem_nil
    exact ⟨rfl, rfl, rfl, le_refl _, fun _ h => h⟩
  · exact fate_same ((hget' id).trans (if_neg hid)) List.not_mem_nil

omit [Float64 F] in
theorem fate_expire (m : Manager F RS P) (now : Time) :
    Fate env m (.expire now) id (m.expire now sessionTTL).1
      ((m.expire now sessionTTL).2.map .closeEgress) := by
  have hget := m.get_expire now sessionTTL id
  have hput : .putSession id ∉ (m.expire now sessionTTL).2.map
      (ServerOut.closeEgress : UInt64 → ServerOut P) := by simp
  cases hsome : m.get id with
  | none =>
    rw [hsome, Option.filter_none] at hget
    exact .absent hsome hget hput
  | some sess =>
    rw [hsome] at hget
    by_cases hidle : Manager.idle now sessionTTL sess = true
    · refine .expired rfl hsome hidle (hget.trans ?_) hput
      simp [Option.filter, hidle]
    · refine .kept hsome (hget.trans ?_) (.refl sess) hput
      simp [Option.filter, hidle]

theorem fate_of_turn {s' : Server F RS P} (h : Turn env s e s' out) (id : UInt64) :
    Fate env s.mgr e id s'.mgr out := by
  have hinner : ∀ out : List (ServerOut P), (∀ o ∈ out, o.Inner) → .putSession id ∉ out :=
    fun out h ho => h _ ho
  cases h with
  | idle hsessions hstates hout =>
    refine fate_same ?_ (hinner _ hout)
    rw [Manager.get, Manager.get, hsessions]
  | call c hc hget hout => exact (fate_call hc hget).append (hinner _ hout)
  | create hnew => exact fate_create hnew
  | monitor hst hget hdec => exact fate_healthTick hst hget hdec
  | expire now => exact fate_expire s.mgr now
  | drop => exact fate_same rfl List.not_mem_nil

variable (env) in
/-- **The fate of a session** in one event: it stays absent, is created by a handshake,
grows, or is dropped after it was idle for too long. -/
theorem fate_step (s : Server F RS P) (e : Event F) (id : UInt64) :
    Fate env s.mgr e id (s.step env e).1.mgr (s.step env e).2 :=
  fate_of_turn (turn_step env s e) id

/-! ### The handshake windows -/

theorem firstWindows_firstOfNew (s : Server F RS P) (now : Time) (fresh : Fresh) (seq : UInt32)
    (ua : UDPAddr) (payload : Bytes) :
    (s.firstOfNew env now fresh id seq ua payload).1.mgr.firstWindows = s.mgr.firstWindows ∨
      (s.firstOfNew env now fresh id seq ua payload).1.mgr.firstWindows =
        (s.mgr.checkFirstReplay fresh.order now id seq).1.firstWindows := by
  rw [firstOfNew]
  split
  · exact .inl rfl
  · dsimp only
    split
    · exact .inr rfl
    · split <;> exact .inr rfl

theorem firstWindows_handleClientFrame (s : Server F RS P) (now : Time) (fresh : Fresh)
    (addr : Addr) (d : Bytes) :
    (s.handleClientFrame env now fresh addr d).1.mgr.firstWindows = s.mgr.firstWindows ∨
      ∃ hdr, Frame.decodeHeader d = .ok hdr ∧
        (s.handleClientFrame env now fresh addr d).1.mgr.firstWindows =
          (s.mgr.checkFirstReplay fresh.order now hdr.sessionID hdr.seq).1.firstWindows := by
  rw [handleClientFrame]
  split
  · exact .inl rfl
  · next hdr hhdr =>
    split
    · unfold handleFirst
      split
      · exact .inl rfl
      · split
        · exact .inl rfl
        · split
          · exact .inl rfl
          · split
            · exact (firstWindows_firstOfNew s now fresh hdr.seq _ _).imp_right fun h => ⟨hdr, hhdr, h⟩
            · exact .inl rfl
    · refine .inl ?_
      rw [handleData]
      split
      · rfl
      · split
        · rfl
        · split
          · next hrun => exact congrArg (fun r => r.2.1.mgr.firstWindows) hrun.symm
          · next hrun => exact congrArg (fun r => r.2.1.mgr.firstWindows) hrun.symm

/-- What an event does to the handshake windows: nothing, or a handshake checks its
number, or old ones are dropped. -/
inductive Windows (m : Manager F RS P) : Event F → GoMap UInt64 FirstWindow → Prop
  | same {e : Event F} : Windows m e m.firstWindows
  | check {now : Time} {fresh : Fresh} {addr : Addr} {d : Bytes} {hdr : Frame}
      (hhdr : Frame.decodeHeader d = .ok hdr) : Windows m (.datagram now fresh addr d)
        (m.checkFirstReplay fresh.order now hdr.sessionID hdr.seq).1.firstWindows
  | drop (now : Time) : Windows m (.expireFirsts now) (m.expireFirsts now sessionTTL).firstWindows

variable (env) in
theorem windows_step (s : Server F RS P) (e : Event F) :
    Windows s.mgr e (s.step env e).1.mgr.firstWindows := by
  have hsame : ∀ {windows}, windows = s.mgr.firstWindows → Windows s.mgr e windows := by
    rintro _ rfl
    exact .same
  rw [step]
  split
  · exact .same
  · cases e with
    | datagram now fresh addr d =>
      show Windows s.mgr _ (s.handleClientFrame env now fresh addr d).1.mgr.firstWindows
      rcases firstWindows_handleClientFrame s now fresh addr d with h | ⟨hdr, hhdr, h⟩
      · exact hsame h
      · rw [h]
        exact .check hhdr
    | egress id' now start draw payload =>
      refine hsame ?_
      show (s.onSessionOf id' _).1.mgr.firstWindows = _
      rw [onSessionOf]
      split <;> rfl
    | encTick id' now draw =>
      refine hsame ?_
      show (s.onSessionOf id' _).1.mgr.firstWindows = _
      rw [onSessionOf]
      split <;> rfl
    | decTick now σ => exact .same
    | healthTick id' now σ =>
      refine hsame ?_
      show (s.healthTick env now id' σ).mgr.firstWindows = _
      rw [healthTick]
      split <;> rfl
    | expire now => exact .same
    | expireFirsts now => exact .drop now
    | dropStates => exact .same

/-- An event that neither drops nor evicts the handshake window of a session. -/
def KeepsWindow (id : UInt64) (s : Server F RS P) : Event F → Prop
  | .expireFirsts now =>
    ∀ fw, s.mgr.firstWindows.lookup id = some fw → now - sessionTTL ≤ fw.created
  | .datagram _ fresh _ d =>
    ∀ hdr, Frame.decodeHeader d = .ok hdr →
      (s.mgr.firstWindows.lookup hdr.sessionID).isSome ∨
        s.mgr.firstWindows.size < maxFirstWindows ∨ id ≠ s.mgr.oldestFirst fresh.order
  | _ => True

theorem firstSeen_step {e : Event F} {seq : UInt32} (hseen : s.mgr.FirstSeen id seq)
    (hkeep : KeepsWindow id s e) : (s.step env e).1.mgr.FirstSeen id seq := by
  have hwindows := windows_step env s e
  rw [Manager.FirstSeen]
  generalize (s.step env e).1.mgr.firstWindows = windows at hwindows
  cases hwindows with
  | same => exact hseen
  | @check now fresh addr d hdr hhdr =>
    exact hseen.checkFirstReplay fresh.order now hdr.sessionID hdr.seq (hkeep hdr hhdr)
  | drop now =>
    obtain ⟨fw, hl, hseq⟩ := hseen
    refine ⟨fw, ?_, hseq⟩
    rw [s.mgr.lookup_expireFirsts now sessionTTL id, hl]
    simp [Option.filter, hkeep fw hl]

end Server

end FlexBraid
