import FlexBraid.Tunnel.ServerSteps

/-!
# The bounds of a server

What a server stores is bounded, whatever arrives: the sessions, the handshake windows
and the paths of each session; and the paths, the scheduler and the return addresses of
a session agree.  The bounds are checked at different places: before a session is
created, by eviction, and when a path is registered.

## Main definitions

* `SessState.Tidy`, `SessView.Tidy` — the paths of a session, its scheduler and its
  return addresses agree.
* `Server.Bounded` — the bounds.

## Main results

* `Server.bounded_step`, `Server.bounded_exec` — **every run of a server keeps the bounds.**
-/

namespace FlexBraid

variable {F C : Type} {RS : ReedSolomon C} {P : Primitives}

/-- At most 16 paths, and the scheduler knows exactly these. -/
structure SessState.Tidy (st : SessState F) : Prop where
  size : st.paths.size ≤ maxPathsPerSession
  sched : ∀ key, key ∈ st.sched.ids ↔ key ∈ st.paths

/-- The return addresses of a session are among its paths. -/
structure SessView.Tidy (v : SessView F RS P) : Prop where
  state : ∀ st, v.st = some st → st.Tidy
  endpoints : ∀ key ua, v.sess.endpoints.lookup key = some ua →
    ua.toText = key ∧ ∃ st, v.st = some st ∧ key ∈ st.paths

section Paths

/-! ### The paths of a session -/

variable [Float64 F] {env : ServerEnv F P} {st : SessState F}

omit [Float64 F] in
theorem SessState.tidy_new : (env.newState : SessState F).Tidy where
  size := Nat.zero_le _
  sched key := by
    show key ∈ ([] : List String) ↔ key ∈ (∅ : GoMap String (PathState F))
    simp

omit [Float64 F] in
/-- A change to a path that is there. -/
theorem SessState.Tidy.set {s : SessState F} (h : s.Tidy) {key : String} (hkey : key ∈ s.paths)
    (ps : PathState F) {sched : Scheduler F} (hsched : ∀ k, k ∈ sched.ids ↔ k ∈ s.sched.ids) :
    SessState.Tidy { s with paths := s.paths.set key ps, sched := sched } where
  size := by
    rw [AList.size_set_of_mem hkey]
    exact h.size
  sched k := by
    rw [hsched, h.sched, AList.mem_set]
    exact ⟨.inr, fun hk => hk.elim (fun heq => heq ▸ hkey) fun hk => hk⟩

theorem SessState.Tidy.add {s : SessState F} (h : s.Tidy) {key : String} (hkey : key ∉ s.paths)
    (hroom : s.paths.size < maxPathsPerSession) (ps : PathState F) (capacity : F) :
    SessState.Tidy { s with
      paths := s.paths.set key ps, sched := s.sched.addPath key capacity } where
  size := by
    rw [AList.size_set_of_not_mem hkey]
    exact hroom
  sched k := by rw [Scheduler.mem_ids_addPath, h.sched, AList.mem_set]

namespace SessView

theorem tidy_declare (env : ServerEnv F P) (h : st.Tidy) {pathKey : String} (hkey : pathKey ∈ st.paths) (ps : PathState F)
    (payload : Bytes) : (declare env st pathKey ps payload).Tidy ∧
      ∀ key, key ∈ (declare env st pathKey ps payload).paths ↔ key ∈ st.paths := by
  rw [declare]
  split
  · refine ⟨h.set hkey _ fun k => ?_, fun k => ?_⟩
    · rw [Scheduler.mem_ids_addPath]
      exact ⟨fun hk => hk.elim (fun heq => heq ▸ (h.sched _).mpr hkey) fun hk => hk, .inr⟩
    · rw [AList.mem_set]
      exact ⟨fun hk => hk.elim (fun heq => heq ▸ hkey) fun hk => hk, .inr⟩
  · exact ⟨h, fun _ => Iff.rfl⟩

variable {v : SessView F RS P}

omit [Float64 F] in
theorem Tidy.stateFor (h : v.Tidy) (env : ServerEnv F P) : (v.stateFor env).Tidy := by
  rw [SessView.stateFor]
  cases hst : v.st with
  | none => exact SessState.tidy_new
  | some st => exact h.state st hst

omit [Float64 F] in
theorem Tidy.of_state (h : v.Tidy) (env : ServerEnv F P) {st : SessState F} (hst : st.Tidy)
    (hkeys : ∀ key, key ∈ (v.stateFor env).paths → key ∈ st.paths) :
    Tidy { v with st := some st } where
  state st' hst' := by
    cases hst'
    exact hst
  endpoints key ua hua := by
    obtain ⟨htext, st', hst', hkey⟩ := h.endpoints key ua hua
    refine ⟨htext, st, rfl, hkeys key ?_⟩
    rw [SessView.stateFor, hst']
    exact hkey

theorem tidy_finish (h : v.Tidy) {ua : UDPAddr} {ps : PathState F} {st : SessState F} (hst : st.Tidy)
    (hkey : ua.toText ∈ st.paths)
    (hkeys : ∀ key, key ∈ (v.stateFor env).paths → key ∈ st.paths) (payload : Bytes) :
    (registerPath.finish env v ua.toText ua ps st payload).Tidy := by
  obtain ⟨hdeclare, hsame⟩ := tidy_declare env hst hkey ps payload
  have hfinish : ∀ st' : SessState F, st'.Tidy → (∀ key, key ∈ st'.paths ↔ key ∈ st.paths) →
      Tidy { v with
        st := some st', sess := { v.sess with endpoints := v.sess.endpoints.set ua.toText ua } } := by
    intro st' hst' hkeys'
    refine ⟨fun st₁ hst₁ => by cases hst₁; exact hst', ?_⟩
    intro key ua' hua'
    rw [AList.lookup_set] at hua'
    split at hua'
    · next heq =>
      cases hua'
      exact ⟨heq.symm, st', rfl, (hkeys' key).mpr (heq ▸ hkey)⟩
    · obtain ⟨htext, st₀, hst₀, hkey₀⟩ := h.endpoints key ua' hua'
      refine ⟨htext, st', rfl, (hkeys' key).mpr (hkeys key ?_)⟩
      rw [SessView.stateFor, hst₀]
      exact hkey₀
  rw [registerPath.finish]
  split
  · exact hfinish _ hdeclare hsame
  · exact hfinish _ hst fun _ => Iff.rfl

theorem tidy_registerPath (h : v.Tidy) (now : Time) (ua : UDPAddr) (payload : Bytes) :
    (v.registerPath env now ua payload).Tidy := by
  have hstate := h.stateFor env
  rw [registerPath]
  dsimp only
  split
  · next hnone =>
    have hnew : ua.toText ∉ (v.stateFor env).paths := AList.lookup_eq_none.mp hnone
    split
    · exact h.of_state env ⟨hstate.size, hstate.sched⟩ fun _ hkey => hkey
    · next hroom =>
      refine tidy_finish h ?_ (AList.mem_set.mpr (.inl rfl)) (fun key hkey => ?_) payload
      · exact SessState.Tidy.add (s := { v.stateFor env with lastSeen := some ua })
          ⟨hstate.size, hstate.sched⟩ hnew (not_le.mp hroom) _ _
      · exact AList.mem_set.mpr (.inr hkey)
  · next ps hsome =>
    have hkey : ua.toText ∈ (v.stateFor env).paths := by
      rw [← AList.lookup_isSome, hsome]
      rfl
    refine tidy_finish h ?_ (AList.mem_set.mpr (.inl rfl)) (fun key hkey => ?_) payload
    · exact SessState.Tidy.set (s := { v.stateFor env with lastSeen := some ua })
        ⟨hstate.size, hstate.sched⟩ hkey _ fun _ => Iff.rfl
    · exact AList.mem_set.mpr (.inr hkey)

omit [Float64 F] in
theorem Tidy.set_path (h : v.Tidy) {key : String} {ps : PathState F}
    (hps : (v.stateFor env).paths.lookup key = some ps) (ps' : PathState F) : Tidy { v with
      st := some { v.stateFor env with paths := (v.stateFor env).paths.set key ps' } } := by
  have hkey : key ∈ (v.stateFor env).paths := by
    rw [← AList.lookup_isSome, hps]
    rfl
  refine h.of_state env ((h.stateFor env).set hkey ps' fun _ => Iff.rfl) fun k hk => ?_
  exact AList.mem_set.mpr (.inr hk)

omit [Float64 F] in
theorem Tidy.set_sched (h : v.Tidy) {sched : Scheduler F}
    (hids : sched.ids = (v.stateFor env).sched.ids) :
    Tidy { v with st := some { v.stateFor env with sched := sched } } := by
  have hstate := h.stateFor env
  refine h.of_state env ⟨hstate.size, fun key => ?_⟩ fun _ hk => hk
  rw [hids]
  exact hstate.sched key

theorem Tidy.still {v' : SessView F RS P} (h : v.Tidy) (hstill : v.Still env v') : v'.Tidy := by
  cases hstill with
  | refl => exact h
  | replay seq => exact ⟨h.state, h.endpoints⟩
  | touch now => exact ⟨h.state, h.endpoints⟩
  | register now ua payload => exact tidy_registerPath h now ua payload
  | observe now pathKey =>
    rw [observeKeepalive]
    dsimp only
    split
    · exact h.of_state env (h.stateFor env) fun _ hk => hk
    · next ps hps => exact h.set_path hps _
  | pick draw => exact h.set_sched (Scheduler.ids_pick _ _ _)
  | pickCross => exact h.set_sched (Scheduler.ids_pickWRR _)

/-- **Every action on a session keeps it tidy.** -/
theorem actions_tidy (env : ServerEnv F P) :
    SessActions env fun (v : SessView F RS P) _ v' => v.Tidy → v'.Tidy where
  composes := ⟨fun _ h => h, fun h h' hv => h' (h hv)⟩
  still hstill h := h.still hstill
  number _ h := ⟨h.state, h.endpoints⟩
  code _ _ h := ⟨h.state, h.endpoints⟩
  stamp v addr f h := by
    rw [stampPathSeq]
    dsimp only
    split
    · exact h.of_state env (h.stateFor env) fun _ hk => hk
    · next ps hps => exact h.set_path hps _
  send _ _ _ _ _ h := h

end SessView

end Paths

/-! ### The server -/

namespace Server

/-- **The bounds of a server**: at most 1024 sessions and 4096 handshake windows; the
paths of each session are at most 16, its scheduler knows exactly these, and its return
addresses are among them. -/
structure Bounded (s : Server F RS P) : Prop where
  sessions : s.mgr.count ≤ maxSessions
  firsts : s.mgr.firstWindows.size ≤ maxFirstWindows
  states : ∀ id st, s.states.lookup id = some st → st.Tidy
  live : ∀ id sess, s.mgr.get id = some sess → SessView.Tidy ⟨sess, s.states.lookup id⟩

variable [Float64 F] {env : ServerEnv F P} {s s' : Server F RS P}

omit [Float64 F] in
theorem lookup_states_onSession {α : Type} (s : Server F RS P) (sess : ServerSession F RS P)
    (p : SessProg RS F P α) (id : UInt64) :
    (s.onSession sess p).2.1.states.lookup id =
      if id = sess.id then ((p.run ⟨sess, s.states.lookup sess.id⟩).2.1.st).or (s.states.lookup id)
      else s.states.lookup id := by
  unfold onSession
  dsimp only
  cases (p.run ⟨sess, s.states.lookup sess.id⟩).2.1.st with
  | none => simp
  | some st => rw [AList.lookup_set]; rfl

/-- The part of the bounds that is about single sessions. -/
structure Tidy (s : Server F RS P) : Prop where
  states : ∀ id st, s.states.lookup id = some st → st.Tidy
  live : ∀ id sess, s.mgr.get id = some sess → SessView.Tidy ⟨sess, s.states.lookup id⟩

omit [Float64 F] in
theorem Tidy.of_same (h : s.Tidy) (hget : ∀ id sess, s'.mgr.get id = some sess → s.mgr.get id = some sess)
    (hstates : s'.states = s.states) : s'.Tidy where
  states id st hst := h.states id st (hstates ▸ hst)
  live id sess hsess := by
    rw [hstates]
    exact h.live id sess (hget id sess hsess)

theorem tidy_onSession (env : ServerEnv F P) {sess : ServerSession F RS P} {c : SessCall F} (hc : ∀ st, c ≠ .paths st)
    (hstates : ∀ id st, s.states.lookup id = some st → st.Tidy)
    (hlive : ∀ id sess', id ≠ sess.id → s.mgr.get id = some sess' →
      SessView.Tidy ⟨sess', s.states.lookup id⟩)
    (hsess : SessView.Tidy ⟨sess, s.states.lookup sess.id⟩) :
    Tidy (s.onSession sess (c.body env)).2.1 := by
  obtain ⟨-, hget, -⟩ := get_onSession env hc s sess
  have hv := (SessView.actions_tidy env).run_body c hc ⟨sess, s.states.lookup sess.id⟩ hsess
  generalize hrun : (Prog.run (c.body env) (⟨sess, s.states.lookup sess.id⟩ : SessView F RS P)).2.1 =
    v at hget hv
  have hlookup : ∀ id, (s.onSession sess (c.body env)).2.1.states.lookup id =
      if id = sess.id then v.st.or (s.states.lookup id) else s.states.lookup id := by
    intro id
    rw [lookup_states_onSession, hrun]
  have hor : ∀ id st, v.st.or (s.states.lookup id) = some st → st.Tidy := by
    intro id st hst
    rcases Option.or_eq_some_iff.mp hst with hst | ⟨-, hst⟩
    · exact hv.state st hst
    · exact hstates id st hst
  refine ⟨?_, ?_⟩
  · intro id st hst
    rw [hlookup] at hst
    split at hst
    · exact hor id st hst
    · exact hstates id st hst
  · intro id sess' hsess'
    rw [hget] at hsess'
    rw [hlookup]
    split at hsess'
    · next hid =>
      cases hsess'
      rw [if_pos hid]
      refine ⟨hor id, fun key ua hua => ?_⟩
      obtain ⟨htext, st, hst, hkey⟩ := hv.endpoints key ua hua
      exact ⟨htext, st, by rw [hst]; rfl, hkey⟩
    · next hid =>
      rw [if_neg hid]
      exact hlive id sess' hid hsess'

theorem tidy_healthTickPath (env : ServerEnv F P) (now : Time) (id : UInt64) {acc : SessState F × Decoder F C × F}
    (h : acc.1.Tidy) (pathKey : String) : (healthTickPath env now id acc pathKey).1.Tidy ∧
      ∀ key, key ∈ (healthTickPath env now id acc pathKey).1.paths ↔ key ∈ acc.1.paths := by
  rw [healthTickPath]
  split
  · exact ⟨h, fun _ => Iff.rfl⟩
  · next ps hps =>
    have hkey : pathKey ∈ acc.1.paths := by
      rw [← AList.lookup_isSome, hps]
      rfl
    refine ⟨h.set hkey _ fun k => ?_, fun k => ?_⟩
    · rw [Scheduler.ids_onState]
    · rw [AList.mem_set]
      exact ⟨fun hk => hk.elim (fun heq => heq ▸ hkey) fun hk => hk, .inr⟩

theorem tidy_healthTick_fold (env : ServerEnv F P) (now : Time) (id : UInt64) (keys : List String)
    (acc : SessState F × Decoder F C × F) (h : acc.1.Tidy) :
    (keys.foldl (healthTickPath env now id) acc).1.Tidy ∧
      ∀ key, key ∈ (keys.foldl (healthTickPath env now id) acc).1.paths ↔ key ∈ acc.1.paths := by
  induction keys generalizing acc with
  | nil => exact ⟨h, fun _ => Iff.rfl⟩
  | cons key keys ih =>
    obtain ⟨hstep, hkeys⟩ := tidy_healthTickPath env now id h key
    obtain ⟨hrest, hkeys'⟩ := ih _ hstep
    exact ⟨hrest, fun k => (hkeys' k).trans (hkeys k)⟩

theorem tidy_healthTick (h : s.Tidy) (now : Time) {id : UInt64} (σ : IterOrder String)
    {st : SessState F} {sess : ServerSession F RS P} {dec : Decoder F C}
    (hst : s.states.lookup id = some st) (hget : s.mgr.get id = some sess)
    (hdec : s.fecDec = some dec) : (s.healthTick env now id σ).Tidy := by
  obtain ⟨rate, hget'⟩ := get_healthTick env now σ hst hget hdec
  obtain ⟨htidy, hkeys⟩ := tidy_healthTick_fold env now id (σ.visit st.paths.keys)
    (st, dec, Float64.ofInt 0) (h.states id st hst)
  have hstates : (s.healthTick env now id σ).states = s.states.set id
      ((σ.visit st.paths.keys).foldl (healthTickPath env now id) (st, dec, Float64.ofInt 0)).1 := by
    rw [healthTick, hst, hget, hdec]
  refine ⟨?_, ?_⟩
  · intro id' st' hst'
    rw [hstates, AList.lookup_set] at hst'
    split at hst'
    · cases hst'
      exact htidy
    · exact h.states id' st' hst'
  · intro id' sess' hsess'
    rw [hget'] at hsess'
    rw [hstates, AList.lookup_set]
    split at hsess'
    · next hid =>
      cases hsess'
      rw [if_pos hid]
      refine ⟨fun st' hst' => by cases hst'; exact htidy, fun key ua hua => ?_⟩
      obtain ⟨htext, st₀, hst₀, hkey⟩ := (h.live id sess hget).endpoints key ua hua
      rw [hst] at hst₀
      cases hst₀
      exact ⟨htext, _, rfl, (hkeys key).mpr hkey⟩
    · next hid =>
      rw [if_neg hid]
      exact h.live id' sess' hsess'

theorem tidy_of_turn {e : Event F} {out : List (ServerOut P)} (hturn : Turn env s e s' out)
    (h : s.Tidy) : s'.Tidy := by
  cases hturn with
  | idle hsessions hstates hout =>
    refine h.of_same (fun id sess hsess => ?_) hstates
    rwa [Manager.get, hsessions] at hsess
  | @call _ sess c dec inner hc hget hinner =>
    obtain ⟨hstates, hlive⟩ := tidy_onSession env hc h.states
      (fun id sess' _ => h.live id sess') (h.live _ sess hget)
    exact ⟨hstates, hlive⟩
  | @create now fresh addr d ua hdr f sess hnew =>
    obtain ⟨sPriv, shared, aead, enc, -, -, -, -, hsess⟩ := hnew.keys
    refine tidy_onSession env (c := .first now hdr.seq ua f.payload) (by simp) h.states ?_ ?_
    · intro id sess' hid hsess'
      rw [Manager.get_put, if_neg hid] at hsess'
      exact h.live id sess' hsess'
    · refine ⟨h.states _, fun key ua' hua' => ?_⟩
      rw [hsess] at hua'
      cases hua'
  | monitor hst hget hdec => exact tidy_healthTick h _ _ hst hget hdec
  | expire now =>
    refine h.of_same (fun id sess hsess => ?_) rfl
    rw [Manager.get_expire, Option.filter_eq_some_iff] at hsess
    exact hsess.1
  | drop =>
    have hlookup : ∀ id, s.dropStates.states.lookup id =
        (s.states.lookup id).filter fun _ => (s.mgr.get id).isSome := fun id => AList.lookup_keep _ _ _
    refine ⟨fun id st hst => ?_, fun id sess hsess => ?_⟩
    · rw [hlookup, Option.filter_eq_some_iff] at hst
      exact h.states id st hst.1
    · have hkept : s.dropStates.states.lookup id = s.states.lookup id := by
        rw [hlookup, show s.mgr.get id = some sess from hsess]
        cases s.states.lookup id <;> rfl
      rw [hkept]
      exact h.live id sess hsess

theorem count_of_turn {e : Event F} {out : List (ServerOut P)} (hturn : Turn env s e s' out)
    (h : s.mgr.count ≤ maxSessions) : s'.mgr.count ≤ maxSessions := by
  cases hturn with
  | idle hsessions hstates hout =>
    rw [Manager.count, hsessions]
    exact h
  | @call _ sess c dec inner hc hget hinner =>
    obtain ⟨hgrow, -, -⟩ := get_onSession env hc s sess
    refine le_of_eq_of_le (Manager.count_put_of_get (m := s.mgr) (t := sess) ?_) h
    rw [hgrow.id]
    exact hget
  | @create now fresh addr d ua hdr f sess hnew =>
    obtain ⟨hgrow, -, -⟩ := get_onSession env (c := .first now hdr.seq ua f.payload) (by simp)
      { s.checked now fresh hdr with mgr := (s.checked now fresh hdr).mgr.put sess } sess
    have habsent : (s.checked now fresh hdr).mgr.get sess.id = none := by
      rw [hnew.id]
      exact hnew.absent
    have hput : (((s.checked now fresh hdr).mgr.put sess).put _).count =
        ((s.checked now fresh hdr).mgr.put sess).count :=
      Manager.count_put_of_get (t := sess) (by rw [hgrow.id, Manager.get_put, if_pos rfl])
    refine le_of_eq_of_le hput ?_
    rw [Manager.count_put_of_none habsent]
    exact hnew.room
  | @monitor id now σ st sess dec hst hget hdec =>
    rw [healthTick, hst, hget, hdec]
    exact le_of_eq_of_le (Manager.count_put_of_get (m := s.mgr) (t := sess) (Manager.get_self hget)) h
  | expire now => exact (AList.size_keep_le _ _).trans h
  | drop => exact h

theorem firsts_step (s : Server F RS P) (e : Event F)
    (h : s.mgr.firstWindows.size ≤ maxFirstWindows) :
    (s.step env e).1.mgr.firstWindows.size ≤ maxFirstWindows := by
  have hwindows := windows_step env s e
  generalize (s.step env e).1.mgr.firstWindows = windows at hwindows
  cases hwindows with
  | same => exact h
  | check hhdr => exact Manager.size_checkFirstReplay h _ _ _ _
  | drop now => exact (AList.size_keep_le _ _).trans h

theorem bounded_step (h : s.Bounded) (e : Event F) : (s.step env e).1.Bounded := by
  obtain ⟨hstates, hlive⟩ := tidy_of_turn (turn_step env s e) ⟨h.states, h.live⟩
  exact ⟨count_of_turn (turn_step env s e) h.sessions, firsts_step s e h.firsts, hstates, hlive⟩

/-- **Every run of a server keeps the bounds**, whatever datagrams come in and from
wherever, and however the sweeps and the other loops take their turns. -/
theorem bounded_exec (env : ServerEnv F P) (es : List (Event F)) :
    (Run.exec (step env) (newServer RS env) es).Bounded := by
  have hstep : ∀ (s : Server F RS P) e, s.Bounded → (s.step env e).1.Bounded :=
    fun _ e h => bounded_step h e
  refine Run.exec_induct' hstep es ⟨Nat.zero_le _, Nat.zero_le _, ?_, ?_⟩ <;> intro _ _ h <;> cases h

end Server

end FlexBraid
