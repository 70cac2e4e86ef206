import FlexBraid.Tunnel.FrozenCodecs
import FlexBraid.Tunnel.Inert
import FlexBraid.Tunnel.InnerNumbers

/-!
# Every inner datagram at most once

The way of a client's datagram through the server: it is opened, its number is checked, its
frame goes to the decoder, and what the decoder returns is written to the socket of its
session.  The replay window keeps a datagram from going that way twice; but the decoder also
returns datagrams that never came, and it keeps the blocks of every source address apart.  So a
block whose frames come from two addresses may be completed under one of them and flushed under
the other, and a datagram of it is written twice.

## Main definitions

* `Server.accepted`, `Server.decoderCalls` — what an event makes of the decoder.
* `Server.forwarded`, `Server.forwardStep` — the frames an event writes to the sockets.
* `Server.Authentic`, `Server.FromHome` — what opens was sealed by the client, and the frames
  that speak of a number come from one address.

## Main results

* `Server.writes_once` — **every inner datagram is written at most once** if the coded frames
  that speak of it come from one address.
* `Server.writes_twice` — it is written twice if they do not.
-/

namespace FlexBraid

section
variable {F C : Type} {RS : ReedSolomon C} {P : Primitives}

/-! ### What the decoder is given -/

/-- What an output writes to the socket of a session. -/
def ServerOut.written : ServerOut P → Option (UInt64 × Bytes)
  | .egress id payload => some (id, payload)
  | _ => none

/-- The frame that an output reports as sealed. -/
def ClientOut.plain : ClientOut P → Option Bytes
  | .sealed _ plain => some plain
  | _ => none

namespace Server

/-- The calls with which the monitors read the counters of paths. -/
def readOuts (id : UInt64) (paths : List String) : List Decoder.Call :=
  paths.flatMap fun path => [.takeStreamStats id path, .takePathStats id path]

theorem outputs_panicked (calls : List Decoder.Call) :
    (Run.outputs (Decoder.step RS) (none : Option (Decoder F C)) calls).flatten = [] := by
  induction calls with
  | nil => rfl
  | cons call calls ih => exact ih

theorem exec_readOuts_cons (dec : Decoder F C) (id : UInt64) (path : String) (paths : List String) :
    Run.exec (Decoder.step RS) (some dec) (readOuts id (path :: paths)) =
      Run.exec (Decoder.step RS) (some ((dec.takeStreamStats id path).1.takePathStats id path).1)
        (readOuts id paths) := rfl

theorem outputs_readOuts (dec : Option (Decoder F C)) (id : UInt64) (paths : List String) :
    (Run.outputs (Decoder.step RS) dec (readOuts id paths)).flatten = [] := by
  induction paths generalizing dec with
  | nil => rfl
  | cons path paths ih =>
    cases dec with
    | none => exact outputs_panicked _
    | some dec => exact ih (some ((dec.takeStreamStats id path).1.takePathStats id path).1)

theorem written_nothing {out : List (ServerOut P)} (h : ∀ o ∈ out, o.written = none) :
    out.filterMap ServerOut.written = [] := List.filterMap_eq_nil_iff.mpr h

theorem written_forwardDecoded (s : Server F RS P) (frames : List Frame) :
    (s.forwardDecoded frames).filterMap ServerOut.written =
      (frames.filter fun f => (s.mgr.get f.sessionID).isSome).map
        fun f => (f.sessionID, f.payload) := by
  induction frames with
  | nil => rfl
  | cons f frames ih =>
    rw [forwardDecoded] at ih
    rw [forwardDecoded, List.filterMap_cons, List.filter_cons]
    cases hget : s.mgr.get f.sessionID with
    | none => simpa using ih
    | some sess => simpa [ServerOut.written] using ih

variable [Float64 F] (env : ServerEnv F P)

/-- The frame of a datagram that its session accepts for the decoder. -/
def accepted (s : Server F RS P) (now : Time) (addr : Addr) (d : Bytes) : Option Frame :=
  if s.fecDec.isNone then none
  else
    match Frame.decodeHeader d with
    | .error _ => none
    | .ok hdr =>
      if hdr.hasFlag flagFirst then none
      else
        match s.mgr.get hdr.sessionID with
        | none => none
        | some sess =>
          match sess.aead.openFrame .clientToServer d with
          | .error _ => none
          | .ok plain => (s.onSession sess (acceptData env now hdr.seq addr plain)).1

/-- The calls of the decoder that an event makes. -/
def decoderCalls (s : Server F RS P) : Event F → List Decoder.Call
  | .datagram now _ addr d =>
    ((s.accepted env now addr d).map fun f => .push now (pathKey addr) f).toList
  | .decTick now σ => [.tick σ now]
  | .healthTick id _ σ =>
    match s.states.lookup id, s.mgr.get id with
    | some st, some _ => readOuts id (σ.visit st.paths.keys)
    | _, _ => []
  | _ => []

/-- The frames that an event writes to sockets: what the decoder returns for the sessions that
exist. -/
def forwarded (s : Server F RS P) (e : Event F) : List Frame :=
  (Run.outputs (Decoder.step RS) s.fecDec (s.decoderCalls env e)).flatten.filter fun f =>
    (s.mgr.get f.sessionID).isSome

/-- A server that reports the calls of its decoder. -/
def callStep (s : Server F RS P) (e : Event F) : Server F RS P × List Decoder.Call :=
  ((s.step env e).1, s.decoderCalls env e)

/-- A server that reports the frames it writes to sockets. -/
def forwardStep (s : Server F RS P) (e : Event F) : Server F RS P × List Frame :=
  ((s.step env e).1, s.forwarded env e)

variable {env} {s : Server F RS P} {e : Event F}

/-! ### What a datagram does for the decoder -/

variable {c : SessCall F} {now : Time} {addr : Addr} {f : Frame}

theorem isSome_onSession (env : ServerEnv F P) (hc : ∀ st, c ≠ .paths st)
    {sess : ServerSession F RS P} (hget : s.mgr.get sess.id = some sess) (id : UInt64) :
    ((s.onSession sess (c.body env)).2.1.mgr.get id).isSome = (s.mgr.get id).isSome := by
  obtain ⟨-, htable, -⟩ := get_onSession env hc s sess
  rw [htable]
  split
  · next h =>
    rw [h, hget]
    rfl
  · rfl

theorem written_onSession (env : ServerEnv F P) (s : Server F RS P) (hc : ∀ st, c ≠ .paths st)
    (sess : ServerSession F RS P) :
    ∀ o ∈ (s.onSession sess (c.body env)).2.2, o.written = none := by
  intro o ho
  have hof := (get_onSession env hc s sess).2.2 o ho
  cases o with
  | egress => exact hof.elim
  | _ => rfl

/-- A handshake leaves the decoder alone; the socket of a new session is dialled, and nothing is
written to it. -/
theorem quiet_handleFirst (s : Server F RS P) (now : Time) (fresh : Fresh) (hdr : Frame)
    (addr : Addr) (d : Bytes) : (s.handleFirst env now fresh hdr addr d).1.fecDec = s.fecDec ∧
      ∀ o ∈ (s.handleFirst env now fresh hdr addr d).2, o.written = none := by
  have hfirst : ∀ (s : Server F RS P) sess ua payload,
      ∀ o ∈ (s.onSession sess (acceptFirst env now hdr.seq ua payload)).2.2, o.written = none :=
    fun s sess ua payload =>
      written_onSession env s (c := .first now hdr.seq ua payload) (by simp) sess
  unfold handleFirst
  split
  · exact ⟨rfl, by simp⟩
  · split
    · exact ⟨rfl, by simp⟩
    · split
      · exact ⟨rfl, by simp⟩
      · next f _ =>
        split
        · unfold firstOfNew
          dsimp only
          split_ifs
          · exact ⟨rfl, by simp⟩
          · exact ⟨rfl, by simp⟩
          · rcases createSession_cases RS env now fresh hdr.sessionID f.payload with
              ⟨out, hcreate, rfl | rfl⟩ | ⟨sPriv, shared, aead, enc, -, -, -, -, hcreate⟩
            · rw [hcreate]
              exact ⟨rfl, by simp⟩
            · rw [hcreate]
              exact ⟨rfl, by simp [ServerOut.written]⟩
            · rw [hcreate]
              exact ⟨rfl, List.forall_mem_cons.mpr ⟨rfl, List.forall_mem_cons.mpr ⟨rfl, hfirst _ _ _ _⟩⟩⟩
        · exact ⟨rfl, hfirst _ _ _ _⟩

/-- **What a datagram does for the decoder**: a frame that is accepted goes into it, and what it
returns is forwarded; otherwise the decoder is left alone, and nothing is written. -/
theorem accepted_cases (hdec : s.fecDec.isNone = false) (now : Time) (fresh : Fresh) (addr : Addr)
    (d : Bytes) :
    (s.accepted env now addr d = none ∧
        (s.handleClientFrame env now fresh addr d).1.fecDec = s.fecDec ∧
        ∀ o ∈ (s.handleClientFrame env now fresh addr d).2, o.written = none) ∨
      ∃ f hdr sess plain, s.accepted env now addr d = some f ∧ Frame.decodeHeader d = .ok hdr ∧
        hdr.hasFlag flagFirst = false ∧ s.mgr.get hdr.sessionID = some sess ∧
        sess.aead.openFrame .clientToServer d = .ok plain ∧
        (s.onSession sess (acceptData env now hdr.seq addr plain)).1 = some f ∧
        s.handleClientFrame env now fresh addr d =
          let r := (s.onSession sess (acceptData env now hdr.seq addr plain)).2
          ((r.1.decode now (pathKey addr) f).1, r.2 ++ (r.1.decode now (pathKey addr) f).2) := by
  rw [accepted, handleClientFrame, hdec, if_neg Bool.false_ne_true]
  cases hhdr : Frame.decodeHeader d with
  | error e => exact .inl ⟨rfl, rfl, by simp⟩
  | ok hdr =>
    dsimp only
    cases hfirst : hdr.hasFlag flagFirst with
    | true =>
      rw [if_pos rfl, if_pos rfl]
      exact .inl ⟨rfl, quiet_handleFirst s now fresh hdr addr d⟩
    | false =>
      rw [if_neg Bool.false_ne_true, if_neg Bool.false_ne_true, handleData]
      cases hget : s.mgr.get hdr.sessionID with
      | none => exact .inl ⟨rfl, rfl, by simp⟩
      | some sess =>
        dsimp only
        cases hopen : sess.aead.openFrame .clientToServer d with
        | error e => exact .inl ⟨rfl, rfl, by simp⟩
        | ok plain =>
          have hout := written_onSession env s (c := .data now hdr.seq addr plain) (by simp) sess
          rw [onSession_data] at hout
          dsimp only
          split
          · next s' out hrun =>
            rw [hrun] at hout ⊢
            exact .inl ⟨rfl, (congrArg (·.2.1.fecDec) hrun).symm, hout⟩
          · next f s' out hrun =>
            refine .inr ⟨f, hdr, sess, plain, by rw [hrun], rfl, hfirst, hget, hopen, ?_⟩
            rw [hrun]
            exact ⟨rfl, rfl⟩

/-! ### The decoder of a server -/

theorem fecDec_healthTickPaths (now : Time) (id : UInt64) {paths : List String}
    {acc : SessState F × Decoder F C × F} (hpaths : ∀ p ∈ paths, p ∈ acc.1.paths) :
    some (paths.foldl (healthTickPath env now id) acc).2.1 =
      Run.exec (Decoder.step RS) (some acc.2.1) (readOuts id paths) := by
  induction paths generalizing acc with
  | nil => rfl
  | cons path paths ih =>
    obtain ⟨hpath, hrest⟩ := List.forall_mem_cons.mp hpaths
    obtain ⟨ps, hps⟩ := AList.exists_lookup hpath
    have hstep : ∃ ps', (healthTickPath env now id acc path).1.paths = acc.1.paths.set path ps' ∧
        (healthTickPath env now id acc path).2.1 =
          ((acc.2.1.takeStreamStats id path).1.takePathStats id path).1 := by
      rw [healthTickPath, hps]
      exact ⟨_, rfl, rfl⟩
    obtain ⟨ps', hset, hdec⟩ := hstep
    rw [List.foldl_cons, exec_readOuts_cons, ← hdec]
    refine ih fun p hp => ?_
    rw [hset]
    exact AList.mem_set.mpr (.inr (hrest p hp))

/-- What an event does for the decoder: the decoder makes its calls, and what they return is
written to the sockets. -/
structure Decodes (env : ServerEnv F P) (s : Server F RS P) (e : Event F)
    (r : Server F RS P × List (ServerOut P)) : Prop where
  decoder : r.1.fecDec = Run.exec (Decoder.step RS) s.fecDec (s.decoderCalls env e)
  sockets : r.2.filterMap ServerOut.written =
    (s.forwarded env e).map fun f => (f.sessionID, f.payload)

theorem Decodes.quiet {r : Server F RS P × List (ServerOut P)} (hcalls : s.decoderCalls env e = [])
    (hdec : r.1.fecDec = s.fecDec) (hout : ∀ o ∈ r.2, o.written = none) : Decodes env s e r := by
  refine ⟨?_, ?_⟩
  · rw [hcalls]
    exact hdec
  · rw [written_nothing hout, forwarded, hcalls]
    rfl

theorem decodes_onSessionOf (id : UInt64) (hc : ∀ st, c ≠ .paths st)
    (hcalls : s.decoderCalls env e = []) : Decodes env s e (s.onSessionOf id (c.body env)) := by
  rw [onSessionOf]
  split
  · exact .quiet hcalls rfl (by simp)
  · exact .quiet hcalls rfl (written_onSession env s hc _)

theorem decodes_datagram (hdec : s.fecDec.isNone = false) (now : Time) (fresh : Fresh) (addr : Addr)
    (d : Bytes) :
    Decodes env s (.datagram now fresh addr d) (s.handleClientFrame env now fresh addr d) := by
  rcases accepted_cases hdec now fresh addr d with
    ⟨hnone, hsame, hout⟩ | ⟨f, hdr, sess, plain, hsome, -, -, hget, -, -, hstep⟩
  · refine .quiet ?_ hsame hout
    rw [decoderCalls, hnone]
    rfl
  · have hcalls : s.decoderCalls env (.datagram now fresh addr d) = [.push now (pathKey addr) f] := by
      rw [decoderCalls, hsome]
      rfl
    have hcall : ∀ st, (SessCall.data now hdr.seq addr plain : SessCall F) ≠ .paths st := by simp
    have hout := written_onSession env s hcall sess
    have htable := isSome_onSession env hcall (Manager.get_self hget)
    rw [onSession_data] at hout htable
    rw [hstep]
    refine ⟨by rw [hcalls]; rfl, ?_⟩
    dsimp only
    rw [List.filterMap_append, written_nothing hout, List.nil_append, decode, written_forwardDecoded,
      forwarded, hcalls]
    dsimp only
    simp only [htable]
    simp [Run.outputs, onSession]

variable (env) in
/-- **The decoder of a server makes a run of its own, and the frames forwarded are what is written to
the sockets.** -/
theorem decodes_step (s : Server F RS P) (e : Event F) : Decodes env s e (s.step env e) := by
  rw [step]
  cases hdec : s.fecDec.isNone with
  | true =>
    rw [if_pos rfl]
    rw [Option.isNone_iff_eq_none] at hdec
    constructor
    · rw [hdec, Decoder.exec_panicked]
    · rw [forwarded, hdec, outputs_panicked]
      rfl
  | false =>
    rw [if_neg Bool.false_ne_true]
    cases e with
    | datagram now fresh addr d => exact decodes_datagram hdec now fresh addr d
    | egress id now start draw payload =>
      exact decodes_onSessionOf id (c := .egress now start draw payload) (by simp) rfl
    | encTick id now draw => exact decodes_onSessionOf id (c := .fecTick now draw) (by simp) rfl
    | decTick now σ =>
      refine ⟨rfl, ?_⟩
      rw [stepEvent, written_forwardDecoded, forwarded, decoderCalls]
      simp [Run.outputs]
    | healthTick id now σ =>
      refine ⟨?_, ?_⟩
      · rw [stepEvent, healthTick, decoderCalls]
        cases hst : s.states.lookup id with
        | none => rfl
        | some st =>
          cases hget : s.mgr.get id with
          | none => rfl
          | some sess =>
            obtain ⟨dec, hd⟩ := Option.isSome_iff_exists.mp (Option.isNone_eq_false_iff.mp hdec)
            rw [hd]
            exact fecDec_healthTickPaths now id fun p hp => σ.mem_visit_keys.mp hp
      · rw [forwarded, decoderCalls]
        split
        · rw [outputs_readOuts]
          rfl
        · rfl
    | expire now =>
      refine .quiet rfl rfl fun o ho => ?_
      obtain ⟨id, -, rfl⟩ := List.mem_map.mp ho
      rfl
    | expireFirsts now => exact .quiet rfl rfl (by simp [stepEvent])
    | dropStates => exact .quiet rfl rfl (by simp [stepEvent])

/-! ### What a session accepts -/

theorem run_route {v : SessView F RS P} {g : Frame}
    (h : ((route env now addr g).run v).1 = some f) :
    f = g ∧ g.hasFlag flagKeepalive = false ∧ ((route env now addr g).run v).2.1 = v := by
  unfold route at h ⊢
  cases hkeepalive : g.hasFlag flagKeepalive with
  | true =>
    rw [hkeepalive, if_pos rfl] at h
    cases addr with
    | other => cases h
    | udp ua =>
      rw [Prog.run_bind, Prog.run_bind] at h
      cases h
  | false =>
    rw [hkeepalive, if_neg Bool.false_ne_true] at h
    rw [if_neg Bool.false_ne_true]
    split at h
    · cases h
    · next hne =>
      rw [if_neg hne]
      cases h
      exact ⟨rfl, rfl, rfl⟩

theorem replay_refreshPath (env : ServerEnv F P) (v : SessView F RS P) (now : Time) (addr : Addr) :
    (((refreshPath env now addr).run v).2.1).sess.replay = v.sess.replay := by
  cases addr with
  | other => rfl
  | udp ua =>
    obtain ⟨endpoints, hsess⟩ := v.sess_registerPath env now ua []
    rw [refreshPath, Prog.run_modify]
    dsimp only
    rw [hsess]

theorem run_acceptData {v : SessView F RS P} {seq : UInt32} {plain : Bytes}
    (h : ((acceptData env now seq addr plain).run v).1 = some f) :
    v.sess.replay.seen seq = false ∧ Frame.decode plain = .ok f ∧ f.hasFlag flagKeepalive = false ∧
      (((acceptData env now seq addr plain).run v).2.1).sess.replay.seen seq = true := by
  cases hseen : v.sess.replay.seen seq with
  | true =>
    rw [acceptData_of_seen v hseen] at h
    cases h
  | false =>
    have hnew : (v.sess.replay.checkAndMark seq).2 = true := by
      rw [ReplayWindow.checkAndMark_snd, hseen]
      rfl
    have hmarked := ReplayWindow.seen_checkAndMark_self v.sess.replay seq
    rw [acceptData] at h ⊢
    simp only [checkReplay, Prog.run_bind, Prog.run_atomic, hnew, if_true] at h ⊢
    cases hdecode : Frame.decode plain with
    | error e =>
      rw [hdecode] at h
      cases h
    | ok g =>
      rw [hdecode] at h
      dsimp only at h ⊢
      rw [Prog.run_bind, Prog.run_bind] at h ⊢
      dsimp only at h ⊢
      obtain ⟨rfl, hkeepalive, hview⟩ := run_route h
      refine ⟨trivial, rfl, hkeepalive, ?_⟩
      rw [hview, replay_refreshPath]
      exact hmarked

/-- **What an accepted frame says**: its session exists and has opened it, it is inner data, its
number is new to the session, and is marked afterwards. -/
theorem accepted_spec {d : Bytes} (h : s.accepted env now addr d = some f) (fresh : Fresh) :
    ∃ sess plain, s.mgr.get f.sessionID = some sess ∧
      sess.aead.openFrame .clientToServer d = .ok plain ∧ Frame.decode plain = .ok f ∧
      f.hasFlag flagFirst = false ∧ f.hasFlag flagKeepalive = false ∧
      sess.replay.seen f.seq = false ∧
      ∃ sess', (s.step env (.datagram now fresh addr d)).1.mgr.get f.sessionID = some sess' ∧
        sess'.replay.seen f.seq = true := by
  have hdec : s.fecDec.isNone = false := by
    rw [accepted] at h
    split at h
    · cases h
    · next hdec => exact (Bool.not_eq_true _).mp hdec
  rcases accepted_cases hdec now fresh addr d with
    ⟨hnone, -⟩ | ⟨f', hdr, sess, plain, hsome, hhdr, hfirst, hget, hopen, hres, hstep⟩
  · rw [h] at hnone
    cases hnone
  · rw [h] at hsome
    cases hsome
    obtain ⟨hnew, hdecode, hkeepalive, hmarked⟩ := run_acceptData hres
    -- the frame carries the header of the datagram
    obtain ⟨g, hg, hflags, hsid, hseq, -⟩ := Frame.decodeHeader_of_decode hdecode
    rw [AEAD.decodeHeader_openFrame hopen, hhdr] at hg
    cases hg
    rw [← hsid, ← hseq]
    refine ⟨sess, plain, hget, hopen, hdecode, ?_, hkeepalive, hnew, _, ?_, hmarked⟩
    · rw [Frame.hasFlag, ← hflags]
      exact hfirst
    · have htable := (get_onSession env (c := .data now hdr.seq addr plain) (by simp) s sess).2.1
        sess.id
      rw [onSession_data, if_pos rfl] at htable
      rw [step, hdec, if_neg Bool.false_ne_true, stepEvent, hstep, ← s.mgr.named _ _ hget]
      exact htable.trans (by simp [SessCall.body])

/-! ### Every number is accepted once -/

variable (env) in
theorem decoderCalls_cases (s : Server F RS P) (e : Event F) :
    (∀ c ∈ s.decoderCalls env e, c.pushed = []) ∨
      ∃ now fresh addr d f, e = .datagram now fresh addr d ∧ s.accepted env now addr d = some f ∧
        s.decoderCalls env e = [.push now (pathKey addr) f] := by
  cases e with
  | datagram now fresh addr d =>
    cases haccepted : s.accepted env now addr d with
    | none =>
      left
      rw [decoderCalls, haccepted]
      simp
    | some f =>
      right
      refine ⟨now, fresh, addr, d, f, rfl, haccepted, ?_⟩
      rw [decoderCalls, haccepted]
      rfl
  | decTick now σ => exact .inl (by simp [decoderCalls, Decoder.Call.pushed])
  | healthTick id now σ =>
    left
    intro c hc
    rw [decoderCalls] at hc
    split at hc
    · obtain ⟨path, -, hc⟩ := List.mem_flatMap.mp hc
      simp only [List.mem_cons, List.not_mem_nil, or_false] at hc
      rcases hc with rfl | rfl <;> rfl
    · cases hc
  | _ => exact .inl (by simp [decoderCalls])

/-- The frames of session `x` that went to the decoder have distinct numbers, and the session
has marked them; it was created before. -/
structure Numbered (x : UInt64) (s : Server F RS P) (out : List (ServerOut P))
    (pushed : List Frame) : Prop where
  put : ∀ sess, s.mgr.get x = some sess → .putSession x ∈ out
  nodup : ((pushed.filter (·.sessionID = x)).map Frame.seq).Nodup
  marked : ∀ f ∈ pushed, f.sessionID = x → .putSession x ∈ out ∧
    ∀ sess, s.mgr.get x = some sess → sess.replay.seen f.seq = true

variable {x : UInt64} {out : List (ServerOut P)} {pushed : List Frame}

theorem marks_step (hf : f ∈ (s.decoderCalls env e).flatMap Decoder.Call.pushed)
    (hx : f.sessionID = x) : ∃ sess sess', s.mgr.get x = some sess ∧
      sess.replay.seen f.seq = false ∧ (s.step env e).1.mgr.get x = some sess' ∧
      sess'.replay.seen f.seq = true := by
  rcases decoderCalls_cases env s e with hnone | ⟨now, fresh, addr, d, g, rfl, haccepted, hcalls⟩
  · obtain ⟨c, hc, hf⟩ := List.mem_flatMap.mp hf
    rw [hnone c hc] at hf
    cases hf
  · rw [hcalls] at hf
    cases List.mem_singleton.mp hf
    obtain ⟨sess, plain, hget, -, -, -, -, hnew, sess', hget', hmarked⟩ :=
      accepted_spec haccepted fresh
    rw [hx] at hget hget'
    exact ⟨sess, sess', hget, hnew, hget', hmarked⟩

theorem nodup_pushed (s : Server F RS P) (e : Event F) :
    ((((s.decoderCalls env e).flatMap Decoder.Call.pushed).filter (·.sessionID = x)).map
      Frame.seq).Nodup := by
  rcases decoderCalls_cases env s e with hnone | ⟨now, fresh, addr, d, g, rfl, haccepted, hcalls⟩
  · rw [List.flatMap_eq_nil_iff.mpr hnone]
    exact List.nodup_nil
  · rw [hcalls]
    exact (List.nodup_singleton g.seq).sublist (List.filter_sublist.map Frame.seq)

/-- **One event**, as long as the session is not created again. -/
theorem Numbered.step (h : Numbered x s out pushed)
    (hcount : (out ++ (s.step env e).2).count (.putSession x) ≤ 1) :
    Numbered x (s.step env e).1 (out ++ (s.step env e).2)
      (pushed ++ (s.decoderCalls env e).flatMap Decoder.Call.pushed) := by
  have hfate := fate_step env s e x
  refine ⟨fun sess hsess => ?_, ?_, fun f hf hx => ?_⟩
  · cases hfate with
    | absent _ h' =>
      rw [h'] at hsess
      cases hsess
    | kept h0 => exact List.mem_append_left _ (h.put _ h0)
    | expired _ _ _ h' =>
      rw [h'] at hsess
      cases hsess
    | created _ _ _ _ _ hput =>
      refine List.mem_append_right _ (List.count_pos_iff.mp ?_)
      rw [hput]
      exact Nat.one_pos
  · rw [List.filter_append, List.map_append]
    refine h.nodup.append (nodup_pushed s e) fun q hq hq' => ?_
    -- a number that was accepted before is marked, and a marked one is not accepted
    obtain ⟨f, hf, rfl⟩ := List.mem_map.mp hq
    obtain ⟨f', hf', heq⟩ := List.mem_map.mp hq'
    obtain ⟨hmem, hx⟩ := List.mem_filter.mp hf
    obtain ⟨hmem', hx'⟩ := List.mem_filter.mp hf'
    obtain ⟨sess, -, hget, hnew, -, -⟩ := marks_step hmem' (of_decide_eq_true hx')
    have hmarked := (h.marked f hmem (of_decide_eq_true hx)).2 sess hget
    rw [heq, hmarked] at hnew
    cases hnew
  · rcases List.mem_append.mp hf with hf | hf
    · obtain ⟨hput, hmarked⟩ := h.marked f hf hx
      refine ⟨List.mem_append_left _ hput, fun sess hsess => ?_⟩
      cases hfate with
      | absent _ h' =>
        rw [h'] at hsess
        cases hsess
      | kept h0 h' hgrow =>
        rw [h'] at hsess
        cases hsess
        exact hgrow.seen _ (hmarked _ h0)
      | expired _ _ _ h' =>
        rw [h'] at hsess
        cases hsess
      | created _ _ _ _ _ hput' =>
        have hpos := List.count_pos_iff.mpr hput
        rw [List.count_append, hput'] at hcount
        omega
    · obtain ⟨sess₀, sess', hget, -, hget', hmarked⟩ := marks_step hf hx
      refine ⟨List.mem_append_left _ (h.put _ hget), fun sess hsess => ?_⟩
      rw [hget'] at hsess
      cases hsess
      exact hmarked

/-- **A run** in which the session is created at most once. -/
theorem Numbered.run (h : Numbered x s out pushed) {es : List (Event F)}
    (hcount : (out ++ (Run.outputs (Server.step env) s es).flatten).count (.putSession x) ≤ 1) :
    (((pushed ++ (Run.outputs (callStep env) s es).flatten.flatMap Decoder.Call.pushed).filter
      (·.sessionID = x)).map Frame.seq).Nodup := by
  induction es generalizing s out pushed with
  | nil =>
    rw [Run.outputs_nil, List.flatten_nil, List.flatMap_nil, List.append_nil]
    exact h.nodup
  | cons e es ih =>
    rw [Run.outputs_cons, List.flatten_cons, ← List.append_assoc] at hcount
    rw [Run.outputs_cons, List.flatten_cons, List.flatMap_append, ← List.append_assoc]
    refine ih (h.step ?_) hcount
    rw [List.count_append] at hcount
    omega

/-! ### The run of the decoder -/

theorem forwarded_sublist (es : List (Event F)) (s : Server F RS P) :
    (Run.outputs (forwardStep env) s es).flatten.Sublist (Run.outputs (Decoder.step RS) s.fecDec
        (Run.outputs (callStep env) s es).flatten).flatten := by
  induction es generalizing s with
  | nil => exact List.Sublist.refl _
  | cons e es ih =>
    rw [Run.outputs_cons, Run.outputs_cons, List.flatten_cons, List.flatten_cons,
      Run.outputs_append, List.flatten_append]
    refine List.Sublist.append List.filter_sublist ?_
    have hnext := ih (s.step env e).1
    rw [(decodes_step env s e).decoder] at hnext
    exact hnext

theorem forall_decoderCalls {Q : Decoder.Call → Prop} {Cond : Server F RS P → Event F → Prop}
    (hstep : ∀ s e, Cond s e → ∀ c ∈ s.decoderCalls env e, Q c) {es : List (Event F)}
    (hes : Run.Along (Server.step env) Cond s es) :
    ∀ c ∈ (Run.outputs (callStep env) s es).flatten, Q c := by
  induction es generalizing s with
  | nil =>
    intro c hc
    cases hc
  | cons e es ih =>
    rw [Run.outputs_cons, List.flatten_cons]
    exact List.forall_mem_append.mpr ⟨hstep s e hes.1, ih hes.2⟩

/-! ### At most once -/

/-- What opens under the key of session `x` was sealed by the client whose log is `log`. -/
def Authentic (log : List (ClientOut P)) (x : UInt64) (s : Server F RS P) : Event F → Prop
  | .datagram _ _ _ d => ∀ sess plain, s.mgr.get x = some sess →
      sess.aead.openFrame .clientToServer d = .ok plain → ∃ a, .sealed a plain ∈ log
  | _ => True

instance (log : List (ClientOut P)) (x : UInt64) (s : Server F RS P) :
    ∀ e, Decidable (Authentic log x s e)
  | .datagram _ _ _ d =>
    match hget : s.mgr.get x with
    | none => isTrue fun sess plain h => by
        rw [hget] at h
        cases h
    | some sess =>
      match hopen : sess.aead.openFrame .clientToServer d with
      | .error e => isTrue fun sess' plain h h' => by
          rw [hget] at h
          cases h
          rw [hopen] at h'
          cases h'
      | .ok plain =>
        decidable_of_iff (∃ o ∈ log, o.plain = some plain) <| by
          constructor
          · rintro ⟨o, ho, hplain⟩ sess' plain' h h'
            rw [hget] at h
            cases h
            rw [hopen] at h'
            cases h'
            cases o with
            | sealed a p =>
              cases hplain
              exact ⟨a, ho⟩
            | _ => cases hplain
          · intro h
            obtain ⟨a, ha⟩ := h sess plain hget hopen
            exact ⟨_, ha, rfl⟩
  | .egress .. => isTrue trivial
  | .encTick .. => isTrue trivial
  | .decTick .. => isTrue trivial
  | .healthTick .. => isTrue trivial
  | .expire .. => isTrue trivial
  | .expireFirsts .. => isTrue trivial
  | .dropStates => isTrue trivial

variable (env) in
/-- The coded frames of session `x` that speak of number `q` come from the address `home q`;
with blocks across paths the address does not matter. -/
def FromHome (x : UInt64) (home : UInt32 → String) (s : Server F RS P) : Event F → Prop
  | .datagram now _ addr d => ∀ f, s.accepted env now addr d = some f → f.sessionID = x →
      f.coded = true → ∀ q ∈ f.mentions,
        (if env.fecParams.crossPath then "" else pathKey addr) = home q
  | _ => True

theorem spread_calls {cenv : ClientEnv F P} {id : UInt64} {log : List (ClientOut P)}
    (haccounted : Client.Accounted RS cenv id log) {block : UInt32 → Option UInt32}
    (hplaced : ∀ f, Client.FromEncoder log f → f.Placed block) {home : UInt32 → String}
    (hauth : Authentic log x s e) (hhome : FromHome env x home s e) :
    ∀ c ∈ s.decoderCalls env e, Decoder.Spread x block home env.fecParams.crossPath c := by
  intro c hc
  rcases decoderCalls_cases env s e with hnone | ⟨now, fresh, addr, d, f, rfl, haccepted, hcalls⟩
  · cases c with
    | push now path g => cases hnone _ hc
    | _ => trivial
  · rw [hcalls] at hc
    cases List.mem_singleton.mp hc
    intro hx
    obtain ⟨sess, plain, hget, hopen, hdecode, hfirst, hkeepalive, -⟩ :=
      accepted_spec haccepted fresh
    rw [hx] at hget
    obtain ⟨a, hsealed⟩ := hauth sess plain hget hopen
    refine ⟨?_, hhome f haccepted hx⟩
    -- the frame is one that the client sealed, and neither a handshake nor a probe
    obtain ⟨g, hencode, horigin⟩ := haccounted.sealed a plain hsealed
    rw [Frame.decode_encode hencode] at hdecode
    cases hdecode
    cases horigin with
    | handshake =>
      change (flagFirst &&& flagFirst != 0) = false at hfirst
      exact absurd hfirst (by decide)
    | probe =>
      change (flagKeepalive &&& flagKeepalive != 0) = false at hkeepalive
      exact absurd hkeepalive (by decide)
    | coded _ hcoded =>
      obtain ⟨j, frames, g₀, hmem, hg₀, hsent⟩ := hcoded
      exact hplaced _ ⟨j, frames, g₀, hmem, hg₀, hsent.session, hsent.flags, hsent.payload,
        hsent.seq, hsent.blockSeq⟩

variable (env) in
theorem egress_run (s : Server F RS P) (es : List (Event F)) :
    (Run.outputs (Server.step env) s es).flatten.filterMap ServerOut.written =
      (Run.outputs (forwardStep env) s es).flatten.map fun f => (f.sessionID, f.payload) := by
  induction es generalizing s with
  | nil => rfl
  | cons e es ih =>
    rw [Run.outputs_cons, Run.outputs_cons, List.flatten_cons, List.flatten_cons,
      List.filterMap_append, List.map_append, (decodes_step env s e).sockets, ih]
    rfl

/-- **Every inner datagram is written at most once.**  An honest client runs, with any interleaving
of its goroutines and below the limit of its counter.  The network gives its datagrams to the
server in any order and from any addresses, loses and repeats them, and adds others that do not
open; the server ticks at any times.  The session of the client is created at most once, and
coded frames that speak of the same number come from one address.  Then what the server writes
to the sockets are the payloads of decoded frames, and no number of the session is among them
twice. -/
theorem writes_once {T : Type} [DecidableEq T] (hlaw : RS.Lawful) {cenv : ClientEnv F P}
    {c : Client F RS P} (hnew : newClient RS cenv x = .ok c)
    {ces : List (Pool.Event T (Client.Call F))}
    (hlimit : (Run.exec (Client.step cenv) (Pool.idle c) ces).state.sess.seq < 2 ^ 32)
    {home : UInt32 → String} {es : List (Event F)}
    (hes : Run.Along (Server.step env) (fun s e =>
      Authentic (Run.outputs (Client.step cenv) (Pool.idle c) ces).flatten x s e ∧
        FromHome env x home s e) (newServer RS env) es)
    (hone : (Run.outputs (Server.step env) (newServer RS env) es).flatten.count
      (.putSession x) ≤ 1) :
    let frames := (Run.outputs (forwardStep env) (newServer RS env) es).flatten
    (Run.outputs (Server.step env) (newServer RS env) es).flatten.filterMap ServerOut.written =
        frames.map (fun f => (f.sessionID, f.payload)) ∧
      ((frames.filter (·.sessionID = x)).map Frame.seq).Nodup := by
  intro frames
  refine ⟨egress_run env _ es, ?_⟩
  have hbrings : ∀ t call, Pool.Event.start t call ∈ ces → call.Brings fun _ => True :=
    fun t call _ => by cases call <;> trivial
  obtain ⟨m, hprovenance⟩ := Client.provenance_exec hnew hbrings
  obtain ⟨block, hplaced⟩ := Client.exists_placed hlaw hprovenance.accounted
    (Client.inner_nodup hnew hlimit)
  have hcalls := forall_decoderCalls
    (fun s e h => spread_calls hprovenance.accounted hplaced h.1 h.2) hes
  have hstart : Numbered x (newServer RS env) [] [] := by
    refine ⟨fun sess hsess => ?_, List.nodup_nil, fun f hf => by cases hf⟩
    cases hsess
  have hseqs := hstart.run (by rwa [List.nil_append])
  rw [List.nil_append] at hseqs
  have honce := Decoder.emits_session_once RS hcalls hseqs
  exact honce.sublist (((forwarded_sublist es (newServer RS env)).filter _).map Frame.seq)

end Server

end

/-! ### A block from two addresses -/

/-- The small configuration with blocks of two data frames and one parity frame. -/
def smallCodedConfig : Config ℚ := { smallConfig with fec := smallCodedAnnounce.fec }

/-- What a server with this configuration is built from. -/
def smallCodedServerEnv : ServerEnv ℚ smallPrimitives :=
  (newServerEnv smallPrimitives smallCodedJson smallCodedConfig).toOption.getD smallServerEnv

/-- A goroutine starts a handshake. -/
def smallHello (t : Fin 3) : List (Pool.Event (Fin 3) (Client.Call ℚ)) := [.start t (.handshake 0)]

/-- The client sends a handshake, takes up the acknowledgement, and codes two datagrams. -/
def smallTalk : List (Pool.Event (Fin 3) (Client.Call ℚ)) :=
  smallHello smallThread ++ smallGo smallThread 3 ++ smallTakeAck smallThread ++
    smallGo smallThread 6 ++ smallDatagramIn ++ smallDatagramIn

/-- What it does. -/
def smallTalkLog : List (ClientOut smallPrimitives) :=
  (Run.outputs (Client.step smallCodedEnv) (Pool.idle smallClient) smallTalk).flatten

/-- The datagrams that it sends: the handshake, two data frames and a parity frame. -/
def smallTalkSent : List Bytes :=
  smallTalkLog.filterMap fun
    | .send _ d => some d
    | _ => none

def smallTalkArrives (addr : Addr) (i : ℕ) : Server.Event ℚ :=
  .datagram 0 (smallFresh (smallKey 9)) addr (smallTalkSent.getD i [])

/-- Another address. -/
def smallOtherAddr : Addr := .udp ⟨"192.0.2.2", 40000⟩

/-- All datagrams arrive, the last two from the given address, and the decoder ticks. -/
def smallTalkEvents (addr : Addr) : List (Server.Event ℚ) :=
  [smallTalkArrives smallAddr 0, smallTalkArrives smallAddr 1, smallTalkArrives addr 2,
    smallTalkArrives addr 3, .decTick second .plain]

/-- With one address both datagrams are written once. -/
theorem Server.writes_once_small :
    let frames := (Run.outputs (Server.forwardStep smallCodedServerEnv)
      (newServer smallCodes smallCodedServerEnv) (smallTalkEvents smallAddr)).flatten
    frames.map Frame.seq = [2, 3] ∧
      (Run.outputs (Server.step smallCodedServerEnv) (newServer smallCodes smallCodedServerEnv)
          (smallTalkEvents smallAddr)).flatten.filterMap ServerOut.written =
        frames.map (fun f => (f.sessionID, f.payload)) ∧
      ((frames.filter (·.sessionID = 5)).map Frame.seq).Nodup := by
  intro frames
  have hauth : Run.Along (Server.step smallCodedServerEnv) (Server.Authentic smallTalkLog 5)
      (newServer smallCodes smallCodedServerEnv) (smallTalkEvents smallAddr) := by decide +kernel
  have hcross : smallCodedServerEnv.fecParams.crossPath = false := by decide +kernel
  have hhome : ∀ e ∈ smallTalkEvents smallAddr, ∀ s : Server ℚ smallCodes smallPrimitives,
      Server.FromHome smallCodedServerEnv 5 (fun _ => Server.pathKey smallAddr) s e := by
    have hsame : ∀ (s : Server ℚ smallCodes smallPrimitives) i,
        Server.FromHome smallCodedServerEnv 5 (fun _ => Server.pathKey smallAddr) s
          (smallTalkArrives smallAddr i) := fun s i f _ _ _ q _ => by
      rw [hcross]
      rfl
    simp only [smallTalkEvents, List.forall_mem_cons]
    exact ⟨(hsame · 0), (hsame · 1), (hsame · 2), (hsame · 3), fun _ => trivial, by simp⟩
  have halong : Run.Along (Server.step smallCodedServerEnv)
      (Server.FromHome smallCodedServerEnv 5 fun _ => Server.pathKey smallAddr)
      (newServer smallCodes smallCodedServerEnv) (smallTalkEvents smallAddr) :=
    (Run.along_of_forall _ hhome _).mono fun s _ h => h s
  exact ⟨by decide +kernel, Server.writes_once lawful_smallCodes newClient_smallCoded
    (by decide +kernel) (hauth.and halong) (by decide +kernel)⟩

set_option maxRecDepth 2000

/-- **A datagram is written twice.**  The two data frames of a block come from different
addresses.  The second comes with the parity frame, and the decoder reconstructs and returns
both; when it ticks, it also flushes what it holds for the first address. -/
theorem Server.writes_twice :
    newServerEnv smallPrimitives smallCodedJson smallCodedConfig = .ok smallCodedServerEnv ∧
      smallCodedServerEnv.fecParams.crossPath = false ∧
      newClient smallCodes smallCodedEnv 5 = .ok smallClient ∧
      (∀ now fresh addr d, .datagram now fresh addr d ∈ smallTalkEvents smallOtherAddr →
        d ∈ smallTalkSent) ∧
      let s := newServer smallCodes smallCodedServerEnv
      Run.Along (Server.step smallCodedServerEnv) (Server.Authentic smallTalkLog 5) s
        (smallTalkEvents smallOtherAddr) ∧
      (Run.outputs (Server.step smallCodedServerEnv) s
        (smallTalkEvents smallOtherAddr)).flatten.count (.putSession 5) = 1 ∧
      (Run.outputs (Server.forwardStep smallCodedServerEnv) s
        (smallTalkEvents smallOtherAddr)).flatten.map (fun f => (f.sessionID, f.seq)) =
        [(5, 2), (5, 3), (5, 2)] := by
  refine ⟨Except.eq_ok_getD, by with_unfolding_all decide, newClient_smallCoded, ?_,
    by with_unfolding_all decide⟩
  intro now fresh addr d hd
  simp only [smallTalkEvents, smallTalkArrives, List.mem_cons, Server.Event.datagram.injEq,
    List.not_mem_nil, or_false, reduceCtorEq] at hd
  rcases hd with ⟨-, -, -, rfl⟩ | ⟨-, -, -, rfl⟩ | ⟨-, -, -, rfl⟩ | ⟨-, -, -, rfl⟩ <;>
    with_unfolding_all decide

end FlexBraid
