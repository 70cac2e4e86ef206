import FlexBraid.Tunnel.ClientRules
import FlexBraid.Tunnel.ServerSteps
import FlexBraid.Tunnel.Windows

/-!
# A downlink without loss

All frames from the server to a client take their numbers from one counter, but only data
reaches the delivery buffer of the client: acknowledgements, answers to probes and parity
frames leave holes there, even when every datagram arrives, and in order.  The first frame
of a session is an acknowledgement, so the first datagram of the inner peer waits for the
gap timer.

Here a session of the server and its client are joined by a queue that loses nothing.  As
long as the server numbers nothing but data, a client that has caught up delivers every
frame at once.

## Main definitions

* `Downlink`, `Downlink.step` — a session, its client, and the datagrams on their way.
* `Downlink.InStep` — the buffer expects the next datagram on its way.
* `Downlink.DataOnly` — the server numbers nothing but data.

## Main results

* `Downlink.never_stalls` — **the buffer returns every frame in the call that it is given
  to**, while the server numbers nothing but data.
* `Downlink.first_datagram_stalls` — not so after the handshake.
-/

namespace FlexBraid

/-- Whether a turn of a client takes a datagram of the server. -/
def Client.Call.arrives {F : Type} : Client.Call F → Bool
  | .recv _ _ _ _ => true
  | _ => false

/-- A session of the server, its client, and the datagrams on their way to it, in the order
in which they were sent. -/
structure Downlink (F : Type) {C : Type} (RS : ReedSolomon C) (P : Primitives) where
  server : SessView F RS P
  client : Client F RS P
  queue : List Bytes := []

/-- What happens: the server does something with the session, the first datagram on its way
arrives on some WAN, or the client takes another turn.  Each call is uninterrupted. -/
inductive DownlinkEvent (F : Type) where
  | server (call : SessCall F)
  | arrive (wan : ℕ) (now : Time) (τ : IterOrder UInt32)
  | client (call : Client.Call F) (hlocal : call.arrives = false)

/-- A call of the delivery buffer returns all that it is given. -/
def ClientOut.Prompt {P : Primitives} : ClientOut P → Prop
  | .pushed given returned => ∀ f ∈ given, f ∈ returned
  | _ => True

namespace Downlink

variable {F C : Type} {RS : ReedSolomon C} {P : Primitives}

/-- The datagrams among the outputs of the server. -/
def sent (out : List (ServerOut P)) : List Bytes :=
  out.filterMap fun
    | .send _ datagram => some datagram
    | _ => none

/-- A turn of the client, unless it has crashed. -/
def turn (s : Downlink F RS P) (p : CliProg RS F P Unit) :
    Downlink F RS P × List (ClientOut P) :=
  if s.client.crashed then (s, [])
  else ({ s with client := (p.run s.client).2.1 }, (p.run s.client).2.2)

section
variable [Float64 F] (senv : ServerEnv F P) (cenv : ClientEnv F P)

/-- One event. -/
def step (s : Downlink F RS P) : DownlinkEvent F → Downlink F RS P × List (ClientOut P)
  | .server call =>
    let r := (call.body senv).run s.server
    ({ s with server := r.2.1, queue := s.queue ++ sent r.2.2 }, [])
  | .arrive wan now τ =>
    match s.queue with
    | [] => (s, [])
    | datagram :: queue => turn { s with queue := queue } (Client.recv cenv wan now τ datagram)
  | .client call _ => s.turn (Client.body cenv call)

end

/-- A datagram carries the frame with number `q` of a session: a datagram of the inner peer
that was not coded. -/
def Carries (id : UInt64) (aead : AEAD P) (q : ℕ) (datagram : Bytes) : Prop :=
  ∃ (f : Frame) (plain : Bytes), f.encode = .ok plain ∧ aead.sealFrame .serverToClient plain = .ok datagram ∧
    f.sessionID = id ∧ f.seq = wireSeq q ∧ f.flags = flagPassSeq ∧ f.payload ≠ []

/-- Datagrams carry the frames that follow number `n`. -/
def CarriesAfter (id : UInt64) (aead : AEAD P) : ℕ → List Bytes → Prop
  | _, [] => True
  | n, datagram :: queue => Carries id aead (n + 1) datagram ∧ CarriesAfter id aead (n + 1) queue

/-- The client is in step with its session: both have the same key and no coding, the
session has an address to send to, the delivery buffer holds nothing back and expects the
first datagram on its way, and those carry all that the session numbered since. -/
structure InStep (s : Downlink F RS P) : Prop where
  id : s.client.sess.id = s.server.sess.id
  key : s.client.sessAEAD = some s.server.sess.aead
  encoder : s.server.sess.enc.params.enabled = false
  decoders : ∀ d ∈ s.client.decs, d.params.enabled = false
  address : (s.server.st.bind SessState.lastSeen).isSome = true
  pending : s.client.delivery.pending = ∅
  gap : s.client.delivery.gapSince = none
  bound : s.server.sess.seq < 2 ^ 32
  flight : ∃ n, n + s.queue.length = s.server.sess.seq ∧ s.client.delivery.next = wireSeq (n + 1) ∧
    s.client.sess.replay.AtMost n ∧
    CarriesAfter s.server.sess.id s.server.sess.aead n s.queue

/-- The server numbers nothing but datagrams of the inner peer: it answers no handshakes and
no probes, and keeps an address for the session.  Its counter does not wrap around. -/
def DataOnly (s : Downlink F RS P) : DownlinkEvent F → Prop
  | .server (.first ..) => False
  | .server (.data _ _ _ plain) => ∀ f, Frame.decode plain = .ok f → f.hasFlag flagKeepalive = false
  | .server (.egress _ _ _ payload) => payload ≠ [] ∧ s.server.sess.seq + 1 < 2 ^ 32
  | .server (.paths st) => (st.bind SessState.lastSeen).isSome = true
  | _ => True

/-! ### The queue -/

theorem carriesAfter_append {id : UInt64} {aead : AEAD P} {n : ℕ} {queue : List Bytes}
    {datagram : Bytes} (h : CarriesAfter id aead n queue)
    (hlast : Carries id aead (n + queue.length + 1) datagram) :
    CarriesAfter id aead n (queue ++ [datagram]) := by
  induction queue generalizing n with
  | nil => exact ⟨hlast, trivial⟩
  | cons d queue ih =>
    refine ⟨h.1, ih h.2 ?_⟩
    rwa [List.length_cons, ← Nat.add_assoc, Nat.add_right_comm n] at hlast

/-! ### The server -/

/-- What the server leaves alone when it numbers nothing. -/
structure Rests (v : SessView F RS P) (out : List (ServerOut P)) (v' : SessView F RS P) :
    Prop where
  silent : out = []
  seq : v'.sess.seq = v.sess.seq
  id : v'.sess.id = v.sess.id
  aead : v'.sess.aead = v.sess.aead
  encoder : v'.sess.enc.params = v.sess.enc.params
  address : (v.st.bind SessState.lastSeen).isSome = true →
    (v'.st.bind SessState.lastSeen).isSome = true

theorem composes_rests : Prog.Composes (Rests : SessView F RS P → _) where
  nil _ := ⟨rfl, rfl, rfl, rfl, rfl, fun h => h⟩
  append h h' := ⟨by rw [h.silent, h'.silent]; rfl, h'.seq.trans h.seq, h'.id.trans h.id,
    h'.aead.trans h.aead, h'.encoder.trans h.encoder, fun hv => h'.address (h.address hv)⟩

section
variable [Float64 F] (senv : ServerEnv F P)

theorem lastSeen_declare (st : SessState F) (pathKey : String) (ps : PathState F)
    (payload : Bytes) : (SessView.declare senv st pathKey ps payload).lastSeen = st.lastSeen := by
  rw [SessView.declare]
  split <;> rfl

theorem lastSeen_registerPath (v : SessView F RS P) (now : Time) (ua : UDPAddr) (payload : Bytes) :
    (v.registerPath senv now ua payload).st.bind SessState.lastSeen = some ua := by
  have hfinish : ∀ pathKey ps (st : SessState F), st.lastSeen = some ua →
      (SessView.registerPath.finish senv v pathKey ua ps st payload).st.bind SessState.lastSeen =
        some ua := by
    intro pathKey ps st hst
    show SessState.lastSeen (if _ then _ else _) = _
    split
    · rw [lastSeen_declare, hst]
    · exact hst
  unfold SessView.registerPath
  dsimp only
  split
  · split
    · rfl
    · exact hfinish _ _ _ rfl
  · exact hfinish _ _ _ rfl

variable {senv}

variable {v : SessView F RS P}

theorem address_still {v' : SessView F RS P} (h : v.Still senv v')
    (hv : (v.st.bind SessState.lastSeen).isSome = true) :
    (v'.st.bind SessState.lastSeen).isSome = true := by
  obtain ⟨sess, st⟩ := v
  cases st with
  | none => cases hv
  | some st =>
    cases h with
    | refl => exact hv
    | replay seq => exact hv
    | touch now => exact hv
    | register now ua payload =>
      rw [lastSeen_registerPath]
      rfl
    | observe now pathKey =>
      unfold SessView.observeKeepalive
      dsimp only
      split <;> exact hv
    | pick draw => exact hv
    | pickCross => exact hv

theorem Rests.of_still {v' : SessView F RS P} (h : v.Still senv v') : Rests v [] v' := by
  obtain ⟨replay, endpoints, lastSeen, -, hsess⟩ := h.sess
  refine ⟨rfl, ?_, ?_, ?_, ?_, address_still h⟩ <;> rw [hsess]

open Prog in
theorem rests_acceptData (now : Time) (seq : UInt32) (addr : Addr) {plain : Bytes}
    (hprobe : ∀ f, Frame.decode plain = .ok f → f.hasFlag flagKeepalive = false) :
    (Server.acceptData senv now seq addr plain : SessProg RS F P (Option Frame)).Keeps Rests := by
  have hstill : ∀ {α : Type} {p : SessProg RS F P α},
      (p.Keeps fun v out v' => out = [] ∧ v.Still senv v') → p.Keeps Rests := by
    intro α p hp
    refine hp.mono ?_
    rintro v _ v' ⟨rfl, h⟩
    exact .of_still h
  refine (hstill (keeps_atomic fun v => ⟨rfl, .replay seq⟩)).bind fun fresh => ?_
  split
  · split
    · exact keeps_pure _
    · next f hf =>
      refine (hstill (keeps_modify fun v => ⟨rfl, .touch now⟩)).bind fun _ => ?_
      refine Keeps.bind ?_ fun _ => ?_
      · cases addr with
        | udp ua => exact hstill (keeps_modify fun v => ⟨rfl, .register now ua []⟩)
        | other => exact keeps_pure _
      · unfold Server.route
        rw [hprobe f hf, if_neg Bool.false_ne_true]
        split <;> exact keeps_pure _
  · exact keeps_pure _

variable (senv) in
theorem pickPath_of_address (hv : (v.st.bind SessState.lastSeen).isSome = true) (draw : F) :
    ∃ addr st, v.pickPath senv draw = (some addr, { v with st := some st }) ∧
      st.lastSeen.isSome = true := by
  obtain ⟨sess, st⟩ := v
  cases st with
  | none => cases hv
  | some st =>
    obtain ⟨last, hlast⟩ := Option.isSome_iff_exists.mp hv
    unfold SessView.pickPath
    cases hpick : (st.sched.pick [] draw).2.bind st.paths.lookup with
    | none =>
      refine ⟨last, { st with sched := (st.sched.pick [] draw).1 }, ?_, hv⟩
      simp [SessView.stateFor, hpick, show st.lastSeen = some last from hlast]
    | some ps =>
      refine ⟨ps.addr, { st with sched := (st.sched.pick [] draw).1 }, ?_, hv⟩
      simp [SessView.stateFor, hpick]

omit [Float64 F] in
variable (senv) in
theorem stampPathSeq_eq (v : SessView F RS P) (addr : UDPAddr) (f : Frame) :
    ∃ blockSeq st, v.stampPathSeq senv addr f =
        ({ f with blockSeq := blockSeq }, { v with st := some st }) ∧
      st.lastSeen = (v.stateFor senv).lastSeen := by
  unfold SessView.stampPathSeq
  cases hpath : (v.stateFor senv).paths.lookup addr.toText with
  | none => exact ⟨f.blockSeq, v.stateFor senv, by simp [hpath], rfl⟩
  | some ps =>
    let paths := (v.stateFor senv).paths.set addr.toText { ps with pathSeq := ps.pathSeq + 1 }
    exact ⟨ps.pathSeq, { v.stateFor senv with paths := paths }, by simp [hpath, paths], rfl⟩

theorem run_sendToSession (hcross : senv.fecParams.crossPath = false)
    (hv : (v.st.bind SessState.lastSeen).isSome = true) (draw : F) {f : Frame}
    (hflags : f.flags = flagPassSeq) (hlen : f.payload.length ≤ maxPayload) :
    ∃ blockSeq plain datagram addr st, st.lastSeen.isSome = true ∧
      ({ f with blockSeq := blockSeq } : Frame).encode = .ok plain ∧
      v.sess.aead.sealFrame .serverToClient plain = .ok datagram ∧
      (Server.sendToSession senv draw [f] : SessProg RS F P Unit).run v =
        ((), { v with st := some st },
          [.sealed v.sess.id v.sess.aead plain, .send addr datagram]) := by
  obtain ⟨addr, st₁, hpick, hst₁⟩ := pickPath_of_address senv hv draw
  obtain ⟨blockSeq, st₂, hstamp, hst₂⟩ :=
    stampPathSeq_eq senv ({ v with st := some st₁ } : SessView F RS P) addr f
  obtain ⟨plain, hplain⟩ : ∃ plain, ({ f with blockSeq := blockSeq } : Frame).encode = .ok plain :=
    ⟨_, if_neg (not_lt.mpr hlen)⟩
  obtain ⟨datagram, hseal⟩ : ∃ datagram, v.sess.aead.sealFrame .serverToClient plain = .ok datagram :=
    (AEAD.sealFrame_encode hplain v.sess.aead .serverToClient).imp' _ fun _ h => h
  refine ⟨blockSeq, plain, datagram, addr, st₂, ?_, hplain, hseal, ?_⟩
  · rw [hst₂]
    exact hst₁
  · have hparity : f.hasFlag flagFECParity = false := by
      rw [Frame.hasFlag, hflags]
      rfl
    have hpass : f.hasFlag flagPassSeq = true := by
      rw [Frame.hasFlag, hflags]
      rfl
    have hframe : (Server.sendFrame senv (some addr) f : SessProg RS F P Unit).run
        { v with st := some st₁ } = ((), { v with st := some st₂ },
          [.sealed v.sess.id v.sess.aead plain, .send addr datagram]) := by
      simp [Server.sendFrame, Server.numberParity, hparity, Server.addrFor, hcross,
        Server.stampPass, hpass, hstamp, Server.sendToAddr, Server.sendToAddrKey, hplain, hseal]
    simp [Server.sendToSession, hcross, hpick, hframe]

theorem run_egressRead (hcross : senv.fecParams.crossPath = false)
    (hoff : v.sess.enc.params.enabled = false) (hv : (v.st.bind SessState.lastSeen).isSome = true)
    (now start : Time) (draw : F) {payload : Bytes} (hmtu : ¬ (payload.length : ℤ) > senv.cfg.mtu)
    (hlen : payload.length ≤ maxPayload) (hne : payload ≠ []) :
    ∃ plain datagram addr st, st.lastSeen.isSome = true ∧
      Carries v.sess.id v.sess.aead (v.sess.seq + 1) datagram ∧
      (Server.egressRead senv now start draw payload : SessProg RS F P Unit).run v =
        ((), ⟨{ v.sess with seq := v.sess.seq + 1 }, some st⟩,
          [.sealed v.sess.id v.sess.aead plain, .send addr datagram]) := by
  let f : Frame :=
    { flags := flagPassSeq, sessionID := v.sess.id, seq := wireSeq (v.sess.seq + 1), payload := payload }
  obtain ⟨blockSeq, plain, datagram, addr, st, hst, hplain, hseal, hrun⟩ :=
    run_sendToSession (v := ⟨{ v.sess with seq := v.sess.seq + 1 }, v.st⟩) hcross hv draw
      (show f.flags = flagPassSeq from rfl) hlen
  refine ⟨plain, datagram, addr, st, hst, ⟨_, plain, hplain, hseal, rfl, rfl, rfl, hne⟩, ?_⟩
  have hpush : v.sess.enc.push now start
      { sessionID := v.sess.id, seq := wireSeq (v.sess.seq + 1), payload := payload } =
        (v.sess.enc, [f]) := by
    rw [Encoder.push, dif_pos hoff]
    simp [markPassSeq, f]
  simp [Server.egressRead, hmtu, Server.nextSeq, Server.encPush, hpush, hrun]

omit [Float64 F] in
theorem InStep.of_rests {s : Downlink F RS P} (h : s.InStep) {out : List (ServerOut P)}
    (hrests : Rests s.server out v) :
    InStep { s with server := v, queue := s.queue ++ sent out } := by
  obtain ⟨n, hcount, hnext, hreplay, hqueue⟩ := h.flight
  have hsent : s.queue ++ sent out = s.queue := by
    rw [hrests.silent]
    exact List.append_nil _
  rw [hsent]
  refine ⟨h.id.trans hrests.id.symm, ?_, ?_, h.decoders, hrests.address h.address, h.pending, h.gap,
    ?_, n, ?_, hnext, hreplay, ?_⟩
  · exact h.key.trans (congrArg some hrests.aead.symm)
  · exact (congrArg Params.enabled hrests.encoder).trans h.encoder
  · exact hrests.seq.trans_lt h.bound
  · exact hcount.trans hrests.seq.symm
  · show CarriesAfter v.sess.id v.sess.aead n s.queue
    rw [hrests.id, hrests.aead]
    exact hqueue

/-- **What the server does keeps the client in step** when it numbers nothing but data. -/
theorem inStep_server (hcross : senv.fecParams.crossPath = false) (hmtu : senv.cfg.mtu ≤ maxPayload)
    (cenv : ClientEnv F P) {s : Downlink F RS P} (h : s.InStep) {call : SessCall F}
    (hdata : s.DataOnly (.server call)) : (step senv cenv s (.server call)).1.InStep := by
  cases call with
  | first now seq ua payload => exact hdata.elim
  | data now seq addr plain =>
    refine h.of_rests (Prog.Keeps.run composes_rests ?_ s.server)
    exact (rests_acceptData now seq addr hdata).bind fun _ => Prog.keeps_pure _
  | egress now start draw payload =>
    by_cases hlong : (payload.length : ℤ) > senv.cfg.mtu
    · refine h.of_rests (Prog.Keeps.run composes_rests ?_ s.server)
      show (Server.egressRead _ _ _ _ _ : SessProg RS F P Unit).Keeps Rests
      rw [Server.egressRead, if_pos hlong]
      exact Prog.keeps_pure _
    · obtain ⟨plain, datagram, addr, st, hst, hcarries, hrun⟩ := run_egressRead hcross h.encoder
        h.address now start draw hlong (by omega) hdata.1
      obtain ⟨n, hcount, hnext, hreplay, hqueue⟩ := h.flight
      rw [step, SessCall.body, hrun]
      refine ⟨h.id, h.key, h.encoder, h.decoders, hst, h.pending, h.gap, hdata.2, n, ?_, hnext,
        hreplay, carriesAfter_append hqueue ?_⟩
      · rw [List.length_append, ← Nat.add_assoc, hcount]
        rfl
      · rwa [hcount]
  | fecTick now draw =>
    have htick : s.server.sess.enc.tick now = (s.server.sess.enc, []) := by
      rw [Encoder.tick, if_pos h.encoder]
    have hrun : (Server.fecTick senv now draw : SessProg RS F P Unit).run s.server =
        ((), s.server, []) := by
      simp [Server.fecTick, htick, Server.sendToSession]
    refine h.of_rests (?_ : Rests s.server _ _)
    rw [SessCall.body, hrun]
    exact composes_rests.nil _
  | setLossRate now rate =>
    refine h.of_rests (Prog.Keeps.run composes_rests (Prog.keeps_modify fun v => ?_) s.server)
    exact ⟨rfl, rfl, rfl, rfl, (Encoder.refresh_eq _ now).1, fun h => h⟩
  | paths st => exact h.of_rests ⟨rfl, rfl, rfl, rfl, rfl, fun _ => hdata⟩

end

/-! ### The client -/

open Prog Client

/-- What the client leaves alone when no datagram arrives. -/
structure Idles (c : Client F RS P) (out : List (ClientOut P)) (c' : Client F RS P) : Prop where
  id : c'.sess.id = c.sess.id
  sessAEAD : c'.sessAEAD = c.sessAEAD
  delivery : c'.delivery = c.delivery
  replay : c'.sess.replay = c.sess.replay
  decoders : (∀ d ∈ c.decs, d.params.enabled = false) → ∀ d ∈ c'.decs, d.params.enabled = false
  prompt : ∀ o ∈ out, o.Prompt

theorem Idles.of_client {c c' : Client F RS P} {out : List (ClientOut P)} (hsess : c'.sess = c.sess)
    (hkey : c'.sessAEAD = c.sessAEAD) (hdelivery : c'.delivery = c.delivery)
    (hdecs : c'.decs = c.decs) (hprompt : ∀ o ∈ out, o.Prompt) : Idles c out c' :=
  ⟨congrArg _ hsess, hkey, hdelivery, congrArg _ hsess, fun h => hdecs ▸ h, hprompt⟩

theorem composes_idles : Composes (Idles : Client F RS P → _) where
  nil _ := .of_client rfl rfl rfl rfl (by simp)
  append h h' := ⟨h'.id.trans h.id, h'.sessAEAD.trans h.sessAEAD, h'.delivery.trans h.delivery,
    h'.replay.trans h.replay, fun hoff => h'.decoders (h.decoders hoff),
    List.forall_mem_append.mpr ⟨h.prompt, h'.prompt⟩⟩

theorem sendActions_idles : SendActions (Idles : Client F RS P → _) where
  composes := composes_idles
  calm h := ⟨h.id, h.sessAEAD, h.delivery, h.window, h.off, by simp⟩
  number _ := ⟨rfl, rfl, rfl, rfl, fun h => h, by simp⟩
  send _ _ _ _ _ := .of_client rfl rfl rfl rfl (by simp [ClientOut.Prompt])

theorem idles_useEnc (slot : Option ℕ) (call : Encoder F RS → Encoder F RS × List Frame) :
    (useEnc slot call : CliProg RS F P (List Frame)).Keeps Idles := by
  refine keeps_atomic fun c => ?_
  split <;> exact .of_client rfl rfl rfl rfl (by simp [ClientOut.Prompt])

theorem idles_deliverToWG (frames : List Frame) :
    (deliverToWG frames : CliProg RS F P Unit).Keeps Idles := by
  refine (keeps_read composes_idles _).bind fun addr => ?_
  split
  · exact keeps_pure _
  · exact keeps_forM (fun f => keeps_atomic fun _ => .of_client rfl rfl rfl rfl
      (by simp [ClientOut.Prompt])) _

theorem run_useDec {c : Client F RS P} (hoff : ∀ d ∈ c.decs, d.params.enabled = false)
    (slot : Option ℕ) (call : Decoder.Call) :
    ∃ frames c', (useDec slot call : CliProg RS F P (List Frame)).run c = (frames, c', []) ∧
      Idles c [] c' ∧ (c'.crashed = true ∧ frames = [] ∨ ∃ d d' : Decoder F C,
        d.params.enabled = false ∧ Decoder.step RS (some d) call = (some d', frames)) := by
  have hidles : Idles c ((useDec slot call : CliProg RS F P (List Frame)).run c).2.2
      ((useDec slot call : CliProg RS F P (List Frame)).run c).2.1 :=
    (sendActions_idles.keeps_calmly (calm_useDec slot call)).run composes_idles c
  rw [useDec, run_atomic] at hidles ⊢
  split at hidles
  · next i d frames hslot =>
    refine ⟨frames, _, rfl, hidles, .inr ?_⟩
    obtain ⟨-, d₀, hget, hcall⟩ := get_of_slot hslot
    exact ⟨d₀, d, hoff d₀ (List.mem_of_getElem? hget), hcall⟩
  · exact ⟨[], _, rfl, hidles, .inl ⟨rfl, rfl⟩⟩

section
variable [Float64 F] {cenv : ClientEnv F P}

variable (cenv) in
/-- **A turn without a datagram** changes nothing that the downlink depends on, and gives the
delivery buffer nothing. -/
theorem idles_turn {c₀ : Client F RS P} (hoff : ∀ d ∈ c₀.decs, d.params.enabled = false)
    (hgap : c₀.delivery.gapSince = none) {call : Client.Call F} (hlocal : call.arrives = false) :
    Idles c₀ ((body cenv call : CliProg RS F P Unit).run c₀).2.2
      ((body cenv call : CliProg RS F P Unit).run c₀).2.1 := by
  have hinv : ∀ (c : Client F RS P) o c' out (_ : Prog.NoShare), Idles c o c' → Idles c₀ out c →
      Idles c₀ (out ++ o) c' := fun _ _ _ _ _ h h₀ => composes_idles.append h₀ h
  have hcode : ∀ slot call, Owns (fun c out (_ : Prog.NoShare) => Idles c₀ out c) (fun _ m => m = 0)
      (useEnc slot call : CliProg RS F P (List Frame)) 0 := fun slot call =>
    owns_of_keeps hinv (idles_useEnc slot call) 0
  have hsend : SendRules cenv (fun c out (_ : Prog.NoShare) => Idles c₀ out c) (fun _ => 0) (fun _ => 0)
      (fun _ => 0) :=
    sendActions_idles.sendRules hinv (fun slot _ => hcode slot _)
      fun slot _ _ => (hcode slot _).mono fun _ _ _ => trivial
  have hslots := hsend.slotRules fun slot _ _ _ _ _ => (hcode slot _).mono fun _ _ _ => rfl
  have hwrite : ∀ frames m, Owns (fun c out (_ : Prog.NoShare) => Idles c₀ out c) (fun _ _ => True)
      (deliverToWG frames : CliProg RS F P Unit) m := fun frames m =>
    (owns_of_keeps hinv (idles_deliverToWG frames) m).mono fun _ _ _ => trivial
  have hbody := hslots.owns_body_of call ?_ ?_ ?_
  · obtain ⟨-, hrun, -⟩ := hbody.run 0 (composes_idles.nil c₀)
    exact hrun
  · rintro i now τ d rfl
    cases hlocal
  · intro slot σ now τ
    refine Owns.bind (Q := fun frames _ => frames = []) ?_ ?_
    · intro c out others h
      obtain ⟨frames, c', hrun, hidles, hcall⟩ := run_useDec (h.decoders hoff) slot (.tick σ now)
      rw [useDec, run_atomic] at hrun
      refine ⟨0, ?_, ?_⟩
      · beta_reduce
        rw [hrun]
        exact composes_idles.append h hidles
      · show Prod.fst _ = []
        beta_reduce
        rw [hrun]
        rcases hcall with ⟨-, hframes⟩ | ⟨d, d', hd, hstep⟩
        · exact hframes
        · exact List.eq_nil_iff_forall_not_mem.mpr fun f hf =>
            absurd ((Decoder.off_step RS hd hstep).2 f hf) List.not_mem_nil
    · rintro frames m rfl
      refine Owns.bind (Q := fun _ _ => True) ?_ fun returned m _ => hwrite returned m
      intro c out others h
      refine ⟨m, composes_idles.append h (.of_client rfl rfl rfl rfl ?_), trivial⟩
      simp [ClientOut.Prompt]
  · intro now τ
    refine Owns.bind (Q := fun _ _ => True) ?_ fun returned m _ => hwrite returned m
    intro c out others h
    have htick : c.delivery.tick τ now = (c.delivery, []) := by
      rw [h.delivery, DeliveryBuffer.tick, hgap]
    refine ⟨0, composes_idles.append h (.of_client rfl rfl ?_ rfl ?_), trivial⟩
    · show (c.delivery.tick τ now).1 = _
      rw [htick]
    · simp [ClientOut.Prompt]

variable {c : Client F RS P}

omit [Float64 F] in
theorem presented_of_carries (hP : P.Lawful) {aead : AEAD P} (hkey : c.sessAEAD = some aead) {q : ℕ}
    {datagram : Bytes} (h : Carries c.sess.id aead q datagram) :
    ∃ hdr f, Frame.decodeHeader datagram = .ok hdr ∧ hdr.hasFlag flagKex = false ∧
      c.presented hdr datagram = some f ∧ f.seq = wireSeq q ∧ f.flags = flagPassSeq ∧
      f.payload ≠ [] := by
  obtain ⟨f, plain, hplain, hseal, hid, hseq, hflags, hpayload⟩ := h
  refine ⟨_, { f with version := protocolVersion }, AEAD.decodeHeader_sealFrame hplain hseal, ?_, ?_,
    hseq, hflags, hpayload⟩
  · show (f.flags &&& flagKex != 0) = false
    rw [hflags]
    rfl
  · rw [presented, if_neg (not_not.mpr hid), hkey, Option.bind_some,
      AEAD.openFrame_sealFrame hP hseal]
    show (Frame.decode plain).toOption = _
    rw [Frame.decode_encode hplain]
    rfl

omit [Float64 F] in
theorem run_route (hoff : ∀ d ∈ c.decs, d.params.enabled = false)
    (hpending : c.delivery.pending = ∅) {f : Frame} (hnext : f.seq = c.delivery.next)
    (hflags : f.flags = flagPassSeq) (hpayload : f.payload ≠ []) (i : ℕ) (now : Time)
    (τ : IterOrder UInt32) :
    let r := (route i now τ f : CliProg RS F P Unit).run c
    (∀ o ∈ r.2.2, o.Prompt) ∧ (r.2.1.crashed = true ∨
      r.2.1.sess.id = c.sess.id ∧ r.2.1.sess.replay = c.sess.replay ∧
      r.2.1.sessAEAD = c.sessAEAD ∧ (∀ d ∈ r.2.1.decs, d.params.enabled = false) ∧
      r.2.1.delivery = { c.delivery with next := c.delivery.next + 1, gapSince := none }) := by
  have hpass : ∀ flag, flagPassSeq &&& flag = 0 → f.hasFlag flag = false := by
    intro flag hflag
    rw [Frame.hasFlag, hflags, hflag]
    rfl
  obtain ⟨frames, c', hrun, hidles, hcall⟩ := run_useDec hoff ((c.wans[i]?).bind WanLink.dec)
    (.push now (((c.wans[i]?).map (·.cfg.id)).getD "") f)
  have hroute : (route i now τ f : CliProg RS F P Unit).run c =
      (deliverPush now τ frames : CliProg RS F P Unit).run c' := by
    rw [route, hpass flagPong rfl, hpass flagControl rfl, hpass flagKeepalive rfl]
    simp [hpayload, hrun]
  intro r
  rw [show r = _ from hroute, deliverPush, run_bind, run_atomic]
  have hwrite := fun frames (c : Client F RS P) => (idles_deliverToWG frames).run composes_idles c
  rcases hcall with ⟨hcrashed, rfl⟩ | ⟨d, d', hd, hstep⟩
  · refine ⟨List.forall_mem_append.mpr ⟨by simp [ClientOut.Prompt], (hwrite _ _).prompt⟩, .inl ?_⟩
    rw [run_deliverToWG]
    exact hcrashed
  · have hframes : frames = [f] := by
      obtain ⟨pathSeq, hpush⟩ := Decoder.push_of_disabled RS hd now
        (((c.wans[i]?).map (·.cfg.id)).getD "") f
      rw [Decoder.step, hpush, hpass flagFECParity rfl] at hstep
      exact (Prod.mk.inj hstep).2.symm
    subst hframes
    have hpush : c'.delivery.push τ now [f] =
        ({ c.delivery with next := c.delivery.next + 1, gapSince := none }, [f]) := by
      rw [hidles.delivery]
      exact DeliveryBuffer.push_next hpending hnext τ now
    refine ⟨List.forall_mem_append.mpr ⟨?_, (hwrite _ _).prompt⟩, .inr ?_⟩
    · simp [ClientOut.Prompt, hpush]
    · rw [run_deliverToWG]
      exact ⟨hidles.id, hidles.replay, hidles.sessAEAD, hidles.decoders hoff, congrArg Prod.fst hpush⟩

/-- The first datagram on its way passes the replay window and is routed. -/
theorem run_recv (hP : P.Lawful) {aead : AEAD P} (hkey : c.sessAEAD = some aead) {n : ℕ}
    (hreplay : c.sess.replay.AtMost n) (hn : n + 1 < 2 ^ 32) {datagram : Bytes}
    (h : Carries c.sess.id aead (n + 1) datagram) (i : ℕ) (now : Time) (τ : IterOrder UInt32) :
    ∃ f : Frame, f.seq = wireSeq (n + 1) ∧ f.flags = flagPassSeq ∧ f.payload ≠ [] ∧
      (recv cenv i now τ datagram : CliProg RS F P Unit).run c =
        (route i now τ f : CliProg RS F P Unit).run { c.mark (wireSeq (n + 1)) with
          wans := c.wans.modify i fun w => { w with lastRx := now } } := by
  obtain ⟨hdr, f, hhdr, hkex, hpresented, hseq, hflags, hpayload⟩ := presented_of_carries hP hkey h
  refine ⟨f, hseq, hflags, hpayload, ?_⟩
  have hfresh : (c.sess.replay.checkAndMark f.seq).2 = true := by
    rw [ReplayWindow.checkAndMark_snd, hreplay.unseen]
    · rfl
    · rw [hseq, toNat_wireSeq hn]
      exact Nat.lt_succ_self n
  have hverify := run_openAndVerify hdr datagram c
  rw [hpresented, Option.elim_some, if_pos hfresh, hseq] at hverify
  rw [recv, hhdr]
  simp [hkex, recvFrame, hverify, touch, updateWan, mark]

/-- **The next datagram arrives**: the buffer returns the frame in it, and the client stays
in step, unless it panics. -/
theorem inStep_arrive (hP : P.Lawful) (senv : ServerEnv F P) {s : Downlink F RS P} (h : s.InStep)
    (wan : ℕ) (now : Time) (τ : IterOrder UInt32) :
    let r := step senv cenv s (.arrive wan now τ)
    (r.1.client.crashed = true ∨ r.1.InStep) ∧ ∀ o ∈ r.2, o.Prompt := by
  intro r
  obtain ⟨server, client, queue⟩ := s
  cases queue with
  | nil => exact ⟨.inr h, by simp [r, step]⟩
  | cons datagram queue =>
    obtain ⟨n, hcount, hnext, hreplay, hcarries, hqueue⟩ := h.flight
    have hbound : n + 1 < 2 ^ 32 := by
      have hseq := h.bound
      rw [List.length_cons] at hcount
      omega
    rw [← h.id] at hcarries
    obtain ⟨f, hseq, hflags, hpayload, hrecv⟩ := run_recv hP h.key hreplay hbound hcarries wan now τ
    have hr : r = turn ⟨server, client, queue⟩ (recv cenv wan now τ datagram) := rfl
    rw [hr, turn]
    split
    · next hcrashed => exact ⟨.inl hcrashed, by simp⟩
    · rw [hrecv]
      obtain ⟨hprompt, hclient⟩ := run_route (c := { client.mark (wireSeq (n + 1)) with
          wans := client.wans.modify wan fun w => { w with lastRx := now } }) h.decoders h.pending
        (hseq.trans hnext.symm) hflags hpayload wan now τ
      refine ⟨hclient.imp_right ?_, hprompt⟩
      rintro ⟨hid, hwindow, hkey, hoff, hdelivery⟩
      refine ⟨hid.trans h.id, hkey.trans h.key, h.encoder, hoff, h.address, ?_, ?_, h.bound, n + 1,
        ?_, ?_, ?_, hqueue⟩
      · exact (congrArg DeliveryBuffer.pending hdelivery).trans h.pending
      · exact congrArg DeliveryBuffer.gapSince hdelivery
      · rw [List.length_cons] at hcount
        show n + 1 + queue.length = server.sess.seq
        have hcount : n + (queue.length + 1) = server.sess.seq := hcount
        omega
      · refine (congrArg DeliveryBuffer.next hdelivery).trans ?_
        show client.delivery.next + 1 = _
        rw [hnext]
        exact (UInt32.ofNat_add (n + 1) 1).symm
      · show ReplayWindow.AtMost _ _
        rw [hwindow]
        have hlt : n < (wireSeq (n + 1)).toNat := by
          rw [toNat_wireSeq hbound]
          exact Nat.lt_succ_self n
        have hmarked := hreplay.next hlt
        rwa [toNat_wireSeq hbound] at hmarked

variable (senv : ServerEnv F P)

theorem inStep_client {s : Downlink F RS P} (h : s.InStep) {call : Client.Call F}
    (hlocal : call.arrives = false) :
    let r := step senv cenv s (.client call hlocal)
    (r.1.client.crashed = true ∨ r.1.InStep) ∧ ∀ o ∈ r.2, o.Prompt := by
  intro r
  have hr : r = s.turn (body cenv call) := rfl
  rw [hr, turn]
  split
  · next hcrashed => exact ⟨.inl hcrashed, by simp⟩
  · have hidles : Idles s.client _ _ := idles_turn cenv h.decoders h.gap hlocal
    obtain ⟨n, hcount, hnext, hreplay, hqueue⟩ := h.flight
    refine ⟨.inr ⟨hidles.id.trans h.id, hidles.sessAEAD.trans h.key, h.encoder,
      hidles.decoders h.decoders, h.address, ?_, ?_, h.bound, n, hcount, ?_, ?_, hqueue⟩, hidles.prompt⟩
    · exact (congrArg DeliveryBuffer.pending hidles.delivery).trans h.pending
    · exact (congrArg DeliveryBuffer.gapSince hidles.delivery).trans h.gap
    · exact (congrArg DeliveryBuffer.next hidles.delivery).trans hnext
    · show ReplayWindow.AtMost _ _
      rw [hidles.replay]
      exact hreplay

/-- **A downlink that carries nothing but data never stalls**: from any state in which the
client is in step, in every run in which all datagrams arrive in order and the server numbers
nothing but data, the delivery buffer returns every frame in the call that it is given to. -/
theorem never_stalls (hP : P.Lawful) (hcross : senv.fecParams.crossPath = false)
    (hmtu : senv.cfg.mtu ≤ maxPayload) {s : Downlink F RS P} (hstep : s.InStep)
    {es : List (DownlinkEvent F)} (hdata : Run.Along (step senv cenv) DataOnly s es) :
    ∀ o ∈ (Run.outputs (step senv cenv) s es).flatten, o.Prompt := by
  have hkeep : ∀ (s : Downlink F RS P) out e,
      (s.client.crashed = true ∨ s.InStep) ∧ (∀ o ∈ out, ClientOut.Prompt o) → s.DataOnly e →
      ((step senv cenv s e).1.client.crashed = true ∨ (step senv cenv s e).1.InStep) ∧
        ∀ o ∈ out ++ (step senv cenv s e).2, o.Prompt := by
    rintro s out e ⟨hcrashed | h, hout⟩ hdata
    · -- a client that has crashed does nothing
      have hout' : (step senv cenv s e).2 = [] ∧ (step senv cenv s e).1.client = s.client := by
        cases e with
        | server call => exact ⟨rfl, rfl⟩
        | arrive wan now τ =>
          obtain ⟨server, client, queue⟩ := s
          cases queue with
          | nil => exact ⟨rfl, rfl⟩
          | cons d queue =>
            simp only [step, turn]
            rw [if_pos hcrashed]
            exact ⟨rfl, rfl⟩
        | client call hlocal =>
          rw [step, turn, if_pos hcrashed]
          exact ⟨rfl, rfl⟩
      rw [hout'.1, hout'.2, List.append_nil]
      exact ⟨.inl hcrashed, hout⟩
    · have hnext : ((step senv cenv s e).1.client.crashed = true ∨ (step senv cenv s e).1.InStep) ∧
          ∀ o ∈ (step senv cenv s e).2, o.Prompt := by
        cases e with
        | server call => exact ⟨.inr (inStep_server hcross hmtu cenv h hdata), by simp [step]⟩
        | arrive wan now τ => exact inStep_arrive hP senv h wan now τ
        | client call hlocal => exact inStep_client senv h hlocal
      exact ⟨hnext.1, List.forall_mem_append.mpr ⟨hout, hnext.2⟩⟩
  have hstart : (s.client.crashed = true ∨ s.InStep) ∧ ∀ o ∈ ([] : List (ClientOut P)), o.Prompt :=
    ⟨.inr hstep, by simp⟩
  have hrun := Run.exec_induct_outputs hkeep hstart hdata
  rw [List.nil_append] at hrun
  exact hrun.2

end

end Downlink

/-! ### A small downlink -/

/-- A JSON library with a short text for the small announce. -/
def smallTextJson : AnnounceCodec ℚ where
  marshal a := if a = smallAnnounce then stringBytes "off" else []
  unmarshal b := if b = stringBytes "off" then some smallAnnounce else none

def smallTextClientEnv : ClientEnv ℚ smallPrimitives := { smallClientEnv with json := smallTextJson }

def smallTextServerEnv : ServerEnv ℚ smallPrimitives :=
  { smallServerEnv with ann := smallTextJson.marshal smallAnnounce }

/-- The key that the small client and a server with key 9 agree on. -/
def smallAgreedAEAD : AEAD smallPrimitives :=
  (Client.sessionKey smallTextClientEnv 5 ((smallKey 9).pub smallPrimitives)).getD smallBaseAEAD

theorem smallServer_codec (h : smallServerEnv.fecParams.enabled = true) :
    (none : Option ℕ).isSome = true ∧ none = smallCodes.new
      smallServerEnv.fecParams.withDefaults.dataShards
      smallServerEnv.fecParams.withDefaults.parityShards :=
  absurd h (by decide)

/-- The small client and its session, before the first acknowledgement. -/
def smallDownlink : Downlink ℚ smallCodes smallPrimitives where
  server :=
    { sess := newServerSession 0 5 smallAgreedAEAD
        (freshEncoder smallServerEnv.fecParams none smallServer_codec)
        ((smallKey 9).pub smallPrimitives)
      st := none }
  client := smallClient

/-- The session answers a handshake and relays a datagram; both arrive. -/
def smallFirstDatagram : List (DownlinkEvent ℚ) :=
  [.server (.first 0 1 ⟨"192.0.2.1", 40000⟩ (putUint32 100)), .arrive 0 0 IterOrder.plain,
    .server (.egress 0 0 0 [9]), .arrive 0 0 IterOrder.plain]

/-- The frame with the datagram: its number is 2. -/
def smallFirstFrame : Frame :=
  { version := protocolVersion, flags := flagPassSeq, sessionID := 5, seq := 2, payload := [9] }

set_option maxRecDepth 2000

/-- **The first datagram of the inner peer stalls**: nothing is lost or reordered, but the
acknowledgement took the number that the buffer waits for. -/
theorem Downlink.first_datagram_stalls :
    newClient smallCodes smallTextClientEnv 5 = .ok smallDownlink.client ∧
      (Run.exec (step smallTextServerEnv smallTextClientEnv) smallDownlink smallFirstDatagram).queue =
        [] ∧ (Run.outputs (step smallTextServerEnv smallTextClientEnv) smallDownlink
        smallFirstDatagram).flatten = [.pushed [smallFirstFrame] []] :=
  ⟨(newClient_of_cfg smallTextClientEnv smallClientEnv rfl 5).trans newClient_small,
    by with_unfolding_all decide⟩

/-- The gap timer skips the missing number. -/
def smallSkipped : Downlink ℚ smallCodes smallPrimitives :=
  Run.exec (Downlink.step smallTextServerEnv smallTextClientEnv) smallDownlink
    (smallFirstDatagram ++
      [.client (.fecTick (100 * millisecond) IterOrder.plain IterOrder.plain) rfl])

theorem inStep_smallSkipped : smallSkipped.InStep := by
  have hqueue : smallSkipped.queue = [] := by with_unfolding_all decide
  have hreplay : smallSkipped.client.sess.replay =
      ((ReplayWindow.new defaultReplayWindow).checkAndMark 2).1 := by with_unfolding_all decide
  refine { id := ?_, key := ?_, encoder := ?_, decoders := ?_, address := ?_, gap := ?_, bound := ?_
           pending := AList.ext (List.isEmpty_iff.mp ?_), flight := ⟨2, ?_, ?_, ?marks, ?frames⟩ }
  case marks =>
    rw [hreplay]
    exact (ReplayWindow.atMost_new defaultReplayWindow 0).next (by decide)
  case frames =>
    rw [hqueue]
    trivial
  all_goals with_unfolding_all decide

/-- Two more datagrams are relayed and arrive, the second one after a turn of the codecs. -/
def smallMoreDatagrams : List (DownlinkEvent ℚ) :=
  [.server (.egress 0 0 0 [7]), .server (.egress 0 0 0 [8]), .arrive 0 0 IterOrder.plain,
    .client (.fecTick (200 * millisecond) IterOrder.plain IterOrder.plain) rfl,
    .arrive 1 0 IterOrder.plain]

theorem Downlink.never_stalls_small :
    ((Run.outputs (step smallTextServerEnv smallTextClientEnv) smallSkipped
      smallMoreDatagrams).flatten.filter fun o => o matches .pushed [_] [_]).length = 2 ∧
    ∀ o ∈ (Run.outputs (step smallTextServerEnv smallTextClientEnv) smallSkipped
      smallMoreDatagrams).flatten, o.Prompt := by
  refine ⟨?_, never_stalls smallTextServerEnv lawful_smallPrimitives rfl (by decide)
    inStep_smallSkipped ⟨⟨by decide, ?_⟩, ⟨by decide, ?_⟩, trivial, trivial, trivial, trivial⟩⟩
  all_goals with_unfolding_all decide

end FlexBraid
