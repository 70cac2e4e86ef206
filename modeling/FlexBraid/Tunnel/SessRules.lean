import FlexBraid.Tunnel.ServerSession

/-!
# Proof rules for the programs of a session

An invariant of a session has to be checked at every action of every program of the
server.  Most actions touch neither the numbers nor the encoder nor the keys
(`SessView.Still`); for the others `SessRules` lists what an invariant has to say, and
the triples of all programs follow.  A goroutine owns what the invariant lets it own:
a number that it was given, a frame that the encoder returned, a frame that is ready
to be sent.

## Main definitions

* `SessView.Still` — the actions that no invariant about frames notices.
* `SessRules` — the rules for the others.
* `SessCall`, `SessView.step` — the goroutines of the server on one session.
* `SessActions` — a relation that every action keeps.

## Main results

* `SessRules.owns_body` — **the triples of all programs follow from the rules.**
-/

namespace FlexBraid

variable {F C : Type} [Float64 F] {RS : ReedSolomon C} {P : Primitives}

/-- What an action does to a session when it does not number, code or seal a frame. -/
inductive SessView.Still (env : ServerEnv F P) (v : SessView F RS P) : SessView F RS P → Prop
  | refl : Still env v v
  | replay (seq : UInt32) :
    Still env v { v with sess := { v.sess with replay := (v.sess.replay.checkAndMark seq).1 } }
  | touch (now : Time) : Still env v { v with sess := { v.sess with lastSeen := now } }
  | register (now : Time) (ua : UDPAddr) (payload : Bytes) :
    Still env v (v.registerPath env now ua payload)
  | observe (now : Time) (pathKey : String) : Still env v (v.observeKeepalive env now pathKey)
  | pick (draw : F) : Still env v (v.pickPath env draw).2
  | pickCross : Still env v (v.pickCrossPath env).2

open Prog Server

/-- What an invariant of a session says about the actions that number, code or seal
frames: what the holder of a number, of a frame from the encoder and of a frame that is
ready to be sent owns, and the triples of these actions. -/
structure SessRules (env : ServerEnv F P) {M : Type} [AddCommMonoid M]
    (Inv : SessView F RS P → List (ServerOut P) → M → Prop) (num : UInt32 → M)
    (coded ready : Frame → M) : Prop where
  quiet : ∀ {v v' out m}, v.Still env v' → Inv v out m → Inv v' out m
  nextSeq : Owns Inv (fun q m => m = num q) Server.nextSeq 0
  /-- A parity frame is numbered when it is sent, ... -/
  number : ∀ f, f.hasFlag flagFECParity = true →
    Owns Inv (fun q m => m = ready { f with seq := q }) Server.nextSeq (coded f)
  /-- ... a data frame has its number. -/
  data : ∀ f, f.hasFlag flagFECParity = false → coded f = ready f
  push : ∀ now start id seq payload, Owns Inv (fun frames m => m = (frames.map coded).sum)
    (encPush now start { sessionID := id, seq := seq, payload := payload }) (num seq)
  tick : ∀ now, Owns Inv (fun frames m => m = (frames.map coded).sum)
    (Prog.atomic fun v => ((v.sess.enc.tick now).2,
      { v with sess := { v.sess with enc := (v.sess.enc.tick now).1 } }, [])) 0
  setLossRate : ∀ now rate, Owns Inv (fun _ _ => True) (setLossRate now rate) 0
  stamp : ∀ addr f, Owns Inv (fun f' m => m = ready f') (stampPass env addr f) (ready f)
  send : ∀ addr f, Owns Inv (fun _ _ => True) (sendToAddr addr f) (ready f)
  pong : ∀ ua ts, Owns Inv (fun _ _ => True) (sendPong ua ts) 0
  ack : ∀ ua, Owns Inv (fun _ _ => True) (sendAck env ua) 0

/-- What the goroutines of the server do with one session: the receive loop accepts its
handshakes and frames, its egress reader relays, the tick loops flush its encoder and
feed it losses, and the monitors and the sweep change its paths. -/
inductive SessCall (F : Type) where
  | first (now : Time) (seq : UInt32) (ua : UDPAddr) (payload : Bytes)
  | data (now : Time) (seq : UInt32) (addr : Addr) (plain : Bytes)
  | egress (now start : Time) (draw : F) (payload : Bytes)
  | fecTick (now : Time) (draw : F)
  | setLossRate (now : Time) (rate : F)
  | paths (st : Option (SessState F))

def SessCall.body (env : ServerEnv F P) : SessCall F → SessProg RS F P Unit
  | .first now seq ua payload => Server.acceptFirst env now seq ua payload
  | .data now seq addr plain => do
    let _ ← Server.acceptData env now seq addr plain
    pure ()
  | .egress now start draw payload => Server.egressRead env now start draw payload
  | .fecTick now draw => Server.fecTick env now draw
  | .setLossRate now rate => Server.setLossRate now rate
  | .paths st => Prog.modify fun v => { v with st := st }

/-- One event of the goroutines `T` of the server on one session. -/
def SessView.step (env : ServerEnv F P) {T : Type} [DecidableEq T] :
    Pool T (SessView F RS P) (ServerOut P) → Pool.Event T (SessCall F) →
      Pool T (SessView F RS P) (ServerOut P) × List (ServerOut P) :=
  Pool.step (fun _ => false) fun _ c => c.body env

namespace SessRules

variable {env : ServerEnv F P} {M : Type} [AddCommMonoid M]
  {Inv : SessView F RS P → List (ServerOut P) → M → Prop} {num : UInt32 → M}
  {coded ready : Frame → M} (h : SessRules env Inv num coded ready)
include h

theorem owns_of_still {α : Type} {p : SessProg RS F P α}
    (hp : p.Keeps fun v out v' => out = [] ∧ v.Still env v') (m : M) :
    Owns Inv (fun _ m' => m' = m) p m := by
  refine owns_of_keeps ?_ hp m
  rintro v _ v' out m ⟨rfl, hstill⟩ hinv
  rw [List.append_nil]
  exact h.quiet hstill hinv

/-! ### The senders -/

theorem owns_numberParity (f : Frame) :
    Owns Inv (fun f' m => m = ready f') (numberParity f : SessProg RS F P Frame) (coded f) := by
  rw [numberParity]
  split
  · next hparity =>
    refine (h.number f hparity).bind ?_
    rintro seq m rfl
    exact owns_pure rfl
  · next hparity => exact owns_pure (h.data f (Bool.not_eq_true _ ▸ hparity))

theorem owns_addrFor (oneAddr : Option UDPAddr) (m : M) :
    Owns Inv (fun _ m' => m' = m) (addrFor env oneAddr : SessProg RS F P (Option UDPAddr)) m := by
  refine h.owns_of_still ?_ m
  rw [addrFor]
  split
  · exact keeps_atomic fun v => ⟨rfl, .pickCross⟩
  · exact keeps_pure _

theorem owns_sendFrame (oneAddr : Option UDPAddr) (f : Frame) :
    Owns Inv (fun _ _ => True) (sendFrame env oneAddr f : SessProg RS F P Unit) (coded f) := by
  refine (h.owns_numberParity f).bind ?_
  rintro f m rfl
  refine (h.owns_addrFor oneAddr _).bind ?_
  rintro addr m rfl
  split
  · exact owns_pure trivial
  · refine (h.stamp _ f).bind ?_
    rintro f' m rfl
    exact h.send _ f'

theorem owns_sendToSession (draw : F) (frames : List Frame) :
    Owns Inv (fun _ _ => True) (sendToSession env draw frames : SessProg RS F P Unit)
      (frames.map coded).sum := by
  rw [sendToSession]
  split
  · exact owns_pure trivial
  · split
    · exact owns_forM (h.owns_sendFrame none) frames
    · refine (h.owns_of_still (keeps_atomic fun v => ⟨rfl, .pick draw⟩) _).bind ?_
      rintro addr m rfl
      split
      · exact owns_pure trivial
      · exact owns_forM (h.owns_sendFrame _) frames

theorem owns_egressRead (now start : Time) (draw : F) (payload : Bytes) :
    Owns Inv (fun _ _ => True) (egressRead env now start draw payload : SessProg RS F P Unit) 0 := by
  rw [egressRead]
  split
  · exact owns_pure trivial
  · refine (h.owns_of_still (keeps_atomic fun v => ⟨rfl, .refl⟩) 0).bind ?_
    rintro id m rfl
    refine h.nextSeq.bind ?_
    rintro seq m rfl
    refine (h.push now start id seq payload).bind ?_
    rintro frames m rfl
    exact h.owns_sendToSession draw frames

theorem owns_fecTick (now : Time) (draw : F) :
    Owns Inv (fun _ _ => True) (fecTick env now draw : SessProg RS F P Unit) 0 := by
  refine (h.tick now).bind ?_
  rintro frames m rfl
  exact h.owns_sendToSession draw frames

/-! ### Authentic frames -/

theorem owns_checkReplay (seq : UInt32) :
    Owns Inv (fun _ m => m = 0) (checkReplay seq : SessProg RS F P Bool) 0 :=
  h.owns_of_still (keeps_atomic fun _ => ⟨rfl, .replay seq⟩) 0

theorem owns_touch (now : Time) :
    Owns Inv (fun _ m => m = 0) (touch now : SessProg RS F P Unit) 0 :=
  h.owns_of_still (keeps_modify fun _ => ⟨rfl, .touch now⟩) 0

theorem owns_acceptFirst (now : Time) (seq : UInt32) (ua : UDPAddr) (payload : Bytes) :
    Owns Inv (fun _ _ => True) (acceptFirst env now seq ua payload : SessProg RS F P Unit) 0 := by
  refine (h.owns_checkReplay seq).bind ?_
  rintro fresh m rfl
  split
  · refine (h.owns_touch now).bind ?_
    rintro _ m rfl
    refine (h.owns_of_still (keeps_modify fun v => ⟨rfl, .register now ua payload⟩) 0).bind ?_
    rintro _ m rfl
    exact h.ack ua
  · exact owns_pure trivial

theorem owns_refreshPath (now : Time) (addr : Addr) :
    Owns Inv (fun _ m => m = 0) (refreshPath env now addr : SessProg RS F P Unit) 0 := by
  refine h.owns_of_still ?_ 0
  cases addr with
  | udp ua => exact keeps_modify fun v => ⟨rfl, .register now ua []⟩
  | other => exact keeps_pure _

theorem owns_route (now : Time) (addr : Addr) (f : Frame) :
    Owns Inv (fun _ _ => True) (route env now addr f : SessProg RS F P (Option Frame)) 0 := by
  unfold route
  split
  · split
    · exact owns_pure trivial
    · next ua =>
      refine (h.owns_of_still (keeps_modify fun v => ⟨rfl, .observe now ua.toText⟩) 0).bind ?_
      rintro _ m rfl
      exact (h.pong ua f.payload).bind fun _ _ _ => owns_pure trivial
  · split <;> exact owns_pure trivial

theorem owns_acceptData (now : Time) (seq : UInt32) (addr : Addr) (plain : Bytes) :
    Owns Inv (fun _ _ => True) (acceptData env now seq addr plain : SessProg RS F P (Option Frame))
      0 := by
  refine (h.owns_checkReplay seq).bind ?_
  rintro fresh m rfl
  split
  · split
    · exact owns_pure trivial
    · refine (h.owns_touch now).bind ?_
      rintro _ m rfl
      refine (h.owns_refreshPath now addr).bind ?_
      rintro _ m rfl
      exact h.owns_route now addr _
  · exact owns_pure trivial

/-- **The triples of all programs follow from the rules**; an invariant about the paths
has to allow the change that a call makes to them. -/
theorem owns_body (c : SessCall F)
    (hpaths : ∀ st v out m, c = .paths st → Inv v out m → Inv { v with st := st } out m) :
    Owns Inv (fun _ _ => True) (c.body env : SessProg RS F P Unit) 0 := by
  cases c with
  | first now seq ua payload => exact h.owns_acceptFirst now seq ua payload
  | data now seq addr plain =>
    exact (h.owns_acceptData now seq addr plain).bind fun _ _ _ => owns_pure trivial
  | egress now start draw payload => exact h.owns_egressRead now start draw payload
  | fecTick now draw => exact h.owns_fecTick now draw
  | setLossRate now rate => exact h.setLossRate now rate
  | paths st =>
    refine owns_atomic fun v out others hinv => ⟨0, ?_, trivial⟩
    rw [List.append_nil]
    exact hpaths st v out _ rfl hinv

end SessRules

/-! ### Invariants without resources -/

/-- A relation between a session before and after that every action keeps, whoever
takes it. -/
structure SessActions (env : ServerEnv F P)
    (R : SessView F RS P → List (ServerOut P) → SessView F RS P → Prop) : Prop where
  composes : Composes R
  still : ∀ {v v'}, v.Still env v' → R v [] v'
  number : ∀ v, R v [] { v with sess := { v.sess with seq := v.sess.seq + 1 } }
  code : ∀ v enc, R v [] { v with sess := { v.sess with enc := enc } }
  stamp : ∀ v addr f, R v [] (v.stampPathSeq env addr f).2
  send : ∀ v aead plain addr datagram, R v [.sealed v.sess.id aead plain, .send addr datagram] v

namespace SessActions

variable {env : ServerEnv F P} {R : SessView F RS P → List (ServerOut P) → SessView F RS P → Prop}
  (h : SessActions env R)
include h

theorem keeps_sendToAddrKey (addr : UDPAddr) (f : Frame) (aead : AEAD P) :
    (sendToAddrKey addr f aead : SessProg RS F P Unit).Keeps R := by
  rw [sendToAddrKey]
  split
  · exact keeps_pure _
  · split
    · exact keeps_pure _
    · exact keeps_atomic fun v => h.send v _ _ _ _

theorem keeps_sendToAddr (addr : UDPAddr) (f : Frame) :
    (sendToAddr addr f : SessProg RS F P Unit).Keeps R :=
  (keeps_read h.composes _).bind fun _ => h.keeps_sendToAddrKey _ _ _

theorem keeps_nextSeq : (Server.nextSeq : SessProg RS F P UInt32).Keeps R := keeps_atomic h.number

/-- Such a relation to a fixed start is an invariant. -/
theorem rules (v₀ : SessView F RS P) :
    SessRules env (fun v out (_ : Prog.NoShare) => R v₀ out v) (fun _ => 0) (fun _ => 0) fun _ => 0 where
  quiet hstill hR := by
    have hnext := h.composes.append hR (h.still hstill)
    rwa [List.append_nil] at hnext
  nextSeq := h.keeps_nextSeq.owns h.composes v₀ (fun _ _ => rfl) 0
  number _ _ := h.keeps_nextSeq.owns h.composes v₀ (fun _ _ => rfl) 0
  data _ _ := rfl
  push now start id seq payload :=
    Keeps.owns h.composes (keeps_atomic fun v => h.code v _) v₀ (fun _ _ => rfl) 0
  tick now := Keeps.owns h.composes (keeps_atomic fun v => h.code v _) v₀ (fun _ _ => rfl) 0
  setLossRate now rate :=
    Keeps.owns h.composes (keeps_modify fun v => h.code v _) v₀ (fun _ _ => trivial) 0
  stamp addr f := by
    refine Keeps.owns h.composes ?_ v₀ (fun _ _ => rfl) 0
    rw [stampPass]
    split
    · exact keeps_atomic fun v => h.stamp v addr f
    · exact keeps_pure _
  send addr f := (h.keeps_sendToAddr addr f).owns h.composes v₀ (fun _ _ => trivial) 0
  pong ua ts := by
    refine Keeps.owns h.composes ?_ v₀ (fun _ _ => trivial) 0
    exact (keeps_read h.composes _).bind fun _ => h.keeps_nextSeq.bind fun _ => h.keeps_sendToAddr _ _
  ack ua := by
    refine Keeps.owns h.composes ?_ v₀ (fun _ _ => trivial) 0
    exact (keeps_read h.composes _).bind fun _ =>
      h.keeps_nextSeq.bind fun _ => h.keeps_sendToAddrKey _ _ _

theorem run_body (c : SessCall F) (hc : ∀ st, c ≠ .paths st) (v : SessView F RS P) :
    R v (Prog.run (c.body env) v).2.2 (Prog.run (c.body env) v).2.1 := by
  have howns := (h.rules v).owns_body c fun st _ _ _ hst => absurd hst (hc st)
  obtain ⟨-, hrun, -⟩ := howns.run 0 (h.composes.nil v)
  exact hrun

end SessActions

end FlexBraid
