import FlexBraid.Fec.DecoderCalls
import FlexBraid.Tunnel.Client

/-!
# Proof rules for the programs of a client

As for the sessions of the server, an invariant of a client has to be checked at every
action of its goroutines.  Most actions touch neither the numbers nor the encoders, keys,
slots and the delivery buffer (`Client.Still`); for the others `Client.Rules` lists what
an invariant has to say, and the triples of all goroutines follow.

## Main definitions

* `Client.Still`, `Client.Calm` — the actions that no invariant notices.
* `Client.Rules` — the rules for the others.
* `Client.SendRules`, `Client.SlotRules`, `Client.RecvRules` — the same for the senders and the
  receivers apart, and for an invariant that minds which encoders are used.
* `Client.SendActions`, `Client.RecvActions`, `Client.Actions` — a relation that the senders
  keep, the receivers, or every action but those of the delivery buffer.

## Main results

* `Client.SlotRules.owns_body`, `Client.Rules.owns_body` — **the triples of all goroutines
  follow from the rules.**
-/

namespace FlexBraid

def WanLink.slots {F : Type} (w : WanLink F) : Option ℕ × Option ℕ := (w.enc, w.dec)

namespace Client

variable {F C : Type} {RS : ReedSolomon C} {P : Primitives}

/-- What an action leaves alone that does not number, code, seal or deliver a frame and
is not part of the key exchange. -/
structure Still (c c' : Client F RS P) : Prop where
  id : c'.sess.id = c.sess.id
  seq : c'.sess.seq = c.sess.seq
  replay : c'.sess.replay = c.sess.replay ∨
    ∃ seq, c'.sess.replay = (c.sess.replay.checkAndMark seq).1
  encs : c'.encs = c.encs
  delivery : c'.delivery = c.delivery
  sessAEAD : c'.sessAEAD = c.sessAEAD
  crossPath : c'.crossPath = c.crossPath
  xenc : c'.xenc = c.xenc
  xdec : c'.xdec = c.xdec
  slots : c'.wans.map WanLink.slots = c.wans.map WanLink.slots

theorem Still.refl (c : Client F RS P) : c.Still c :=
  ⟨rfl, rfl, .inl rfl, rfl, rfl, rfl, rfl, rfl, rfl, rfl⟩

/-- What an action leaves alone that does not check the number of a frame either;
decoders without coding stay so. -/
structure Calm (c c' : Client F RS P) : Prop extends Still c c' where
  window : c'.sess.replay = c.sess.replay
  off : (∀ d ∈ c.decs, d.params.enabled = false) → ∀ d ∈ c'.decs, d.params.enabled = false

theorem Calm.refl (c : Client F RS P) : c.Calm c := ⟨.refl c, rfl, fun h => h⟩

/-- A program of still actions. -/
abbrev Quiet {α : Type} (p : CliProg RS F P α) : Prop :=
  p.Keeps fun c out c' => out = [] ∧ c.Still c'

/-- A program of calm actions. -/
abbrev Calmly {α : Type} (p : CliProg RS F P α) : Prop :=
  p.Keeps fun c out c' => out = [] ∧ c.Calm c'

open Prog

/-! ### Calm programs -/

theorem Calmly.quiet {α : Type} {p : CliProg RS F P α} (h : Calmly p) : Quiet p :=
  h.mono fun _ _ _ h => ⟨h.1, h.2.toStill⟩

theorem calm_read {α : Type} (f : Client F RS P → α) : Calmly (Prog.read f : CliProg RS F P α) :=
  keeps_atomic fun c => ⟨rfl, .refl c⟩

theorem map_slots_modify (wans : List (WanLink F)) (i : ℕ) {f : WanLink F → WanLink F}
    (hf : ∀ w, (f w).slots = w.slots) :
    (wans.modify i f).map WanLink.slots = wans.map WanLink.slots := by
  refine List.ext_getElem? fun j => ?_
  rw [List.getElem?_map, List.getElem?_map, List.getElem?_modify]
  split
  · rw [Option.map_eq_map, Option.map_map, show WanLink.slots ∘ f = WanLink.slots from funext hf]
  · simp

theorem calm_updateWan (i : ℕ) {f : WanLink F → WanLink F} (hf : ∀ w, (f w).slots = w.slots) :
    Calmly (updateWan i f : CliProg RS F P Unit) :=
  keeps_modify fun c => ⟨rfl, { Calm.refl c with slots := map_slots_modify c.wans i hf }⟩

theorem calm_updateHealth (i : ℕ) (f : Monitor F → Monitor F) :
    Calmly (updateHealth i f : CliProg RS F P Unit) := calm_updateWan i fun _ => rfl

theorem calm_touch (i : ℕ) (now : Time) : Calmly (touch i now : CliProg RS F P Unit) :=
  calm_updateWan i fun _ => rfl

theorem calm_panic : Calmly (panic : CliProg RS F P Unit) :=
  keeps_modify fun c => ⟨rfl, { Calm.refl c with }⟩

/-- The codec in a slot, and what a call of it returns. -/
theorem get_of_slot {α β : Type} {slot : Option ℕ} {l : List α} {call : α → β} {i : ℕ} {b : β}
    (h : (slot.bind fun i => (l[i]?).map fun a => (i, call a)) = some (i, b)) :
    slot = some i ∧ ∃ a, l[i]? = some a ∧ call a = b := by
  obtain ⟨j, hj, hget⟩ := Option.bind_eq_some_iff.mp h
  obtain ⟨a, ha, heq⟩ := Option.map_eq_some_iff.mp hget
  cases heq
  exact ⟨hj, a, ha, rfl⟩

theorem calm_setDec {c : Client F RS P} {i : ℕ} {d d' : Decoder F C} (hget : c.decs[i]? = some d)
    (hoff : d.params.enabled = false → d'.params.enabled = false) :
    c.Calm { c with decs := c.decs.set i d' } := by
  refine { Calm.refl c with off := fun h e he => ?_ }
  rcases List.mem_or_eq_of_mem_set he with he | rfl
  · exact h e he
  · exact hoff (h d (List.mem_of_getElem? hget))

theorem calm_useDec (slot : Option ℕ) (call : Decoder.Call) :
    Calmly (useDec slot call : CliProg RS F P (List Frame)) := by
  refine keeps_atomic fun c => ?_
  split
  · next i d frames hslot =>
    obtain ⟨-, d₀, hget, hdecoder⟩ := get_of_slot hslot
    exact ⟨rfl, calm_setDec hget fun hoff => (Decoder.off_step RS hoff hdecoder).1⟩
  · exact ⟨rfl, { Calm.refl c with }⟩

theorem calm_takeStats (slot : Option ℕ) {take : Decoder F C → Decoder F C × ℕ × ℕ}
    (htake : ∀ d, (take d).1.params = d.params) :
    Calmly (takeStats slot take : CliProg RS F P (ℕ × ℕ)) := by
  refine keeps_atomic fun c => ?_
  split
  · exact ⟨rfl, { Calm.refl c with }⟩
  · next i d stats hslot =>
    obtain ⟨-, d₀, hget, hdecoder⟩ := get_of_slot hslot
    refine ⟨rfl, calm_setDec hget fun hoff => ?_⟩
    rw [← hoff, ← htake d₀, hdecoder]

theorem calm_roam (addr : UDPAddr) : Calmly (roam addr : CliProg RS F P Unit) := by
  refine (calm_read _).bind fun prev => ?_
  split
  · exact keeps_pure _
  · exact keeps_modify fun c => ⟨rfl, { Calm.refl c with }⟩

theorem calm_handlePong (i : ℕ) (now : Time) (f : Frame) :
    Calmly (handlePong i now f : CliProg RS F P Unit) := by
  rw [handlePong]
  split
  · exact keeps_pure _
  · exact calm_updateWan i fun _ => rfl

theorem quiet_openAndVerify (hdr : Frame) (datagram : Bytes) :
    Quiet (openAndVerify hdr datagram : CliProg RS F P (Option Frame)) := by
  refine (calm_read _).quiet.bind fun id => ?_
  split
  · exact keeps_pure _
  · refine (calm_read _).quiet.bind fun aead => ?_
    split
    · exact keeps_pure _
    · unfold verify
      split
      · exact keeps_pure _
      · split
        · exact keeps_pure _
        · next f _ =>
          refine Keeps.bind (keeps_atomic fun c => ?_) fun _ => keeps_pure _
          exact ⟨rfl, { Still.refl c with replay := .inr ⟨f.seq, rfl⟩ }⟩

section
variable [Float64 F]

theorem calm_bookProbe (env : ClientEnv F P) (i : ℕ) (now : Time) :
    Calmly (bookProbe env i now : CliProg RS F P Unit) := by
  refine (calm_read _).bind fun probe => ?_
  split
  · refine (calm_read _).bind fun lastRx => ?_
    split
    · exact (calm_updateHealth i _).bind fun _ => calm_updateHealth i _
    · exact calm_updateHealth i _
  · exact calm_updateHealth i _

theorem calm_tickHealth (i : ℕ) (now : Time) : Calmly (tickHealth i now : CliProg RS F P Unit) :=
  (calm_updateHealth i _).bind fun _ => keeps_modify fun c => ⟨rfl, { Calm.refl c with }⟩

end

/-! ### The rules -/

theorem owns_encoderCall {M : Type} [AddCommMonoid M]
    {Inv : Client F RS P → List (ClientOut P) → M → Prop} {Q : List Frame → M → Prop} {m : M}
    {slot : Option ℕ} {call : Encoder F RS → Encoder F RS × List Frame}
    (hpanic : ∀ c out others, Inv c out (m + others) →
      ∃ m', Inv { c with crashed := true } out (m' + others) ∧ Q [] m')
    (hcall : ∀ c i e out others, slot = some i → c.encs[i]? = some e → Inv c out (m + others) →
      ∃ m', Inv { c with encs := c.encs.set i (call e).1 } (out ++ [.coded i (call e).2])
        (m' + others) ∧ Q (call e).2 m') :
    Owns Inv Q (useEnc slot call : CliProg RS F P (List Frame)) m := by
  refine owns_atomic fun c out others hinv => ?_
  split
  · rw [List.append_nil]
    exact hpanic c out others hinv
  · next i e hslot =>
    obtain ⟨hi, _, he, rfl⟩ := get_of_slot hslot
    exact hcall c i _ out others hi he hinv

variable [Float64 F]

/-- What an invariant of a client says about the actions that number, code and seal frames, but for
the datagrams of the inner peer: what the holder of a number, of a frame from an encoder and of a
frame that is ready to be sent owns, and the triples of these actions. -/
structure SendRules (env : ClientEnv F P) {M : Type} [AddCommMonoid M]
    (Inv : Client F RS P → List (ClientOut P) → M → Prop) (num : UInt32 → M)
    (coded ready : Frame → M) : Prop where
  calm : ∀ {c c' out m}, Calm c c' → Inv c out m → Inv c' out m
  nextSeq : Owns Inv (fun q m => m = num q) nextSeq 0
  number : ∀ f, f.hasFlag flagFECParity = true →
    Owns Inv (fun q m => m = ready { f with seq := q }) Client.nextSeq (coded f)
  data : ∀ f, f.hasFlag flagFECParity = false → coded f = ready f
  tick : ∀ slot now, Owns Inv (fun frames m => m = (frames.map coded).sum)
    (useEnc slot fun e => e.tick now) 0
  setLossRate : ∀ slot now loss, Owns Inv (fun _ _ => True)
    (useEnc slot fun e => (e.setLossRate now loss, [])) 0
  stamp : ∀ i f, Owns Inv (fun f' m => m = ready f') (stampPass i f) (ready f)
  send : ∀ i f aead, Owns Inv (fun _ _ => True) (transmit i f aead) (ready f)
  handshake : ∀ i, Owns Inv (fun _ _ => True) (handshake env i) 0
  probe : ∀ i now, Owns Inv (fun _ _ => True) (keepaliveSend i now) 0

/-- The rules for all senders, for an invariant that minds to which encoder the datagrams
of the inner peer go: who has seen the session key owns `published`, and who has read a
slot after that owns `held` of it. -/
structure SlotRules (env : ClientEnv F P) {M : Type} [AddCommMonoid M]
    (Inv : Client F RS P → List (ClientOut P) → M → Prop) (num : UInt32 → M)
    (coded ready : Frame → M) (published : M) (held : Option ℕ → M) : Prop
    extends SendRules env Inv num coded ready where
  key : Owns Inv (fun aead m => aead = none ∨ m = published) getSessionAEAD 0
  crossSlot : Owns Inv (fun slot m => m = if slot.1 then held slot.2 else published)
    (Prog.read fun c => (c.crossPath, c.xenc)) published
  wanSlot : ∀ i : ℕ, Owns Inv (fun slot m => m = held slot)
    (Prog.read fun c => (c.wans[i]?).bind WanLink.enc) published
  push : ∀ slot now start id seq payload, Owns Inv (fun frames m => m = (frames.map coded).sum)
    (useEnc slot fun e => e.push now start { sessionID := id, seq := seq, payload := payload })
    (held slot + num seq)

/-- The rules for the key exchange and the deliveries.  `Arrived` are the datagrams that come in. -/
structure RecvRules (env : ClientEnv F P) {M : Type} [AddCommMonoid M]
    (Inv : Client F RS P → List (ClientOut P) → M → Prop) (Arrived : Bytes → Prop) : Prop where
  quiet : ∀ {c c' out m}, Still c c' → Inv c out m → Inv c' out m
  ack : ∀ d hdr, Arrived d → Frame.decodeHeader d = .ok hdr → hdr.hasFlag flagKex = true →
    Owns Inv (fun _ _ => True) (handleKexAck env d) 0
  deliver : ∀ now τ frames, Owns Inv (fun _ _ => True) (deliverPush now τ frames) 0
  skip : ∀ now τ, Owns Inv (fun _ _ => True) (deliverTick now τ) 0

/-- All rules, for an invariant that does not mind the slots. -/
structure Rules (env : ClientEnv F P) {M : Type} [AddCommMonoid M]
    (Inv : Client F RS P → List (ClientOut P) → M → Prop) (num : UInt32 → M)
    (coded ready : Frame → M) (Arrived : Bytes → Prop) : Prop
    extends RecvRules env Inv Arrived, SendRules env Inv num coded ready where
  calm hcalm hinv := quiet hcalm.toStill hinv
  push : ∀ slot now start id seq payload, Owns Inv (fun frames m => m = (frames.map coded).sum)
    (useEnc slot fun e => e.push now start { sessionID := id, seq := seq, payload := payload })
    (num seq)

def Call.Brings (Arrived : Bytes → Prop) : Call F → Prop
  | .recv _ _ _ d => Arrived d
  | _ => True

/-! ### The senders -/

namespace SendRules

variable {env : ClientEnv F P} {M : Type} [AddCommMonoid M]
  {Inv : Client F RS P → List (ClientOut P) → M → Prop} {num : UInt32 → M}
  {coded ready : Frame → M} (h : SendRules env Inv num coded ready)
include h

theorem owns_of_calm {α : Type} {p : CliProg RS F P α} (hp : Calmly p) (m : M) :
    Owns Inv (fun _ m' => m' = m) p m := by
  refine owns_of_keeps ?_ hp m
  rintro c _ c' out m ⟨rfl, hcalm⟩ hinv
  rw [List.append_nil]
  exact h.calm hcalm hinv

theorem owns_numberParity (f : Frame) :
    Owns Inv (fun f' m => m = ready f') (numberParity f : CliProg RS F P Frame) (coded f) := by
  rw [numberParity]
  split
  · next hparity =>
    refine (h.number f hparity).bind ?_
    rintro seq m rfl
    exact owns_pure rfl
  · next hparity => exact owns_pure (h.data f (Bool.not_eq_true _ ▸ hparity))

theorem owns_sendLocked (i : ℕ) (f : Frame) (aead : AEAD P) :
    Owns Inv (fun _ _ => True) (sendLocked i f aead : CliProg RS F P Unit) (ready f) := by
  refine (h.stamp i f).bind ?_
  rintro f' m rfl
  exact h.send i f' aead

theorem owns_sendFrame (i : ℕ) (aead : AEAD P) (f : Frame) :
    Owns Inv (fun _ _ => True) (sendFrame i aead f : CliProg RS F P Unit) (coded f) := by
  refine (h.owns_numberParity f).bind ?_
  rintro f m rfl
  exact h.owns_sendLocked i f aead

theorem owns_sendEncoded (i : ℕ) (frames : List Frame) :
    Owns Inv (fun _ _ => True) (sendEncoded i frames : CliProg RS F P Unit)
      (frames.map coded).sum := by
  refine (h.owns_of_calm (calm_read _) _).bind ?_
  rintro aead m rfl
  split
  · exact owns_pure trivial
  · exact owns_forM (h.owns_sendFrame i _) frames

theorem owns_onWan (id : String) {p : ℕ → CliProg RS F P Unit} {m : M}
    (hp : ∀ i, Owns Inv (fun _ _ => True) (p i) m) : Owns Inv (fun _ _ => True) (onWan id p) m := by
  refine (h.owns_of_calm (calm_read _) _).bind ?_
  rintro i m rfl
  split
  · exact (h.owns_of_calm calm_panic _).mono fun _ _ _ => trivial
  · exact hp _

theorem owns_pick {α : Type} (pick : Scheduler F → α × Scheduler F) (m : M) :
    Owns Inv (fun _ m' => m' = m) (Prog.atomic fun c : Client F RS P =>
      ((pick c.sched).1, { c with sched := (pick c.sched).2 }, [])) m :=
  h.owns_of_calm (keeps_atomic fun c => ⟨rfl, { Calm.refl c with }⟩) m

theorem owns_sendCrossFrame (aead : AEAD P) (f : Frame) :
    Owns Inv (fun _ _ => True) (sendCrossFrame aead f : CliProg RS F P Unit) (coded f) := by
  refine (h.owns_numberParity f).bind ?_
  rintro f m rfl
  refine (h.owns_pick (fun sched => sched.pickWRR.swap) _).bind ?_
  rintro id m rfl
  split
  · exact owns_pure trivial
  · exact h.owns_onWan _ fun i => h.owns_sendLocked i f aead

theorem owns_sendCrossEncoded (frames : List Frame) :
    Owns Inv (fun _ _ => True) (sendCrossEncoded frames : CliProg RS F P Unit)
      (frames.map coded).sum := by
  refine (h.owns_of_calm (calm_read _) _).bind ?_
  rintro aead m rfl
  split
  · exact owns_pure trivial
  · exact owns_forM (h.owns_sendCrossFrame _) frames

theorem owns_keepaliveTick (i : ℕ) (now : Time) :
    Owns Inv (fun _ _ => True) (keepaliveTick env i now : CliProg RS F P Unit) 0 := by
  refine (h.owns_of_calm (calm_bookProbe env i now) 0).bind ?_
  rintro _ m rfl
  exact h.probe i now

theorem owns_fecTick (now : Time) (σ : IterOrder BlockKey) (τ : IterOrder UInt32)
    (hdecode : ∀ slot, Owns Inv (fun _ _ => True)
      (useDec slot (.tick σ now) >>= deliverPush now τ : CliProg RS F P Unit) 0)
    (hskip : Owns Inv (fun _ _ => True) (deliverTick now τ : CliProg RS F P Unit) 0) :
    Owns Inv (fun _ _ => True) (fecTick now σ τ : CliProg RS F P Unit) 0 := by
  have hrest : ∀ {p : CliProg RS F P Unit}, Owns Inv (fun _ _ => True) p 0 →
      ∀ m, Owns Inv (fun _ _ => True) p m := by
    intro p hp m
    rw [← zero_add m]
    exact hp.weaken m
  have hwan : ∀ i, Owns Inv (fun _ _ => True) (tickWan now σ τ i : CliProg RS F P Unit) 0 := by
    intro i
    refine (h.owns_of_calm (calm_read _) 0).bind ?_
    rintro slots m rfl
    refine (h.tick _ now).bind ?_
    rintro frames m rfl
    exact (h.owns_sendEncoded i frames).bind fun _ m _ => hrest (hdecode _) m
  have hcross : ∀ xenc xdec, Owns Inv (fun _ _ => True)
      (tickCross now σ τ xenc xdec : CliProg RS F P Unit) 0 := by
    intro xenc xdec
    refine (h.tick _ now).bind ?_
    rintro frames m rfl
    exact (h.owns_sendCrossEncoded frames).bind fun _ m _ => hrest (hdecode _) m
  have hcodecs : Owns Inv (fun _ _ => True) (tickCodecs now σ τ : CliProg RS F P Unit) 0 := by
    refine (h.owns_of_calm (calm_read _) 0).bind ?_
    rintro c m rfl
    split
    · exact hcross _ _
    · exact owns_forM_zero hwan _
  exact hcodecs.bind fun _ m _ => hrest hskip m

theorem owns_healthTickWan (now : Time) (i : ℕ) :
    Owns Inv (fun _ _ => True) (healthTickWan now i : CliProg RS F P Unit) 0 := by
  refine (h.owns_of_calm (calm_read _) 0).bind ?_
  rintro wan m rfl
  refine (h.owns_of_calm (calm_takeStats _ fun _ => rfl) 0).bind ?_
  rintro inBand m rfl
  refine (h.owns_of_calm (calm_updateHealth i _) 0).bind ?_
  rintro _ m rfl
  refine (h.owns_of_calm (calm_takeStats _ fun _ => rfl) 0).bind ?_
  rintro raw m rfl
  refine (h.owns_of_calm (calm_updateHealth i _) 0).bind ?_
  rintro _ m rfl
  have hfeed : Owns Inv (fun _ _ => True) (feedLoss i now wan.2.2.1 : CliProg RS F P Unit) 0 := by
    refine (h.owns_of_calm (calm_read _) 0).bind ?_
    rintro loss m rfl
    exact (h.setLossRate _ now loss).bind fun _ _ _ => owns_pure trivial
  refine hfeed.bind ?_
  rintro _ m -
  exact (h.owns_of_calm (calm_tickHealth i now) m).mono fun _ _ _ => trivial

theorem owns_healthTick (now : Time) :
    Owns Inv (fun _ _ => True) (healthTick now : CliProg RS F P Unit) 0 := by
  refine (h.owns_of_calm (calm_read _) 0).bind ?_
  rintro n m rfl
  exact owns_forM_zero (h.owns_healthTickWan now) _

theorem slotRules (hpush : ∀ slot now start id seq payload,
      Owns Inv (fun frames m => m = (frames.map coded).sum)
        (useEnc slot fun e => e.push now start { sessionID := id, seq := seq, payload := payload })
        (num seq)) : SlotRules env Inv num coded ready 0 (fun _ => 0) := by
  refine { h with key := ?_, crossSlot := ?_, wanSlot := fun _ => ?_, push := ?_ }
  · exact (h.owns_of_calm (calm_read _) 0).mono fun _ _ => .inr
  · refine (h.owns_of_calm (calm_read _) 0).mono ?_
    rintro slot m rfl
    rw [ite_self]
  · exact h.owns_of_calm (calm_read _) 0
  · intro slot now start id seq payload
    rw [zero_add]
    exact hpush slot now start id seq payload

end SendRules

/-! ### The receivers -/

namespace RecvRules

variable {env : ClientEnv F P} {M : Type} [AddCommMonoid M]
  {Inv : Client F RS P → List (ClientOut P) → M → Prop} {Arrived : Bytes → Prop}
  (h : RecvRules env Inv Arrived)
include h

theorem owns_of_quiet {α : Type} {p : CliProg RS F P α} (hp : Quiet p) (m : M) :
    Owns Inv (fun _ m' => m' = m) p m := by
  refine owns_of_keeps ?_ hp m
  rintro c _ c' out m ⟨rfl, hstill⟩ hinv
  rw [List.append_nil]
  exact h.quiet hstill hinv

theorem owns_decode (slot : Option ℕ) (call : Decoder.Call) (now : Time) (τ : IterOrder UInt32) :
    Owns Inv (fun _ _ => True)
      (useDec slot call >>= deliverPush now τ : CliProg RS F P Unit) 0 := by
  refine (h.owns_of_quiet (calm_useDec _ _).quiet 0).bind ?_
  rintro frames m rfl
  exact h.deliver now τ frames

theorem owns_route (i : ℕ) (now : Time) (τ : IterOrder UInt32) (f : Frame) :
    Owns Inv (fun _ _ => True) (route i now τ f : CliProg RS F P Unit) 0 := by
  rw [route]
  split
  · exact (h.owns_of_quiet (calm_handlePong i now f).quiet 0).mono fun _ _ _ => trivial
  · split
    · exact owns_pure trivial
    · refine (h.owns_of_quiet (calm_read _).quiet 0).bind ?_
      rintro wan m rfl
      exact h.owns_decode _ _ now τ

theorem owns_recvFrame (i : ℕ) (now : Time) (τ : IterOrder UInt32) (hdr : Frame) (datagram : Bytes) :
    Owns Inv (fun _ _ => True) (recvFrame i now τ hdr datagram : CliProg RS F P Unit) 0 := by
  refine (h.owns_of_quiet (quiet_openAndVerify hdr datagram) 0).bind ?_
  rintro f m rfl
  split
  · exact owns_pure trivial
  · refine (h.owns_of_quiet (calm_touch i now).quiet 0).bind ?_
    rintro _ m rfl
    exact h.owns_route i now τ _

theorem owns_recv (i : ℕ) (now : Time) (τ : IterOrder UInt32) {datagram : Bytes}
    (harrived : Arrived datagram) :
    Owns Inv (fun _ _ => True) (recv env i now τ datagram : CliProg RS F P Unit) 0 := by
  rw [recv]
  split
  · exact owns_pure trivial
  · next hdr hhdr =>
    refine (h.owns_of_quiet (calm_read _).quiet 0).bind ?_
    rintro id m rfl
    split
    · next hkex =>
      refine (h.ack datagram hdr harrived hhdr (Bool.and_eq_true_iff.mp hkex).2).bind ?_
      rintro ok m -
      split
      · exact (h.owns_of_quiet (calm_touch i now).quiet m).mono fun _ _ _ => trivial
      · exact owns_pure trivial
    · exact h.owns_recvFrame i now τ hdr datagram

end RecvRules

/-! ### All goroutines -/

namespace SlotRules

variable {env : ClientEnv F P} {M : Type} [AddCommMonoid M]
  {Inv : Client F RS P → List (ClientOut P) → M → Prop} {num : UInt32 → M}
  {coded ready : Frame → M} {published : M} {held : Option ℕ → M}
  (h : SlotRules env Inv num coded ready published held)
include h

theorem owns_encode (now start : Time) (draw : F) (id : UInt64) (seq : UInt32) (payload : Bytes) :
    Owns Inv (fun _ _ => True)
      (encode now start draw { sessionID := id, seq := seq, payload := payload } :
        CliProg RS F P Unit) (published + num seq) := by
  have hsend := h.toSendRules
  refine (h.crossSlot.frame (num seq)).bind ?_
  rintro cross _ ⟨m, rfl, rfl⟩
  split
  · refine (h.push _ now start id seq payload).bind ?_
    rintro frames m rfl
    split
    · exact owns_pure trivial
    · exact hsend.owns_sendCrossEncoded frames
  · refine (hsend.owns_pick (fun sched => (sched.pick payload draw).swap) _).bind ?_
    rintro wan m rfl
    split
    · exact owns_pure trivial
    · refine hsend.owns_onWan _ fun i => ?_
      refine ((h.wanSlot i).frame (num seq)).bind ?_
      rintro slot _ ⟨m, rfl, rfl⟩
      refine (h.push slot now start id seq payload).bind ?_
      rintro frames m rfl
      exact hsend.owns_sendEncoded i frames

theorem owns_ingress (now start : Time) (addr : UDPAddr) (draw : F) (payload : Bytes) :
    Owns Inv (fun _ _ => True) (ingress now start addr draw payload : CliProg RS F P Unit) 0 := by
  have hsend := h.toSendRules
  refine (hsend.owns_of_calm (calm_roam addr) 0).bind ?_
  rintro _ m rfl
  refine (hsend.owns_of_calm (calm_read _) 0).bind ?_
  rintro mtu m rfl
  split
  · exact owns_pure trivial
  · refine h.key.bind ?_
    rintro aead m haead
    split
    · exact owns_pure trivial
    · rcases haead with haead | rfl
      · cases haead
      · refine (hsend.owns_of_calm (calm_read _) _).bind ?_
        rintro id m rfl
        have hseq := hsend.nextSeq.frame m
        rw [zero_add] at hseq
        refine hseq.bind ?_
        rintro seq _ ⟨m₀, rfl, rfl⟩
        rw [add_comm]
        exact h.owns_encode now start draw id seq payload

theorem owns_body_of (call : Call F) (hrecv : ∀ i now τ d, call = .recv i now τ d →
      Owns Inv (fun _ _ => True) (recv env i now τ d : CliProg RS F P Unit) 0)
    (hdecode : ∀ slot σ now τ, Owns Inv (fun _ _ => True)
      (useDec slot (.tick σ now) >>= deliverPush now τ : CliProg RS F P Unit) 0)
    (hskip : ∀ now τ, Owns Inv (fun _ _ => True) (deliverTick now τ : CliProg RS F P Unit) 0) :
    Owns Inv (fun _ _ => True) (body env call : CliProg RS F P Unit) 0 := by
  have hsend := h.toSendRules
  cases call with
  | handshake i => exact hsend.handshake i
  | keepaliveSend i now => exact hsend.probe i now
  | keepaliveTick i now => exact hsend.owns_keepaliveTick i now
  | ingress now start addr draw payload => exact h.owns_ingress now start addr draw payload
  | recv i now τ datagram => exact hrecv i now τ datagram rfl
  | fecTick now σ τ =>
    exact hsend.owns_fecTick now σ τ (fun slot => hdecode slot σ now τ) (hskip now τ)
  | healthTick now => exact hsend.owns_healthTick now

/-- **The triples of all goroutines follow from the rules.** -/
theorem owns_body {Arrived : Bytes → Prop} (hrecv : RecvRules env Inv Arrived) (call : Call F)
    (hbrings : call.Brings Arrived) :
    Owns Inv (fun _ _ => True) (body env call : CliProg RS F P Unit) 0 := by
  refine h.owns_body_of call ?_ ?_ hrecv.skip
  · rintro i now τ d rfl
    exact hrecv.owns_recv i now τ hbrings
  · exact fun slot σ now τ => hrecv.owns_decode slot _ now τ

end SlotRules

/-- **The triples of all goroutines follow from the rules.** -/
theorem Rules.owns_body {env : ClientEnv F P} {M : Type} [AddCommMonoid M]
    {Inv : Client F RS P → List (ClientOut P) → M → Prop} {num : UInt32 → M} {coded ready : Frame → M}
    {Arrived : Bytes → Prop} (h : Rules env Inv num coded ready Arrived) (call : Call F)
    (hbrings : call.Brings Arrived) :
    Owns Inv (fun _ _ => True) (body env call : CliProg RS F P Unit) 0 :=
  (h.toSendRules.slotRules h.push).owns_body h.toRecvRules call hbrings

/-! ### Invariants that most actions do not notice -/

/-- A relation between a client before and after that the actions keep which number,
stamp and send frames. -/
structure SendActions (R : Client F RS P → List (ClientOut P) → Client F RS P → Prop) : Prop where
  composes : Composes R
  calm : ∀ {c c'}, Calm c c' → R c [] c'
  number : ∀ c, R c [] { c with sess := { c.sess with seq := c.sess.seq + 1 } }
  send : ∀ c aead plain i datagram, R c [.sealed aead plain, .send i datagram] c

/-- A relation that the actions of the key exchange keep. -/
structure KexActions (env : ClientEnv F P)
    (R : Client F RS P → List (ClientOut P) → Client F RS P → Prop) : Prop where
  composes : Composes R
  adopt : ∀ c data, R c [] (c.applyAnnounce env data).2
  publish : ∀ c aead, c.sessAEAD = none → R c [] { c with sessAEAD := some aead }

/-- A relation that the calls of the delivery buffer and the writes to the inner peer keep. -/
structure DeliverActions (R : Client F RS P → List (ClientOut P) → Client F RS P → Prop) : Prop where
  composes : Composes R
  pushed : ∀ c buffer given returned, R c [.pushed given returned] { c with delivery := buffer }
  skipped : ∀ c buffer returned, R c [.skipped returned] { c with delivery := buffer }
  write : ∀ c addr f, R c [.write addr f] c

/-- A relation that the receivers keep. -/
structure RecvActions (env : ClientEnv F P)
    (R : Client F RS P → List (ClientOut P) → Client F RS P → Prop) : Prop
    extends KexActions env R, DeliverActions R where
  still : ∀ {c c'}, Still c c' → R c [] c'

/-- A relation between a client before and after that every action keeps, but for the
calls of the delivery buffer. -/
structure Actions (env : ClientEnv F P)
    (R : Client F RS P → List (ClientOut P) → Client F RS P → Prop) : Prop
    extends SendActions R, KexActions env R where
  still : ∀ {c c'}, Still c c' → R c [] c'
  code : ∀ c i enc frames, R c [.coded i frames] { c with encs := c.encs.set i enc }

namespace SendActions

variable {env : ClientEnv F P} {R : Client F RS P → List (ClientOut P) → Client F RS P → Prop}
  (h : SendActions R)
include h

section
omit [Float64 F]

theorem keeps_calmly {α : Type} {p : CliProg RS F P α} (hp : Calmly p) : p.Keeps R := by
  refine hp.mono ?_
  rintro c _ c' ⟨rfl, hcalm⟩
  exact h.calm hcalm

theorem keeps_nextSeq : (nextSeq : CliProg RS F P UInt32).Keeps R := keeps_atomic h.number

theorem keeps_stampPass (i : ℕ) (f : Frame) : (stampPass i f : CliProg RS F P Frame).Keeps R := by
  rw [stampPass]
  split
  · exact keeps_atomic fun c =>
      h.calm { Calm.refl c with slots := map_slots_modify c.wans i fun _ => rfl }
  · exact keeps_pure _

theorem keeps_transmit (i : ℕ) (f : Frame) (aead : AEAD P) :
    (transmit i f aead : CliProg RS F P Unit).Keeps R := by
  rw [transmit]
  split
  · exact keeps_pure _
  · split
    · exact keeps_pure _
    · exact keeps_atomic fun c => h.send c _ _ _ _

theorem keeps_sendLocked (i : ℕ) (f : Frame) (aead : AEAD P) :
    (sendLocked i f aead : CliProg RS F P Unit).Keeps R :=
  (h.keeps_stampPass i f).bind fun f => h.keeps_transmit i f aead

theorem keeps_handshake (i : ℕ) : (handshake env i : CliProg RS F P Unit).Keeps R :=
  (keeps_read h.composes _).bind fun _ => h.keeps_nextSeq.bind fun _ => h.keeps_sendLocked _ _ _

theorem keeps_keepaliveSend (i : ℕ) (now : Time) :
    (keepaliveSend i now : CliProg RS F P Unit).Keeps R := by
  refine (keeps_read h.composes _).bind fun aead => ?_
  split
  · exact keeps_pure _
  · refine (keeps_read h.composes _).bind fun id => h.keeps_nextSeq.bind fun seq => ?_
    refine (h.keeps_sendLocked _ _ _).bind fun _ => h.keeps_calmly ?_
    exact calm_updateWan i fun _ => rfl

end

section
variable {M : Type} [AddCommMonoid M] {Inv : Client F RS P → List (ClientOut P) → M → Prop}
  (hinv : ∀ c o c' out m, R c o c' → Inv c out m → Inv c' (out ++ o) m)
include hinv

/-- An invariant that goes along with such a relation has to be checked at the calls of
the encoders only. -/
theorem sendRules
    (htick : ∀ slot now, Owns Inv (fun _ m => m = 0) (useEnc slot fun e => e.tick now) 0)
    (hloss : ∀ slot now loss, Owns Inv (fun _ _ => True)
      (useEnc slot fun e => (e.setLossRate now loss, [])) 0) :
    SendRules env Inv (fun _ => 0) (fun _ => 0) (fun _ => 0) where
  calm hcalm hc := by
    have hnext := hinv _ _ _ _ _ (h.calm hcalm) hc
    rwa [List.append_nil] at hnext
  nextSeq := owns_of_keeps hinv h.keeps_nextSeq 0
  number _ _ := owns_of_keeps hinv h.keeps_nextSeq 0
  data _ _ := rfl
  tick slot now := by
    refine (htick slot now).mono ?_
    rintro frames m rfl
    rw [List.map_const', List.sum_replicate, nsmul_zero]
  setLossRate := hloss
  stamp i f := owns_of_keeps hinv (h.keeps_stampPass i f) 0
  send i f aead := owns_true_of_keeps hinv (h.keeps_transmit i f aead) 0
  handshake i := owns_true_of_keeps hinv (h.keeps_handshake i) 0
  probe i now := owns_true_of_keeps hinv (h.keeps_keepaliveSend i now) 0

end

end SendActions

namespace KexActions

variable {env : ClientEnv F P} {R : Client F RS P → List (ClientOut P) → Client F RS P → Prop}
  (h : KexActions env R)
include h

theorem keeps_establish (aead : AEAD P) (data : Bytes) :
    (establish env aead data : CliProg RS F P Bool).Keeps R := by
  refine Keeps.bind (keeps_atomic fun c => h.adopt c data) fun adopted => ?_
  split
  · refine Keeps.bind (keeps_modify fun c => ?_) fun _ => keeps_pure _
    split
    · exact h.composes.nil c
    · next hnone => exact h.publish c aead (Option.not_isSome_iff_eq_none.mp hnone)
  · exact keeps_pure _

theorem keeps_handleKexAck (datagram : Bytes) :
    (handleKexAck env datagram : CliProg RS F P Bool).Keeps R := by
  refine (keeps_read h.composes _).bind fun id => ?_
  split
  · exact keeps_pure _
  · refine (keeps_read h.composes _).bind fun ready => ?_
    split
    · exact keeps_pure _
    · exact keeps_pure _
    · exact h.keeps_establish _ _

end KexActions

namespace DeliverActions

variable {R : Client F RS P → List (ClientOut P) → Client F RS P → Prop} (h : DeliverActions R)
include h

omit [Float64 F]

theorem keeps_deliverToWG (frames : List Frame) :
    (deliverToWG frames : CliProg RS F P Unit).Keeps R := by
  refine (keeps_read h.composes _).bind fun addr => ?_
  split
  · exact keeps_pure _
  · exact keeps_forM (fun f => keeps_atomic fun c => h.write c _ f) frames

theorem keeps_deliverPush (now : Time) (τ : IterOrder UInt32) (frames : List Frame) :
    (deliverPush now τ frames : CliProg RS F P Unit).Keeps R :=
  Keeps.bind (keeps_atomic fun c => h.pushed c _ _ _) h.keeps_deliverToWG

theorem keeps_deliverTick (now : Time) (τ : IterOrder UInt32) :
    (deliverTick now τ : CliProg RS F P Unit).Keeps R :=
  Keeps.bind (keeps_atomic fun c => h.skipped c _ _) h.keeps_deliverToWG

end DeliverActions

theorem RecvActions.recvRules {env : ClientEnv F P} {M : Type} [AddCommMonoid M]
    {R : Client F RS P → List (ClientOut P) → Client F RS P → Prop} (h : RecvActions env R)
    {Inv : Client F RS P → List (ClientOut P) → M → Prop}
    (hinv : ∀ c o c' out m, R c o c' → Inv c out m → Inv c' (out ++ o) m) :
    RecvRules env Inv fun _ => True where
  quiet hstill hc := by
    have hnext := hinv _ _ _ _ _ (h.still hstill) hc
    rwa [List.append_nil] at hnext
  ack d _ _ _ _ := owns_true_of_keeps hinv (h.keeps_handleKexAck d) 0
  deliver now τ frames := owns_true_of_keeps hinv (h.keeps_deliverPush now τ frames) 0
  skip now τ := owns_true_of_keeps hinv (h.keeps_deliverTick now τ) 0

namespace Actions

variable {env : ClientEnv F P} {R : Client F RS P → List (ClientOut P) → Client F RS P → Prop}
  (h : Actions env R)
include h

theorem keeps_useEnc (slot : Option ℕ) (call : Encoder F RS → Encoder F RS × List Frame) :
    (useEnc slot call : CliProg RS F P (List Frame)).Keeps R := by
  refine keeps_atomic fun c => ?_
  split
  · exact h.still { Still.refl c with }
  · exact h.code c _ _ _

/-- An invariant that goes along with such a relation has to be checked at the calls of
the delivery buffer only. -/
theorem rules {M : Type} [AddCommMonoid M] {Inv : Client F RS P → List (ClientOut P) → M → Prop}
    (hinv : ∀ c o c' out m, R c o c' → Inv c out m → Inv c' (out ++ o) m)
    (hdeliver : ∀ now τ frames, Owns Inv (fun _ _ => True) (deliverPush now τ frames) 0)
    (hskip : ∀ now τ, Owns Inv (fun _ _ => True) (deliverTick now τ) 0) :
    Rules env Inv (fun _ => 0) (fun _ => 0) (fun _ => 0) fun _ => True := by
  have hsend : SendRules env Inv (fun _ => 0) (fun _ => 0) (fun _ => 0) :=
    h.toSendActions.sendRules hinv (fun slot _ => owns_of_keeps hinv (h.keeps_useEnc slot _) 0)
      fun slot _ _ => owns_true_of_keeps hinv (h.keeps_useEnc slot _) 0
  refine { hsend with quiet := ?_, ack := ?_, push := ?_, deliver := hdeliver, skip := hskip }
  · intro c c' out m hstill hc
    have hnext := hinv _ _ _ _ _ (h.still hstill) hc
    rwa [List.append_nil] at hnext
  · exact fun d _ _ _ _ => owns_true_of_keeps hinv (h.toKexActions.keeps_handleKexAck d) 0
  · intro slot now start id seq payload
    refine (owns_of_keeps hinv (h.keeps_useEnc slot _) 0).mono ?_
    rintro frames m rfl
    rw [List.map_const', List.sum_replicate, nsmul_zero]

end Actions

end Client

end FlexBraid
