import FlexBraid.Fec.Segments
import FlexBraid.Tunnel.Announce
import FlexBraid.Tunnel.ClientRules

/-!
# Where the datagrams of a client come from

A client seals three kinds of frames: handshakes under the base key, probes, and the frames that
its encoders returned.  Whatever its goroutines do, every datagram that it sends is one of these,
and the session key that it publishes comes from an acknowledgement that arrived.

A goroutine between its call of an encoder and the last of its sends owns the frames that it has
yet to send: they are frames of the encoder, numbered and stamped by then or not.

## Main definitions

* `Client.FromEncoder`, `Client.Origin` — a frame that an encoder returned, and where a sealed
  frame comes from.
* `Client.Accounted` — the datagrams and sealed frames in a log are accounted for.
* `Client.Acked` — a key that follows from an acknowledgement.
* `Client.Provenance` — the invariant of the goroutines.

## Main results

* `Client.provenance_exec` — **everything that a client sends is accounted for** in every
  interleaving, and so is its key.
-/

namespace FlexBraid

variable {F C : Type} {RS : ReedSolomon C} {P : Primitives}

theorem Frame.SentAs.number {f g : Frame} (h : f.SentAs g) (hparity : g.hasFlag flagFECParity = true)
    (seq : UInt32) : f.SentAs { g with seq := seq } := by
  refine ⟨h.session, h.flags, h.payload, fun hdata => ?_, h.blockSeq⟩
  rw [h.hasFlag, hdata] at hparity
  cases hparity

theorem Frame.SentAs.count {f g : Frame} (h : f.SentAs g) (hpass : g.hasFlag flagPassSeq = true)
    (n : UInt32) : f.SentAs { g with blockSeq := n } := by
  refine ⟨h.session, h.flags, h.payload, h.seq, fun hcoded => ?_⟩
  rw [h.hasFlag, hcoded] at hpass
  cases hpass

theorem Encoder.Emission.pending_subset {e e' : Encoder F RS} {data out : List Frame}
    (h : Emission e data e' out) : e'.pending ⊆ data := by
  cases h with
  | hold _ _ hpending => exact hpending ▸ List.Subset.refl _
  | pass _ _ hpending => exact hpending ▸ List.nil_subset _
  | plain _ _ hpending => exact hpending ▸ List.nil_subset _
  | block _ _ hpending => exact hpending ▸ List.nil_subset _

/-- An output that has to do with the inner peer alone. -/
def ClientOut.Inner : ClientOut P → Prop
  | .pushed .. => True
  | .skipped _ => True
  | .write .. => True
  | _ => False

namespace Client

open Prog

/-- What a call of an encoder returns for data frames without flags and block numbers. -/
def CodedFrom (F : Type) {C : Type} (RS : ReedSolomon C) (frames : List Frame) : Prop :=
  ∃ (e e' : Encoder F RS) (data : List Frame), Encoder.Emission e data e' frames ∧
    ∀ f ∈ data, f.flags = 0 ∧ f.blockSeq = 0

/-- A frame that an encoder returned, with its number and counter or still without. -/
def FromEncoder (out : List (ClientOut P)) (f : Frame) : Prop :=
  ∃ j frames g, .coded j frames ∈ out ∧ g ∈ frames ∧ g.SentAs f

/-- Where a frame comes from that was sealed with the given key. -/
inductive Origin (env : ClientEnv F P) (id : UInt64) (out : List (ClientOut P)) :
    AEAD P → Frame → Prop
  | handshake (seq capacity : UInt32) : Origin env id out env.baseAEAD
      { flags := flagFirst, sessionID := id, seq := seq
        payload := putUint32 capacity ++ env.clientPriv.pub P }
  | probe (aead : AEAD P) (seq : UInt32) (payload : Bytes) : Origin env id out aead
      { flags := flagKeepalive, sessionID := id, seq := seq, payload := payload }
  | coded (aead : AEAD P) {f : Frame} (hf : FromEncoder out f) : Origin env id out aead f

/-- Everything in a log is accounted for: the batches come from encoders, the sealed frames have
an origin, and the datagrams are sealed frames. -/
structure Accounted (RS : ReedSolomon C) (env : ClientEnv F P) (id : UInt64)
    (out : List (ClientOut P)) : Prop where
  coded : ∀ j frames, .coded j frames ∈ out → CodedFrom F RS frames
  sealed : ∀ a plain, .sealed a plain ∈ out → ∃ f, f.encode = .ok plain ∧ Origin env id out a f
  sent : ∀ wan d, .send wan d ∈ out →
    ∃ a plain, .sealed a plain ∈ out ∧ a.sealFrame .clientToServer plain = .ok d

variable {env : ClientEnv F P} {id : UInt64} {out out' : List (ClientOut P)}

/-! ### Growing logs -/

variable {f : Frame} {α : Type}

theorem FromEncoder.mono (h : FromEncoder out f) (hsub : out ⊆ out') : FromEncoder out' f := by
  obtain ⟨j, frames, g, hmem, hg, hsent⟩ := h
  exact ⟨j, frames, g, hsub hmem, hg, hsent⟩

theorem Origin.mono {a : AEAD P} (h : Origin env id out a f) (hsub : out ⊆ out') :
    Origin env id out' a f := by
  cases h with
  | handshake seq capacity => exact .handshake seq capacity
  | probe a seq payload => exact .probe a seq payload
  | coded a hf => exact .coded a (hf.mono hsub)

theorem Accounted.append (h : Accounted RS env id out)
    (hcoded : ∀ j frames, .coded j frames ∈ out' → CodedFrom F RS frames)
    (hsealed : ∀ a plain, .sealed a plain ∈ out' →
      ∃ f, f.encode = .ok plain ∧ Origin env id out a f) (hsent : ∀ wan d, .send wan d ∈ out' →
      ∃ a plain, .sealed a plain ∈ out' ∧ a.sealFrame .clientToServer plain = .ok d) :
    Accounted RS env id (out ++ out') := by
  have hsub : out ⊆ out ++ out' := List.subset_append_left _ _
  refine ⟨?_, ?_, ?_⟩
  · intro j frames hmem
    exact (List.mem_append.mp hmem).elim (h.coded j frames) (hcoded j frames)
  · intro a plain hmem
    obtain ⟨f, hencode, horigin⟩ :=
      (List.mem_append.mp hmem).elim (h.sealed a plain) (hsealed a plain)
    exact ⟨f, hencode, horigin.mono hsub⟩
  · intro wan d hmem
    rcases List.mem_append.mp hmem with hmem | hmem
    · obtain ⟨a, plain, hseal, hd⟩ := h.sent wan d hmem
      exact ⟨a, plain, hsub hseal, hd⟩
    · obtain ⟨a, plain, hseal, hd⟩ := hsent wan d hmem
      exact ⟨a, plain, List.mem_append_right _ hseal, hd⟩

theorem Accounted.inner (h : Accounted RS env id out) (hinner : ∀ o ∈ out', o.Inner) :
    Accounted RS env id (out ++ out') :=
  h.append (fun _ _ hmem => (hinner _ hmem).elim) (fun _ _ hmem => (hinner _ hmem).elim)
    fun _ _ hmem => (hinner _ hmem).elim

theorem Accounted.code (h : Accounted RS env id out) {frames : List Frame}
    (hcoded : CodedFrom F RS frames) (i : ℕ) : Accounted RS env id (out ++ [.coded i frames]) := by
  refine h.append ?_ ?_ ?_
  · intro j frames' hmem
    cases List.mem_singleton.mp hmem
    exact hcoded
  · intro a plain hmem
    cases List.mem_singleton.mp hmem
  · intro wan d hmem
    cases List.mem_singleton.mp hmem

theorem Accounted.send (h : Accounted RS env id out) {a : AEAD P} {plain d : Bytes}
    (horigin : Origin env id out a f) (hencode : f.encode = .ok plain)
    (hd : a.sealFrame .clientToServer plain = .ok d) (i : ℕ) :
    Accounted RS env id (out ++ [.sealed a plain, .send i d]) := by
  refine h.append ?_ ?_ ?_
  · intro j frames hmem
    simp at hmem
  · intro a' plain' hmem
    simp only [List.mem_cons, ClientOut.sealed.injEq, List.not_mem_nil, or_false, reduceCtorEq] at hmem
    obtain ⟨rfl, rfl⟩ := hmem
    exact ⟨f, hencode, horigin⟩
  · intro wan d' hmem
    simp only [List.mem_cons, ClientOut.send.injEq, List.not_mem_nil, or_false, reduceCtorEq,
      false_or] at hmem
    obtain ⟨rfl, rfl⟩ := hmem
    exact ⟨a, plain, List.mem_cons_self, hd⟩

/-! ### The invariant -/

/-- A session key that follows from an acknowledgement that arrived. -/
def Acked (env : ClientEnv F P) (id : UInt64) (Arrived : Bytes → Prop) (a : AEAD P) : Prop :=
  ∃ d hdr payload, Arrived d ∧ Frame.decodeHeader d = .ok hdr ∧ hdr.hasFlag flagKex = true ∧
    openAck env id d = some payload ∧ sessionKey env id payload = some a

/-- The frames that the goroutines have yet to send come from the encoders, which hold inner data
only, and everything that happened so far is accounted for. -/
structure Provenance (env : ClientEnv F P) (id : UInt64) (Arrived : Bytes → Prop)
    (c : Client F RS P) (out : List (ClientOut P)) (owned : Multiset Frame) : Prop where
  name : c.sess.id = id
  pending : ∀ e ∈ c.encs, ∀ f ∈ e.pending, f.flags = 0 ∧ f.blockSeq = 0
  published : ∀ a, c.sessAEAD = some a → Acked env id Arrived a
  owned : ∀ f ∈ owned, FromEncoder out f
  accounted : Accounted RS env id out

variable {Arrived : Bytes → Prop} {c c' : Client F RS P} {m m' : Multiset Frame}

theorem Provenance.same (h : Provenance env id Arrived c out m) (hid : c'.sess.id = c.sess.id)
    (hencs : c'.encs = c.encs) (haead : c'.sessAEAD = c.sessAEAD)
    (howned : ∀ f ∈ m', FromEncoder out f) : Provenance env id Arrived c' out m' := by
  refine ⟨hid.trans h.name, ?_, ?_, howned, h.accounted⟩
  · rw [hencs]
    exact h.pending
  · rw [haead]
    exact h.published

theorem Provenance.append (h : Provenance env id Arrived c out m)
    (haccounted : Accounted RS env id (out ++ out'))
    (howned : ∀ f ∈ m', FromEncoder (out ++ out') f) :
    Provenance env id Arrived c (out ++ out') m' :=
  ⟨h.name, h.pending, h.published, howned, haccounted⟩

theorem owned_append {others : Multiset Frame} (h : ∀ f ∈ m + others, FromEncoder out f)
    (hm' : ∀ f ∈ m', FromEncoder (out ++ out') f) :
    ∀ f ∈ m' + others, FromEncoder (out ++ out') f := by
  intro f hf
  rcases Multiset.mem_add.mp hf with hf | hf
  · exact hm' f hf
  · exact (h f (Multiset.mem_add.mpr (.inr hf))).mono (List.subset_append_left _ _)

theorem owns_silent {f : Client F RS P → α × Client F RS P × List (ClientOut P)}
    {Q : α → Multiset Frame → Prop} (hid : ∀ c, (f c).2.1.sess.id = c.sess.id)
    (hencs : ∀ c, (f c).2.1.encs = c.encs) (haead : ∀ c, (f c).2.1.sessAEAD = c.sessAEAD)
    (hout : ∀ c, (f c).2.2 = [])
    (hQ : ∀ c out others, Provenance env id Arrived c out (m + others) →
      ∃ m', (∀ g ∈ m', FromEncoder out g) ∧ Q (f c).1 m') :
    Owns (Provenance env id Arrived) Q (Prog.atomic f) m := by
  refine owns_atomic fun c out others h => ?_
  obtain ⟨m', hm', hq⟩ := hQ c out others h
  refine ⟨m', ?_, hq⟩
  rw [hout, List.append_nil]
  refine h.same (hid c) (hencs c) (haead c) fun g hg => ?_
  rcases Multiset.mem_add.mp hg with hg | hg
  · exact hm' g hg
  · exact h.owned g (Multiset.mem_add.mpr (.inr hg))

/-! ### The actions -/

theorem owns_nextSeq_provenance {Q : UInt32 → Multiset Frame → Prop}
    (hQ : ∀ out : List (ClientOut P), (∀ f ∈ m, FromEncoder out f) → ∀ seq,
      ∃ m', (∀ g ∈ m', FromEncoder out g) ∧ Q seq m') :
    Owns (Provenance env id Arrived) Q (nextSeq : CliProg RS F P UInt32) m :=
  owns_silent (fun _ => rfl) (fun _ => rfl) (fun _ => rfl) (fun _ => rfl) fun _ out _ h =>
    hQ out (fun f hf => h.owned f (Multiset.mem_add.mpr (.inl hf))) _

theorem owns_useEnc_provenance (slot : Option ℕ)
    {call : Encoder F RS → Encoder F RS × List Frame} {pushed : List Frame}
    (hpushed : ∀ f ∈ pushed, f.flags = 0 ∧ f.blockSeq = 0)
    (hcall : ∀ e, Encoder.Emission e (e.pending ++ pushed) (call e).1 (call e).2) :
    Owns (Provenance env id Arrived)
      (fun frames m => m = (frames.map fun f => ({f} : Multiset Frame)).sum)
      (useEnc slot call : CliProg RS F P (List Frame)) 0 := by
  refine owns_encoderCall ?_ ?_
  · intro c out others h
    exact ⟨0, h.same rfl rfl rfl h.owned, rfl⟩
  · intro c i e out others _ he h
    have hemission := hcall e
    have hdata : ∀ f ∈ e.pending ++ pushed, f.flags = 0 ∧ f.blockSeq = 0 :=
      List.forall_mem_append.mpr ⟨h.pending e (List.mem_of_getElem? he), hpushed⟩
    refine ⟨_, ⟨h.name, ?_, h.published, ?_, h.accounted.code ⟨e, _, _, hemission, hdata⟩ i⟩, rfl⟩
    · intro e' he'
      rcases List.mem_or_eq_of_mem_set he' with he' | rfl
      · exact h.pending e' he'
      · exact fun f hf => hdata f (hemission.pending_subset hf)
    · refine owned_append h.owned fun f hf => ?_
      rw [← Multiset.sum_coe, ← Multiset.map_coe, Multiset.sum_map_singleton] at hf
      exact ⟨i, _, f, List.mem_append_right _ List.mem_cons_self, hf, .refl f⟩

theorem owns_stampPass_provenance (i : ℕ) (f : Frame) :
    Owns (Provenance env id Arrived) (fun f' m => m = {f'})
      (stampPass i f : CliProg RS F P Frame) {f} := by
  rw [stampPass]
  split
  · next hpass =>
    refine owns_silent (fun _ => rfl) (fun _ => rfl) (fun _ => rfl) (fun _ => rfl) ?_
    intro c out others h
    refine ⟨_, fun g hg => ?_, rfl⟩
    rw [Multiset.mem_singleton.mp hg]
    obtain ⟨j, frames, f₀, hmem, hf₀, hsent⟩ := h.owned f (Multiset.mem_add.mpr (.inl
      (Multiset.mem_singleton_self f)))
    cases c.wans[i]? with
    | none => exact ⟨j, frames, f₀, hmem, hf₀, hsent⟩
    | some w => exact ⟨j, frames, f₀, hmem, hf₀, hsent.count hpass w.pathSeq⟩
  · exact owns_pure rfl

theorem owns_transmit_provenance (i : ℕ) (f : Frame) (aead : AEAD P)
    (horigin : ∀ out, (∀ g ∈ m, FromEncoder out g) → Origin env id out aead f) :
    Owns (Provenance env id Arrived) (fun _ _ => True) (transmit i f aead : CliProg RS F P Unit)
      m := by
  rw [transmit]
  split
  · exact owns_pure trivial
  · next plain hencode =>
    split
    · exact owns_pure trivial
    · next d hd =>
      refine owns_atomic fun c out others h => ⟨m, ?_, trivial⟩
      have howned : ∀ g ∈ m, FromEncoder out g := fun g hg =>
        h.owned g (Multiset.mem_add.mpr (.inl hg))
      refine h.append (h.accounted.send (horigin out howned) hencode hd i) ?_
      exact fun g hg => (h.owned g hg).mono (List.subset_append_left _ _)

theorem owns_sendLocked_provenance (i : ℕ) {aead : AEAD P}
    (hpass : (f.flags &&& flagPassSeq != 0) = false) (horigin : ∀ out, Origin env id out aead f) :
    Owns (Provenance env id Arrived) (fun _ _ => True) (sendLocked i f aead : CliProg RS F P Unit)
      0 := by
  have hstamp : (stampPass i f : CliProg RS F P Frame) = pure f := by
    rw [stampPass, Frame.hasFlag, hpass]
    rfl
  rw [sendLocked, hstamp]
  exact owns_transmit_provenance i f aead fun out _ => horigin out

theorem owns_readID_provenance (g : UInt64 → Client F RS P → α) :
    Owns (Provenance env id Arrived) (fun a m => m = 0 ∧ ∃ c : Client F RS P, a = g id c)
      (Prog.read fun c => g c.sess.id c : CliProg RS F P α) 0 := by
  refine owns_read fun c out others h => ⟨rfl, c, ?_⟩
  rw [h.name]

theorem owns_read_provenance (g : Client F RS P → α) (m : Multiset Frame) :
    Owns (Provenance env id Arrived) (fun _ m' => m' = m) (Prog.read g : CliProg RS F P α) m :=
  owns_read fun _ _ _ _ => rfl

theorem owns_number_provenance :
    Owns (Provenance env id Arrived) (fun _ m => m = 0) (nextSeq : CliProg RS F P UInt32) 0 :=
  owns_nextSeq_provenance fun _ _ _ => ⟨0, fun _ hg => absurd hg (Multiset.notMem_zero _), rfl⟩

theorem owns_handshake_provenance (i : ℕ) :
    Owns (Provenance env id Arrived) (fun _ _ => True) (handshake env i : CliProg RS F P Unit) 0 := by
  refine (owns_readID_provenance fun id c =>
    (id, ((c.wans[i]?).map fun w => w.cfg.capacityMbps).getD 0)).bind ?_
  rintro _ m ⟨rfl, c, rfl⟩
  refine owns_number_provenance.bind ?_
  rintro seq m rfl
  exact owns_sendLocked_provenance i (by decide : (flagFirst &&& flagPassSeq != 0) = false)
    fun _ => .handshake seq _

theorem owns_probe_provenance (i : ℕ) (now : Time) :
    Owns (Provenance env id Arrived) (fun _ _ => True) (keepaliveSend i now : CliProg RS F P Unit)
      0 := by
  refine (owns_read_provenance _ 0).bind ?_
  rintro aead m rfl
  split
  · exact owns_pure trivial
  · refine (owns_readID_provenance fun id _ => id).bind ?_
    rintro _ m ⟨rfl, c, rfl⟩
    refine owns_number_provenance.bind ?_
    rintro seq m rfl
    refine (owns_sendLocked_provenance i (by decide : (flagKeepalive &&& flagPassSeq != 0) = false)
      fun _ => .probe _ seq _).bind ?_
    rintro _ m -
    refine owns_silent (fun _ => rfl) (fun _ => rfl) (fun _ => rfl) (fun _ => rfl) ?_
    exact fun _ _ _ h => ⟨m, fun g hg => h.owned g (Multiset.mem_add.mpr (.inl hg)), trivial⟩

/-- The calls of the delivery buffer, and the writes to the inner peer. -/
def Handles (c : Client F RS P) (out : List (ClientOut P)) (c' : Client F RS P) : Prop :=
  (∀ o ∈ out, o.Inner) ∧ c'.sess.id = c.sess.id ∧ c'.encs = c.encs ∧ c'.sessAEAD = c.sessAEAD

theorem deliverActions_handles : DeliverActions (Handles : Client F RS P → _) where
  composes :=
    ⟨fun _ => ⟨by simp, rfl, rfl, rfl⟩, fun h h' => ⟨List.forall_mem_append.mpr ⟨h.1, h'.1⟩,
      h'.2.1.trans h.2.1, h'.2.2.1.trans h.2.2.1, h'.2.2.2.trans h.2.2.2⟩⟩
  pushed _ _ _ _ := ⟨by simp [ClientOut.Inner], rfl, rfl, rfl⟩
  skipped _ _ _ := ⟨by simp [ClientOut.Inner], rfl, rfl, rfl⟩
  write _ _ _ := ⟨by simp [ClientOut.Inner], rfl, rfl, rfl⟩

theorem provenance_handles (c : Client F RS P) (o : List (ClientOut P)) (c' : Client F RS P)
    (out : List (ClientOut P)) (m : Multiset Frame) (hhandles : Handles c o c')
    (h : Provenance env id Arrived c out m) : Provenance env id Arrived c' (out ++ o) m := by
  obtain ⟨hinner, hid, hencs, haead⟩ := hhandles
  have hsame := h.same hid hencs haead h.owned
  exact hsame.append (h.accounted.inner hinner) fun f hf =>
    (h.owned f hf).mono (List.subset_append_left _ _)

/-! ### The key exchange -/

variable [Float64 F]

theorem owns_establish_provenance {aead : AEAD P} (hacked : Acked env id Arrived aead)
    (data : Bytes) : Owns (Provenance env id Arrived) (fun _ _ => True)
      (establish env aead data : CliProg RS F P Bool) 0 := by
  refine Owns.bind (Q := fun _ m => m = 0) (owns_atomic fun c out others h => ?_) ?_
  · -- new codecs hold no frames
    have hadopted := adopted_applyAnnounce env c data
    obtain ⟨new, hencs, hfresh⟩ := hadopted.encs
    refine ⟨0, ⟨?_, ?_, ?_, ?_, ?_⟩, rfl⟩
    · rw [hadopted.sess]
      exact h.name
    · intro e he
      rw [hencs] at he
      rcases List.mem_append.mp he with he | he
      · exact h.pending e he
      · rw [(hfresh e he).pending]
        exact fun f hf => absurd hf List.not_mem_nil
    · rw [hadopted.sessAEAD]
      exact h.published
    · rw [List.append_nil]
      exact h.owned
    · rw [List.append_nil]
      exact h.accounted
  · rintro adopted m rfl
    split
    · refine Owns.bind (Q := fun _ _ => True) (owns_atomic fun c out others h => ?_)
        fun _ _ _ => owns_pure trivial
      refine ⟨0, ?_, trivial⟩
      rw [List.append_nil]
      dsimp only
      split
      · exact h
      · refine ⟨h.name, h.pending, ?_, h.owned, h.accounted⟩
        rintro a ⟨⟩
        exact hacked
    · exact owns_pure trivial

theorem owns_handleKexAck_provenance {d : Bytes} {hdr : Frame} (harrived : Arrived d)
    (hhdr : Frame.decodeHeader d = .ok hdr) (hkex : hdr.hasFlag flagKex = true) :
    Owns (Provenance env id Arrived) (fun _ _ => True)
      (handleKexAck env d : CliProg RS F P Bool) 0 := by
  refine (owns_readID_provenance fun id _ => id).bind ?_
  rintro _ m ⟨rfl, c, rfl⟩
  split
  · exact owns_pure trivial
  · next payload hopen =>
    refine (owns_read_provenance _ 0).bind ?_
    rintro ready m rfl
    split
    · exact owns_pure trivial
    · exact owns_pure trivial
    · next aead hkey =>
      exact owns_establish_provenance ⟨d, hdr, payload, harrived, hhdr, hkex, hopen, hkey⟩ _

/-! ### All goroutines -/

/-- **Every action keeps the invariant.** -/
theorem rules_provenance (env : ClientEnv F P) (id : UInt64) (Arrived : Bytes → Prop) :
    Rules env (Provenance env id Arrived : Client F RS P → _) (fun _ => 0) (fun f => {f})
      (fun f => {f}) Arrived where
  quiet hstill h := h.same hstill.id hstill.encs hstill.sessAEAD h.owned
  nextSeq := owns_number_provenance
  number f hparity := by
    refine owns_nextSeq_provenance fun out howned seq => ⟨_, fun g hg => ?_, rfl⟩
    rw [Multiset.mem_singleton.mp hg]
    obtain ⟨j, frames, f₀, hmem, hf₀, hsent⟩ := howned f (Multiset.mem_singleton_self f)
    exact ⟨j, frames, f₀, hmem, hf₀, hsent.number hparity seq⟩
  data _ _ := rfl
  push slot now start id seq payload :=
    owns_useEnc_provenance slot (by simp) fun e => e.emission_push now start _
  tick slot now := by
    refine owns_useEnc_provenance slot (List.forall_mem_nil _) fun e => ?_
    rw [List.append_nil]
    exact e.emission_tick now
  setLossRate slot now loss := by
    refine (owns_useEnc_provenance slot (List.forall_mem_nil _) fun e => ?_).mono
      fun _ _ _ => trivial
    rw [List.append_nil]
    exact e.emission_setLossRate now loss
  stamp := owns_stampPass_provenance
  send i f aead := owns_transmit_provenance i f aead fun out howned =>
    .coded aead (howned f (Multiset.mem_singleton_self f))
  handshake := owns_handshake_provenance
  probe := owns_probe_provenance
  ack _ _ harrived hhdr hkex := owns_handleKexAck_provenance harrived hhdr hkex
  deliver now τ frames :=
    owns_true_of_keeps provenance_handles (deliverActions_handles.keeps_deliverPush now τ frames) 0
  skip now τ := owns_true_of_keeps provenance_handles (deliverActions_handles.keeps_deliverTick now τ) 0

theorem provenance_newClient (hnew : newClient RS env id = .ok c) (Arrived : Bytes → Prop) :
    Provenance env id Arrived c [] 0 := by
  have hinit := initial_newClient hnew
  refine ⟨?_, ?_, ?_, ?_, ⟨?_, ?_, ?_⟩⟩
  · rw [hinit.sess]
    rfl
  · intro e he f hf
    rw [(hinit.fresh e he).pending] at hf
    cases hf
  · intro a ha
    rw [hinit.sessAEAD] at ha
    cases ha
  all_goals simp

/-- **Everything that a client sends is accounted for**, in every interleaving of its goroutines,
and the key that it publishes follows from an acknowledgement that arrived. -/
theorem provenance_exec {T : Type} [DecidableEq T] (hnew : newClient RS env id = .ok c)
    {es : List (Pool.Event T (Call F))} (hes : ∀ t call, .start t call ∈ es → call.Brings Arrived) :
    ∃ m, Provenance env id Arrived (Run.exec (step env) (Pool.idle c) es).state
      (Run.outputs (step env) (Pool.idle c) es).flatten m :=
  Pool.inv_exec (provenance_newClient hnew Arrived) es fun t call hmem =>
    (rules_provenance env id Arrived).owns_body call (hes t call hmem)

end Client

end FlexBraid
