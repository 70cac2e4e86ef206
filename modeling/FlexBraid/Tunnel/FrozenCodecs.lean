import FlexBraid.Tunnel.BlockNumbers

/-!
# The codecs of a session

An acknowledgement of the key exchange replaces the codecs of the client and then
publishes the session key, and one that finds a key published does neither.  The check,
the replacement and the publication are separate actions, and every WAN has its own
receiver: two receivers that both find no key published both replace the codecs, the
second one after the first has published the key and traffic has started.

As long as acknowledgements are handled one at a time until the key is published, the
codecs stay for the whole session, so that the numbers of the blocks increase and no
frame is left in an encoder that is in no slot.  The proof gives every goroutine tokens
for what it has seen: a receiver that has found no key published owns a token that
nobody else can have, and for it the key stays unpublished.

## Main definitions

* `Client.Token`, `Client.Settled` — what a goroutine may have seen, and what it means.
* `Client.Traced`, `Client.AckAlone` — the client with the turn that each goroutine took
  last; a receiver takes up an acknowledgement alone.
* `Client.Guarded` — there is one permit, and it is in one place.

## Main results

* `Client.codecs_frozen` — **the codecs are frozen once the session key is published**, if
  acknowledgements do not overlap.
* `Client.codecs_replaced` — otherwise a block number can come twice and a frame is lost.
-/

namespace FlexBraid

namespace Client

variable {F C : Type} [Float64 F] {RS : ReedSolomon C} {P : Primitives} (env : ClientEnv F P)

open Prog

/-! ### What a goroutine has seen -/

/-- What a goroutine may have: the permit to handle an acknowledgement, which there is once
and which turns into the knowledge that no key is published; the knowledge that one is,
what the slots have been since then, and that an encoder is in a slot since then. -/
inductive Token where
  | permit
  | unpublished
  | published
  | frozen (slots : Option ℕ × Option ℕ × List (Option ℕ × Option ℕ))
  | slot (j : ℕ)
deriving DecidableEq

/-- The tokens that exclude each other. -/
def Token.exclusive : Token → Bool
  | .permit => true
  | .unpublished => true
  | _ => false

/-- What a token says. -/
def Token.Holds (c : Client F RS P) : Token → Prop
  | .permit => True
  | .unpublished => c.sessAEAD = none
  | .published => c.sessAEAD ≠ none
  | .frozen slots => c.sessAEAD ≠ none ∧ c.slots = slots
  | .slot j => c.sessAEAD ≠ none ∧ c.InSlot j

/-- An encoder that was never given a frame. -/
def Unused (c : Client F RS P) (log : List (ClientOut P)) (j : ℕ) : Prop :=
  (∀ e, c.encs[j]? = some e → e.pending = []) ∧ batches j log = []

/-- The invariant: the tokens are right, and until the key is published no encoder was
given a frame, nor was one later that is in no slot. -/
structure Settled (c : Client F RS P) (log : List (ClientOut P)) (m : Multiset Token) : Prop where
  single : m.countP (·.exclusive = true) ≤ 1
  holds : ∀ t ∈ m, t.Holds c
  unused : ∀ j, c.sessAEAD = none ∨ ¬ c.InSlot j → c.Unused log j

variable {c c' : Client F RS P} {log out : List (ClientOut P)} {m m' others : Multiset Token}

omit [Float64 F] in
theorem Token.Holds.of_same {t : Token} (h : t.Holds c) (haead : c'.sessAEAD = c.sessAEAD)
    (hslots : c'.slots = c.slots) : t.Holds c' := by
  cases t with
  | permit => trivial
  | unpublished => exact haead.trans h
  | published => exact fun hnone => h (haead ▸ hnone)
  | frozen slots => exact ⟨fun hnone => h.1 (haead ▸ hnone), hslots.trans h.2⟩
  | slot j =>
    refine ⟨fun hnone => h.1 (haead ▸ hnone), ?_⟩
    rw [inSlot_iff, hslots, ← inSlot_iff]
    exact h.2

namespace Settled

omit [Float64 F]

theorem of_same (h : c.Settled log m) (hsame : Same c out c') : c'.Settled (log ++ out) m where
  single := h.single
  holds t ht := (h.holds t ht).of_same hsame.sessAEAD hsame.slots
  unused j hj := by
    rw [inSlot_iff, hsame.sessAEAD, hsame.slots, ← inSlot_iff] at hj
    refine ⟨fun e he => (h.unused j hj).1 e (hsame.encs ▸ he), ?_⟩
    rw [batches_uncoded j log hsame.uncoded]
    exact (h.unused j hj).2

theorem exchange (h : c.Settled log (m + others))
    (hcount : m'.countP (·.exclusive = true) ≤ m.countP (·.exclusive = true))
    (hm' : ∀ t ∈ m', t.Holds c) : c.Settled log (m' + others) where
  single := by
    have hsingle := h.single
    rw [Multiset.countP_add] at hsingle ⊢
    omega
  holds t ht := (Multiset.mem_add.mp ht).elim (hm' t) fun ht =>
    h.holds t (Multiset.mem_add.mpr (.inr ht))
  unused := h.unused

/-- A call of an encoder, with what it may do to an encoder without frames. -/
theorem code (h : c.Settled log m) {i : ℕ} {e e' : Encoder F RS} {frames : List Frame}
    (he : c.encs[i]? = some e)
    (hcall : c.sessAEAD = none ∨ ¬ c.InSlot i → e'.pending = [] ∧ frames = []) :
    Settled { c with encs := c.encs.set i e' } (log ++ [.coded i frames]) m where
  single := h.single
  holds t ht := (h.holds t ht).of_same rfl rfl
  unused j hj := by
    obtain ⟨hempty, hnone⟩ := h.unused j hj
    by_cases hij : i = j
    · subst hij
      obtain ⟨hpending, hframes⟩ := hcall hj
      refine ⟨fun e₁ he₁ => ?_, ?_⟩
      · obtain ⟨hi, -⟩ := List.getElem?_eq_some_iff.mp he
        rw [List.getElem?_set_self hi, Option.some_inj] at he₁
        rw [← he₁, hpending]
      · rw [batches_coded, if_pos hframes, hnone]
    · refine ⟨fun e₁ he₁ => ?_, ?_⟩
      · rw [List.getElem?_set_ne hij] at he₁
        exact hempty e₁ he₁
      · rw [batches_coded_of_ne hij, hnone]

/-- Codecs may be replaced as long as no key is published. -/
theorem adopt (h : c.Settled log m) (hnone : c.sessAEAD = none) (hadopted : c.Adopted c') :
    c'.Settled log m where
  single := h.single
  holds t ht := by
    have hold := h.holds t ht
    cases t with
    | permit => trivial
    | unpublished => exact hadopted.sessAEAD.trans hold
    | published => exact absurd hnone hold
    | frozen slots => exact absurd hnone hold.1
    | slot j => exact absurd hnone hold.1
  unused j _ := by
    obtain ⟨hempty, hbatches⟩ := h.unused j (.inl hnone)
    refine ⟨fun e he => ?_, hbatches⟩
    obtain ⟨new, hencs, hfresh⟩ := hadopted.encs
    rw [hencs, List.getElem?_append] at he
    split at he
    · exact hempty e he
    · exact (hfresh e (List.mem_of_getElem? he)).pending

/-- Publishing the key: nobody else knows that none is published. -/
theorem publish (h : c.Settled log ({.unpublished} + others)) (aead : AEAD P) :
    Settled { c with sessAEAD := some aead } log ({.permit} + others) := by
  have hnone : c.sessAEAD = none := h.holds .unpublished (by simp)
  have hsingle := h.single
  rw [Multiset.countP_add] at hsingle
  have hothers : ∀ t ∈ others, False := by
    intro t ht
    have hold := h.holds t (Multiset.mem_add.mpr (.inr ht))
    have hcount : t.exclusive = true → False := by
      intro hx
      have hpos := Multiset.countP_pos_of_mem (p := (·.exclusive = true)) ht hx
      have hone : ({.unpublished} : Multiset Token).countP (·.exclusive = true) = 1 := rfl
      omega
    cases t with
    | permit => exact hcount rfl
    | unpublished => exact hcount rfl
    | published => exact hold hnone
    | frozen slots => exact hold.1 hnone
    | slot j => exact hold.1 hnone
  refine ⟨?_, ?_, fun j hj => h.unused j (.inl hnone)⟩
  · rw [Multiset.countP_add]
    exact hsingle
  · intro t ht
    rcases Multiset.mem_add.mp ht with ht | ht
    · rw [Multiset.mem_singleton.mp ht]
      trivial
    · exact (hothers t ht).elim

end Settled

/-! ### The turns of the goroutines -/

/-- Whether a datagram is taken for an acknowledgement of the key exchange. -/
def isAck (d : Bytes) : Bool :=
  match Frame.decodeHeader d with
  | .ok hdr => hdr.hasFlag flagKex
  | .error _ => false

/-- Whether a turn handles an acknowledgement. -/
def Call.isAck : Call F → Bool
  | .recv _ _ _ d => Client.isAck d
  | _ => false

/-- The token of who has read an encoder from a slot. -/
def held : Option ℕ → Multiset Token
  | some j => {.slot j}
  | none => 0

section
omit [Float64 F]

/-- A call of an encoder in a slot, or one that finds nothing to do in an encoder without
frames. -/
theorem owns_useEnc_settled {slot : Option ℕ} {call : Encoder F RS → Encoder F RS × List Frame}
    (hcall : ∀ e, e.pending = [] → (call e).1.pending = [] ∧ (call e).2 = []) :
    Owns Settled (fun _ m => m = 0) (useEnc slot call : CliProg RS F P (List Frame)) 0 := by
  refine owns_encoderCall ?_ ?_
  · intro c log others h
    have hsame := h.of_same (same_crash c)
    rw [List.append_nil] at hsame
    exact ⟨0, hsame, rfl⟩
  · intro c i e log others _ he h
    exact ⟨0, h.code he fun hunused => hcall e ((h.unused i hunused).1 e he), rfl⟩

theorem owns_push_settled {slot : Option ℕ} {call : Encoder F RS → Encoder F RS × List Frame} :
    Owns Settled (fun _ m => m = 0) (useEnc slot call : CliProg RS F P (List Frame)) (held slot) := by
  refine owns_encoderCall ?_ ?_
  · intro c log others h
    have hsame := h.of_same (same_crash c)
    rw [List.append_nil] at hsame
    exact ⟨0, hsame.exchange (Nat.zero_le _) (by simp), rfl⟩
  · rintro c i e log others rfl he h
    obtain ⟨hsome, hslot⟩ := h.holds (.slot i) (Multiset.mem_add.mpr (.inl (by simp [held])))
    refine ⟨0, ?_, rfl⟩
    refine (h.code he fun hunused => ?_).exchange (Nat.zero_le _) (by simp)
    exact absurd hslot (hunused.resolve_left hsome)

theorem owns_read_settled {α : Type} {f : Client F RS P → α} {Q : α → Multiset Token → Prop}
    (h : ∀ c log others, Settled c log (m + others) →
      ∃ m', m'.countP (·.exclusive = true) ≤ m.countP (·.exclusive = true) ∧
        (∀ t ∈ m', t.Holds c) ∧ Q (f c) m') :
    Owns Settled Q (Prog.read f : CliProg RS F P α) m := by
  refine owns_atomic fun c log others hinv => ?_
  obtain ⟨m', hcount, hm', hQ⟩ := h c log others hinv
  rw [List.append_nil]
  exact ⟨m', hinv.exchange hcount hm', hQ⟩

theorem inv_settled (c : Client F RS P) (o : List (ClientOut P)) (c' : Client F RS P)
    (log : List (ClientOut P)) (m : Multiset Token) (hsame : Same c o c') (h : c.Settled log m) :
    c'.Settled (log ++ o) m := h.of_same hsame

end

/-- **The senders keep the tokens right.** -/
theorem slotRules_settled : SlotRules env (Settled : Client F RS P → _) (fun _ => 0) (fun _ => 0)
    (fun _ => 0) {.published} held where
  toSendRules := by
    refine sendActions_same.sendRules inv_settled ?_ ?_
    · intro slot now
      refine owns_useEnc_settled fun e he => ?_
      have hcall := e.emission_tick now
      rw [he] at hcall
      exact hcall.nil
    · intro slot now loss
      refine (owns_useEnc_settled fun e he => ?_).mono fun _ _ _ => trivial
      have hcall := e.emission_setLossRate now loss
      rw [he] at hcall
      exact hcall.nil
  key := by
    refine owns_read_settled fun c log others h => ?_
    by_cases hnone : c.sessAEAD = none
    · exact ⟨0, le_rfl, by simp, .inl hnone⟩
    · refine ⟨{.published}, le_rfl, fun t ht => ?_, .inr rfl⟩
      rw [Multiset.mem_singleton.mp ht]
      exact hnone
  crossSlot := by
    refine owns_read_settled fun c log others h => ?_
    have hsome : c.sessAEAD ≠ none := h.holds .published (by simp)
    refine ⟨_, ?_, ?_, rfl⟩
    · dsimp only
      split
      · cases c.xenc <;> exact Nat.zero_le _
      · exact le_rfl
    · dsimp only
      intro t ht
      split at ht
      · cases hslot : c.xenc with
        | none =>
          rw [hslot] at ht
          cases ht
        | some j =>
          rw [hslot] at ht
          rw [Multiset.mem_singleton.mp ht]
          exact ⟨hsome, .inl hslot⟩
      · rw [Multiset.mem_singleton.mp ht]
        exact hsome
  wanSlot i := by
    refine owns_read_settled fun c log others h => ?_
    have hsome : c.sessAEAD ≠ none := h.holds .published (by simp)
    refine ⟨_, ?_, ?_, rfl⟩
    · cases (c.wans[i]?).bind WanLink.enc <;> exact Nat.zero_le _
    · intro t ht
      cases hslot : (c.wans[i]?).bind WanLink.enc with
      | none =>
        rw [hslot] at ht
        cases ht
      | some j =>
        rw [hslot] at ht
        rw [Multiset.mem_singleton.mp ht]
        obtain ⟨w, hw, henc⟩ := Option.bind_eq_some_iff.mp hslot
        exact ⟨hsome, .inr ⟨w, List.mem_of_getElem? hw, henc⟩⟩
  push slot now start id seq payload := by
    rw [add_zero]
    refine owns_push_settled.mono ?_
    rintro frames m rfl
    rw [List.map_const', List.sum_replicate, nsmul_zero]

/-- **The receivers keep them right**, acknowledgements apart. -/
theorem recvRules_settled :
    RecvRules env (Settled : Client F RS P → _) fun d => isAck d = false where
  quiet hstill h := by
    have hnext := h.of_same hstill.same
    rwa [List.append_nil] at hnext
  ack d hdr harrived hhdr hkex := by
    rw [isAck, hhdr] at harrived
    exact absurd (hkex.symm.trans harrived) (by decide)
  deliver now τ frames :=
    owns_true_of_keeps inv_settled (deliverActions_same.keeps_deliverPush now τ frames) 0
  skip now τ :=
    owns_true_of_keeps inv_settled (deliverActions_same.keeps_deliverTick now τ) 0

/-! ### The key exchange -/

/-- Who handled an acknowledgement has the permit, or what became of it. -/
def Owed (m : Multiset Token) : Prop := 1 ≤ m.countP (·.exclusive = true)

theorem Owed.add (h : Owed m) (m' : Multiset Token) : Owed (m + m') := by
  rw [Owed, Multiset.countP_add]
  exact Nat.le_add_right_of_le h

theorem owns_establish_settled (aead : AEAD P) (data : Bytes) :
    Owns Settled (fun _ m => Owed m) (establish env aead data : CliProg RS F P Bool)
      {.unpublished} := by
  refine Owns.bind (Q := fun _ m => m = {.unpublished}) (owns_atomic fun c log others h => ?_) ?_
  · rw [List.append_nil]
    have hnone : c.sessAEAD = none := h.holds .unpublished (by simp)
    exact ⟨_, h.adopt hnone (adopted_applyAnnounce env c data), rfl⟩
  · rintro adopted m rfl
    split
    · refine Owns.bind (Q := fun _ m => m = {.permit}) (owns_atomic fun c log others h => ?_) ?_
      · rw [List.append_nil]
        have hnone : c.sessAEAD = none := h.holds .unpublished (by simp)
        dsimp only
        rw [hnone, Option.isSome_none, if_neg Bool.false_ne_true]
        exact ⟨_, h.publish aead, rfl⟩
      · rintro _ m rfl
        exact owns_pure le_rfl
    · exact owns_pure le_rfl

theorem owns_handleKexAck_permit (d : Bytes) :
    Owns Settled (fun _ m => Owed m) (handleKexAck env d : CliProg RS F P Bool) {.permit} := by
  refine Owns.bind (Q := fun _ m => m = {.permit}) (owns_read fun _ _ _ _ => rfl) ?_
  rintro id m rfl
  split
  · exact owns_pure le_rfl
  · refine Owns.bind (Q := fun ready m => m = if ready = none then {.unpublished} else {.permit})
      (owns_read_settled fun c log others h => ⟨_, ?_, ?_, rfl⟩) ?_
    · split <;> exact le_rfl
    · intro t ht
      split at ht
      · next hnone =>
        rw [Multiset.mem_singleton.mp ht]
        exact hnone
      · rw [Multiset.mem_singleton.mp ht]
        trivial
    · rintro ready m rfl
      split
      · exact owns_pure le_rfl
      · exact owns_pure le_rfl
      · exact owns_establish_settled env _ _

theorem owns_handleKexAck_published (d : Bytes) :
    Owns Settled (fun _ _ => True) (handleKexAck env d : CliProg RS F P Bool) {.published} := by
  refine Owns.bind (Q := fun _ m => m = {.published}) (owns_read fun _ _ _ _ => rfl) ?_
  rintro id m rfl
  split
  · exact owns_pure trivial
  · refine Owns.bind (Q := fun ready _ => ready ≠ none)
      (owns_read fun c log others h => h.holds .published (by simp)) ?_
    rintro ready m hready
    split
    · exact owns_pure trivial
    · exact absurd rfl hready
    · exact absurd rfl hready

theorem owns_recv_settled {x : Token} {Q : Multiset Token → Prop} (hx : Q {x})
    (hup : ∀ m m', Q m → Q (m + m')) (i : ℕ) (now : Time) (τ : IterOrder UInt32) (d : Bytes)
    (hack : Owns Settled (fun _ m => Q m) (handleKexAck env d : CliProg RS F P Bool) {x}) :
    Owns Settled (fun _ m => Q m) (recv env i now τ d : CliProg RS F P Unit) {x} := by
  have hrecv : RecvRules env (Settled : Client F RS P → _) _ := recvRules_settled env
  rw [recv]
  split
  · exact owns_pure hx
  · next hdr _ =>
    refine (hrecv.owns_of_quiet (calm_read _).quiet _).bind ?_
    rintro id m rfl
    split
    · refine hack.bind ?_
      rintro ok m hm
      split
      · refine (hrecv.owns_of_quiet (calm_touch i now).quiet m).mono ?_
        rintro _ m rfl
        exact hm
      · exact owns_pure hm
    · have hframe := (hrecv.owns_recvFrame i now τ hdr d).frame {x}
      rw [zero_add] at hframe
      refine hframe.mono ?_
      rintro _ m ⟨m₀, rfl, -⟩
      rw [add_comm]
      exact hup _ _ hx

/-! ### Runs -/

/-- A client with the turn that each goroutine took last. -/
structure Traced (T F : Type) {C : Type} (RS : ReedSolomon C) (P : Primitives) where
  pool : Pool T (Client F RS P) (ClientOut P)
  last : T → Option (Call F)

variable {T : Type}

omit [Float64 F] in
/-- Whether a goroutine is handling an acknowledgement. -/
def Traced.acking (s : Traced T F RS P) (t : T) : Bool :=
  s.pool.busy t && (s.last t).any Call.isAck

variable [DecidableEq T]

/-- One event of a client. -/
def Traced.step (s : Traced T F RS P) (e : Pool.Event T (Call F)) :
    Traced T F RS P × List (ClientOut P) :=
  ({ pool := (Client.step env s.pool e).1
     last := match e with
       | .start t call => if s.pool.busy t then s.last else Function.update s.last t (some call)
       | .sched _ => s.last },
    (Client.step env s.pool e).2)

/-- As long as no key is published, a receiver takes up an acknowledgement only when no
other one is handling one. -/
def AckAlone (s : Traced T F RS P) : Pool.Event T (Call F) → Prop
  | .start t call => s.pool.state.sessAEAD = none → call.isAck = true →
      ∀ t', s.acking t' = true → t' = t
  | .sched _ => True

theorem Traced.exec_pool (s : Traced T F RS P) (es : List (Pool.Event T (Call F))) :
    (Run.exec (Traced.step env) s es).pool = Run.exec (Client.step env) s.pool es ∧
      Run.outputs (Traced.step env) s es = Run.outputs (Client.step env) s.pool es := by
  induction es generalizing s with
  | nil => exact ⟨rfl, rfl⟩
  | cons e es ih =>
    obtain ⟨hpool, hout⟩ := ih (Traced.step env s e).1
    exact ⟨hpool, congrArg _ hout⟩

/-- The permit is with the environment, or with a goroutine that is handling an
acknowledgement. -/
def Guarded (r : Multiset Token) (s : Traced T F RS P) (log : List (ClientOut P)) : Prop :=
  Pool.Lent Settled (fun _ _ => True) ({.permit} + r) s.pool log ∨
    ∃ t, s.acking t = true ∧ Pool.Lent Settled (fun t' m => t' = t → Owed m) r s.pool log

variable {r : Multiset Token} {s : Traced T F RS P}

omit [Float64 F] in
theorem guarded_of_lent {t : T} (hlast : (s.last t).any Call.isAck = true)
    (h : Pool.Lent Settled (fun t' m => t' = t → Owed m) r s.pool log) : Guarded r s log := by
  by_cases hbusy : s.pool.busy t = true
  · refine .inr ⟨t, ?_, h⟩
    rw [Traced.acking, hbusy, hlast]
    rfl
  · cases hthread : s.pool.thread t with
    | act f k =>
      rw [Pool.busy, hthread] at hbusy
      exact absurd rfl hbusy
    | ret a =>
      refine .inl ((h.reclaim hthread ?_).mono fun _ _ _ => trivial)
      intro m m' howed hinv
      refine hinv.exchange (howed rfl) fun x hx => ?_
      rw [Multiset.mem_singleton.mp hx]
      trivial

omit [Float64 F] [DecidableEq T] in
theorem lent_know {Q : T → Multiset Token → Prop} {p : Pool T (Client F RS P) (ClientOut P)}
    (h : Pool.Lent Settled Q r p log) {x : Token} (hx : x.Holds p.state)
    (hexclusive : x.exclusive = false) : Pool.Lent Settled Q ({x} + r) p log := by
  refine h.exchange fun m hm => ?_
  rw [← zero_add (m + r)] at hm
  rw [add_left_comm]
  refine hm.exchange ?_ fun y hy => ?_
  · rw [← Multiset.cons_zero, Multiset.countP_cons_of_neg _ (by rw [hexclusive]; decide)]
  · rwa [Multiset.mem_singleton.mp hy]

omit [Float64 F] [DecidableEq T] in
theorem Guarded.know (h : Guarded r s log) {x : Token} (hx : x.Holds s.pool.state)
    (hexclusive : x.exclusive = false) : Guarded ({x} + r) s log := by
  rcases h with h | ⟨t, hack, h⟩
  · refine .inl ?_
    rw [add_left_comm]
    exact lent_know h hx hexclusive
  · exact .inr ⟨t, hack, lent_know h hx hexclusive⟩

/-- The triples of the turns: an acknowledgement needs the permit, or the knowledge that a
key is published. -/
theorem owns_body_settled (call : Call F) :
    (call.isAck = false → Owns Settled (fun _ _ => True) (body env call : CliProg RS F P Unit) 0) ∧
      (call.isAck = true →
        Owns Settled (fun _ m => Owed m) (body env call : CliProg RS F P Unit) {.permit} ∧
        Owns Settled (fun _ _ => True) (body env call : CliProg RS F P Unit) {.published}) := by
  refine ⟨fun hack => (slotRules_settled env).owns_body (recvRules_settled env) call ?_, fun hack => ?_⟩
  · cases call with
    | recv i now τ d => exact hack
    | _ => trivial
  · cases call with
    | recv i now τ d =>
      have hpermit : Owed {.permit} := le_rfl
      exact ⟨owns_recv_settled env hpermit (fun m m' h => h.add m') i now τ d
        (owns_handleKexAck_permit env d), owns_recv_settled env trivial (fun _ _ _ => trivial)
          i now τ d (owns_handleKexAck_published env d)⟩
    | _ => cases hack

theorem Traced.last_step {t : T} (hbusy : s.pool.busy t = true) (e : Pool.Event T (Call F)) :
    (Traced.step env s e).1.last t = s.last t := by
  cases e with
  | sched t' => rfl
  | start t' call =>
    show (if s.pool.busy t' then s.last else Function.update s.last t' (some call)) t = _
    split
    · rfl
    · next hidle =>
      refine Function.update_of_ne ?_ _ _
      rintro rfl
      exact hidle hbusy

theorem guarded_start (h : Guarded r s log) {t : T} {call : Call F}
    (halone : AckAlone s (.start t call)) {a : Unit} (hidle : s.pool.thread t = .ret a)
    (hcrash : ¬ s.pool.state.crashed = true) : Guarded r (Traced.step env s (.start t call)).1
      (log ++ (Traced.step env s (.start t call)).2) := by
  have hstep : Client.step env s.pool (.start t call) =
      Pool.stepEvent (fun _ => body env) s.pool (.start t call) := if_neg hcrash
  have hfree : ¬ s.pool.busy t = true := by
    rw [Pool.busy, hidle]
    exact Bool.false_ne_true
  obtain ⟨hother, hkex⟩ : _ ∧ (_ → _ ∧ Owns Settled _ (body env call : CliProg RS F P Unit) _) :=
    owns_body_settled env call
  rcases h with h | ⟨tₐ, hack, h⟩
  · -- the environment has the permit and lends it for an acknowledgement
    cases hcall : call.isAck with
    | true =>
      refine guarded_of_lent (t := t) ?_ ?_
      · show ((if s.pool.busy t then s.last else Function.update s.last t (some call)) t).any _ = _
        rw [if_neg hfree, Function.update_self, Option.any_some, hcall]
      · have hnext := Pool.lent_start (fun _ => body env) Owed h (hkex hcall).1
          (fun m m' hm => hm.add m') hidle
        rw [← hstep] at hnext
        refine hnext.mono fun t' m hm ht' => ?_
        rwa [ht', Function.update_self] at hm
    | false =>
      rw [← zero_add (_ + r)] at h
      have hnext := Pool.lent_start (fun _ => body env) (fun _ => True) h (hother hcall)
        (fun _ _ _ => trivial) hidle
      rw [Function.update_eq_self, ← hstep] at hnext
      exact .inl hnext
  · -- a goroutine has it: no other may start an acknowledgement before the key is published
    obtain ⟨hbusy, hlast⟩ := Bool.and_eq_true_iff.mp hack
    have hne : tₐ ≠ t := by
      rintro rfl
      exact hfree hbusy
    refine guarded_of_lent (t := tₐ) (by rw [Traced.last_step env hbusy]; exact hlast) ?_
    have hkeep : ∀ {p : Pool T (Client F RS P) (ClientOut P)} {log}, Pool.Lent Settled (Function.update (fun t' m => t' = tₐ → Owed m) t
        fun _ => True) r p log → Pool.Lent Settled (fun t' m => t' = tₐ → Owed m) r p log := by
      intro p log hp
      refine hp.mono fun t' m hm ht' => ?_
      rw [Function.update_of_ne (ht' ▸ hne)] at hm
      exact hm ht'
    cases hcall : call.isAck with
    | false =>
      rw [← zero_add r] at h
      have hnext := Pool.lent_start (fun _ => body env) (fun _ => True) h (hother hcall)
        (fun _ _ _ => trivial) hidle
      rw [← hstep] at hnext
      exact hkeep hnext
    | true =>
      have hsome : s.pool.state.sessAEAD ≠ none := fun hnone => hne (halone hnone hcall tₐ hack)
      have hknown := lent_know h (x := .published) hsome rfl
      have hnext := Pool.lent_start (fun _ => body env) (fun _ => True) hknown (hkex hcall).2
        (fun _ _ _ => trivial) hidle
      rw [← hstep] at hnext
      exact hkeep hnext

/-- **A step leaves the permit guarded**, if acknowledgements do not overlap. -/
theorem guarded_step (h : Guarded r s log) {e : Pool.Event T (Call F)} (halone : AckAlone s e) :
    Guarded r (Traced.step env s e).1 (log ++ (Traced.step env s e).2) := by
  -- an event that leaves the pool alone
  have hsame : Client.step env s.pool e = (s.pool, []) →
      Guarded r (Traced.step env s e).1 (log ++ (Traced.step env s e).2) := by
    intro hstep
    rw [show (Traced.step env s e).2 = [] from congrArg Prod.snd hstep, List.append_nil]
    have hpool : (Traced.step env s e).1.pool = s.pool := congrArg Prod.fst hstep
    rcases h with h | ⟨t, hack, h⟩
    · refine .inl ?_
      rwa [hpool]
    · obtain ⟨hbusy, hlast⟩ := Bool.and_eq_true_iff.mp hack
      refine guarded_of_lent (t := t) (by rwa [Traced.last_step env hbusy]) ?_
      rwa [hpool]
  by_cases hcrash : s.pool.state.crashed = true
  · exact hsame (if_pos hcrash)
  · have hstep : Client.step env s.pool e = Pool.stepEvent (fun _ => body env) s.pool e :=
      if_neg hcrash
    cases e with
    | start t call =>
      cases hthread : s.pool.thread t with
      | act f k =>
        refine hsame ?_
        rw [hstep, Pool.stepEvent, hthread]
      | ret a => exact guarded_start env h halone hthread hcrash
    | sched t =>
      rcases h with h | ⟨tₐ, hack, h⟩
      · have hnext := Pool.lent_sched (fun _ => body env) h t
        rw [← hstep] at hnext
        exact .inl hnext
      · have hnext := Pool.lent_sched (fun _ => body env) h t
        rw [← hstep] at hnext
        exact guarded_of_lent (t := tₐ) (Bool.and_eq_true_iff.mp hack).2 hnext

theorem along_sched (s : Traced T F RS P) (t : T) (n : ℕ) :
    Run.Along (Traced.step env) AckAlone s (List.replicate n (.sched t)) := by
  induction n generalizing s with
  | zero => trivial
  | succ n ih => exact ⟨trivial, ih _⟩

theorem guarded_exec (h : Guarded r s log) {es : List (Pool.Event T (Call F))}
    (halone : Run.Along (Traced.step env) AckAlone s es) :
    Guarded r (Run.exec (Traced.step env) s es)
      (log ++ (Run.outputs (Traced.step env) s es).flatten) := by
  have hstep : ∀ (s : Traced T F RS P) log e, Guarded r s log → AckAlone s e →
      Guarded r (Traced.step env s e).1 (log ++ (Traced.step env s e).2) :=
    fun _ _ _ h halone => guarded_step env h halone
  exact Run.exec_induct_outputs hstep h halone

omit [Float64 F] [DecidableEq T] in
theorem Guarded.settled (h : Guarded r s log) : ∃ m, s.pool.state.Settled log (m + r) := by
  rcases h with ⟨own, h, -⟩ | ⟨t, -, own, h, -⟩
  · rw [← add_assoc] at h
    exact ⟨_, h⟩
  · exact ⟨_, h⟩

omit [DecidableEq T] in
theorem guarded_newClient {id : UInt64} {c : Client F RS P} (hnew : newClient RS env id = .ok c) :
    Guarded 0 (⟨Pool.idle c, fun _ => none⟩ : Traced T F RS P) [] := by
  have hinit := initial_newClient hnew
  refine .inl ⟨0, ⟨le_rfl, ?_, ?_⟩, fun _ => trivial⟩
  · intro t ht
    rw [show Pool.total (0 : T →₀ Multiset Token) = 0 from rfl, zero_add, add_zero] at ht
    rw [Multiset.mem_singleton.mp ht]
    trivial
  · intro j _
    exact ⟨fun e he => (hinit.fresh e (List.mem_of_getElem? he)).pending, rfl⟩

variable {env}

/-- **The codecs are frozen once the session key is published**, in every interleaving of
the goroutines of a client in which acknowledgements do not overlap before that: the slots
stay, the numbers of the blocks of every encoder increase until they wrap around, and an
encoder that is in no slot was never given a frame. -/
theorem codecs_frozen {id : UInt64} {c : Client F RS P} (hnew : newClient RS env id = .ok c)
    {es : List (Pool.Event T (Call F))}
    (halone : Run.Along (Traced.step env) AckAlone ⟨Pool.idle c, fun _ => none⟩ es) :
    let final := (Run.exec (Client.step env) (Pool.idle c) es).state
    let log := (Run.outputs (Client.step env) (Pool.idle c) es).flatten
    (∀ pre post, es = pre ++ post →
      let between := (Run.exec (Client.step env) (Pool.idle c) pre).state
      between.sessAEAD ≠ none → final.slots = between.slots) ∧
    (∀ j, (batches j log).length < 2 ^ 32 → (batches j log).Pairwise NumbersBefore) ∧
    ∀ j e, final.encs[j]? = some e → ¬ final.InSlot j → e.pending = [] ∧ batches j log = [] := by
  intro final log
  have hstart : Guarded 0 (⟨Pool.idle c, fun _ => none⟩ : Traced T F RS P) [] :=
    guarded_newClient env hnew
  have hpool := fun es => Traced.exec_pool env (⟨Pool.idle c, fun _ => none⟩ : Traced T F RS P) es
  refine ⟨?_, ?_, ?_⟩
  · rintro pre post rfl between hpublished
    rw [Run.along_append] at halone
    have hbetween := guarded_exec env hstart halone.1
    rw [List.nil_append] at hbetween
    have hknown := hbetween.know (x := .frozen between.slots) ?_ rfl
    · have hfinal := guarded_exec env hknown halone.2
      rw [← Run.exec_append] at hfinal
      obtain ⟨m, hsettled⟩ := hfinal.settled
      rw [(hpool _).1] at hsettled
      exact (hsettled.holds (.frozen between.slots) (by simp)).2
    · rw [(hpool pre).1]
      exact ⟨hpublished, rfl⟩
  · intro j hlen
    have hinit := initial_newClient hnew
    have hblocks : c.Blocks [] := by
      refine ⟨fun he => (hinit.fresh _ (List.mem_of_getElem? he)).inOrder, fun _ => rfl⟩
    have hinv : final.Blocks log := by
      obtain ⟨-, hinv⟩ := Pool.inv_exec hblocks es fun _ call _ =>
        (rules_blocks env).owns_body call (by cases call <;> trivial)
      exact hinv
    by_cases hj : j < final.encs.length
    · exact (hinv.inOrder (List.getElem?_eq_getElem hj)).sorted hlen
    · have hnone : batches j log = [] := hinv.unused (Nat.le_of_not_lt hj)
      rw [hnone]
      exact .nil
  · intro j e he hslot
    obtain ⟨m, hsettled⟩ := (guarded_exec env hstart halone).settled
    rw [List.nil_append, (hpool es).1, (hpool es).2] at hsettled
    obtain ⟨hpending, hbatches⟩ := hsettled.unused j (.inr hslot)
    exact ⟨hpending e he, hbatches⟩

end Client

/-! ### Two acknowledgements -/

/-- An announce of blocks of two data frames and one parity frame. -/
def smallCodedAnnounce : ServerAnnounce ℚ :=
  { smallAnnounce with
    fec := { smallConfig.fec with
      enabled := true, mode := .fixed, dataShards := 2, blockTimeoutMS := 8, fixedOverheadPct := 50 } }

/-- The JSON library on this announce, with a short text for it. -/
def smallCodedJson : AnnounceCodec ℚ where
  marshal a := if a = smallCodedAnnounce then stringBytes "fixed 2+1" else []
  unmarshal b := if b = stringBytes "fixed 2+1" then some smallCodedAnnounce else none

/-- The small client with this library. -/
def smallCodedEnv : ClientEnv ℚ smallPrimitives := { smallClientEnv with json := smallCodedJson }

theorem newClient_smallCoded : newClient smallCodes smallCodedEnv 5 = .ok smallClient :=
  (newClient_of_cfg smallCodedEnv smallClientEnv rfl 5).trans newClient_small

/-- The acknowledgement of a server with this announce. -/
def smallCodedAck : Bytes :=
  smallDatagram smallBaseAEAD .serverToClient
    { flags := flagControl ||| flagKex, sessionID := 5, seq := 1
      payload := (smallKey 9).pub smallPrimitives ++ smallCodedJson.marshal smallCodedAnnounce }

/-- A receiver takes up the acknowledgement. -/
def smallTakeAck (t : Fin 3) : List (Pool.Event (Fin 3) (Client.Call ℚ)) :=
  [.start t (.recv t.val 0 IterOrder.plain smallCodedAck)]

/-- A goroutine takes its next actions. -/
def smallGo (t : Fin 3) (n : ℕ) : List (Pool.Event (Fin 3) (Client.Call ℚ)) :=
  List.replicate n (.sched t)

/-- A datagram of the inner peer. -/
def smallDatagramIn : List (Pool.Event (Fin 3) (Client.Call ℚ)) :=
  [.start 2 (.ingress 0 0 ⟨"127.0.0.1", 51820⟩ 0 [7])] ++ smallGo 2 22

/-- The first of the goroutines. -/
def smallThread : Fin 3 := 0

/-- One receiver ends the key exchange before the other takes up the acknowledgement. -/
def smallAcksApart : List (Pool.Event (Fin 3) (Client.Call ℚ)) :=
  smallTakeAck 0 ++ smallGo 0 6 ++ smallTakeAck 1 ++ smallGo 1 6 ++ smallDatagramIn

theorem Client.along_smallAcksApart :
    Run.Along (Traced.step smallCodedEnv) AckAlone ⟨Pool.idle smallClient, fun _ => none⟩
      smallAcksApart := by
  have hpublished : (Run.exec (Client.step smallCodedEnv) (Pool.idle smallClient)
      (smallTakeAck 0 ++ smallGo 0 6)).state.sessAEAD ≠ none := by decide +kernel
  refine (Run.along_append ..).mpr ⟨(Run.along_append ..).mpr ⟨(Run.along_append ..).mpr
    ⟨(Run.along_append ..).mpr ⟨⟨?_, trivial⟩, along_sched _ _ 0 6⟩, ?_, trivial⟩,
      along_sched _ _ 1 6⟩, (Run.along_append ..).mpr ⟨⟨?_, trivial⟩, along_sched _ _ 2 22⟩⟩
  · intro _ _ t ht
    cases ht
  · intro hnone
    rw [(Traced.exec_pool smallCodedEnv _ _).1] at hnone
    exact absurd hnone hpublished
  · intro _ hack
    cases hack

theorem Client.codecs_frozen_small :
    Run.Along (Traced.step smallCodedEnv) AckAlone ⟨Pool.idle smallClient, fun _ => none⟩
      smallAcksApart ∧
    let final := (Run.exec (Client.step smallCodedEnv) (Pool.idle smallClient) smallAcksApart).state
    let log := (Run.outputs (Client.step smallCodedEnv) (Pool.idle smallClient) smallAcksApart).flatten
    (∀ pre post, smallAcksApart = pre ++ post →
      let between := (Run.exec (Client.step smallCodedEnv) (Pool.idle smallClient) pre).state
      between.sessAEAD ≠ none → final.slots = between.slots) ∧
    (∀ j, (batches j log).length < 2 ^ 32 → (batches j log).Pairwise NumbersBefore) ∧
    ∀ j e, final.encs[j]? = some e → ¬ final.InSlot j → e.pending = [] ∧ batches j log = [] :=
  ⟨along_smallAcksApart, codecs_frozen newClient_smallCoded along_smallAcksApart⟩

/-- Both receivers find no key published; the first one ends the key exchange, and three
datagrams of the inner peer are coded. -/
def smallAcksTogether : List (Pool.Event (Fin 3) (Client.Call ℚ)) :=
  smallTakeAck 0 ++ smallGo 0 3 ++ smallTakeAck 1 ++ smallGo 1 3 ++ smallGo 0 3 ++
    smallDatagramIn ++ smallDatagramIn ++ smallDatagramIn

/-- The second receiver ends it too, and two more datagrams are coded. -/
def smallSecondAck : List (Pool.Event (Fin 3) (Client.Call ℚ)) :=
  smallGo 1 3 ++ smallDatagramIn ++ smallDatagramIn

/-- **The second receiver replaces the codecs after the first has published the key**: the
first WAN sends its block 1 twice, and the third datagram stays in an encoder that is in no
slot. -/
theorem Client.codecs_replaced :
    newClient smallCodes smallCodedEnv 5 = .ok smallClient ∧
      let between :=
        (Run.exec (Client.step smallCodedEnv) (Pool.idle smallClient) smallAcksTogether).state
      let final := (Run.exec (Client.step smallCodedEnv) (Pool.idle smallClient)
        (smallAcksTogether ++ smallSecondAck)).state
      let log := (Run.outputs (Client.step smallCodedEnv) (Pool.idle smallClient)
        (smallAcksTogether ++ smallSecondAck)).flatten
      between.sessAEAD.isSome = true ∧
        between.slots = (none, none, [(some 2, some 2), (some 3, some 3)]) ∧
        final.slots = (none, none, [(some 4, some 4), (some 5, some 5)]) ∧
        (batches 2 log).map (fun b => b.map Frame.blockSeq) = [[1, 1, 1]] ∧
        (batches 4 log).map (fun b => b.map Frame.blockSeq) = [[1, 1, 1]] ∧
        (final.encs.map fun e => e.pending.map Frame.seq) = [[], [], [4], [], [], []] :=
  ⟨newClient_smallCoded, by decide +kernel⟩

end FlexBraid
