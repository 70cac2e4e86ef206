import FlexBraid.Tunnel.Announce
import FlexBraid.Tunnel.ClientRules
import FlexBraid.Tunnel.DeliveryOrder

/-!
# The order of the datagrams at the inner peer

The delivery buffer returns frames in order, but it is the caller that writes them, after
the lock of the buffer is released.  A goroutine that is preempted between its call and
its writes is overtaken by another.  As long as every call of the buffer finds the frames
of the earlier calls written, the inner peer sees increasing numbers.

## Main definitions

* `written`, `unwritten` — what was written to the inner peer, and what the buffer has
  returned and nobody has written yet.
* `Undisturbed` — every call of the buffer finds nothing unwritten.
* `Client.InOrder` — the invariant: a goroutine that has frames to write owns them, and
  they are all that is unwritten.

## Main results

* `Client.writes_in_order` — **the inner peer gets increasing numbers** in every
  interleaving in which the calls are undisturbed.
* `Client.writes_out_of_order` — not so when a goroutine is preempted.
-/

namespace FlexBraid

section
variable {P : Primitives}

/-! ### Watching the writes -/

/-- The frames written to the inner peer, in order. -/
def written (log : List (ClientOut P)) : List Frame :=
  log.filterMap fun
    | .write _ f => some f
    | _ => none

/-- One output: the frames that the last call returned and that are not written yet, and
whether every call so far found none. -/
def watch (s : List Frame × Bool) : ClientOut P → List Frame × Bool
  | .pushed _ returned => (returned, s.2 && s.1.isEmpty)
  | .skipped returned => (returned, s.2 && s.1.isEmpty)
  | .write _ f => (s.1.erase f, s.2)
  | _ => s

/-- The frames that the buffer has returned and nobody has written yet. -/
def unwritten (log : List (ClientOut P)) : List Frame := (log.foldl watch ([], true)).1

/-- Every call of the buffer finds the frames of the earlier calls written. -/
def Undisturbed (log : List (ClientOut P)) : Prop := (log.foldl watch ([], true)).2 = true

instance (log : List (ClientOut P)) : Decidable (Undisturbed log) :=
  inferInstanceAs (Decidable (_ = true))

/-- The frames given to the buffer have numbers that are ordered. -/
def ClientOut.InRange : ClientOut P → Prop
  | .pushed given _ => ∀ f ∈ given, f.InRange
  | _ => True

instance : ∀ o : ClientOut P, Decidable o.InRange
  | .pushed given _ => inferInstanceAs (Decidable (∀ f ∈ given, f.InRange))
  | .sealed .. => inferInstanceAs (Decidable True)
  | .send .. => inferInstanceAs (Decidable True)
  | .coded .. => inferInstanceAs (Decidable True)
  | .skipped _ => inferInstanceAs (Decidable True)
  | .write .. => inferInstanceAs (Decidable True)

/-- An output that has nothing to do with the buffer. -/
def ClientOut.Silent : ClientOut P → Prop
  | .sealed .. => True
  | .send .. => True
  | .coded .. => True
  | _ => False

variable {log out : List (ClientOut P)}

theorem foldl_watch_silent (h : ∀ o ∈ out, o.Silent) (s : List Frame × Bool) :
    out.foldl watch s = s := by
  induction out generalizing s with
  | nil => rfl
  | cons o out ih =>
    obtain ⟨ho, hout⟩ := List.forall_mem_cons.mp h
    rw [List.foldl_cons, ih hout]
    cases o with
    | sealed => rfl
    | send => rfl
    | coded => rfl
    | pushed => exact ho.elim
    | skipped => exact ho.elim
    | write => exact ho.elim

theorem unwritten_silent (h : ∀ o ∈ out, o.Silent) : unwritten (log ++ out) = unwritten log := by
  rw [unwritten, List.foldl_append, foldl_watch_silent h]
  rfl

theorem undisturbed_silent (h : ∀ o ∈ out, o.Silent) : Undisturbed (log ++ out) ↔ Undisturbed log := by
  rw [Undisturbed, List.foldl_append, foldl_watch_silent h]
  rfl

theorem written_append (log out : List (ClientOut P)) :
    written (log ++ out) = written log ++ written out := List.filterMap_append

theorem written_silent (h : ∀ o ∈ out, o.Silent) : written (log ++ out) = written log := by
  have hnone : written out = [] := by
    refine List.filterMap_eq_nil_iff.mpr fun o ho => ?_
    cases o with
    | write => exact (h _ ho).elim
    | _ => rfl
  rw [written_append, hnone, List.append_nil]

end

namespace Client

variable {F C : Type} {RS : ReedSolomon C} {P : Primitives}

open Prog

/-! ### The invariant -/

/-- What the buffer returned so far is in order, written or not. -/
structure Ordered (c : Client F RS P) (log : List (ClientOut P)) : Prop where
  sound : c.delivery.Sound
  between : Between 0 c.delivery.next.toNat (written log ++ unwritten log)

/-- A goroutine with frames to write owns them. -/
def batch (frames : List Frame) : Multiset (List Frame) := if frames = [] then 0 else {frames}

/-- In an undisturbed run at most one goroutine has frames to write, and they are all that
is unwritten. -/
def InOrder (c : Client F RS P) (log : List (ClientOut P)) (m : Multiset (List Frame)) : Prop :=
  Undisturbed log → (∀ o ∈ log, o.InRange) →
    c.Ordered log ∧ (m = 0 ∨ unwritten log ≠ [] ∧ m = {unwritten log})

/-- A call of the buffer: the caller owns what it returns. -/
theorem owns_call (call : DeliveryBuffer → DeliveryBuffer × List Frame)
    (report : List Frame → ClientOut P)
    (hreport : ∀ s returned, watch s (report returned) = (returned, s.2 && s.1.isEmpty))
    (hwritten : ∀ returned, written [report returned] = [])
    (hcall : ∀ d : DeliveryBuffer, d.Sound → (report (call d).2).InRange →
      Between d.next.toNat (call d).1.next.toNat (call d).2 ∧ (call d).1.Sound) :
    Owns InOrder (fun returned m => m = batch returned) (Prog.atomic fun c : Client F RS P =>
        ((call c.delivery).2, { c with delivery := (call c.delivery).1 },
          [report (call c.delivery).2])) 0 := by
  refine owns_atomic fun c log others hinv => ⟨batch (call c.delivery).2, ?_, rfl⟩
  intro hundisturbed hrange
  have hfold : ∀ s : List Frame × Bool, [report (call c.delivery).2].foldl watch s =
      ((call c.delivery).2, s.2 && s.1.isEmpty) := fun s => hreport s _
  rw [Undisturbed, List.foldl_append, hfold, Bool.and_eq_true, List.isEmpty_iff] at hundisturbed
  obtain ⟨hbefore, hnone⟩ := hundisturbed
  have hunwritten : unwritten (log ++ [report (call c.delivery).2]) = (call c.delivery).2 := by
    rw [unwritten, List.foldl_append, hfold]
  obtain ⟨hlog, hlast⟩ := List.forall_mem_append.mp hrange
  obtain ⟨hordered, hown⟩ := hinv hbefore hlog
  obtain ⟨hbetween, hsound⟩ := hcall c.delivery hordered.sound (hlast _ (List.mem_singleton_self _))
  have hfree : others = 0 := by
    rw [zero_add] at hown
    exact hown.resolve_right fun h => h.1 hnone
  have holder : Between 0 c.delivery.next.toNat (written log) := by
    have h := hordered.between
    rwa [show unwritten log = [] from hnone, List.append_nil] at h
  refine ⟨⟨hsound, ?_⟩, ?_⟩
  · rw [hunwritten, written_append, hwritten, List.append_nil]
    exact holder.append hbetween
  · rw [hunwritten, hfree, add_zero, batch]
    split
    · exact .inl rfl
    · next hne => exact .inr ⟨hne, rfl⟩

theorem owns_writes (addr : UDPAddr) (frames : List Frame) : Owns InOrder (fun _ _ => True)
      (frames.forM fun f => Prog.emit (.write addr f) : CliProg RS F P Unit) (batch frames) := by
  induction frames with
  | nil => exact owns_pure trivial
  | cons f rest ih =>
    have hfirst : Owns InOrder (fun _ m => m = batch rest)
        (Prog.emit (.write addr f) : CliProg RS F P Unit) (batch (f :: rest)) := by
      refine owns_atomic fun c log others hinv => ⟨batch rest, ?_, rfl⟩
      intro hundisturbed hrange
      have hfold : ∀ s : List Frame × Bool,
          [ClientOut.write (P := P) addr f].foldl watch s = (s.1.erase f, s.2) := fun _ => rfl
      rw [Undisturbed, List.foldl_append, hfold] at hundisturbed
      obtain ⟨hordered, hown⟩ := hinv hundisturbed (List.forall_mem_append.mp hrange).1
      -- the batch is all that anybody owns, so it is what is unwritten
      obtain ⟨hother, hbatch⟩ : others = 0 ∧ unwritten log = f :: rest := by
        rw [batch, if_neg (List.cons_ne_nil f rest)] at hown
        rcases hown with hown | ⟨-, hown⟩
        · exact absurd (congrArg Multiset.card hown) (by simp)
        · rw [Multiset.singleton_add, ← Multiset.singleton_add, add_comm] at hown
          have hcard := congrArg Multiset.card hown
          rw [Multiset.card_add, Multiset.card_singleton, Multiset.card_singleton] at hcard
          have hzero : others = 0 := Multiset.card_eq_zero.mp (by omega)
          rw [hzero, zero_add, Multiset.singleton_inj] at hown
          exact ⟨hzero, hown.symm⟩
      have hunwritten : unwritten (log ++ [.write addr f]) = rest := by
        rw [unwritten, List.foldl_append, hfold]
        show (unwritten log).erase f = rest
        rw [hbatch, List.erase_cons_head]
      refine ⟨⟨hordered.sound, ?_⟩, ?_⟩
      · have hbetween := hordered.between
        rw [hbatch] at hbetween
        rw [hunwritten, written_append, List.append_assoc]
        exact hbetween
      · rw [hunwritten, hother, add_zero, batch]
        split
        · exact .inl rfl
        · next hne => exact .inr ⟨hne, rfl⟩
    refine hfirst.bind ?_
    rintro _ m rfl
    exact ih

theorem owns_deliver (frames : List Frame) :
    Owns InOrder (fun _ _ => True) (deliverToWG frames : CliProg RS F P Unit) (batch frames) := by
  refine Owns.bind (owns_read fun _ _ _ _ => rfl : Owns InOrder (fun _ m => m = batch frames) _ _) ?_
  rintro addr m rfl
  split
  · exact owns_pure trivial
  · exact owns_writes _ frames

variable [Float64 F] (env : ClientEnv F P)

theorem actions_silent : Actions env fun (c : Client F RS P) out c' =>
    c'.delivery = c.delivery ∧ ∀ o ∈ out, o.Silent where
  composes :=
    ⟨fun _ => ⟨rfl, by simp⟩, fun h h' => ⟨h'.1.trans h.1, List.forall_mem_append.mpr ⟨h.2, h'.2⟩⟩⟩
  calm hcalm := ⟨hcalm.delivery, by simp⟩
  still hstill := ⟨hstill.delivery, by simp⟩
  number _ := ⟨rfl, by simp⟩
  code _ _ _ _ := ⟨rfl, by simp [ClientOut.Silent]⟩
  send _ _ _ _ _ := ⟨rfl, by simp [ClientOut.Silent]⟩
  adopt c data := ⟨(adopted_applyAnnounce env c data).delivery, by simp⟩
  publish _ _ _ := ⟨rfl, by simp⟩

/-- **Every goroutine keeps the invariant.** -/
theorem rules_inOrder : Rules env (InOrder : Client F RS P → List (ClientOut P) → _ → Prop)
    (fun _ => 0) (fun _ => 0) (fun _ => 0) fun _ => True := by
  refine (actions_silent env).rules ?_ ?_ ?_
  · rintro c o c' log m ⟨hdelivery, hsilent⟩ hinv hundisturbed hrange
    rw [undisturbed_silent hsilent] at hundisturbed
    obtain ⟨hordered, hown⟩ := hinv hundisturbed (List.forall_mem_append.mp hrange).1
    rw [unwritten_silent hsilent]
    refine ⟨⟨hdelivery ▸ hordered.sound, ?_⟩, hown⟩
    rw [unwritten_silent hsilent, written_silent hsilent, hdelivery]
    exact hordered.between
  · intro now τ frames
    refine (owns_call (fun d => d.push τ now frames) (.pushed frames) ?_ ?_ ?_).bind ?_
    · exact fun _ _ => rfl
    · exact fun _ => rfl
    · exact fun d hd hrange => DeliveryBuffer.push_spec hd (fun f hf => (hrange f hf).2) τ now
    · rintro returned m rfl
      exact owns_deliver returned
  · intro now τ
    refine (owns_call (fun d => d.tick τ now) .skipped ?_ ?_ ?_).bind ?_
    · exact fun _ _ => rfl
    · exact fun _ => rfl
    · exact fun d hd _ => DeliveryBuffer.tick_spec hd τ now
    · rintro returned m rfl
      exact owns_deliver returned

variable {env}

/-- **The inner peer gets increasing numbers**, in every interleaving of the goroutines of
a client in which every call of the delivery buffer finds the frames of the earlier calls
written. -/
theorem writes_in_order {T : Type} [DecidableEq T] {id : UInt64} {c : Client F RS P}
    (hnew : newClient RS env id = .ok c) {es : List (Pool.Event T (Call F))}
    (hundisturbed : Undisturbed (Run.outputs (Client.step env) (Pool.idle c) es).flatten)
    (hrange : ∀ o ∈ (Run.outputs (Client.step env) (Pool.idle c) es).flatten, o.InRange) :
    ((written (Run.outputs (Client.step env) (Pool.idle c) es).flatten).map
      fun f => f.seq.toNat).Pairwise (· < ·) := by
  have hstart : InOrder c ([] : List (ClientOut P)) 0 := by
    intro _ _
    refine ⟨⟨?_, .nil (Nat.zero_le _)⟩, .inl rfl⟩
    rw [(initial_newClient hnew).delivery]
    exact DeliveryBuffer.sound_new _ _
  obtain ⟨m, hinv⟩ := Pool.inv_exec hstart es fun _ call _ =>
    (rules_inOrder env).owns_body call (by cases call <;> trivial)
  obtain ⟨⟨-, hbetween⟩, -⟩ := hinv hundisturbed hrange
  have hsorted := hbetween.sorted
  rw [List.map_append, List.pairwise_append] at hsorted
  exact hsorted.1

end Client

/-! ### Two receivers -/

/-- The acknowledgement of the small server, with its public key and announce. -/
def smallAckPayload : Bytes := (smallKey 9).pub smallPrimitives ++ stringBytes smallAnnounceText

/-- The session key that the small client gets from it. -/
def smallSessionAEAD : AEAD smallPrimitives :=
  (Client.sessionKey smallClientEnv 5 smallAckPayload).getD smallBaseAEAD

/-- The inner peer sends a datagram, and the key exchange ends. -/
def smallConnect : List (Pool.Event Bool (Client.Call ℚ)) :=
  [.start false (.ingress 0 0 ⟨"127.0.0.1", 51820⟩ 0 [7])] ++ List.replicate 6 (.sched false) ++
    [.start false (.recv 0 0 IterOrder.plain (smallDatagram smallBaseAEAD .serverToClient
      { flags := flagControl ||| flagKex, sessionID := 5, seq := 1, payload := smallAckPayload }))] ++
    List.replicate 8 (.sched false)

/-- A goroutine starts to receive a datagram of the session. -/
def smallRecv (t : Bool) (seq : UInt32) : Pool.Event Bool (Client.Call ℚ) :=
  .start t (.recv 0 0 IterOrder.plain (smallDatagram smallSessionAEAD .serverToClient
    { sessionID := 5, seq := seq, payload := [1] }))

/-- Two goroutines receive frames 1 and 2, one after the other. -/
def smallTurns : List (Pool.Event Bool (Client.Call ℚ)) :=
  smallConnect ++ [smallRecv false 1] ++ List.replicate 12 (.sched false) ++
    [smallRecv true 2] ++ List.replicate 12 (.sched true)

/-- What the client does then. -/
def smallTurnsLog : List (ClientOut smallPrimitives) :=
  (Run.outputs (Client.step smallClientEnv) (Pool.idle smallClient) smallTurns).flatten

theorem Client.writes_in_order_small :
    let log := (Run.outputs (Client.step smallClientEnv) (Pool.idle smallClient) smallTurns).flatten
    (written log).length = 2 ∧ ((written log).map fun f => f.seq.toNat).Pairwise (· < ·) := by
  have hrun : (written smallTurnsLog).length = 2 ∧ Undisturbed smallTurnsLog ∧
      ∀ o ∈ smallTurnsLog, o.InRange := by decide +kernel
  exact ⟨hrun.1, writes_in_order newClient_small hrun.2.1 hrun.2.2⟩

/-- The goroutine with frame 1 is preempted between its call of the buffer and its write;
the other one receives frame 2. -/
def smallPreempted : List (Pool.Event Bool (Client.Call ℚ)) :=
  smallConnect ++ [smallRecv false 1] ++ List.replicate 8 (.sched false) ++
    [smallRecv true 2] ++ List.replicate 12 (.sched true) ++ List.replicate 4 (.sched false)

/-- **The inner peer gets frame 2 before frame 1**, although they arrived in order. -/
theorem Client.writes_out_of_order :
    newClient smallCodes smallClientEnv 5 = .ok smallClient ∧
      let log :=
        (Run.outputs (Client.step smallClientEnv) (Pool.idle smallClient) smallPreempted).flatten
      (∀ o ∈ log, o.InRange) ∧ (written log).map (fun f => f.seq.toNat) = [2, 1] :=
  ⟨newClient_small, by decide +kernel⟩

end FlexBraid
