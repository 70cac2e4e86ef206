import FlexBraid.Tunnel.Announce
import FlexBraid.Tunnel.Client
import FlexBraid.Tunnel.DeliveryOrder

/-!
# The replay window and the delivery window

The replay window of a client is measured in sequence numbers, its delivery buffer in
frames.  A frame that is a whole replay window ahead moves the window past numbers the
buffer still waits for; answers to probes and parity frames, which never enter the
buffer, do so as well as data.  As long as no frame arrives that far ahead of what the
buffer expects, the replay window rejects nothing the buffer would still deliver.

## Main definitions

* `Client.presented` — the authentic frame in a datagram.
* `WindowEvent`, `Client.windowStep` — what reaches the two windows of a client.
* `Client.NearNext` — an arrival less than a replay window ahead of the buffer.

## Main results

* `Client.replay_covers_delivery` — **what the replay window rejects, the buffer has moved
  past.**
* `Client.replay_overtakes_delivery` — not so when an answer to a probe runs ahead.
-/

namespace FlexBraid

/-- What reaches the windows of a client: datagrams for `openAndVerify`, and calls of the
delivery buffer.  Each is one action, so this covers all interleavings of the
goroutines. -/
inductive WindowEvent where
  | receive (hdr : Frame) (datagram : Bytes)
  | push (now : Time) (τ : IterOrder UInt32) (frames : List Frame)
  | tick (now : Time) (τ : IterOrder UInt32)

namespace Client

variable {F C : Type} {RS : ReedSolomon C} {P : Primitives}

/-- The authentic frame of the session in a datagram. -/
def presented (c : Client F RS P) (hdr : Frame) (datagram : Bytes) : Option Frame :=
  if hdr.sessionID ≠ c.sess.id then none
  else c.sessAEAD.bind fun aead =>
    (aead.openFrame .serverToClient datagram).toOption.bind fun plain => (Frame.decode plain).toOption

/-- One event; the numbers that the replay window accepts are reported. -/
def windowStep (c : Client F RS P) : WindowEvent → Client F RS P × List UInt32
  | .receive hdr datagram =>
    let r := (openAndVerify hdr datagram : CliProg RS F P (Option Frame)).run c
    (r.2.1, (r.1.map Frame.seq).toList)
  | .push now τ frames => (((deliverPush now τ frames : CliProg RS F P Unit).run c).2.1, [])
  | .tick now τ => (((deliverTick now τ : CliProg RS F P Unit).run c).2.1, [])

/-- A frame that arrives is less than a replay window ahead of the number that the buffer
expects; the numbers are below 2³¹. -/
def NearNext (c : Client F RS P) : WindowEvent → Prop
  | .receive hdr datagram => ∀ f, c.presented hdr datagram = some f →
      f.InRange ∧ f.seq.toNat < c.delivery.next.toNat + defaultReplayWindow.toNat
  | .push _ _ frames => ∀ f ∈ frames, f.InRange
  | .tick _ _ => True

instance (c : Client F RS P) : ∀ e, Decidable (c.NearNext e)
  | .receive hdr datagram => inferInstanceAs (Decidable (∀ f ∈ c.presented hdr datagram,
      f.InRange ∧ f.seq.toNat < c.delivery.next.toNat + defaultReplayWindow.toNat))
  | .push _ _ frames => inferInstanceAs (Decidable (∀ f ∈ frames, f.InRange))
  | .tick _ _ => inferInstanceAs (Decidable True)

/-! ### The events -/

/-- The client after its replay window has checked a number. -/
def mark (c : Client F RS P) (seq : UInt32) : Client F RS P :=
  { c with sess := { c.sess with replay := (c.sess.replay.checkAndMark seq).1 } }

theorem run_verify (aead : AEAD P) (datagram : Bytes) (c : Client F RS P) :
    (verify aead datagram : CliProg RS F P (Option Frame)).run c =
      ((aead.openFrame .serverToClient datagram).toOption.bind fun plain =>
        (Frame.decode plain).toOption).elim (none, c, []) fun f =>
          (if (c.sess.replay.checkAndMark f.seq).2 then some f else none, c.mark f.seq, []) := by
  unfold verify
  cases aead.openFrame .serverToClient datagram with
  | error e => rfl
  | ok plain =>
    change _ = (Frame.decode plain).toOption.elim _ _
    dsimp only
    cases Frame.decode plain with
    | error e => rfl
    | ok f => exact Prog.run_bind _ _ c

theorem run_openAndVerify (hdr : Frame) (datagram : Bytes) (c : Client F RS P) :
    (openAndVerify hdr datagram : CliProg RS F P (Option Frame)).run c =
      (c.presented hdr datagram).elim (none, c, []) fun f =>
        (if (c.sess.replay.checkAndMark f.seq).2 then some f else none, c.mark f.seq, []) := by
  rw [openAndVerify, presented, Prog.run_bind, Prog.run_read]
  split
  · rfl
  · rw [Prog.run_bind, getSessionAEAD, Prog.run_read]
    cases c.sessAEAD with
    | none => rfl
    | some aead => exact run_verify aead datagram c

theorem windowStep_receive (c : Client F RS P) (hdr : Frame) (datagram : Bytes) :
    c.windowStep (.receive hdr datagram) =
      (c.presented hdr datagram).elim (c, []) fun f =>
        (c.mark f.seq, if (c.sess.replay.checkAndMark f.seq).2 then [f.seq] else []) := by
  rw [windowStep, run_openAndVerify]
  cases c.presented hdr datagram with
  | none => rfl
  | some f =>
    rw [Option.elim_some, Option.elim_some]
    split <;> rfl

theorem run_deliverToWG (frames : List Frame) (c : Client F RS P) :
    ((deliverToWG frames : CliProg RS F P Unit).run c).2.1 = c := by
  have hkeeps : (deliverToWG frames : CliProg RS F P Unit).Keeps fun c _ c' => c' = c := by
    refine (Prog.keeps_atomic fun _ => rfl).bind fun addr => ?_
    split
    · exact Prog.keeps_pure _
    · exact Prog.keeps_forM (fun f => Prog.keeps_atomic fun _ => rfl) frames
  exact hkeeps.run ⟨fun _ => rfl, fun h h' => h'.trans h⟩ c

/-! ### The invariant -/

/-- The numbers accepted so far are less than a window ahead of the number that the buffer
expects. -/
structure Covered (c : Client F RS P) (accepted : List UInt32) : Prop where
  window : c.sess.replay.window = defaultReplayWindow
  replay : c.sess.replay.Accepted { q | q ∈ accepted }
  near : ∀ q ∈ accepted, q.toNat < c.delivery.next.toNat + defaultReplayWindow.toNat
  sound : c.delivery.Sound

variable {c : Client F RS P} {accepted : List UInt32}

theorem Covered.deliver (h : c.Covered accepted) {d : DeliveryBuffer} (hd : d.Sound)
    (hnext : c.delivery.next.toNat ≤ d.next.toNat) :
    Covered { c with delivery := d } (accepted ++ []) := by
  rw [List.append_nil]
  refine ⟨h.window, h.replay, fun q hq => ?_, hd⟩
  have hnear := h.near q hq
  show q.toNat < d.next.toNat + _
  omega

theorem covered_step (h : c.Covered accepted) {e : WindowEvent} (hnear : c.NearNext e) :
    (c.windowStep e).1.Covered (accepted ++ (c.windowStep e).2) := by
  cases e with
  | receive hdr datagram =>
    rw [windowStep_receive]
    cases hf : c.presented hdr datagram with
    | none =>
      rw [Option.elim_none, List.append_nil]
      exact h
    | some f =>
      rw [Option.elim_some]
      obtain ⟨-, hlt⟩ := hnear f hf
      rw [ReplayWindow.checkAndMark_snd]
      cases hseen : c.sess.replay.seen f.seq with
      | true =>
        have hsame : c.mark f.seq = c := by
          rw [mark, ReplayWindow.checkAndMark_of_seen hseen]
        rw [hsame]
        exact (List.append_nil accepted).symm ▸ h
      | false =>
        refine ⟨(ReplayWindow.window_checkAndMark _ _).trans h.window, ?_, ?_, h.sound⟩
        · have hset : { q | q ∈ accepted ++ [f.seq] } = insert f.seq { q | q ∈ accepted } := by
            ext q
            simp [or_comm]
          show (c.sess.replay.checkAndMark f.seq).1.Accepted { q | q ∈ accepted ++ [f.seq] }
          rw [hset]
          exact h.replay.insert hseen
        · intro q hq
          rcases List.mem_append.mp hq with hq | hq
          · exact h.near q hq
          · rw [List.mem_singleton.mp hq]
            exact hlt
  | push now τ frames =>
    rw [windowStep, deliverPush, Prog.run_bind, run_deliverToWG, Prog.run_atomic]
    obtain ⟨hbetween, hsound⟩ := DeliveryBuffer.push_spec h.sound (fun f hf => (hnear f hf).2) τ now
    exact h.deliver hsound hbetween.le
  | tick now τ =>
    rw [windowStep, deliverTick, Prog.run_bind, run_deliverToWG, Prog.run_atomic]
    obtain ⟨hbetween, hsound⟩ := DeliveryBuffer.tick_spec h.sound τ now
    exact h.deliver hsound hbetween.le

/-- A frame that is rejected without having been accepted is behind the buffer. -/
theorem Covered.rejected (h : c.Covered accepted) {f : Frame} (hf : f.InRange)
    (hnew : f.seq ∉ accepted) (hreject : (c.sess.replay.checkAndMark f.seq).2 = false) :
    seqBefore f.seq c.delivery.next = true := by
  rw [ReplayWindow.checkAndMark_snd, Bool.not_eq_false'] at hreject
  obtain ⟨q, hq, hbehind⟩ := h.replay.of_seen hreject hnew
  have hnear := h.near q hq
  rw [h.window] at hbehind
  rw [seqBefore_iff_lt hf.2.le h.sound.next_pos h.sound.next_le]
  omega

/-- **What the replay window rejects, the delivery buffer has moved past**: a client with
fresh windows, for any limit of its buffer, and any sequence of arrivals and calls of the
buffer in which no frame arrives a whole replay window ahead of the number expected. -/
theorem replay_covers_delivery {gapTimeout : Duration} {maxPending : ℤ}
    (hreplay : c.sess.replay = ReplayWindow.new defaultReplayWindow)
    (hdelivery : c.delivery = newDeliveryBuffer gapTimeout maxPending) {es : List WindowEvent}
    {hdr : Frame} {datagram : Bytes}
    (hnear : Run.Along windowStep NearNext c (es ++ [.receive hdr datagram])) {f : Frame}
    (hf : (Run.exec windowStep c es).presented hdr datagram = some f)
    (hnew : f.seq ∉ (Run.outputs windowStep c es).flatten)
    (hreject : ((Run.exec windowStep c es).sess.replay.checkAndMark f.seq).2 = false) :
    seqBefore f.seq (Run.exec windowStep c es).delivery.next = true := by
  obtain ⟨hnear, hlast, -⟩ := (Run.along_append windowStep NearNext c es _).mp hnear
  have hstart : c.Covered [] := by
    refine ⟨?_, ?_, by simp, ?_⟩
    · rw [hreplay]
      rfl
    · rw [hreplay]
      simpa using ReplayWindow.accepted_new defaultReplayWindow
    · rw [hdelivery]
      exact DeliveryBuffer.sound_new _ _
  have hstep : ∀ (c : Client F RS P) accepted e, c.Covered accepted → c.NearNext e →
      (c.windowStep e).1.Covered (accepted ++ (c.windowStep e).2) := fun _ _ _ h hP => covered_step h hP
  have hcovered := Run.exec_induct_outputs hstep hstart hnear
  rw [List.nil_append] at hcovered
  exact hcovered.rejected (hlast f hf).1 hnew hreject

end Client

/-! ### A small client -/

def smallReadyClient : Client ℚ smallCodes smallPrimitives :=
  { smallClient with sessAEAD := some smallBaseAEAD }

/-- A datagram of the small client's session arrives. -/
def smallReceive (f : Frame) : WindowEvent :=
  .receive f (smallDatagram smallBaseAEAD .serverToClient f)

/-- A datagram of the inner peer, with the given number. -/
def smallData (seq : UInt32) : Frame :=
  { version := protocolVersion, sessionID := 5, seq := seq, payload := [1] }

/-- An answer to a probe, with the given number. -/
def smallPong (seq : UInt32) : Frame :=
  { version := protocolVersion, flags := flagPong, sessionID := 5, seq := seq, payload := putUint64 0 }

/-- The buffer skips to 3000, then 5000 arrives and moves the replay window past 1. -/
def smallSkip : List WindowEvent :=
  [smallReceive (smallData 3000), .push 0 IterOrder.plain [smallData 3000],
    .tick second IterOrder.plain, smallReceive (smallData 5000)]

theorem Client.replay_covers_delivery_small :
    ((Run.exec Client.windowStep smallReadyClient smallSkip).sess.replay.checkAndMark
        (smallData 1).seq).2 = false ∧ seqBefore (smallData 1).seq
        (Run.exec Client.windowStep smallReadyClient smallSkip).delivery.next = true := by
  have hnear : Run.Along Client.windowStep Client.NearNext smallReadyClient
      (smallSkip ++ [smallReceive (smallData 1)]) := by decide +kernel
  have hreject : ((Run.exec Client.windowStep smallReadyClient smallSkip).sess.replay.checkAndMark
      (smallData 1).seq).2 = false := by decide +kernel
  have hinitial := Client.initial_newClient newClient_small
  have hreplay : smallReadyClient.sess.replay = ReplayWindow.new defaultReplayWindow := by
    show smallClient.sess.replay = _
    rw [hinitial.sess]
    rfl
  have hpresented : (Run.exec Client.windowStep smallReadyClient smallSkip).presented (smallData 1)
      (smallDatagram smallBaseAEAD .serverToClient (smallData 1)) = some (smallData 1) := by
    decide +kernel
  have hnew : (smallData 1).seq ∉
      (Run.outputs Client.windowStep smallReadyClient smallSkip).flatten := by decide +kernel
  exact ⟨hreject, replay_covers_delivery hreplay hinitial.delivery hnear hpresented hnew hreject⟩

/-- **An answer to a probe moves the replay window past data that the buffer waits for**:
all frames are authentic and each arrives once. -/
theorem Client.replay_overtakes_delivery :
    newClient smallCodes smallClientEnv 5 = .ok smallClient ∧
      smallReadyClient.presented (smallPong 4097)
        (smallDatagram smallBaseAEAD .serverToClient (smallPong 4097)) = some (smallPong 4097) ∧
      let c := Run.exec Client.windowStep smallReadyClient [smallReceive (smallPong 4097)]
      (Run.outputs Client.windowStep smallReadyClient [smallReceive (smallPong 4097)]).flatten =
          [4097] ∧
        c.presented (smallData 1) (smallDatagram smallBaseAEAD .serverToClient (smallData 1)) =
          some (smallData 1) ∧
        (c.sess.replay.checkAndMark 1).2 = false ∧ seqBefore 1 c.delivery.next = false :=
  ⟨newClient_small, by decide +kernel⟩

end FlexBraid
