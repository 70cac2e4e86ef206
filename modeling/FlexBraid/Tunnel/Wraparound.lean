import FlexBraid.Tunnel.ClientNonce

/-!
# The receive path and the wrap-around

The counters of both ends wrap around at 2³², and so do the comparisons of the delivery
buffer; the replay window compares plain numbers.  So frames that arrive in order are all
accepted, up to the last number before the wrap-around, and the next one is not.

## Main definitions

* `downlinkFrame`, `uplinkFrame` — one end numbers a frame, the other checks its number.
* `ReplayWindow.InOrder` — the window after frames that arrived in order.

## Main results

* `in_order_accepted` — **frames that arrive in order are accepted** before the counter
  wraps around.
* `wrapped_rejected` — the first frame after that is rejected.
-/

namespace FlexBraid

/-! ### The window -/

namespace ReplayWindow

/-- The window of an end after the numbers from one to `n` arrived in order. -/
structure InOrder (w : ReplayWindow) (n : ℕ) : Prop where
  window : w.window = defaultReplayWindow
  accepted : w.Accepted { q | 1 ≤ q.toNat ∧ q.toNat ≤ n }

theorem inOrder_new : (new defaultReplayWindow).InOrder 0 where
  window := rfl
  accepted := by
    have hnone : { q : UInt32 | 1 ≤ q.toNat ∧ q.toNat ≤ 0 } = ∅ := by
      ext q
      simp only [Set.mem_ofPred_eq, Set.mem_empty_iff_false, iff_false]
      omega
    rw [hnone]
    exact accepted_new _

variable {w : ReplayWindow} {n : ℕ}

theorem InOrder.unseen (h : w.InOrder n) (hn : n + 1 < 2 ^ 32) :
    w.seen (wireSeq (n + 1)) = false := by
  refine AtMost.unseen ⟨_, h.accepted, fun _ hq => hq.2⟩ ?_
  rw [toNat_wireSeq hn]
  exact Nat.lt_succ_self n

theorem InOrder.next (h : w.InOrder n) (hn : n + 1 < 2 ^ 32) :
    (w.checkAndMark (wireSeq (n + 1))).1.InOrder (n + 1) where
  window := (w.window_checkAndMark _).trans h.window
  accepted := by
    have hseq := toNat_wireSeq hn
    have hset : { q : UInt32 | 1 ≤ q.toNat ∧ q.toNat ≤ n + 1 } =
        insert (wireSeq (n + 1)) { q | 1 ≤ q.toNat ∧ q.toNat ≤ n } := by
      ext q
      rw [Set.mem_insert_iff, Set.mem_ofPred_eq, Set.mem_ofPred_eq, ← UInt32.toNat_inj, hseq]
      omega
    rw [hset]
    exact h.accepted.insert (h.unseen hn)

/-- After the last number before the wrap-around the window has moved, so zero is behind
it. -/
theorem InOrder.wrapped (h : w.InOrder n) (hn : n + 1 = 2 ^ 32) :
    w.seen (wireSeq (n + 1)) = true := by
  have hlast : (wireSeq n).toNat = n := toNat_wireSeq (by omega)
  have hbehind := h.accepted.behind (wireSeq n) ⟨by omega, by omega⟩
  rw [h.window, show defaultReplayWindow.toNat = 4096 from rfl] at hbehind
  have hzero : (wireSeq (n + 1)).toNat = 0 := by
    rw [hn]
    rfl
  rw [seen, Bool.or_eq_true, decide_eq_true_eq, UInt32.lt_iff_toNat_lt]
  omega

/-- One end counts what it numbers, the other checks it: after `n` frames the window has
accepted the first `n` numbers. -/
theorem inOrder_iterate {X : Type} (step : X → X) (count : X → ℕ) (win : X → ReplayWindow)
    (hcount : ∀ x, count (step x) = count x + 1)
    (hwin : ∀ x, win (step x) = ((win x).checkAndMark (wireSeq (count x + 1))).1) {x : X}
    (hzero : count x = 0) (hnew : win x = new defaultReplayWindow) {n : ℕ} (hn : n < 2 ^ 32) :
    count (step^[n] x) = n ∧ (win (step^[n] x)).InOrder n := by
  induction n with
  | zero =>
    refine ⟨hzero, ?_⟩
    rw [Function.iterate_zero_apply, hnew]
    exact inOrder_new
  | succ n ih =>
    obtain ⟨hn', horder⟩ := ih (by omega)
    rw [Function.iterate_succ_apply', hcount, hwin, hn']
    exact ⟨rfl, horder.next hn⟩

end ReplayWindow

/-! ### The two ends -/

section
variable {F C : Type} {RS : ReedSolomon C} {P : Primitives}

/-- A frame from the server to the client: the session numbers it, the client checks its
number. -/
def downlinkFrame (x : SessView F RS P × Client F RS P) :
    (SessView F RS P × Client F RS P) × Bool :=
  let sent := (Server.nextSeq : SessProg RS F P UInt32).run x.1
  let checked := (Client.checkReplay sent.1 : CliProg RS F P Bool).run x.2
  ((sent.2.1, checked.2.1), checked.1)

/-- A frame from the client to the server. -/
def uplinkFrame (x : SessView F RS P × Client F RS P) :
    (SessView F RS P × Client F RS P) × Bool :=
  let sent := (Client.nextSeq : CliProg RS F P UInt32).run x.2
  let checked := (Server.checkReplay sent.1 : SessProg RS F P Bool).run x.1
  ((checked.2.1, sent.2.1), checked.1)

/-- Both ends after `n` frames to the client, each delivered once and in order. -/
def downlinkAfter (n : ℕ) (x : SessView F RS P × Client F RS P) : SessView F RS P × Client F RS P :=
  (fun x => (downlinkFrame x).1)^[n] x

/-- Both ends after `n` frames to the server, each delivered once and in order. -/
def uplinkAfter (n : ℕ) (x : SessView F RS P × Client F RS P) : SessView F RS P × Client F RS P :=
  (fun x => (uplinkFrame x).1)^[n] x

theorem downlinkFrame_snd (x : SessView F RS P × Client F RS P) :
    (downlinkFrame x).2 = !x.2.sess.replay.seen (wireSeq (x.1.sess.seq + 1)) := by
  show ((Client.checkReplay _ : CliProg RS F P Bool).run x.2).1 = _
  rw [Client.checkReplay, Prog.run_atomic]
  exact ReplayWindow.checkAndMark_snd _ _

theorem uplinkFrame_snd (x : SessView F RS P × Client F RS P) :
    (uplinkFrame x).2 = !x.1.sess.replay.seen (wireSeq (x.2.sess.seq + 1)) := by
  show ((Server.checkReplay _ : SessProg RS F P Bool).run x.1).1 = _
  rw [Server.checkReplay, Prog.run_atomic]
  exact ReplayWindow.checkAndMark_snd _ _

variable {x : SessView F RS P × Client F RS P} {n : ℕ}

/-- Between a new session and its client the frames of both directions arrive in order. -/
theorem after_inOrder {id : UInt64} (hclient : x.2.sess = newClientWithID id)
    (hseq : x.1.sess.seq = 0) (hreplay : x.1.sess.replay = ReplayWindow.new defaultReplayWindow)
    (hn : n < 2 ^ 32) :
    ((downlinkAfter n x).1.sess.seq = n ∧ (downlinkAfter n x).2.sess.replay.InOrder n) ∧
      (uplinkAfter n x).2.sess.seq = n ∧ (uplinkAfter n x).1.sess.replay.InOrder n := by
  constructor
  · exact ReplayWindow.inOrder_iterate (fun x => (downlinkFrame x).1) (fun x => x.1.sess.seq)
      (fun x => x.2.sess.replay) (fun _ => rfl) (fun _ => rfl) hseq (by rw [hclient]; rfl) hn
  · exact ReplayWindow.inOrder_iterate (fun x => (uplinkFrame x).1) (fun x => x.2.sess.seq)
      (fun x => x.1.sess.replay) (fun _ => rfl) (fun _ => rfl) (by rw [hclient]; rfl) hreplay hn

/-- **Frames that arrive in order are accepted**, in both directions of a new session,
while the counter of the sender has not wrapped around. -/
theorem in_order_accepted [Float64 F] {env : ClientEnv F P} {id : UInt64} {c : Client F RS P}
    (hnew : newClient RS env id = .ok c) (now : Time) (aead : AEAD P) (enc : Encoder F RS)
    (serverPub : Bytes) (st : Option (SessState F)) (hn : n + 1 < 2 ^ 32) :
    let x : SessView F RS P × Client F RS P := (⟨newServerSession now id aead enc serverPub, st⟩, c)
    (downlinkFrame (downlinkAfter n x)).2 = true ∧ (uplinkFrame (uplinkAfter n x)).2 = true := by
  intro x
  have hsess : c.sess = newClientWithID id := (Client.initial_newClient hnew).sess
  obtain ⟨⟨hdown, hdown'⟩, hup, hup'⟩ := after_inOrder (x := x) (n := n) hsess rfl rfl (by omega)
  rw [downlinkFrame_snd, uplinkFrame_snd, hdown, hup, hdown'.unseen hn, hup'.unseen hn]
  exact ⟨rfl, rfl⟩

/-- The small session and the small client. -/
def smallEnds : SessView ℚ smallCodes smallPrimitives × Client ℚ smallCodes smallPrimitives :=
  (⟨smallSession, none⟩, smallClient)

theorem in_order_accepted_small : (downlinkFrame (downlinkAfter 2 smallEnds)).2 = true ∧
      (uplinkFrame (uplinkAfter 2 smallEnds)).2 = true :=
  in_order_accepted newClient_small 0 smallBaseAEAD
    (freshEncoder smallServerEnv.fecParams none fun h => absurd h (by decide)) [] none (by decide)

/-- **The frame after the wrap-around is rejected**, in both directions, although all
before it arrived in order. -/
theorem wrapped_rejected : (downlinkFrame (downlinkAfter (2 ^ 32 - 1) smallEnds)).2 = false ∧
      (uplinkFrame (uplinkAfter (2 ^ 32 - 1) smallEnds)).2 = false := by
  have hsess : smallClient.sess = newClientWithID 5 := (Client.initial_newClient newClient_small).sess
  have hwrap : (2 : ℕ) ^ 32 - 1 + 1 = 2 ^ 32 := by norm_num
  generalize (2 : ℕ) ^ 32 - 1 = n at hwrap
  obtain ⟨⟨hdown, hdown'⟩, hup, hup'⟩ :=
    after_inOrder (x := smallEnds) (n := n) hsess rfl rfl (by omega)
  rw [downlinkFrame_snd, uplinkFrame_snd, hdown, hup, hdown'.wrapped hwrap, hup'.wrapped hwrap]
  exact ⟨rfl, rfl⟩

end

end FlexBraid
