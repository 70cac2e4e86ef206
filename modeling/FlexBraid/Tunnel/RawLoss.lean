import FlexBraid.Crypto.Aead
import FlexBraid.Crypto.Keys
import FlexBraid.Crypto.Replay
import FlexBraid.Fec.RawPath
import FlexBraid.Tunnel.SendQueue

/-!
# The raw loss of a path

The sender numbers the frames that pass through on a WAN, and the receiver counts the numbers that
stay missing as lost on the path.  The numbers are drawn before a frame is sealed and queued, and
looked at after it was opened, so that a frame that the sender itself drops is a loss of the path
to the receiver, and so is one that the receiver drops before its decoder.

The model is one WAN of a client with its queue, a transport that loses nothing and keeps the
order, and the path as the server sees it.  Frames of the session on other paths reach the replay
window and the decoder, too.

## Main definitions

* `PassLink`, `PassLink.step` — the WAN, the transport and the receiver.
* `PassLink.sendLocked`, `PassLink.receive` — the two ends.
* `PassLink.totalLost` — all losses that were booked so far.
* `PassLink.kept` — the sender drops no frame, and neither does the receiver.

## Main results

* `PassLink.flow_step`, `PassLink.no_loss` — **no loss is booked** when no frame is dropped.
* `PassLink.queue_drop_booked` — a frame that the queue drops is booked as a loss of the path.
-/

namespace FlexBraid

variable {F C : Type} {RS : ReedSolomon C} {P : Primitives}

/-! ### The link -/

/-- What both ends of a path agree on. -/
structure PassEnv (P : Primitives) where
  aead : AEAD P
  sessionID : UInt64
  /-- The name of the path at the receiver. -/
  path : String

/-- One WAN, its transport and its receiver. -/
structure PassLink (F C : Type) where
  /-- The counter of the pass-through frames sent. -/
  pathSeq : UInt32 := 0
  queue : Option (SendQueue F)
  /-- The frame for which the consumer of the queue waits. -/
  held : Option Bytes := none
  /-- What the transport was handed and the receiver has not got yet. -/
  wire : List Bytes := []
  replay : ReplayWindow
  /-- The decoder; none after a panic. -/
  fecDec : Option (Decoder F C)
  /-- The losses that were read out of the decoder. -/
  lost : ℕ := 0

/-- What can happen: a frame is sent, the consumer of the queue takes a frame or writes it, a
datagram arrives, a frame that is not of this WAN arrives, the decoder is ticked, and its counters
are read out. -/
inductive PassEvent where
  | send (f : Frame)
  | pop
  | pace (now : Time)
  | arrive (now : Time)
  | foreign (now : Time) (path : String) (f : Frame)
  | tick (σ : IterOrder BlockKey) (now : Time)
  | takePathStats

/-- A sealed frame, if it can be encoded. -/
def Frame.sealed (a : AEAD P) (f : Frame) : Option Bytes :=
  f.encode.toOption.bind fun plain => (a.sealFrame .clientToServer plain).toOption

theorem Frame.encode_of_sealed {a : AEAD P} {f : Frame} {d : Bytes} (h : f.sealed a = some d) :
    ∃ plain, f.encode = .ok plain ∧ a.sealFrame .clientToServer plain = .ok d := by
  obtain ⟨plain, hencode, hseal⟩ := Option.bind_eq_some_iff.mp h
  exact ⟨plain, Except.eq_ok_of_toOption hencode, Except.eq_ok_of_toOption hseal⟩

namespace PassLink

/-- A pass-through frame with the counter of the WAN. -/
def stamped (l : PassLink F C) (f : Frame) : Frame :=
  if f.hasFlag flagPassSeq then { f with blockSeq := l.pathSeq } else f

/-- Hand a datagram to the queue, or to the transport if there is no queue. -/
def hand (l : PassLink F C) (d : Bytes) : PassLink F C :=
  match l.queue with
  | none => { l with wire := l.wire ++ [d] }
  | some q => { l with queue := some (q.enqueue d).1 }

/-- Send a frame.  The counter goes on whether the frame can be sent or not. -/
def sendLocked (env : PassEnv P) (l : PassLink F C) (f : Frame) : PassLink F C :=
  let g := l.stamped f
  let l := { l with pathSeq := if f.hasFlag flagPassSeq then l.pathSeq + 1 else l.pathSeq }
  match g.sealed env.aead with
  | none => l
  | some d => l.hand d

/-- The consumer takes the next frame. -/
def pop (l : PassLink F C) : PassLink F C :=
  match l.held, l.queue.bind SendQueue.popNext with
  | none, some (b, q) => { l with queue := some q, held := some b }
  | _, _ => l

/-- The consumer writes its frame if there are tokens for it. -/
def pace [Float64 F] (l : PassLink F C) (now : Time) : PassLink F C :=
  match l.held, l.queue with
  | some b, some q =>
    let r := q.takeTokens now b.length
    if r.2 then { l with queue := some r.1, held := none, wire := l.wire ++ [b] }
    else { l with queue := some r.1 }
  | _, _ => l

variable (RS)

/-- Give a frame to the decoder. -/
def decode (l : PassLink F C) (now : Time) (path : String) (f : Frame) :
    PassLink F C × List Frame :=
  let r := Decoder.step RS l.fecDec (.push now path f)
  ({ l with fecDec := r.1 }, r.2)

/-- A datagram of the session comes in: it is opened, checked against the replay window and
decoded, and inner data goes to the decoder. -/
def receive (env : PassEnv P) (l : PassLink F C) (now : Time) (d : Bytes) :
    PassLink F C × List Frame :=
  match Frame.decodeHeader d, env.aead.openFrame .clientToServer d with
  | .ok hdr, .ok plain =>
    let r := l.replay.checkAndMark hdr.seq
    let l := { l with replay := r.1 }
    if !r.2 then (l, [])
    else
      match Frame.decode plain with
      | .error _ => (l, [])
      | .ok f =>
        if f.hasFlag flagKeepalive then (l, [])
        else if f.payload.length = 0 then (l, [])
        else l.decode RS now env.path f
  | _, _ => (l, [])

/-- One event, with the frames that are forwarded. -/
def step [Float64 F] (env : PassEnv P) (l : PassLink F C) : PassEvent → PassLink F C × List Frame
  | .send f => (l.sendLocked env f, [])
  | .pop => (l.pop, [])
  | .pace now => (l.pace now, [])
  | .arrive now =>
    match l.wire with
    | [] => (l, [])
    | d :: rest => ({ l with wire := rest } : PassLink F C).receive RS env now d
  | .foreign now path f =>
    if f.sessionID ≠ env.sessionID then l.decode RS now path f
    else
      let r := l.replay.checkAndMark f.seq
      let l := { l with replay := r.1 }
      if !r.2 || f.hasFlag flagKeepalive || f.payload.length = 0 then (l, [])
      else l.decode RS now path f
  | .tick σ now =>
    let r := Decoder.step RS l.fecDec (.tick σ now)
    ({ l with fecDec := r.1 }, r.2)
  | .takePathStats =>
    match l.fecDec with
    | none => (l, [])
    | some d =>
      let r := d.takePathStats env.sessionID env.path
      ({ l with fecDec := some r.1, lost := l.lost + r.2.1 }, [])

/-- The raw counters of the path. -/
def stat (env : PassEnv P) (d : Decoder F C) : RawPathStat :=
  d.pathSeq.getD ⟨env.sessionID, env.path⟩ {}

/-- All losses of the path that were booked so far. -/
def totalLost (env : PassEnv P) (l : PassLink F C) : ℕ :=
  l.lost + (l.fecDec.map fun d => (stat env d).lost).getD 0

/-- A frame of the session: a pass-through frame with inner data, or a frame that is not numbered
at all, such as a keepalive or a frame of a coded block. -/
def carries (env : PassEnv P) (f : Frame) : Bool :=
  f.sessionID = env.sessionID && !f.hasFlag flagFirst &&
    (f.flags = flagPassSeq && f.payload ≠ [] || !f.hasFlag flagPassSeq)

/-- Whether a datagram fits the queue as it is. -/
def room (l : PassLink F C) (d : Bytes) : Bool :=
  match l.queue with
  | none => true
  | some q => !q.closed && decide (q.bytes + d.length ≤ q.maxBytes)

/-- The events that drop no frame: a frame that is sent can be sealed and fits the queue, the
replay window accepts a datagram that arrives, and no other path of the session has the name of
this one. -/
def kept (env : PassEnv P) (l : PassLink F C) : PassEvent → Bool
  | .send f => carries env f && ((l.stamped f).sealed env.aead).any l.room
  | .arrive _ =>
    match l.wire.head?.map Frame.decodeHeader with
    | some (.ok hdr) => (l.replay.checkAndMark hdr.seq).2
    | _ => true
  | .foreign _ path f => f.sessionID ≠ env.sessionID || path ≠ env.path
  | _ => true

end PassLink

/-! ### Counters in order -/

namespace RawPathStat

/-- The counters after `m` of them came in order: none is missing.  The expected counter stays
where it is when the counters wrap around, and then all of them count as old. -/
structure Calm (m : ℕ) (ps : RawPathStat) : Prop where
  next : ps.next = min m (2 ^ 32)
  pending : ps.pending = ∅
  gapSince : ps.gapSince = none
  lost : ps.lost = 0

/-- **The next counter in order leaves no gap.** -/
theorem Calm.observe {m : ℕ} {ps : RawPathStat} (h : ps.Calm m) (now : Time) :
    ((ps.observe now (UInt32.ofNat m)).getD ps).Calm (m + 1) := by
  have hseq : (UInt32.ofNat m).toNat = m % 2 ^ 32 := UInt32.toNat_ofNat'
  have hnext := h.next
  unfold RawPathStat.observe
  dsimp only
  rw [hseq]
  rcases Nat.eq_zero_or_pos m with rfl | hpos
  · rw [if_pos (by omega)]
    exact ⟨by simp, h.pending, h.gapSince, h.lost⟩
  rw [if_neg (by omega)]
  rcases Nat.lt_or_ge m (2 ^ 32) with hlt | hge
  · rw [Nat.mod_eq_of_lt hlt, if_neg (by omega), if_pos (by omega)]
    unfold drainPathPending
    rw [h.pending]
    exact ⟨by change m + 1 = _; omega, rfl, rfl, h.lost⟩
  · have hmod := Nat.mod_lt m (by decide : 0 < 2 ^ 32)
    rw [if_pos (by omega)]
    exact ⟨by rw [Option.getD_none]; omega, h.pending, h.gapSince, h.lost⟩

theorem Calm.ageGap {m : ℕ} {ps : RawPathStat} (h : ps.Calm m) (now : Time) :
    ps.ageGap now = ps := by
  unfold RawPathStat.ageGap
  rw [h.gapSince]
  simp

end RawPathStat

/-! ### The invariant -/

namespace PassLink

variable {env : PassEnv P} {l : PassLink F C}

/-- What was handed over and has not arrived, oldest first. -/
def inFlight (l : PassLink F C) : List Bytes :=
  l.wire ++ (l.held.toList ++ (l.queue.map SendQueue.q).getD [])

/-- After `m` pass-through frames arrived: the frames in flight have the counters from `m` on, and
the receiver has seen the counters before. -/
structure Flow (env : PassEnv P) (m : ℕ) (l : PassLink F C) : Prop where
  unqueued : l.queue = none → l.held = none
  flight : ∃ (frames : List Frame) (n : ℕ),
    List.Forall₂ (fun f d => f.sealed env.aead = some d) frames l.inFlight ∧
    (∀ f ∈ frames, carries env f = true) ∧
    (frames.filter (·.hasFlag flagPassSeq)).map Frame.blockSeq =
      (List.range' m n).map UInt32.ofNat ∧
    l.pathSeq = UInt32.ofNat (m + n)
  calm : ∀ d, l.fecDec = some d → (stat env d).Calm m
  lost : l.lost = 0

variable {m : ℕ} {f : Frame} {path : String} {d : Decoder F C}

theorem Flow.totalLost (h : Flow env m l) : l.totalLost env = 0 := by
  rw [PassLink.totalLost, h.lost, Nat.zero_add]
  cases hd : l.fecDec with
  | none => rfl
  | some d => exact (h.calm d hd).lost

theorem carries_cases (h : carries env f = true) : f.sessionID = env.sessionID ∧
      (f.hasFlag flagPassSeq = true ∧ f.hasFlag flagFECParity = false ∧
          f.hasFlag flagKeepalive = false ∧ f.payload ≠ [] ∨ f.hasFlag flagPassSeq = false) := by
  rw [carries, Bool.and_eq_true, Bool.and_eq_true, Bool.or_eq_true, Bool.and_eq_true,
    decide_eq_true_eq, decide_eq_true_eq, decide_eq_true_eq, Bool.not_eq_true'] at h
  obtain ⟨⟨hid, -⟩, ⟨hflags, hne⟩ | hpass⟩ := h
  · refine ⟨hid, .inl ⟨?_, ?_, ?_, hne⟩⟩ <;> rw [Frame.hasFlag, hflags] <;> decide
  · exact ⟨hid, .inr (by simpa using hpass)⟩

/-! ### The sender -/

theorem inFlight_hand (hun : l.queue = none → l.held = none) {d : Bytes} (hroom : l.room d = true) :
    (l.hand d).inFlight = l.inFlight ++ [d] ∧ ((l.hand d).queue = none → (l.hand d).held = none) ∧
      (l.hand d).fecDec = l.fecDec ∧ (l.hand d).lost = l.lost ∧ (l.hand d).pathSeq = l.pathSeq := by
  unfold hand inFlight
  rw [room] at hroom
  cases hq : l.queue with
  | none =>
    dsimp only
    rw [hun hq]
    exact ⟨by simp, fun _ => rfl, rfl, rfl, rfl⟩
  | some q =>
    rw [hq] at hroom
    dsimp only at hroom ⊢
    rw [Bool.and_eq_true, Bool.not_eq_true', decide_eq_true_eq] at hroom
    have henq := (SendQueue.enqueue_fits hroom.1 hroom.2).1
    refine ⟨by simp [henq], ?_, rfl, rfl, rfl⟩
    intro hnone
    cases hnone

theorem Flow.send (h : Flow env m l) (hkept : l.kept env (.send f) = true) :
    Flow env m (l.sendLocked env f) := by
  rw [kept, Bool.and_eq_true, Option.any_eq_true] at hkept
  obtain ⟨hcarries, d, hsealed, hroom⟩ := hkept
  obtain ⟨frames, n, hflight, hall, hseqs, hpath⟩ := h.flight
  have hflag : (l.stamped f).hasFlag flagPassSeq = f.hasFlag flagPassSeq := by
    rw [stamped]
    split <;> rfl
  have hstamped : carries env (l.stamped f) = true := by
    rw [stamped]
    split
    · exact hcarries
    · exact hcarries
  -- the frame joins the others with the next counter
  set l' : PassLink F C :=
    { l with pathSeq := if f.hasFlag flagPassSeq then l.pathSeq + 1 else l.pathSeq } with hl'
  obtain ⟨hin, hun, hdec, hlost, hseq⟩ := inFlight_hand (l := l') h.unqueued hroom
  have hsend : l.sendLocked env f = l'.hand d := by
    rw [sendLocked, hsealed]
  rw [hsend]
  refine ⟨hun, ⟨frames ++ [l.stamped f], if f.hasFlag flagPassSeq then n + 1 else n, ?_, ?_, ?_, ?_⟩,
    fun d' hd' => h.calm d' (hdec ▸ hd'), hlost.trans h.lost⟩
  · rw [hin]
    exact List.rel_append hflight (.cons hsealed .nil)
  · intro g hg
    rcases List.mem_append.mp hg with hg | hg
    · exact hall g hg
    · rwa [List.mem_singleton.mp hg]
  · rw [List.filter_append, List.map_append, hseqs]
    cases hp : f.hasFlag flagPassSeq with
    | true =>
      rw [List.filter_cons_of_pos (by rw [hflag, hp]), List.filter_nil, if_pos rfl,
        List.range'_1_concat, List.map_append]
      simp [stamped, hp, hpath]
    | false => simp [hflag, hp]
  · rw [hseq, hl']
    dsimp only
    split
    · rw [hpath]
      apply UInt32.toNat_inj.mp
      simp [Nat.add_assoc]
    · exact hpath

/-- A step of the consumer of the queue: the datagrams in flight stay the same. -/
structure Moves (l l' : PassLink F C) : Prop where
  inFlight : l'.inFlight = l.inFlight
  queue : l'.queue = none → l.queue = none ∧ l'.held = l.held
  pathSeq : l'.pathSeq = l.pathSeq
  fecDec : l'.fecDec = l.fecDec
  lost : l'.lost = l.lost

theorem Moves.refl (l : PassLink F C) : Moves l l := ⟨rfl, fun h => ⟨h, rfl⟩, rfl, rfl, rfl⟩

theorem moves_pop (l : PassLink F C) : Moves l l.pop := by
  unfold pop
  split
  · next b q hheld hpop =>
    obtain ⟨q₀, hq₀, hpop⟩ := Option.bind_eq_some_iff.mp hpop
    refine ⟨?_, fun h => (Option.some_ne_none _ h).elim, rfl, rfl, rfl⟩
    unfold inFlight
    dsimp only
    rw [hheld, hq₀]
    simp [(SendQueue.popped hpop).q]
  · exact Moves.refl l

theorem moves_pace [Float64 F] (l : PassLink F C) (now : Time) : Moves l (l.pace now) := by
  unfold pace
  split
  · next b q hheld hqueue =>
    dsimp only
    split
    · refine ⟨?_, fun h => (Option.some_ne_none _ h).elim, rfl, rfl, rfl⟩
      unfold inFlight
      dsimp only
      rw [hheld, hqueue, Option.map_some, Option.map_some, SendQueue.takeTokens_q]
      simp
    · refine ⟨?_, fun h => (Option.some_ne_none _ h).elim, rfl, rfl, rfl⟩
      unfold inFlight
      dsimp only
      rw [hqueue, Option.map_some, Option.map_some, SendQueue.takeTokens_q]
  · exact Moves.refl l

theorem Flow.moves {l' : PassLink F C} (h : Flow env m l) (hm : Moves l l') : Flow env m l' := by
  refine ⟨fun hnone => (hm.queue hnone).2.trans (h.unqueued (hm.queue hnone).1), ?_, ?_,
    hm.lost.trans h.lost⟩
  · rw [hm.inFlight, hm.pathSeq]
    exact h.flight
  · rw [hm.fecDec]
    exact h.calm

/-! ### The receiver -/

theorem stat_observePathSeq (d : Decoder F C) (now : Time) (seq : UInt32) :
    stat env (d.observePathSeq now env.sessionID env.path seq) =
      ((stat env d).observe now seq).getD (stat env d) :=
  (d.rawStat_observePathSeq now _ _ seq _).trans (if_pos rfl)

theorem stat_observePathSeq_ne (d : Decoder F C) (now : Time) (sessionID : UInt64)
    (hne : sessionID ≠ env.sessionID ∨ path ≠ env.path) (seq : UInt32) :
    stat env (d.observePathSeq now sessionID path seq) = stat env d := by
  refine (d.rawStat_observePathSeq now _ _ seq _).trans (if_neg ?_)
  intro h
  cases h
  simp at hne

theorem stat_flushPathGaps (h : (stat env d).Calm m) (now : Time) :
    stat env (d.flushPathGaps now) = stat env d :=
  (d.rawStat_flushPathGaps now _).trans (h.ageGap now)

theorem fecDec_decode {now : Time} (h : (l.decode RS now path f).1.fecDec = some d) :
    ∃ d₀ out, l.fecDec = some d₀ ∧ d₀.push RS now path f = some (d, out) := by
  change (Decoder.step RS l.fecDec (.push now path f)).1 = some d at h
  cases hl : l.fecDec with
  | none =>
    rw [hl] at h
    cases h
  | some d₀ =>
    rw [hl, Decoder.step] at h
    cases hpush : d₀.push RS now path f with
    | none =>
      rw [hpush] at h
      cases h
    | some r =>
      rw [hpush] at h
      cases h
      exact ⟨d₀, r.2, rfl, hpush⟩

theorem calm_decode (hcalm : ∀ d, l.fecDec = some d → (stat env d).Calm m) (now : Time)
    (hid : f.sessionID = env.sessionID) (hparity : f.hasFlag flagFECParity = false)
    (hpass : f.hasFlag flagPassSeq = true) (hseq : f.blockSeq = UInt32.ofNat m)
    (hd : (l.decode RS now env.path f).1.fecDec = some d) : (stat env d).Calm (m + 1) := by
  obtain ⟨d₀, out, hd₀, hpush⟩ := fecDec_decode hd
  have hseqs := Decoder.pathSeq_push hpush
  rw [if_pos (by rw [hpass, hparity]; rfl), hid, hseq] at hseqs
  rw [stat, hseqs, ← stat, stat_observePathSeq]
  exact (hcalm d₀ hd₀).observe now

theorem calm_decode_ne (hcalm : ∀ d, l.fecDec = some d → (stat env d).Calm m) {now : Time}
    (hne : (f.sessionID ≠ env.sessionID ∨ path ≠ env.path) ∨ f.hasFlag flagPassSeq = false)
    (hd : (l.decode RS now path f).1.fecDec = some d) : (stat env d).Calm m := by
  obtain ⟨d₀, out, hd₀, hpush⟩ := fecDec_decode hd
  have hstat : stat env d = stat env d₀ := by
    rw [stat, Decoder.pathSeq_push hpush]
    rcases hne with hne | hpass
    · split
      · exact stat_observePathSeq_ne d₀ now f.sessionID hne f.blockSeq
      · rfl
    · rw [hpass]
      rfl
  rw [hstat]
  exact hcalm d₀ hd₀

theorem receive_sealed (hP : P.Lawful) {d : Bytes} (hsealed : f.sealed env.aead = some d)
    {hdr : Frame} (hhdr : Frame.decodeHeader d = .ok hdr)
    (hfresh : (l.replay.checkAndMark hdr.seq).2 = true) (now : Time) :
    l.receive RS env now d =
      let l := { l with replay := (l.replay.checkAndMark hdr.seq).1 }
      if f.hasFlag flagKeepalive then (l, [])
      else if f.payload.length = 0 then (l, [])
      else l.decode RS now env.path { f with version := protocolVersion } := by
  obtain ⟨plain, hencode, hseal⟩ := Frame.encode_of_sealed hsealed
  rw [receive, hhdr, AEAD.openFrame_sealFrame hP hseal]
  dsimp only
  rw [hfresh, Frame.decode_encode hencode]
  rfl

/-- **A datagram of the path arrives.** -/
theorem Flow.arrive (h : Flow env m l) (hP : P.Lawful) {d : Bytes} {rest : List Bytes}
    (hwire : l.wire = d :: rest) (now : Time) (hkept : l.kept env (.arrive now) = true) :
    ∃ m', Flow env m' (({ l with wire := rest } : PassLink F C).receive RS env now d).1 := by
  obtain ⟨frames, n, hflight, hall, hseqs, hpath⟩ := h.flight
  rw [inFlight, hwire, List.cons_append] at hflight
  obtain ⟨f, fs, hsealed, hrest, rfl⟩ := List.forall₂_cons_right_iff.mp hflight
  obtain ⟨hcarries, hall⟩ := List.forall_mem_cons.mp hall
  obtain ⟨hid, hkind⟩ := carries_cases hcarries
  obtain ⟨plain, hencode, hseal⟩ := Frame.encode_of_sealed hsealed
  have hhdr := AEAD.decodeHeader_sealFrame hencode hseal
  have hfresh : (l.replay.checkAndMark f.seq).2 = true := by
    rw [kept, hwire, List.head?_cons, Option.map_some, hhdr] at hkept
    exact hkept
  rw [receive_sealed (l := { l with wire := rest }) hP hsealed hhdr hfresh]
  dsimp only
  rcases hkind with ⟨hpass, hparity, hkeep, hne⟩ | hpass
  · -- the first counter in flight is the one that the receiver expects
    rw [if_neg (by rw [hkeep]; decide), if_neg (by simpa using hne)]
    rw [List.filter_cons_of_pos (by exact hpass), List.map_cons] at hseqs
    obtain ⟨n, rfl⟩ : ∃ k, n = k + 1 := by
      cases n with
      | zero => cases hseqs
      | succ k => exact ⟨k, rfl⟩
    rw [List.range'_succ, List.map_cons, List.cons.injEq] at hseqs
    refine ⟨m + 1, h.unqueued, ⟨fs, n, hrest, hall, hseqs.2, ?_⟩, ?_, h.lost⟩
    · rw [show m + 1 + n = m + (n + 1) by omega]
      exact hpath
    · intro d' hd'
      exact calm_decode (l := { l with wire := rest, replay := _ })
        (f := { f with version := protocolVersion }) h.calm now hid hparity hpass hseqs.1 hd'
  · rw [List.filter_cons_of_neg (by rw [hpass]; decide)] at hseqs
    have hkeeps : ∀ fecDec : Option (Decoder F C),
        (∀ d, fecDec = some d → (stat env d).Calm m) →
          Flow env m { l with
            wire := rest, replay := (l.replay.checkAndMark f.seq).1, fecDec := fecDec } :=
      fun fecDec hcalm => ⟨h.unqueued, ⟨fs, n, hrest, hall, hseqs, hpath⟩, hcalm, h.lost⟩
    split
    · exact ⟨m, hkeeps _ h.calm⟩
    · split
      · exact ⟨m, hkeeps _ h.calm⟩
      · refine ⟨m, hkeeps _ ?_⟩
        intro d' hd'
        exact calm_decode_ne (l := { l with wire := rest, replay := _ })
          (f := { f with version := protocolVersion }) h.calm (.inr hpass) hd'

/-! ### Runs -/

theorem Flow.of_receiver (h : Flow env m l) {replay : ReplayWindow} {fecDec : Option (Decoder F C)}
    {lost : ℕ} (hcalm : ∀ d, fecDec = some d → (stat env d).Calm m) (hlost : lost = 0) :
    Flow env m { l with replay := replay, fecDec := fecDec, lost := lost } :=
  ⟨h.unqueued, h.flight, hcalm, hlost⟩

theorem flow_step [Float64 F] (hP : P.Lawful) (h : Flow env m l) {e : PassEvent}
    (hkept : l.kept env e = true) : ∃ m', Flow env m' (l.step RS env e).1 := by
  cases e with
  | send f => exact ⟨m, h.send hkept⟩
  | pop => exact ⟨m, h.moves (moves_pop l)⟩
  | pace now => exact ⟨m, h.moves (moves_pace l now)⟩
  | arrive now =>
    cases hwire : l.wire with
    | nil =>
      rw [step, hwire]
      exact ⟨m, h⟩
    | cons d rest =>
      rw [step, hwire]
      exact h.arrive hP hwire now hkept
  | foreign now path f =>
    rw [kept, Bool.or_eq_true, decide_eq_true_eq, decide_eq_true_eq] at hkept
    rw [step]
    split
    · exact ⟨m, h.of_receiver (fun d hd => calm_decode_ne h.calm (.inl hkept) hd) h.lost⟩
    · dsimp only
      split
      · exact ⟨m, h.of_receiver h.calm h.lost⟩
      · refine ⟨m, h.of_receiver ?_ h.lost⟩
        intro d hd
        exact calm_decode_ne (l := { l with replay := _ }) h.calm (.inl hkept) hd
  | tick σ now =>
    refine ⟨m, h.of_receiver ?_ h.lost⟩
    intro d hd
    cases hl : l.fecDec with
    | none =>
      rw [hl] at hd
      cases hd
    | some d₀ =>
      rw [hl] at hd
      cases hd
      rw [stat, Decoder.pathSeq_tick, ← stat, stat_flushPathGaps (h.calm d₀ hl)]
      exact h.calm d₀ hl
  | takePathStats =>
    rw [step]
    cases hl : l.fecDec with
    | none => exact ⟨m, h⟩
    | some d₀ =>
      have hcalm := h.calm d₀ hl
      refine ⟨m, h.of_receiver ?_ ?_⟩
      · intro d hd
        cases hd
        rw [stat, Decoder.takePathStats]
        dsimp only
        rw [AList.getD_insert]
        exact ⟨hcalm.next, hcalm.pending, hcalm.gapSince, rfl⟩
      · exact (congrArg₂ (· + ·) h.lost hcalm.lost)

/-- A link before the first frame. -/
def new (queue : Option (SendQueue F)) (replay : ReplayWindow) (params : Params F) :
    PassLink F C :=
  { queue := queue, replay := replay, fecDec := some (newDecoder params) }

theorem flow_new (env : PassEnv P) {queue : Option (SendQueue F)}
    (hempty : ∀ q, queue = some q → q.q = []) (replay : ReplayWindow) (params : Params F) :
    Flow env 0 (new queue replay params : PassLink F C) := by
  refine ⟨fun _ => rfl, ⟨[], 0, ?_, by simp, rfl, rfl⟩, ?_, rfl⟩
  · cases queue with
    | none => exact .nil
    | some q =>
      unfold inFlight new
      simp [hempty q rfl]
  · intro d hd
    cases hd
    exact ⟨rfl, rfl, rfl, rfl⟩

end PassLink

section
variable [Float64 F]

theorem QueueConfig.newQueue_empty {q : QueueConfig} {w : WanConfig F} {now : Time}
    {queue : SendQueue F} (h : q.newQueue w now = some queue) : queue.q = [] := by
  unfold QueueConfig.newQueue at h
  split at h
  · cases h
    rfl
  · cases h

/-- **The raw loss is the loss of the path** as long as no frame is dropped at its ends. -/
theorem PassLink.no_loss (hP : P.Lawful) (env : PassEnv P) (q : QueueConfig) (w : WanConfig F)
    (now : Time) (replay : ReplayWindow) (params : Params F) {es : List PassEvent}
    (hes : Run.Along (step RS env) (fun l e => l.kept env e = true)
      (new (q.newQueue w now) replay params) es) :
    (Run.exec (step RS env) (new (q.newQueue w now) replay params) es).totalLost env = 0 := by
  have hstep : ∀ (l : PassLink F C) (e : PassEvent), (∃ m, Flow env m l) → l.kept env e = true →
      ∃ m, Flow env m (l.step RS env e).1 := fun l e ⟨m, h⟩ hkept => flow_step hP h hkept
  obtain ⟨m, h⟩ := Run.exec_induct hstep
    ⟨0, flow_new env (fun _ => QueueConfig.newQueue_empty) replay params⟩ hes
  exact h.totalLost

end

/-! ### A queue of a hundred bytes -/

/-- The document of a client whose queue holds two small frames and drops the newest. -/
def queueFile : ConfigFile ℚ :=
  { fixedFile 0 with
    mode := .unset
    server := "192.0.2.7:4000"
    fec := { (fixedFile 0).fec with enabled := false }
    wans := [{ id := "", capacityMbps := 100, weight := 0, transport := .unset }]
    queue := { enabled := none, maxBytes := 100, drop := "newest", rateLimit := false } }

def queueChecked : ConfigFile ℚ := (queueFile.validate smallNet).toOption.getD queueFile

/-- The ends of the path. -/
def queueEnv : PassEnv smallPrimitives where
  aead := smallBaseAEAD
  sessionID := 5
  path := "192.0.2.1:1000"

/-- The WAN of the document. -/
def queueLink : PassLink ℚ ℕ :=
  .new (queueChecked.queue.newQueue { id := "wan0", capacityMbps := 100, weight := 100 } 0)
    (ReplayWindow.new 0) { dataShards := 0, parityShards := 0, blockTimeout := 0 }

/-- The pass-through frame of one inner byte. -/
def passFrame (seq : UInt32) : Frame :=
  { flags := flagPassSeq, sessionID := 5, seq := seq, payload := [7] }

/-- The queue is drained, and what was in it arrives. -/
def drained : List PassEvent := [.pop, .pace 0, .arrive 0, .pop, .pace 0, .arrive 0]

/-- Two frames, two more after they arrived, and a tick much later. -/
theorem PassLink.no_loss_small : (Run.exec (step smallCodes queueEnv) queueLink
      ([.send (passFrame 1), .send (passFrame 2)] ++ drained ++
        [.send (passFrame 3), .send (passFrame 4)] ++ drained ++
          [.tick .plain second])).totalLost queueEnv = 0 :=
  no_loss lawful_smallPrimitives queueEnv _ _ _ _ _ (by decide +kernel)

/-- **A frame that the queue drops is a loss of the path.**  All that is handed to the transport
arrives in order, but the third frame found the queue full. -/
theorem PassLink.queue_drop_booked : queueFile.validate smallNet = .ok queueChecked ∧
      (Run.exec (step smallCodes queueEnv) queueLink
        ([.send (passFrame 1), .send (passFrame 2), .send (passFrame 3)] ++ drained ++
          [.send (passFrame 4)] ++ drained ++ [.tick .plain second])).totalLost queueEnv = 1 :=
  ⟨Except.eq_ok_getD, by decide +kernel⟩

end FlexBraid
