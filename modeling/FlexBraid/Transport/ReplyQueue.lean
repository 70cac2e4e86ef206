import FlexBraid.Transport.Icmp

/-!
# The reply queues of the ICMP server

What the server sends to a peer waits until the next request of the peer.  The bytes that wait
are counted per peer, and when a frame would exceed the bound the oldest one is dropped, whatever
its length.

## Main definitions

* `IcmpServer.step` — the calls of a server, one after another.
* `Counted` — the counts are the lengths of what waits.
* `admitted` — what a call does to the queue of its peer.
* `Replaces` — a frame that does not fit is no longer than the oldest.

## Main results

* `queue_bounded` — **the counts are right in every state**, and the bound holds along calls where
  a frame that does not fit is no longer than the one dropped for it.
* `queue_overflows` — the bound is exceeded otherwise.
-/

namespace FlexBraid

open Run

/-- A call of a server: a frame for a peer, or a datagram for the receive loop. -/
inductive ServerCall where
  | sendTo (addr : Option EchoAddr) (b : Bytes)
  | recv (datagram : Bytes)

namespace IcmpServer

/-- One call; none after a panic.  A refused frame leaves the server as it is. -/
def step : Option IcmpServer → ServerCall → Option IcmpServer × List Served
  | none, _ => (none, [])
  | some s, .sendTo addr b =>
    match s.sendTo addr b with
    | .error _ => (some s, [])
    | .ok s' => (some s', [])
  | some s, .recv datagram =>
    match s.recv datagram with
    | none => (none, [])
    | some (s', served) => (some s', [served])

/-- What waits for a peer. -/
def queue (s : IcmpServer) (key : EchoAddr) : List Bytes := s.replyQueue.getD key []

/-- The bytes of a queue. -/
def total (q : List Bytes) : ℤ := (q.map fun b => (b.length : ℤ)).sum

/-- The counts of all peers are the bytes that wait. -/
def Counted (s : IcmpServer) : Prop := ∀ key, s.queueBytes.getD key 0 = total (s.queue key)

/-- The queue of a peer with one more frame. -/
def admitted (q : List Bytes) (b : Bytes) : List Bytes :=
  (if total q + b.length > maxQueuePerPeer then q.tail else q) ++ [b]

@[simp] theorem total_nil : total [] = 0 := rfl

@[simp] theorem total_cons (b : Bytes) (q : List Bytes) : total (b :: q) = b.length + total q := by
  simp [total]

@[simp] theorem total_append (q q' : List Bytes) : total (q ++ q') = total q + total q' := by
  simp [total]

theorem total_replicate (n : ℕ) (b : Bytes) : total (List.replicate n b) = n * b.length := by
  simp [total]

/-! ### One call -/

/-- The server with another queue for a peer. -/
def put (s : IcmpServer) (key : EchoAddr) (q : List Bytes) : IcmpServer :=
  { s with
    replyQueue := s.replyQueue.insert key q
    queueBytes := s.queueBytes.insert key (total q) }

variable {s : IcmpServer}

theorem queue_put (s : IcmpServer) (key : EchoAddr) (q : List Bytes) (key' : EchoAddr) :
    (s.put key q).queue key' = if key' = key then q else s.queue key' := by
  by_cases hkey : key' = key
  · rw [if_pos hkey, hkey, queue, put, AList.getD_insert]
  · rw [if_neg hkey, queue, put, AList.getD_insert_ne hkey, queue]

theorem Counted.put (h : s.Counted) (key : EchoAddr) (q : List Bytes) : (s.put key q).Counted := by
  intro key'
  rw [queue_put]
  by_cases hkey : key' = key
  · rw [if_pos hkey, hkey, IcmpServer.put, AList.getD_insert]
  · rw [if_neg hkey, IcmpServer.put, AList.getD_insert_ne hkey, h key']

theorem counted_empty (id : String) : Counted { id := id } := fun _ => rfl

theorem makeRoom_eq (h : s.Counted) (key : EchoAddr) (n : ℕ) :
    s.makeRoom key n =
      if total (s.queue key) + n > maxQueuePerPeer ∧ s.queue key ≠ [] then
        s.put key (s.queue key).tail
      else s := by
  unfold makeRoom
  rw [h key, ← queue]
  by_cases hfull : total (s.queue key) + n > maxQueuePerPeer
  · rw [if_pos hfull]
    cases hq : s.queue key with
    | nil => rw [if_neg (by simp)]
    | cons p q =>
      rw [hq] at hfull
      rw [if_pos ⟨hfull, List.cons_ne_nil _ _⟩, put, List.tail_cons, total_cons]
      dsimp only
      rw [add_sub_cancel_left]
  · rw [if_neg hfull, if_neg (fun hc => hfull hc.1)]

theorem sendTo_eq (h : s.Counted) (key : EchoAddr) (b : Bytes) :
    ∃ s', s.sendTo (some key) b = .ok s' ∧ s'.Counted ∧
      ∀ key', s'.queue key' = if key' = key then admitted (s.queue key) b else s.queue key' := by
  have hroom : (s.makeRoom key b.length).Counted ∧ ∀ key', (s.makeRoom key b.length).queue key' =
      if key' = key ∧ total (s.queue key) + b.length > maxQueuePerPeer then (s.queue key).tail
      else s.queue key' := by
    rw [makeRoom_eq h]
    split_ifs with hfull
    · refine ⟨h.put key _, fun key' => ?_⟩
      rw [queue_put]
      simp only [hfull.1, and_true]
    · refine ⟨h, fun key' => ?_⟩
      split_ifs with hkey
      · -- the queue is empty, and its tail is empty as well
        have hnil : s.queue key = [] := by
          by_contra hne
          exact hfull ⟨hkey.2, hne⟩
        rw [hkey.1, hnil, List.tail_nil]
      · rfl
  obtain ⟨hcounted, hqueue⟩ := hroom
  have hadmitted : (s.makeRoom key b.length).queue key ++ [b] = admitted (s.queue key) b := by
    rw [hqueue, admitted]
    simp only [true_and]
  have hok : s.sendTo (some key) b =
      .ok ((s.makeRoom key b.length).put key (admitted (s.queue key) b)) := by
    rw [sendTo, put, ← hadmitted, total_append, ← hcounted key]
    simp [queue]
  refine ⟨_, hok, hcounted.put key _, fun key' => ?_⟩
  rw [queue_put, hqueue]
  split_ifs with hkey hboth
  · rfl
  · exact absurd hboth.1 hkey
  · rfl

theorem recv_queue (h : s.Counted) {datagram : Bytes} {s' : IcmpServer} {served : Served}
    (hrecv : s.recv datagram = some (s', served)) :
    s'.Counted ∧ ∀ key, s'.queue key = s.queue key ∨ s'.queue key = [] := by
  have hdrained : ∀ key, (s.put key []).Counted ∧
      ∀ key', (s.put key []).queue key' = s.queue key' ∨ (s.put key []).queue key' = [] := by
    intro key
    refine ⟨h.put key [], fun key' => ?_⟩
    rw [queue_put]
    split_ifs
    · exact .inr rfl
    · exact .inl rfl
  unfold recv at hrecv
  split at hrecv
  · cases hrecv
  · cases hrecv
    exact ⟨h, fun _ => .inl rfl⟩
  next e _ =>
    split at hrecv
    · cases hrecv
      exact ⟨h, fun _ => .inl rfl⟩
    · dsimp only at hrecv
      split at hrecv
      · cases hrecv
        exact hdrained e.src
      · cases hrecv
        exact hdrained e.src

/-! ### Runs -/

/-- The counts are right, unless the server has panicked. -/
def Sound (st : Option IcmpServer) : Prop := ∀ s, st = some s → s.Counted

/-- **One call** admits a frame to a queue, or empties one, or leaves all as they are. -/
theorem step_queue (h : s.Counted) {call : ServerCall} {s' : IcmpServer}
    (hs' : (step (some s) call).1 = some s') :
    s'.Counted ∧ ∀ key, s'.queue key = s.queue key ∨ s'.queue key = [] ∨
      ∃ b, call = .sendTo (some key) b ∧ s'.queue key = admitted (s.queue key) b := by
  cases call with
  | sendTo addr b =>
    cases addr with
    | none =>
      cases hs'
      exact ⟨h, fun _ => .inl rfl⟩
    | some key =>
      obtain ⟨s₁, hok, hcounted, hqueue⟩ := sendTo_eq h key b
      simp only [step, hok, Option.some.injEq] at hs'
      subst hs'
      refine ⟨hcounted, fun key' => ?_⟩
      rw [hqueue]
      split_ifs with hkey
      · exact .inr (.inr ⟨b, by rw [hkey], by rw [hkey]⟩)
      · exact .inl rfl
  | recv datagram =>
    simp only [step] at hs'
    split at hs'
    · cases hs'
    next s₁ served hrecv =>
      cases hs'
      obtain ⟨hcounted, hqueue⟩ := recv_queue h hrecv
      exact ⟨hcounted, fun key => (hqueue key).imp_right .inl⟩

theorem Sound.step {st : Option IcmpServer} (h : Sound st) (call : ServerCall) :
    Sound (step st call).1 := by
  intro s' hs'
  cases st with
  | none => cases hs'
  | some s => exact (step_queue (h s rfl) hs').1

/-- A frame fits into the queue of its peer, or is no longer than the oldest frame there. -/
def Replaces (st : Option IcmpServer) : ServerCall → Prop
  | .sendTo (some key) b => ∀ s, st = some s →
      total (s.queue key) + b.length ≤ maxQueuePerPeer ∨
        ∃ p q, s.queue key = p :: q ∧ b.length ≤ p.length
  | _ => True

/-- The counts are right and the bound holds for all peers. -/
structure Bounded (st : Option IcmpServer) : Prop where
  sound : Sound st
  le : ∀ s, st = some s → ∀ key, total (s.queue key) ≤ maxQueuePerPeer

theorem total_admit_le {q : List Bytes} {b : Bytes} (hq : total q ≤ maxQueuePerPeer)
    (h : total q + b.length ≤ maxQueuePerPeer ∨ ∃ p q', q = p :: q' ∧ b.length ≤ p.length) :
    total (admitted q b) ≤ maxQueuePerPeer := by
  rw [admitted, total_append, total_cons, total_nil]
  split_ifs with hfull
  · obtain hfits | ⟨p, q', rfl, hle⟩ := h
    · omega
    · rw [total_cons] at hq
      rw [List.tail_cons]
      omega
  · omega

theorem Bounded.step {st : Option IcmpServer} (h : Bounded st) {call : ServerCall}
    (hcall : Replaces st call) : Bounded (IcmpServer.step st call).1 := by
  refine ⟨h.sound.step call, fun s' hs' key' => ?_⟩
  cases st with
  | none => cases hs'
  | some s =>
    obtain heq | hnil | ⟨b, rfl, hadmitted⟩ := (step_queue (h.sound s rfl) hs').2 key'
    · rw [heq]
      exact h.le s rfl key'
    · rw [hnil]
      decide
    · rw [hadmitted]
      exact total_admit_le (h.le s rfl key') (hcall s rfl)

/-- **The reply queues.**  In every state that the calls of a server lead to, the count of each
peer is the total length of what waits for it.  It stays within the bound as long as no frame that
does not fit is longer than the oldest one. -/
theorem queue_bounded (id : String) (calls : List ServerCall) {s : IcmpServer}
    (hs : exec step (some { id := id }) calls = some s) (key : EchoAddr) :
    s.queueBytes.getD key 0 = total (s.queue key) ∧ (Along step Replaces (some { id := id }) calls →
        s.queueBytes.getD key 0 ≤ maxQueuePerPeer) := by
  have hstart : Sound (some { id := id }) := by
    rintro _ ⟨⟩
    exact counted_empty id
  have hsound : Sound (exec step (some { id := id }) calls) :=
    exec_induct' (fun _ call h => h.step call) calls hstart
  have hcount := hsound s hs key
  refine ⟨hcount, fun hcalls => ?_⟩
  have hempty : Bounded (some { id := id }) := by
    refine ⟨hstart, ?_⟩
    rintro _ ⟨⟩ key
    exact Int.natCast_nonneg (2 ^ 20)
  have hbounded : Bounded (exec step (some { id := id }) calls) :=
    exec_induct (fun _ _ h hcall => h.step hcall) hempty hcalls
  rw [hcount]
  exact hbounded.le s hs key

/-- One frame for one peer. -/
theorem queue_bounded_one :
    (exec step (some { id := "wan1" }) [.sendTo (some ⟨⟨10, 0, 0, 1⟩, 0⟩) [1, 2, 3]]).isSome ∧
      ∀ s, exec step (some { id := "wan1" }) [.sendTo (some ⟨⟨10, 0, 0, 1⟩, 0⟩) [1, 2, 3]] = some s →
        s.queueBytes.getD ⟨⟨10, 0, 0, 1⟩, 0⟩ 0 ≤ maxQueuePerPeer := by
  refine ⟨by decide, fun s hs => ?_⟩
  have hreplaces : Along step Replaces (some { id := "wan1" })
      [.sendTo (some ⟨⟨10, 0, 0, 1⟩, 0⟩) [1, 2, 3]] := by
    refine ⟨?_, trivial⟩
    rintro _ ⟨⟩
    exact .inl (by decide)
  exact (queue_bounded "wan1" _ hs _).2 hreplaces

/-! ### Small frames before large ones -/

theorem exec_fill {s : IcmpServer} (h : s.Counted) (key : EchoAddr) (b : Bytes) (n : ℕ)
    (hfit : total (s.queue key) + n * b.length ≤ maxQueuePerPeer) :
    ∃ s', exec step (some s) (List.replicate n (.sendTo (some key) b)) = some s' ∧ s'.Counted ∧
      s'.queue key = s.queue key ++ List.replicate n b := by
  induction n generalizing s with
  | zero => exact ⟨s, rfl, h, by simp⟩
  | succ n ih =>
    obtain ⟨s₁, hok, hcounted, hqueue⟩ := sendTo_eq h key b
    have hroom : (0 : ℤ) ≤ n * b.length := by positivity
    push_cast at hfit
    rw [add_mul, one_mul] at hfit
    have hqueue₁ : s₁.queue key = s.queue key ++ [b] := by
      rw [hqueue, if_pos rfl, admitted, if_neg (by omega)]
    obtain ⟨s', hexec, hcounted', hqueue'⟩ := ih hcounted (by
      rw [hqueue₁, total_append, total_cons, total_nil]
      omega)
    refine ⟨s', ?_, hcounted', ?_⟩
    · rw [List.replicate_succ, exec_cons, step, hok]
      exact hexec
    · rw [hqueue', hqueue₁, List.append_assoc, List.replicate_succ, List.singleton_append]

/-- The frames of an idle tunnel and then of a busy one: a keepalive, and frames of 1440 bytes. -/
def smallThenLarge : List ServerCall :=
  .sendTo (some ⟨⟨10, 0, 0, 1⟩, 0⟩) (List.replicate 44 0) ::
    (List.replicate 728 (.sendTo (some ⟨⟨10, 0, 0, 1⟩, 0⟩) (List.replicate 1440 0)) ++
      [.sendTo (some ⟨⟨10, 0, 0, 1⟩, 0⟩) (List.replicate 1440 0)])

/-- **The bound is exceeded**: the last frame takes the place of the keepalive, which is shorter
by more than what was left. -/
theorem queue_overflows : ∃ s, exec step (some { id := "wan1" }) smallThenLarge = some s ∧
      s.queueBytes.getD ⟨⟨10, 0, 0, 1⟩, 0⟩ 0 = 1049760 ∧ 1049760 > maxQueuePerPeer := by
  set key : EchoAddr := ⟨⟨10, 0, 0, 1⟩, 0⟩ with hkey
  set small : Bytes := List.replicate 44 0 with hsmall
  set large : Bytes := List.replicate 1440 0 with hlarge
  have hlensmall : small.length = 44 := List.length_replicate
  have hlenlarge : large.length = 1440 := List.length_replicate
  have hempty : queue { id := "wan1" } key = [] := rfl
  obtain ⟨s₁, hok₁, hcounted₁, hqueue₁⟩ := sendTo_eq (counted_empty "wan1") key small
  have hq₁ : s₁.queue key = [small] := by
    rw [hqueue₁, if_pos rfl, hempty, admitted, if_neg]
    · rfl
    · rw [total_nil, hlensmall]
      decide
  obtain ⟨s₂, hexec₂, hcounted₂, hqueue₂⟩ := exec_fill hcounted₁ key large 728 (by
    rw [hq₁, total_cons, total_nil, hlensmall, hlenlarge]
    decide)
  obtain ⟨s₃, hok₃, hcounted₃, hqueue₃⟩ := sendTo_eq hcounted₂ key large
  have htotal₂ : total (s₂.queue key) = 1048364 := by
    rw [hqueue₂, hq₁, total_append, total_cons, total_nil, total_replicate, hlensmall, hlenlarge]
    norm_num
  have hq₃ : s₃.queue key = List.replicate 728 large ++ [large] := by
    rw [hqueue₃, if_pos rfl, admitted, if_pos, hqueue₂, hq₁]
    · rfl
    · rw [htotal₂, hlenlarge]
      decide
  refine ⟨s₃, ?_, ?_, by decide⟩
  · rw [smallThenLarge, exec_cons, ← hsmall, ← hlarge, ← hkey, step, hok₁]
    dsimp only
    rw [exec_append, hexec₂, exec_cons, step, hok₃]
    rfl
  · rw [hcounted₃ key, hq₃, total_append, total_replicate, total_cons, total_nil, hlenlarge]
    norm_num

end IcmpServer

end FlexBraid
