import FlexBraid.Transport.Icmp

/-!
# The pull queue of the ICMP transport

The frames a server queues for a client travel in the replies to the client's requests.  As
long as no frame is queued while another one waits, and every frame fits into a reply, the
client gets them one by one and in order.  Frames that wait together are put together, and
arrive as one.

## Main definitions

* `IcmpOutput.frame`, `IcmpOutput.data` — the frames queued and the data returned.
* `IcmpLink.Single` — no frame is queued while another one waits.
* `IcmpLink.Carried` — what is on the way between the two ends.

## Main results

* `IcmpLink.pulled_intact` — **the frames queued are the data returned**, under this
  condition.
* `IcmpLink.frames_merged` — two frames that wait together are returned as one.
-/

namespace FlexBraid

/-- The frame that was queued. -/
def IcmpOutput.frame : IcmpOutput → Option Bytes
  | queued b => some b
  | returned _ => none

/-- The data that was returned, when there is any. -/
def IcmpOutput.data : IcmpOutput → Option Bytes
  | queued _ => none
  | returned b => if b = [] then none else some b

namespace IcmpLink

/-- No frame is queued while another one waits, and it fits into a reply. -/
def Single (s : Option IcmpLink) : IcmpEvent → Prop
  | .sendTo b => ∀ l, s = some l → l.queue = [] ∧ b ≠ [] ∧ b.length ≤ maxReply
  | _ => True

/-- What is on the way: requests of the client, and replies whose data follows what was
returned and comes before what waits. -/
structure Carried (l : IcmpLink) (out : List IcmpOutput) : Prop where
  requests : ∀ pkt ∈ l.requests, ∃ seq b, IsRequest l.client.myID pkt seq b
  single : l.queue = [] ∨ ∃ b, l.queue = [b] ∧ b ≠ [] ∧ b.length ≤ maxReply
  replies : ∃ ps, List.Forall₂ (IsReply l.client.myID) l.replies ps ∧
    out.filterMap IcmpOutput.frame =
      out.filterMap IcmpOutput.data ++ (ps.filter (· ≠ []) ++ l.queue)

/-! ### One event -/

variable {l : IcmpLink} {out : List IcmpOutput}

theorem gather_single {q : List Bytes} (h : q = [] ∨ ∃ b, q = [b] ∧ b ≠ [] ∧ b.length ≤ maxReply) :
    (IcmpServer.gather [] q).length ≤ maxReply ∧ [IcmpServer.gather [] q].filter (· ≠ []) = q := by
  rcases h with rfl | ⟨b, rfl, hne, hlen⟩
  · exact ⟨Nat.zero_le _, rfl⟩
  · have hgather : IcmpServer.gather [] [b] = b := by
      rw [IcmpServer.gather, if_neg (by rw [List.length_nil]; omega), List.nil_append]
      rfl
    rw [hgather]
    exact ⟨hlen, by simp [hne]⟩

theorem sendTo_empty {s : IcmpServer} {key : EchoAddr} (hqueue : s.replyQueue.getD key [] = [])
    (b : Bytes) : ∃ s', s.sendTo (some key) b = .ok s' ∧ s'.replyQueue.getD key [] = [b] := by
  have hroom : (s.makeRoom key b.length).replyQueue.getD key [] = [] := by
    unfold IcmpServer.makeRoom
    rw [hqueue]
    split <;> exact hqueue
  refine ⟨_, rfl, ?_⟩
  rw [AList.getD_insert, hroom]
  rfl

variable {b : Bytes} {es : List IcmpEvent}

theorem Carried.sendTo (h : Carried l out) (hqueue : l.queue = []) (hne : b ≠ [])
    (hlen : b.length ≤ maxReply) : ∃ l', step (some l) (.sendTo b) = (some l', [.queued b]) ∧
      Carried l' (out ++ [.queued b]) := by
  obtain ⟨server, hsend, hqueue'⟩ := sendTo_empty hqueue b
  obtain ⟨ps, hps, heq⟩ := h.replies
  have hq : ({ l with server := server } : IcmpLink).queue = [b] := hqueue'
  refine ⟨{ l with server := server }, by rw [step, hsend], h.requests, .inr ⟨b, hq, hne, hlen⟩, ps,
    hps, ?_⟩
  rw [hq, List.filterMap_append, List.filterMap_append, heq, hqueue]
  simp [IcmpOutput.frame, IcmpOutput.data]

/-- The client sends a request. -/
theorem Carried.send (h : Carried l out) (b : Bytes) :
    ∃ l', step (some l) (.send b) = (some l', []) ∧ Carried l' out ∧ l'.queue = l.queue ∧
      l'.replies = l.replies ∧ l'.client.myID = l.client.myID ∧
      l'.client.mySeq = l.client.mySeq + 1 ∧
      l'.requests = if ipHdrLen + icmpHdrLen + b.length ≤ 65535 then
        l.requests ++ [buildEcho icmpTypeEchoRequest l.client.myID (l.client.mySeq + 1) b true]
        else l.requests := by
  have hlen : (buildEcho icmpTypeEchoRequest l.client.myID (l.client.mySeq + 1) b true).length =
      icmpHdrLen + b.length := length_echoPacket ..
  refine ⟨_, rfl, ⟨fun pkt hpkt => ?_, h.single, h.replies⟩, rfl, rfl, rfl, rfl, ?_⟩
  · dsimp only at hpkt
    split at hpkt
    · next hsize =>
      rcases List.mem_append.mp hpkt with hpkt | hpkt
      · exact h.requests pkt hpkt
      · cases List.mem_singleton.mp hpkt
        refine ⟨l.client.mySeq + 1, b, rfl, ?_⟩
        change ipHdrLen + (buildEcho ..).length ≤ 65535 at hsize
        omega
    · exact h.requests pkt hpkt
  · rw [Nat.add_assoc, ← hlen]

/-- The server takes in the next request, if there is one: it is ignored when its checksum is valid
by accident, and else answered with the frame that waits. -/
theorem Carried.serverRecv (h : Carried l out) (ip : IPHeader) :
    ∃ l', step (some l) (.serverRecv ip) = (some l', []) ∧ Carried l' out ∧
      l'.client = l.client ∧ l'.requests = l.requests.tail ∧
      (l'.queue = [] ∨ l'.queue = l.queue ∧ ∀ pkt seq b, l.requests.head? = some pkt →
        IsRequest l.client.myID pkt seq b → validByAccident l.client.myID seq b) := by
  rcases hpkt : l.requests with _ | ⟨pkt, rest⟩
  · exact ⟨l, by rw [step, hpkt], h, rfl, hpkt, .inr ⟨rfl, fun pkt seq b h0 => by cases h0⟩⟩
  have hrequests := h.requests
  rw [hpkt, List.forall_mem_cons] at hrequests
  obtain ⟨⟨seq, b, hreq⟩, hrest⟩ := hrequests
  obtain ⟨ps, hps, heq⟩ := h.replies
  rw [step, hpkt]
  dsimp only
  rcases recv_request l.server ip l.clientIP l.client.clientDstIP hreq with ⟨hacc, hrecv⟩ | ⟨hacc, hrecv⟩
  · rw [hrecv]
    refine ⟨_, rfl, ⟨hrest, h.single, ps, hps, heq⟩, rfl, rfl, .inr ⟨rfl, ?_⟩⟩
    rintro _ seq' b' ⟨⟩ hreq'
    unfold validByAccident at hacc ⊢
    rwa [← hreq'.1, hreq.1]
  · rw [hrecv]
    obtain ⟨hlen, hdata⟩ := gather_single h.single
    have hqueue : ({ l with
        server := { l.server with
          replyQueue := l.server.replyQueue.insert ⟨l.clientIP, 0⟩ []
          queueBytes := l.server.queueBytes.insert ⟨l.clientIP, 0⟩ 0 }
        requests := rest
        replies := l.replies ++ [sealedEcho icmpTypeEchoReply l.client.myID seq.toUInt16
          (IcmpServer.gather [] (l.server.replyQueue.getD ⟨l.clientIP, 0⟩ []))] } :
        IcmpLink).queue = [] := AList.getD_insert ..
    refine ⟨_, rfl, ⟨hrest, .inl hqueue, ps ++ [IcmpServer.gather [] l.queue], ?_, ?_⟩, rfl, rfl,
      .inl hqueue⟩
    · exact List.rel_append hps (.cons ⟨hlen, _, rfl⟩ .nil)
    · rw [hqueue, List.filter_append, hdata, List.append_nil]
      exact heq

theorem Carried.clientRecv (h : Carried l out) (ip : IPHeader) :
    ∃ l' new, step (some l) (.clientRecv ip) = (some l', new) ∧ Carried l' (out ++ new) ∧
      l'.queue = l.queue ∧ l'.replies = l.replies.tail := by
  obtain ⟨ps, hps, heq⟩ := h.replies
  rcases hpkt : l.replies with _ | ⟨pkt, rest⟩
  · exact ⟨l, [], by rw [step, hpkt], by rwa [List.append_nil], rfl, hpkt⟩
  rw [hpkt] at hps
  cases hps with
  | @cons _ b _ ps hreply hps =>
    refine ⟨{ l with replies := rest }, [.returned b], ?_, ⟨h.requests, h.single, ps, hps, ?_⟩, rfl, rfl⟩
    · rw [step, hpkt]
      dsimp only
      rw [recv_reply l.client ip l.clientIP hreply]
    · have hqueue : ({ l with replies := rest } : IcmpLink).queue = l.queue := rfl
      rw [List.filterMap_append, List.filterMap_append, heq, hqueue]
      by_cases hb : b = []
      · simp [IcmpOutput.frame, IcmpOutput.data, hb]
      · simp [IcmpOutput.frame, IcmpOutput.data, hb]

/-- **One event** keeps what is on the way. -/
theorem Carried.step {s : Option IcmpLink} {e : IcmpEvent} (hs : s = some l) (h : Carried l out)
    (he : Single s e) :
    ∃ l', (IcmpLink.step s e).1 = some l' ∧ Carried l' (out ++ (IcmpLink.step s e).2) := by
  subst hs
  cases e with
  | sendTo b =>
    obtain ⟨hqueue, hne, hlen⟩ := he l rfl
    obtain ⟨l', hstep, h'⟩ := h.sendTo hqueue hne hlen
    rw [hstep]
    exact ⟨l', rfl, h'⟩
  | send b =>
    obtain ⟨l', hstep, h', -⟩ := h.send b
    rw [hstep, List.append_nil]
    exact ⟨l', rfl, h'⟩
  | serverRecv ip =>
    obtain ⟨l', hstep, h', -⟩ := h.serverRecv ip
    rw [hstep, List.append_nil]
    exact ⟨l', rfl, h'⟩
  | clientRecv ip =>
    obtain ⟨l', new, hstep, h', -⟩ := h.clientRecv ip
    rw [hstep]
    exact ⟨l', rfl, h'⟩

/-! ### Whole runs -/

/-- **A run** keeps what is on the way. -/
theorem Carried.run (h : Carried l []) (hes : Run.Along IcmpLink.step Single (some l) es) :
    ∃ l', Run.exec IcmpLink.step (some l) es = some l' ∧
      Carried l' (Run.outputs IcmpLink.step (some l) es).flatten := by
  have hstep : ∀ s out e, (∃ l, s = some l ∧ Carried l out) → Single s e →
      ∃ l', (IcmpLink.step s e).1 = some l' ∧ Carried l' (out ++ (IcmpLink.step s e).2) := by
    rintro s out e ⟨l, hs, h⟩ he
    exact h.step hs he
  have hstart : ∃ l', some l = some l' ∧ Carried l' [] := ⟨l, rfl, h⟩
  exact Run.exec_induct_outputs hstep hstart hes

/-- An event that queues nothing. -/
def Quiet : IcmpEvent → Prop
  | .sendTo _ => False
  | _ => True

theorem along_quiet (hes : ∀ e ∈ es, Quiet e) (s : Option IcmpLink) :
    Run.Along IcmpLink.step Single s es := by
  induction es generalizing s with
  | nil => trivial
  | cons e es ih =>
    obtain ⟨he, hes⟩ := List.forall_mem_cons.mp hes
    refine ⟨?_, ih hes _⟩
    cases e with
    | sendTo b => exact he.elim
    | send | serverRecv | clientRecv => trivial

theorem frames_quiet (hes : ∀ e ∈ es, Quiet e) (s : Option IcmpLink) :
    (Run.outputs IcmpLink.step s es).flatten.filterMap IcmpOutput.frame = [] := by
  induction es generalizing s with
  | nil => rfl
  | cons e es ih =>
    obtain ⟨he, hes⟩ := List.forall_mem_cons.mp hes
    rw [Run.outputs_cons, List.flatten_cons, List.filterMap_append, ih hes, List.append_nil]
    cases s with
    | none => rfl
    | some l =>
      cases e with
      | sendTo b => exact he.elim
      | send b => rfl
      | serverRecv ip | clientRecv ip =>
        rw [IcmpLink.step]
        split
        · rfl
        · split <;> rfl

theorem Carried.drainRequests (ip : IPHeader) {n : ℕ} (h : Carried l out)
    (hn : l.requests.length ≤ n) :
    ∃ l' out', Run.exec IcmpLink.step (some l) (List.replicate n (.serverRecv ip)) = some l' ∧
      Carried l' out' ∧ l'.requests = [] := by
  induction n generalizing l with
  | zero => exact ⟨l, out, rfl, h, List.eq_nil_of_length_eq_zero (Nat.le_zero.mp hn)⟩
  | succ n ih =>
    obtain ⟨l', hstep, h', -, hrest, -⟩ := h.serverRecv ip
    rw [List.replicate_succ, Run.exec_cons, hstep]
    exact ih h' (by rw [hrest, List.length_tail]; omega)

theorem Carried.drainReplies (ip : IPHeader) {n : ℕ} (h : Carried l out)
    (hn : l.replies.length ≤ n) :
    ∃ l' out', Run.exec IcmpLink.step (some l) (List.replicate n (.clientRecv ip)) = some l' ∧
      Carried l' out' ∧ l'.replies = [] ∧ l'.queue = l.queue := by
  induction n generalizing l out with
  | zero => exact ⟨l, out, rfl, h, List.eq_nil_of_length_eq_zero (Nat.le_zero.mp hn), rfl⟩
  | succ n ih =>
    obtain ⟨l', new, hstep, h', hqueue, hrest⟩ := h.clientRecv ip
    rw [List.replicate_succ, Run.exec_cons, hstep, ← hqueue]
    exact ih h' (by rw [hrest, List.length_tail]; omega)

/-- One request that is taken in at once; it empties the queue unless its checksum is valid by
accident. -/
theorem Carried.round (h : Carried l out) (ip : IPHeader) (hnone : l.requests = [])
    (hlen : ipHdrLen + icmpHdrLen + b.length ≤ 65535) :
    ∃ l', Run.exec IcmpLink.step (some l) [.send b, .serverRecv ip] = some l' ∧ Carried l' out ∧
      l'.requests = [] ∧ l'.client.myID = l.client.myID ∧ l'.client.mySeq = l.client.mySeq + 1 ∧
      (l'.queue = [] ∨ l'.queue = l.queue ∧
        validByAccident l.client.myID (l.client.mySeq + 1) b) := by
  obtain ⟨l₁, hstep₁, h₁, hqueue₁, -, hid₁, hseq₁, hreq₁⟩ := h.send b
  rw [if_pos hlen, hnone, List.nil_append] at hreq₁
  obtain ⟨l₂, hstep₂, h₂, hclient₂, hreq₂, hqueue₂⟩ := h₁.serverRecv ip
  rw [hreq₁] at hreq₂ hqueue₂
  refine ⟨l₂, ?_, h₂, hreq₂, by rw [hclient₂, hid₁], by rw [hclient₂, hseq₁], ?_⟩
  · rw [Run.exec_cons, hstep₁, Run.exec_cons, hstep₂, Run.exec_nil]
  · rw [hqueue₁, hid₁] at hqueue₂
    refine hqueue₂.imp_right fun hacc => ⟨hacc.1, hacc.2 _ _ _ rfl ⟨rfl, hlen⟩⟩

/-- The events that bring everything that waits to the client: the server takes in the
requests on the way and three more, and the client all replies. -/
def settle (n m : ℕ) (ip : IPHeader) (b : Bytes) : List IcmpEvent :=
  List.replicate n (.serverRecv ip) ++
    ([.send b, .serverRecv ip] ++ ([.send b, .serverRecv ip] ++ ([.send b, .serverRecv ip] ++
      List.replicate m (.clientRecv ip))))

theorem quiet_settle (n m : ℕ) (ip : IPHeader) (b : Bytes) : ∀ e ∈ settle n m ip b, Quiet e := by
  intro e he
  simp only [settle, List.mem_append, List.mem_replicate, List.mem_cons, List.not_mem_nil,
    or_false] at he
  rcases he with ⟨-, rfl⟩ | (rfl | rfl) | (rfl | rfl) | (rfl | rfl) | ⟨-, rfl⟩ <;> trivial

/-- Three requests empty the queue and the ways. -/
theorem Carried.settle (h : Carried l out) (ip : IPHeader)
    (hlen : ipHdrLen + icmpHdrLen + b.length ≤ 65535) :
    ∃ m l', Run.exec IcmpLink.step (some l) (settle l.requests.length m ip b) = some l' ∧
      l'.replies = [] ∧ l'.queue = [] := by
  obtain ⟨l₀, out₀, hexec₀, h₀, hnone₀⟩ := h.drainRequests ip (Nat.le_refl _)
  obtain ⟨l₁, hexec₁, h₁, hnone₁, hid₁, hseq₁, hq₁⟩ := h₀.round ip hnone₀ hlen
  obtain ⟨l₂, hexec₂, h₂, hnone₂, hid₂, hseq₂, hq₂⟩ := h₁.round ip hnone₁ hlen
  obtain ⟨l₃, hexec₃, h₃, -, -, -, hq₃⟩ := h₂.round ip hnone₂ hlen
  obtain ⟨l₄, out₄, hexec₄, h₄, hreplies, hqueue⟩ := h₃.drainReplies ip (Nat.le_refl _)
  refine ⟨l₃.replies.length, l₄, ?_, hreplies, hqueue.trans ?_⟩
  · rw [IcmpLink.settle, Run.exec_append, hexec₀, Run.exec_append, hexec₁, Run.exec_append, hexec₂,
      Run.exec_append, hexec₃, hexec₄]
  · -- the three requests are not all ignored, and an empty queue stays empty
    rw [hid₂, hid₁, hseq₂, hseq₁] at hq₃
    rw [hid₁, hseq₁] at hq₂
    rcases hq₃ with hq₃ | ⟨hq₃, hacc₃⟩
    · exact hq₃
    · rcases hq₂ with hq₂ | ⟨hq₂, hacc₂⟩
      · rw [hq₃, hq₂]
      · rcases hq₁ with hq₁ | ⟨-, hacc₁⟩
        · rw [hq₃, hq₂, hq₁]
        · exact absurd ⟨hacc₁, hacc₂, hacc₃⟩ (request_accepted _ _ hlen)

/-- The data returned so far, in a run of a link. -/
def returnedData (l : IcmpLink) (es : List IcmpEvent) : List Bytes :=
  (Run.outputs IcmpLink.step (some l) es).flatten.filterMap IcmpOutput.data

/-- The frames queued so far, in a run of a link. -/
def queuedFrames (l : IcmpLink) (es : List IcmpEvent) : List Bytes :=
  (Run.outputs IcmpLink.step (some l) es).flatten.filterMap IcmpOutput.frame

theorem queuedFrames_append (l : IcmpLink) (es : List IcmpEvent) {es' : List IcmpEvent}
    (hes' : ∀ e ∈ es', Quiet e) : queuedFrames l (es ++ es') = queuedFrames l es := by
  rw [queuedFrames, Run.outputs_append, List.flatten_append, List.filterMap_append,
    frames_quiet hes', List.append_nil, queuedFrames]

/-- **The frames queued are the data returned.**  In every run in which no frame is queued
while another one waits, and every frame has a byte and fits into a reply, nothing panics;
the data returned by the receive calls of the client is at any time a beginning of the frames
queued, frame by frame; and a few requests later it is all of them. -/
theorem pulled_intact (clientIP : IPv4) (client : IcmpClient) (id : String)
    {es : List IcmpEvent}
    (hes : Run.Along IcmpLink.step Single (some ⟨clientIP, client, ⟨id, ∅, ∅⟩, [], []⟩) es) :
    let l : IcmpLink := ⟨clientIP, client, ⟨id, ∅, ∅⟩, [], []⟩
    (∃ l', Run.exec IcmpLink.step (some l) es = some l') ∧
      returnedData l es <+: queuedFrames l es ∧
      ∀ (ip : IPHeader) (b : Bytes), ipHdrLen + icmpHdrLen + b.length ≤ 65535 →
        ∃ n m, ∀ later, (∀ e ∈ later, Quiet e) →
          returnedData l (es ++ settle n m ip b ++ later) = queuedFrames l es := by
  intro l
  have hstart : Carried l [] := ⟨by simp [l], .inl rfl, [], .nil, rfl⟩
  obtain ⟨l', hexec, h'⟩ := hstart.run hes
  refine ⟨⟨l', hexec⟩, ?_, fun ip b hlen => ?_⟩
  · obtain ⟨ps, -, heq⟩ := h'.replies
    exact ⟨_, heq.symm⟩
  · obtain ⟨m, l₁, hexec₁, hreplies, hqueue⟩ := h'.settle ip hlen
    refine ⟨l'.requests.length, m, fun later hlater => ?_⟩
    -- everything has arrived, and what follows can add nothing
    have hquiet := quiet_settle l'.requests.length m ip b
    have halong := (Run.along_append IcmpLink.step Single (some l) es _).mpr
      ⟨hes, along_quiet hquiet _⟩
    obtain ⟨l₂, hexec₂, h₂⟩ := hstart.run halong
    rw [Run.exec_append, hexec, hexec₁] at hexec₂
    cases hexec₂
    obtain ⟨ps, hps, heq⟩ := h₂.replies
    rw [hreplies] at hps
    cases hps
    rw [hqueue, List.filter_nil, List.append_nil, List.append_nil] at heq
    obtain ⟨l₃, -, h₃⟩ := hstart.run
      ((Run.along_append ..).mpr ⟨halong, along_quiet hlater _⟩)
    obtain ⟨ps, -, heq₃⟩ := h₃.replies
    change queuedFrames l _ = returnedData l _ ++ _ at heq₃
    change queuedFrames l _ = returnedData l _ at heq
    have hmore : returnedData l (es ++ settle l'.requests.length m ip b) <+:
        returnedData l (es ++ settle l'.requests.length m ip b ++ later) := by
      rw [returnedData, returnedData, Run.outputs_append _ _ _ later, List.flatten_append,
        List.filterMap_append]
      exact List.prefix_append _ _
    rw [queuedFrames_append l _ hlater, queuedFrames_append l es hquiet] at heq₃
    rw [queuedFrames_append l es hquiet] at heq
    rw [← heq] at hmore
    have hless : returnedData l (es ++ settle l'.requests.length m ip b ++ later) <+:
        queuedFrames l es := ⟨_, heq₃.symm⟩
    exact hless.eq_of_length (Nat.le_antisymm hless.length_le hmore.length_le)

/-! ### A small link -/

/-- A client and a server that have exchanged nothing yet. -/
def smallLink : IcmpLink := ⟨⟨10, 0, 0, 1⟩, ⟨⟨10, 0, 0, 2⟩, 7, 0⟩, ⟨"icmp", ∅, ∅⟩, [], []⟩

/-- A frame is queued, fetched by a request, and followed by another one. -/
theorem pulled_intact_small : returnedData smallLink
        [.sendTo [1, 2], .send [], .serverRecv {}, .clientRecv {}, .sendTo [3]] <+:
      [[1, 2], [3]] := by
  have hes : Run.Along IcmpLink.step Single (some smallLink)
      [.sendTo [1, 2], .send [], .serverRecv {}, .clientRecv {}, .sendTo [3]] := by
    refine ⟨?_, trivial, trivial, trivial, ?_, trivial⟩
    · rintro l ⟨⟩
      decide
    · intro l hl
      have hqueue : (Run.exec IcmpLink.step (some smallLink)
          [.sendTo [1, 2], .send [], .serverRecv {}, .clientRecv {}]).map queue = some [] := by
        decide
      rw [show Run.exec IcmpLink.step (some smallLink)
        [.sendTo [1, 2], .send [], .serverRecv {}, .clientRecv {}] = some l from hl] at hqueue
      exact ⟨Option.some.inj hqueue, by decide, by decide⟩
  have h := (pulled_intact ⟨10, 0, 0, 1⟩ ⟨⟨10, 0, 0, 2⟩, 7, 0⟩ "icmp" hes).2.1
  exact h

/-- **Two frames that wait together arrive as one.**  Both are queued before the next request
of the client, without an overflow and without loss; the receive call returns their bytes run
together, and nothing waits any more. -/
theorem frames_merged :
    let es : List IcmpEvent :=
      [.sendTo [1, 2], .sendTo [3], .send [], .serverRecv {}, .clientRecv {}, .send [],
        .serverRecv {}, .clientRecv {}]
    queuedFrames smallLink es = [[1, 2], [3]] ∧ returnedData smallLink es = [[1, 2, 3]] ∧
      (Run.exec IcmpLink.step (some smallLink) es).map (fun l => (l.queue, l.requests, l.replies)) =
        some ([], [], []) := by
  refine ⟨?_, ?_, ?_⟩ <;> decide

end IcmpLink

end FlexBraid
