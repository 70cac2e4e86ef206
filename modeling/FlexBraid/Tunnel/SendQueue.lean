import FlexBraid.Tunnel.Validate

/-!
# The send queue of a WAN

Sealed frames wait for the transport in a bounded queue.  When a frame does not fit, it is dropped
or the longest waiting frames are, as the configuration says.  One consumer drains the queue and
waits for the tokens of a bucket before each write.

The structure carries the bound: no queue holds more bytes than it may, and it counts them right.

## Main definitions

* `SendQueue`, `newSendQueue`, `QueueConfig.newQueue` — the queue, and that of a WAN.
* `SendQueue.enqueue`, `SendQueue.popNext`, `SendQueue.takeTokens`, `SendQueue.close` — its calls.

## Main results

* `SendQueue.enqueue_fits` — a frame that fits is accepted and nothing is dropped.
* `SendQueue.popped` — what popping a frame does.
-/

namespace FlexBraid

/-- What is dropped when the queue is full. -/
inductive QueueDrop where
  | oldest
  | newest
deriving DecidableEq, Repr

/-- The policy of a name; the error of an unknown one is not looked at. -/
def parseQueueDrop (s : String) : QueueDrop := if s = "newest" then .newest else .oldest

structure SendQueue (F : Type) where
  closed : Bool := false
  maxBytes : ℕ
  drop : QueueDrop
  q : List Bytes := []
  bytes : ℕ := 0
  /-- Bytes per second; the writes are not paced if it is not positive. -/
  rate : F
  /-- The capacity of the bucket. -/
  burst : F
  tokens : F
  lastRef : Time
  framesSent : ℕ := 0
  bytesSent : ℕ := 0
  /-- The number of frames dropped. -/
  dropped : ℕ := 0
  counted : bytes = (q.map List.length).sum
  bounded : bytes ≤ maxBytes

section
variable {F : Type} [Float64 F]

def newSendQueue (maxBytes : ℤ) (drop : QueueDrop) (rateBps : F) (now : Time) : SendQueue F :=
  let max := (positiveOr maxBytes 262144).toNat
  { maxBytes := max, drop := drop, rate := rateBps, burst := Float64.ofInt max
    tokens := Float64.ofInt max, lastRef := now, counted := rfl, bounded := Nat.zero_le _ }

/-- The queue of a WAN, if queues are enabled: it is paced by the declared capacity. -/
def QueueConfig.newQueue (q : QueueConfig) (w : WanConfig F) (now : Time) : Option (SendQueue F) :=
  if q.enabled = some true then
    let rateBps : F :=
      if q.rateLimit then
        Float64.ofInt w.capacityMbps * Float64.ofInt 1000000 / Float64.ofInt 8
      else Float64.ofInt 0
    some (newSendQueue q.maxBytes (parseQueueDrop q.drop) rateBps now)
  else none

namespace SendQueue

/-- Drop the oldest of the waiting frames `q` until `n` more bytes fit: the frames and bytes
left, and the number of frames dropped so far. -/
def evict (max n : ℕ) : List Bytes → ℕ → ℕ → List Bytes × ℕ × ℕ
  | [], bytes, dropped => ([], bytes, dropped)
  | head :: q, bytes, dropped =>
    if bytes + n > max then evict max n q (bytes - head.length) (dropped + 1)
    else (head :: q, bytes, dropped)

theorem evict_suffix (max n : ℕ) (q : List Bytes) {bytes : ℕ}
    (h : bytes = (q.map List.length).sum) (dropped : ℕ) : (evict max n q bytes dropped).1 <:+ q ∧
      (evict max n q bytes dropped).2.1 = ((evict max n q bytes dropped).1.map List.length).sum := by
  induction q generalizing bytes dropped with
  | nil => exact ⟨List.suffix_refl _, h⟩
  | cons head q ih =>
    rw [List.map_cons, List.sum_cons] at h
    rw [evict]
    split
    · obtain ⟨hsuffix, hbytes⟩ := ih (show bytes - head.length = _ by omega) (dropped + 1)
      exact ⟨hsuffix.trans (List.suffix_cons _ _), hbytes⟩
    · exact ⟨List.suffix_refl _, by rw [h, List.map_cons, List.sum_cons]⟩

theorem evict_bytes_le (max n : ℕ) (q : List Bytes) (bytes dropped : ℕ) :
    (evict max n q bytes dropped).2.1 ≤ bytes := by
  induction q generalizing bytes dropped with
  | nil => exact le_rfl
  | cons head q ih =>
    rw [evict]
    split
    · exact (ih _ _).trans (Nat.sub_le _ _)
    · exact le_rfl

/-- Put a frame that fits behind the waiting frames `q`. -/
def append (s : SendQueue F) (q : List Bytes) (bytes dropped : ℕ) (b : Bytes)
    (hcounted : bytes = (q.map List.length).sum) (hfits : bytes + b.length ≤ s.maxBytes) :
    SendQueue F :=
  { s with
    q := q ++ [b]
    bytes := bytes + b.length
    dropped := dropped
    counted := by simp [hcounted]
    bounded := hfits }

/-- Accept a sealed frame, or drop it or the oldest ones: the queue, and whether the frame was
accepted. -/
def enqueue (s : SendQueue F) (b : Bytes) : SendQueue F × Bool :=
  if s.closed then (s, false)
  else if b.length > s.maxBytes then ({ s with dropped := s.dropped + 1 }, false)
  else if hfull : s.bytes + b.length > s.maxBytes then
    match s.drop with
    | .newest => ({ s with dropped := s.dropped + 1 }, false)
    | .oldest =>
      let r := evict s.maxBytes b.length s.q s.bytes s.dropped
      if hfits : r.2.1 + b.length ≤ s.maxBytes then
        (s.append r.1 r.2.1 r.2.2 b (evict_suffix _ _ _ s.counted _).2 hfits, true)
      else
        ({ s with
            q := r.1, bytes := r.2.1, dropped := r.2.2 + 1
            counted := (evict_suffix _ _ _ s.counted _).2
            bounded := (evict_bytes_le _ _ _ _ _).trans s.bounded }, false)
  else (s.append s.q s.bytes s.dropped b s.counted (not_lt.mp hfull), true)

/-- The next frame to write, if one waits. -/
def popNext (s : SendQueue F) : Option (Bytes × SendQueue F) :=
  match h : s.q with
  | [] => none
  | b :: rest =>
    some (b,
      { s with
        q := rest
        bytes := s.bytes - b.length
        framesSent := s.framesSent + 1
        bytesSent := s.bytesSent + b.length
        counted := by rw [s.counted, h, List.map_cons, List.sum_cons, Nat.add_sub_cancel_left]
        bounded := (Nat.sub_le _ _).trans s.bounded })

def seconds (d : Duration) : F :=
  Float64.ofInt (Int.tdiv d second) + Float64.ofInt (Int.tmod d second) / Float64.ofInt 1000000000

/-- Refill the bucket and take `n` tokens, if there are as many: the queue, and whether they were
taken. -/
def takeTokens (s : SendQueue F) (now : Time) (n : ℕ) : SendQueue F × Bool :=
  if Float64.le s.rate (Float64.ofInt 0) then (s, true)
  else
    let filled := s.tokens + seconds (now - s.lastRef) * s.rate
    let tokens := if Float64.lt s.burst filled then s.burst else filled
    let need : F := Float64.ofInt n
    if Float64.le need tokens then ({ s with lastRef := now, tokens := tokens - need }, true)
    else ({ s with lastRef := now, tokens := tokens }, false)

/-- Accept no more frames. -/
def close (s : SendQueue F) : SendQueue F := { s with closed := true }

/-! ### What the calls do to the waiting frames -/

variable {s : SendQueue F}

omit [Float64 F] in
/-- **A frame that fits is accepted**, and nothing is dropped. -/
theorem enqueue_fits {b : Bytes} (hopen : s.closed = false)
    (hfits : s.bytes + b.length ≤ s.maxBytes) :
    (s.enqueue b).1.q = s.q ++ [b] ∧ (s.enqueue b).1.dropped = s.dropped ∧ (s.enqueue b).2 = true := by
  unfold enqueue
  rw [if_neg (by rw [hopen]; decide), if_neg (by omega), dif_neg (by omega)]
  exact ⟨rfl, rfl, rfl⟩

/-- The parts of a queue that putting a frame in or taking one out does not change. -/
structure SameTerms (s s' : SendQueue F) : Prop where
  maxBytes : s'.maxBytes = s.maxBytes
  drop : s'.drop = s.drop
  rate : s'.rate = s.rate
  burst : s'.burst = s.burst
  tokens : s'.tokens = s.tokens
  lastRef : s'.lastRef = s.lastRef

/-- What popping `b` off the queue `s` does. -/
structure Popped (s : SendQueue F) (b : Bytes) (s' : SendQueue F) : Prop where
  q : s.q = b :: s'.q
  framesSent : s'.framesSent = s.framesSent + 1
  bytesSent : s'.bytesSent = s.bytesSent + b.length
  dropped : s'.dropped = s.dropped
  same : SameTerms s s'

omit [Float64 F] in
theorem popped {s' : SendQueue F} {b : Bytes} (h : s.popNext = some (b, s')) : Popped s b s' := by
  unfold popNext at h
  split at h
  · cases h
  · next b' rest hq =>
    cases h
    exact ⟨hq, rfl, rfl, rfl, ⟨rfl, rfl, rfl, rfl, rfl, rfl⟩⟩

omit [Float64 F] in
theorem popNext_eq_none (h : s.popNext = none) : s.q = [] := by
  unfold popNext at h
  split at h
  · next hq => exact hq
  · cases h

theorem takeTokens_q (s : SendQueue F) (now : Time) (n : ℕ) : (s.takeTokens now n).1.q = s.q := by
  unfold takeTokens
  dsimp only
  split_ifs <;> rfl

end SendQueue

end

end FlexBraid
