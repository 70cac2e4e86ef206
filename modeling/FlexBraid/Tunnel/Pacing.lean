import FlexBraid.Tunnel.QueueAccounts
import FlexBraid.Lib.TokenBucket
import Mathlib.Data.Rat.Floor
import Mathlib.Tactic.FieldSimp

/-!
# The pacing of a send queue

The consumer of a send queue pops a frame, waits until the bucket holds as many tokens as the frame
has bytes, and writes it.  In exact arithmetic and with a positive rate the bucket of a queue is a
token bucket whose clock counts seconds, so the frames written conform to the rate and the size of
the queue, and a frame that waits is written as soon as enough is gained.  No frame is longer than
the bucket, since none is longer than the queue.

## Main definitions

* `SendQueue.attempt` — one pass of the loop that waits for tokens.
* `SendQueue.deficit` — the seconds the loop sleeps after an attempt that failed.
* `SendQueue.bucket` — the token bucket of a queue.
* `Consumer`, `Consumer.step` — the consumer, and what it and the producers do.

## Main results

* `SendQueue.take_bucket` — **an attempt is an attempt on the token bucket.**
* `Consumer.drains` — **turns at unbounded times write all that waits.**
* `SendQueue.pacing_conforms` — **the pacing conforms to the rate and starves no frame.**
-/

namespace FlexBraid

namespace SendQueue

variable {F : Type} [Float64 F]

/-- One pass of the loop that waits for tokens: the attempt `(now, n)` to take `n` tokens at the
instant `now` emits what it takes. -/
def attempt (s : SendQueue F) (a : Time × ℕ) : SendQueue F × List ℕ :=
  ((s.takeTokens a.1 a.2).1, if (s.takeTokens a.1 a.2).2 then [a.2] else [])

/-- The seconds to sleep after an attempt to take `n` tokens that failed. -/
def deficit (s : SendQueue F) (n : ℕ) : F := (Float64.ofInt n - s.tokens) / s.rate

/-! ### The bucket -/

theorem seconds_eq (d : Duration) : (seconds d : ℚ) = d / 1000000000 := by
  have hsplit : (d : ℚ) = 1000000000 * (Int.tdiv d second : ℤ) + (Int.tmod d second : ℤ) := by
    exact_mod_cast (Int.mul_tdiv_add_tmod d second).symm
  change ((Int.tdiv d second : ℤ) : ℚ) + ((Int.tmod d second : ℤ) : ℚ) / ((1000000000 : ℤ) : ℚ) = _
  rw [hsplit]
  push_cast
  ring

/-- The token bucket of a queue; its clock counts seconds. -/
def bucket (s : SendQueue ℚ) : TokenBucket ℚ where
  rate := s.rate
  burst := s.burst
  tokens := s.tokens
  last := seconds s.lastRef

/-- The attempt on the bucket that an attempt on the queue is. -/
def onBucket (a : Time × ℕ) : ℚ × ℚ := (seconds a.1, a.2)

theorem seconds_sub (t t' : Time) : (seconds (t - t') : ℚ) = seconds t - seconds t' := by
  simp only [seconds_eq]
  push_cast
  ring

theorem seconds_mono : Monotone (seconds : Duration → ℚ) := by
  intro t t' h
  rw [seconds_eq, seconds_eq]
  have : (t : ℚ) ≤ t' := by exact_mod_cast h
  gcongr

theorem level_bucket (s : SendQueue ℚ) (now : Time) :
    s.bucket.level (seconds now) =
      if s.burst < s.tokens + seconds (now - s.lastRef) * s.rate then s.burst
      else s.tokens + seconds (now - s.lastRef) * s.rate := by
  rw [TokenBucket.level, seconds_sub]
  dsimp only [bucket]
  split
  · next h => exact min_eq_left h.le
  · next h => exact min_eq_right (not_lt.mp h)

variable {s : SendQueue ℚ}

theorem takeTokens_eq (hrate : 0 < s.rate) (now : Time) (n : ℕ) :
    s.takeTokens now n =
      if (n : ℚ) ≤ s.bucket.level (seconds now) then
        ({ s with lastRef := now, tokens := s.bucket.level (seconds now) - n }, true)
      else ({ s with lastRef := now, tokens := s.bucket.level (seconds now) }, false) := by
  rw [level_bucket, takeTokens]
  have hpaced : ¬Float64.le s.rate (Float64.ofInt 0) = true := by
    simpa [Float64.le, Float64.ofInt] using hrate
  rw [if_neg hpaced]
  simp only [Float64.lt, Float64.le, Float64.ofInt, decide_eq_true_eq, Int.cast_natCast]

/-- **An attempt is an attempt on the token bucket.** -/
theorem take_bucket (hrate : 0 < s.rate) (a : Time × ℕ) : s.bucket.take (onBucket a) =
      ((s.attempt a).1.bucket, (s.attempt a).2.map (Nat.cast : ℕ → ℚ)) := by
  rw [attempt, takeTokens_eq hrate]
  rcases le_or_gt (a.2 : ℚ) (s.bucket.level (seconds a.1)) with h | h
  · rw [if_pos h, TokenBucket.take_eq_of_le (a := onBucket a) h]
    rfl
  · rw [if_neg (not_le.mpr h), TokenBucket.take_eq_nil (a := onBucket a) h]
    rfl

@[simp] theorem rate_attempt (s : SendQueue F) (a : Time × ℕ) : (s.attempt a).1.rate = s.rate := by
  dsimp only [attempt, takeTokens]
  split_ifs <;> rfl

@[simp] theorem burst_attempt (s : SendQueue F) (a : Time × ℕ) :
    (s.attempt a).1.burst = s.burst := by
  dsimp only [attempt, takeTokens]
  split_ifs <;> rfl

theorem lastRef_attempt (hrate : 0 < s.rate) (a : Time × ℕ) : (s.attempt a).1.lastRef = a.1 := by
  rw [attempt, takeTokens_eq hrate]
  dsimp only
  split <;> rfl

/-- What a sequence of attempts takes in all. -/
def granted (s : SendQueue F) (as : List (Time × ℕ)) : ℕ := (Run.outputs attempt s as).flatten.sum

theorem exec_bucket (hrate : 0 < s.rate) (as : List (Time × ℕ)) :
    Run.exec TokenBucket.take s.bucket (as.map onBucket) = (Run.exec attempt s as).bucket ∧
      s.bucket.taken (as.map onBucket) = s.granted as := by
  have hpaced : ∀ (s : SendQueue ℚ) (a : Time × ℕ), 0 < s.rate → 0 < (s.attempt a).1.rate :=
    fun s a h => (rate_attempt s a).symm ▸ h
  obtain ⟨hexec, houtputs⟩ :=
    Run.exec_map hpaced (fun (s : SendQueue ℚ) a (h : 0 < s.rate) => take_bucket h a) hrate as
  refine ⟨hexec, ?_⟩
  rw [TokenBucket.taken, houtputs, granted, ← List.map_flatten]
  exact (map_list_sum (Nat.castRingHom ℚ) _).symm

theorem onTime_bucket (hrate : 0 < s.rate) {as : List (Time × ℕ)}
    (h : (s.lastRef :: as.map Prod.fst).Pairwise (· ≤ ·)) :
    Run.Along TokenBucket.take TokenBucket.OnTime s.bucket (as.map onBucket) := by
  induction as generalizing s with
  | nil => trivial
  | cons a as ih =>
    rw [List.map_cons, List.pairwise_cons] at h
    rw [List.map_cons, Run.along_cons, take_bucket hrate]
    refine ⟨⟨seconds_mono (h.1 a.1 List.mem_cons_self), Nat.cast_nonneg _⟩, ih ?_ ?_⟩
    · rwa [rate_attempt]
    · rw [lastRef_attempt hrate]
      exact h.2

theorem lastRef_exec (hrate : 0 < s.rate) (a : Time × ℕ) (as : List (Time × ℕ)) :
    (Run.exec attempt s (a :: as)).lastRef = ((a :: as).getLast (List.cons_ne_nil a as)).1 := by
  induction as generalizing s a with
  | nil => exact lastRef_attempt hrate a
  | cons a' as ih =>
    rw [Run.exec_cons, ih (by rwa [rate_attempt]), List.getLast_cons (List.cons_ne_nil a' as)]

omit [Float64 F] in
theorem length_le_of_mem (s : SendQueue F) {b : Bytes} (h : b ∈ s.q) : b.length ≤ s.maxBytes := by
  refine le_trans ?_ s.bounded
  rw [s.counted]
  exact List.le_sum_of_mem (List.mem_map_of_mem h)

/-- What holds of a queue that is paced. -/
structure Paced (s : SendQueue ℚ) : Prop where
  rate : 0 < s.rate
  burst : s.burst = s.maxBytes
  valid : s.bucket.Valid

theorem paced_newSendQueue (maxBytes : ℤ) (drop : QueueDrop) {rate : ℚ} (hrate : 0 < rate)
    (now : Time) : (newSendQueue maxBytes drop rate now).Paced := by
  have hfull : (newSendQueue maxBytes drop rate now).tokens =
      ((positiveOr maxBytes 262144).toNat : ℚ) := Int.cast_natCast _
  refine ⟨hrate, Int.cast_natCast _, hrate.le, ?_, le_rfl⟩
  change 0 ≤ (newSendQueue maxBytes drop rate now).tokens
  rw [hfull]
  exact Nat.cast_nonneg _

theorem SameTerms.bucket {s' : SendQueue ℚ} (h : SameTerms s s') : s'.bucket = s.bucket := by
  simp only [SendQueue.bucket, h.rate, h.burst, h.tokens, h.lastRef]

theorem SameTerms.paced {s' : SendQueue ℚ} (h : SameTerms s s') (hs : s.Paced) : s'.Paced :=
  ⟨by rw [h.rate]; exact hs.rate, by rw [h.burst, h.maxBytes]; exact hs.burst,
    by rw [h.bucket]; exact hs.valid⟩

theorem maxBytes_attempt (s : SendQueue F) (a : Time × ℕ) :
    (s.attempt a).1.maxBytes = s.maxBytes := by
  dsimp only [attempt, takeTokens]
  split_ifs <;> rfl

theorem Paced.attempt (h : s.Paced) {a : Time × ℕ} (ha : s.lastRef ≤ a.1) :
    (s.attempt a).1.Paced := by
  -- the bounds are those of the token bucket
  have hvalid := h.valid.take (a := onBucket a) ⟨seconds_mono ha, Nat.cast_nonneg _⟩
  rw [take_bucket h.rate] at hvalid
  exact ⟨by rw [rate_attempt]; exact h.rate,
    by rw [burst_attempt, maxBytes_attempt]; exact h.burst, hvalid⟩

end SendQueue

/-! ### The consumer -/

structure Consumer (F : Type) where
  queue : SendQueue F
  /-- The frame that was popped and waits for tokens. -/
  held : Option Bytes := none

namespace Consumer

section
variable {F : Type} [Float64 F]

/-- Write a popped frame, or wait for the tokens. -/
def write (s : SendQueue F) (b : Bytes) (now : Time) : Consumer F × List Bytes :=
  if (s.takeTokens now b.length).2 then ({ queue := (s.takeTokens now b.length).1 }, [b])
  else ({ queue := (s.takeTokens now b.length).1, held := some b }, [])

/-- The consumer gets its turn: it tries once to take the tokens of its frame, and pops one before
if it has none.  It emits the frame it writes. -/
def turn (c : Consumer F) (now : Time) : Consumer F × List Bytes :=
  match c.held with
  | some b => write c.queue b now
  | none =>
    match c.queue.popNext with
    | none => (c, [])
    | some (b, s) => write s b now

/-- What the producers and the consumer do. -/
inductive Event where
  | enqueue (b : Bytes)
  | close
  | turn (now : Time)
deriving DecidableEq, Repr

/-- One event. -/
def step (c : Consumer F) : Event → Consumer F × List Bytes
  | .enqueue b => ({ c with queue := (c.queue.enqueue b).1 }, [])
  | .close => ({ c with queue := c.queue.close }, [])
  | .turn now => c.turn now

/-- The frames that were accepted and are still to be written. -/
def waiting (c : Consumer F) : List Bytes := c.held.toList ++ c.queue.q

/-- A turn that is not before the last attempt. -/
def OnTime (c : Consumer F) : Event → Prop
  | .turn now => c.queue.lastRef ≤ now
  | _ => True

end

/-- The queue is paced, and the frame that waits for tokens fits into the bucket. -/
structure Sound (c : Consumer ℚ) : Prop where
  paced : c.queue.Paced
  held : ∀ b ∈ c.held, b.length ≤ c.queue.maxBytes

/-- What a turn does when a frame is to be written: it is one attempt on the bucket, and the frame
is written if it succeeds. -/
structure Turned (c : Consumer ℚ) (now : Time) (b : Bytes) (rest : List Bytes)
    (r : Consumer ℚ × List Bytes) : Prop where
  sound : r.1.Sound
  lastRef : r.1.queue.lastRef = now
  bucket : r.1.queue.bucket = (c.queue.bucket.take (SendQueue.onBucket (now, b.length))).1
  written : (b.length : ℚ) ≤ c.queue.bucket.level (SendQueue.seconds now) →
    r.2 = [b] ∧ r.1.waiting = rest
  waits : c.queue.bucket.level (SendQueue.seconds now) < b.length →
    r.2 = [] ∧ r.1.waiting = b :: rest

variable {b : Bytes} {c : Consumer ℚ} {ts : ℕ → Time}

theorem turned_write {s : SendQueue ℚ} (hs : s.Paced) (hb : b.length ≤ s.maxBytes) {now : Time}
    (hnow : s.lastRef ≤ now) : Turned ⟨s, some b⟩ now b s.q (write s b now) := by
  have hpaced := hs.attempt (a := (now, b.length)) hnow
  have hlast := SendQueue.lastRef_attempt hs.rate (now, b.length)
  have hmax := s.maxBytes_attempt (now, b.length)
  have hq := s.takeTokens_q now b.length
  have hbucket := congrArg Prod.fst (SendQueue.take_bucket hs.rate (now, b.length))
  have hlevel : (s.takeTokens now b.length).2 = true ↔
      (b.length : ℚ) ≤ s.bucket.level (SendQueue.seconds now) := by
    rw [SendQueue.takeTokens_eq hs.rate]
    split <;> simp_all
  unfold write
  split
  · next htaken =>
    refine ⟨⟨hpaced, fun _ h => by cases h⟩, hlast, hbucket.symm, fun _ => ⟨rfl, hq⟩, fun h => ?_⟩
    exact absurd (hlevel.mp htaken) (not_le.mpr h)
  · next hfail =>
    refine ⟨⟨hpaced, ?_⟩, hlast, hbucket.symm, fun h => absurd (hlevel.mpr h) hfail, fun _ => ?_⟩
    · rintro _ ⟨⟩
      exact hb.trans_eq hmax.symm
    · exact ⟨rfl, congrArg (b :: ·) hq⟩

/-- **A turn is an attempt for the first frame that is to be written.** -/
theorem turned (hc : c.Sound) {rest : List Bytes} (hwaiting : c.waiting = b :: rest) {now : Time}
    (hnow : c.queue.lastRef ≤ now) : Turned c now b rest (c.turn now) := by
  obtain ⟨s, held⟩ := c
  cases held with
  | some b' =>
    obtain ⟨rfl, rfl⟩ : b' = b ∧ s.q = rest := by simpa [waiting] using hwaiting
    exact turned_write hc.paced (hc.held b' rfl) hnow
  | none =>
    have hq : s.q = b :: rest := hwaiting
    dsimp only [turn]
    cases hpop : s.popNext with
    | none => simp [SendQueue.popNext_eq_none hpop] at hq
    | some found =>
      obtain ⟨b', s'⟩ := found
      have hp := SendQueue.popped hpop
      obtain ⟨rfl, rfl⟩ : b' = b ∧ s'.q = rest := by simpa [hp.q] using hq
      have hb : b'.length ≤ s'.maxBytes := by
        rw [hp.same.maxBytes]
        exact s.length_le_of_mem (hp.q ▸ List.mem_cons_self)
      have h := turned_write (hp.same.paced hc.paced) hb (hp.same.lastRef.trans_le hnow)
      -- popping does not touch the bucket
      obtain ⟨hsound, hlast, hbucket, hwritten, hwaits⟩ := h
      rw [hp.same.bucket] at hbucket hwritten hwaits
      exact ⟨hsound, hlast, hbucket, hwritten, hwaits⟩

theorem turn_of_waiting_nil (h : c.waiting = []) (now : Time) : c.turn now = (c, []) := by
  obtain ⟨s, held⟩ := c
  cases held with
  | some b => simp [waiting] at h
  | none =>
    have hq : s.q = [] := h
    dsimp only [turn]
    cases hpop : s.popNext with
    | none => rfl
    | some found => simp [(SendQueue.popped hpop).q] at hq

theorem sound_step (hc : c.Sound) {e : Event} (he : c.OnTime e) : (c.step e).1.Sound := by
  cases e with
  | enqueue b =>
    have hcase := SendQueue.enqueued c.queue b
    dsimp only [step]
    generalize c.queue.enqueue b = r at hcase ⊢
    cases hcase with
    | turnedAway => exact hc
    | refused _ _ _ _ _ hsame | accepted _ _ _ _ _ _ _ _ _ hsame =>
      exact ⟨hsame.paced hc.paced, fun b hb => (hc.held b hb).trans_eq hsame.maxBytes.symm⟩
  | close => exact ⟨⟨hc.paced.rate, hc.paced.burst, hc.paced.valid⟩, hc.held⟩
  | turn now =>
    cases hwaiting : c.waiting with
    | nil => rwa [step, turn_of_waiting_nil hwaiting]
    | cons b rest => exact (turned hc hwaiting he).sound

theorem sound_exec (hc : c.Sound) {es : List Event} (hes : Run.Along step OnTime c es) :
    (Run.exec step c es).Sound := by
  have hstep : ∀ (c : Consumer ℚ) (e : Event), c.Sound → c.OnTime e → (c.step e).1.Sound :=
    fun _ _ hc he => sound_step hc he
  exact Run.exec_induct hstep hc hes

/-! ### All that waits is written -/

/-- The first turns of an endless sequence. -/
def turns (ts : ℕ → Time) (k : ℕ) : List Time := (List.range k).map ts

theorem turns_succ (ts : ℕ → Time) (k : ℕ) :
    turns ts (k + 1) = ts 0 :: turns (fun i => ts (i + 1)) k := by
  simp [turns, List.range_succ_eq_map, Function.comp_def]

theorem turns_add (ts : ℕ → Time) (j k : ℕ) :
    turns ts (j + k) = turns ts j ++ turns (fun i => ts (j + i)) k := by
  simp [turns, List.range_add, Function.comp_def]

theorem exists_written (hc : c.Sound) {rest : List Bytes} (hwaiting : c.waiting = b :: rest)
    (hts : Monotone ts) (hfirst : c.queue.lastRef ≤ ts 0) {i : ℕ}
    (henough : (b.length : ℚ) ≤ c.queue.bucket.level (SendQueue.seconds (ts i))) :
    ∃ k, (Run.outputs turn c (turns ts k)).flatten = [b] ∧
      (Run.exec turn c (turns ts k)).waiting = rest ∧ (Run.exec turn c (turns ts k)).Sound ∧
      (Run.exec turn c (turns ts k)).queue.lastRef ≤ ts k := by
  -- on the number of turns until there are enough tokens
  induction i generalizing c ts with
  | zero =>
    have h := turned hc hwaiting hfirst
    obtain ⟨hout, hrest⟩ := h.written henough
    refine ⟨1, ?_, hrest, h.sound, h.lastRef.trans_le (hts (Nat.zero_le 1))⟩
    simp [turns, hout]
  | succ i ih =>
    have h := turned hc hwaiting hfirst
    have hnext : ts 0 ≤ ts 1 := hts (Nat.zero_le 1)
    rcases le_or_gt (b.length : ℚ) (c.queue.bucket.level (SendQueue.seconds (ts 0)))
      with hnow | hlow
    · obtain ⟨hout, hrest⟩ := h.written hnow
      refine ⟨1, ?_, hrest, h.sound, h.lastRef.trans_le hnext⟩
      simp [turns, hout]
    · -- the attempt fails, and the level at the later turn stays what it is
      obtain ⟨hout, hstill⟩ := h.waits hlow
      have hlevel := TokenBucket.level_take_of_fail hc.paced.valid
        (a := SendQueue.onBucket (ts 0, b.length)) hlow
        (SendQueue.seconds_mono (hts (Nat.zero_le (i + 1))))
      rw [← h.bucket] at hlevel
      obtain ⟨k, hk⟩ := ih h.sound hstill (fun i j hij => hts (Nat.succ_le_succ hij))
        (h.lastRef.trans_le hnext) (by rw [hlevel]; exact henough)
      refine ⟨k + 1, ?_⟩
      rw [turns_succ, Run.outputs_cons, Run.exec_cons, List.flatten_cons, hout, List.nil_append]
      exact hk

theorem exists_enough {s : SendQueue ℚ} (hs : s.Paced) {n : ℕ} (hn : n ≤ s.maxBytes)
    (hts : ∀ t, ∃ i, t ≤ ts i) : ∃ i, (n : ℚ) ≤ s.bucket.level (SendQueue.seconds (ts i)) := by
  -- the instant at which enough is gained, if nothing is taken meanwhile
  set late : ℚ := s.bucket.last + (n - s.bucket.tokens) / s.bucket.rate with hlate
  obtain ⟨i, hi⟩ := hts ⌈late * 1000000000⌉
  refine ⟨i, TokenBucket.le_level_of_late hs.rate ?_ ?_⟩
  · exact (Nat.cast_le.mpr hn).trans_eq hs.burst.symm
  · rw [SendQueue.seconds_eq, ← hlate, le_div_iff₀ (by norm_num)]
    exact (Int.le_ceil _).trans (by exact_mod_cast hi)

/-- **Turns at unbounded times write all that waits**, in order. -/
theorem drains (hc : c.Sound) (hts : Monotone ts) (hfirst : c.queue.lastRef ≤ ts 0)
    (hunbounded : ∀ t, ∃ i, t ≤ ts i) : ∃ k, (Run.outputs turn c (turns ts k)).flatten = c.waiting ∧
      (Run.exec turn c (turns ts k)).waiting = [] := by
  generalize hwaiting : c.waiting = frames
  induction frames generalizing c ts with
  | nil => exact ⟨0, rfl, hwaiting⟩
  | cons b rest ih =>
    have hb : b.length ≤ c.queue.maxBytes := by
      have hmem : b ∈ c.waiting := hwaiting ▸ List.mem_cons_self
      rcases List.mem_append.mp hmem with hheld | hq
      · exact hc.held b (Option.mem_toList.mp hheld)
      · exact c.queue.length_le_of_mem hq
    obtain ⟨i, hi⟩ := exists_enough hc.paced hb hunbounded
    obtain ⟨j, hout, hrest, hsound, hlast⟩ := exists_written hc hwaiting hts hfirst hi
    -- the rest is written by the turns that follow
    have hlater : ∀ t, ∃ i, t ≤ ts (j + i) := fun t => by
      obtain ⟨i, hi⟩ := hunbounded t
      exact ⟨i, hi.trans (hts (Nat.le_add_left i j))⟩
    obtain ⟨k, hout', hrest'⟩ :=
      ih hsound (fun i i' h => hts (Nat.add_le_add_left h j)) hlast hlater hrest
    refine ⟨j + k, ?_, ?_⟩
    · rw [turns_add, Run.outputs_append, List.flatten_append, hout, hout', List.singleton_append]
    · rw [turns_add, Run.exec_append, hrest']

end Consumer

/-! ### The pacing -/

namespace SendQueue

variable {s : SendQueue ℚ}

theorem paced_exec (hs : s.Paced) {as : List (Time × ℕ)}
    (hon : Run.Along TokenBucket.take TokenBucket.OnTime s.bucket (as.map onBucket)) :
    (Run.exec attempt s as).Paced ∧ (Run.exec attempt s as).rate = s.rate ∧
      (Run.exec attempt s as).burst = s.burst ∧ (Run.exec attempt s as).maxBytes = s.maxBytes := by
  have hstep : ∀ (t : SendQueue ℚ) (a : Time × ℕ),
      (t.rate = s.rate ∧ t.burst = s.burst ∧ t.maxBytes = s.maxBytes) →
      ((t.attempt a).1.rate = s.rate ∧ (t.attempt a).1.burst = s.burst ∧
        (t.attempt a).1.maxBytes = s.maxBytes) := fun t a h => by
    rwa [rate_attempt, burst_attempt, maxBytes_attempt]
  obtain ⟨hrate, hburst, hmax⟩ := Run.exec_induct' hstep as ⟨rfl, rfl, rfl⟩
  have hvalid := TokenBucket.valid_exec hs.valid hon
  rw [(exec_bucket hs.rate as).1] at hvalid
  exact ⟨⟨hrate ▸ hs.rate, by rw [hburst, hmax]; exact hs.burst, hvalid⟩, hrate, hburst, hmax⟩

theorem granted_le (hs : s.Paced) {a : Time × ℕ} {as : List (Time × ℕ)}
    (hon : Run.Along TokenBucket.take TokenBucket.OnTime s.bucket ((a :: as).map onBucket)) :
    (s.granted (a :: as) : ℚ) ≤
      s.burst + s.rate * seconds (((a :: as).getLast (List.cons_ne_nil a as)).1 - a.1) := by
  have h := TokenBucket.conforms hs.valid hon
  rw [← List.map_cons, (exec_bucket hs.rate (a :: as)).1, (exec_bucket hs.rate (a :: as)).2] at h
  rw [seconds_sub, ← lastRef_exec hs.rate a as]
  exact h

theorem retry (hs : s.Paced) {t t' : Time} {n : ℕ} (hn : n ≤ s.maxBytes)
    (hslept : (s.takeTokens t n).1.deficit n ≤ seconds (t' - t)) :
    ((s.takeTokens t n).1.takeTokens t' n).2 = true := by
  have hrate := rate_attempt s (t, n)
  have hburst := burst_attempt s (t, n)
  have hlast := lastRef_attempt hs.rate (t, n)
  dsimp only [attempt] at hrate hburst hlast
  generalize (s.takeTokens t n).1 = s' at hrate hburst hlast hslept ⊢
  have hpaced : 0 < s'.rate := hrate ▸ hs.rate
  rw [takeTokens_eq hpaced, if_pos]
  refine TokenBucket.le_level ?_ ?_
  · exact (Nat.cast_le.mpr hn).trans_eq (hs.burst.symm.trans hburst.symm)
  · rw [← hlast, seconds_sub] at hslept
    exact (div_le_iff₀ hpaced).mp hslept

/-- **The pacing conforms to the rate and starves no frame.**  The bucket is as large as the queue.
For attempts at times that do not decrease it holds between no tokens and a full bucket; what is
taken from one attempt to another, both included, is at most a full bucket and what is gained
meanwhile; and an attempt that fails succeeds when it is repeated after the seconds it lacks.
Whatever the producers and the consumer did before, turns of the consumer at unbounded times write
every frame that waits. -/
theorem pacing_conforms {rate : ℚ} (hrate : 0 < rate) (maxBytes : ℤ) (drop : QueueDrop)
    (start : Time) :
    let s₀ := newSendQueue maxBytes drop rate start
    s₀.burst = s₀.maxBytes ∧
      (∀ as : List (Time × ℕ), (start :: as.map Prod.fst).Pairwise (· ≤ ·) →
        (0 ≤ (Run.exec attempt s₀ as).tokens ∧ (Run.exec attempt s₀ as).tokens ≤ s₀.burst) ∧
        (∀ before a rest after, as = before ++ (a :: rest) ++ after →
          ((Run.exec attempt s₀ before).granted (a :: rest) : ℚ) ≤
            s₀.burst + rate * seconds (((a :: rest).getLast (List.cons_ne_nil a rest)).1 - a.1)) ∧
        ∀ t n, (Run.exec attempt s₀ as).lastRef ≤ t → n ≤ s₀.maxBytes →
          ((Run.exec attempt s₀ as).takeTokens t n).2 = false →
          ∀ t', ((Run.exec attempt s₀ as).takeTokens t n).1.deficit n ≤ seconds (t' - t) →
            (((Run.exec attempt s₀ as).takeTokens t n).1.takeTokens t' n).2 = true) ∧
      ∀ es, Run.Along Consumer.step Consumer.OnTime ⟨s₀, none⟩ es →
        ∀ ts : ℕ → Time, Monotone ts → (∀ t, ∃ i, t ≤ ts i) →
          (Run.exec Consumer.step ⟨s₀, none⟩ es).queue.lastRef ≤ ts 0 →
          ∃ k, (Run.outputs Consumer.turn (Run.exec Consumer.step ⟨s₀, none⟩ es)
              (Consumer.turns ts k)).flatten = (Run.exec Consumer.step ⟨s₀, none⟩ es).waiting := by
  intro s₀
  have hs₀ : s₀.Paced := paced_newSendQueue maxBytes drop hrate start
  refine ⟨hs₀.burst, fun as hsorted => ?_, fun es hes ts hts hunbounded hfirst => ?_⟩
  · have hon := onTime_bucket (s := s₀) hrate hsorted
    obtain ⟨hs, -, hburst, hmax⟩ := paced_exec hs₀ hon
    refine ⟨⟨hs.valid.nonneg, hs.valid.le_burst.trans_eq hburst⟩, ?_, ?_⟩
    · -- the attempts of a window are those of the queue that the ones before it left
      rintro before a rest after rfl
      rw [List.map_append, List.map_append, Run.along_append, Run.along_append] at hon
      obtain ⟨⟨hbefore, hwindow⟩, -⟩ := hon
      obtain ⟨hs', hrate', hburst', -⟩ := paced_exec hs₀ hbefore
      rw [(exec_bucket hs₀.rate before).1] at hwindow
      have h := granted_le hs' hwindow
      rwa [hburst', hrate'] at h
    · intro t n _ hn _ t' hslept
      exact retry hs (hn.trans_eq hmax.symm) hslept
  · have hsound := Consumer.sound_exec (c := ⟨s₀, none⟩) ⟨hs₀, fun _ h => by cases h⟩ hes
    obtain ⟨k, hk, -⟩ := Consumer.drains hsound hts hfirst hunbounded
    exact ⟨k, hk⟩

/-- A queue of 100 bytes at 1000 bytes per second: the full bucket is taken at once, 20 more bytes
are not there after 10 milliseconds, and they are after 20, which is all that the rate allows.  A
frame that is offered to it is written. -/
theorem pacing_conforms_small :
    let s₀ := newSendQueue 100 .oldest (1000 : ℚ) 0
    let as := [(0, 100), (10 * millisecond, 20), (20 * millisecond, 20)]
    Run.outputs attempt s₀ as = [[100], [], [20]] ∧
      (s₀.granted as : ℚ) ≤ s₀.burst + 1000 * seconds (20 * millisecond - 0) ∧
      (((Run.exec attempt s₀ [(0, 100)]).takeTokens (10 * millisecond) 20).1.takeTokens
        (20 * millisecond) 20).2 = true ∧
      ∃ k, (Run.outputs Consumer.turn (Run.exec Consumer.step ⟨s₀, none⟩ [.enqueue [1, 2]])
        (Consumer.turns (fun i => i * second) k)).flatten = [[1, 2]] := by
  intro s₀ as
  obtain ⟨-, hattempts, hwritten⟩ :=
    pacing_conforms (show (0 : ℚ) < 1000 by norm_num) 100 .oldest 0
  refine ⟨by decide +kernel, ?_, ?_, ?_⟩
  · exact (hattempts as (by decide)).2.1 [] (0, 100) _ [] rfl
  · exact (hattempts [(0, 100)] (by decide)).2.2 (10 * millisecond) 20 (by decide +kernel)
      (by decide) (by decide +kernel) (20 * millisecond) (by decide +kernel)
  · refine hwritten [.enqueue [1, 2]] ⟨trivial, trivial⟩ (fun i => i * second) ?_ ?_ (by decide)
    · intro i j hij
      exact mul_le_mul_of_nonneg_right (by exact_mod_cast hij) (by decide)
    · intro t
      refine ⟨t.toNat, (Int.self_le_toNat t).trans ?_⟩
      exact le_mul_of_one_le_right (Int.natCast_nonneg _) (by decide)

end SendQueue

end FlexBraid
