import FlexBraid.Tunnel.SendQueue
import FlexBraid.Lib.Run

/-!
# The accounts of a send queue

Producers offer sealed frames to the queue of a WAN and its consumer pops them.  All calls hold the
lock of the queue, so whatever the threads do is one sequence of calls.  Along every such sequence
the queue is a bounded FIFO with exact accounts: what is popped was accepted, in that order, and an
offered frame is popped, waits or is counted as dropped.

A full queue makes room at the front, one frame after the other.  What it keeps is the longest
suffix of the waiting frames that leaves room for the new one, and there is always one, since a
frame too long for an empty queue is refused before.

## Main definitions

* `SendQueue.Longest` — the longest suffix that leaves room.
* `SendQueue.Enqueued` — what offering a frame can do.
* `SendQueue.Call`, `SendQueue.step`, `SendQueue.Record` — the calls of a run and what they record.
* `SendQueue.Accounts` — what the queue owes to its record.

## Main results

* `SendQueue.accounts_step` — **every call keeps the accounts.**
* `SendQueue.queue_accounts` — **the queue is bounded, in order and accounts for every frame.**
-/

namespace FlexBraid.SendQueue

variable {F : Type}

/-! ### Making room -/

/-- The bytes of a list of frames. -/
def size (q : List Bytes) : ℕ := (q.map List.length).sum

@[simp] theorem size_nil : size [] = 0 := rfl

@[simp] theorem size_cons (b : Bytes) (q : List Bytes) : size (b :: q) = b.length + size q := by
  simp [size]

@[simp] theorem size_append (q q' : List Bytes) : size (q ++ q') = size q + size q' := by
  simp [size]

/-- `kept` is the longest suffix of `q` that leaves room for `n` of `max` bytes. -/
structure Longest (max n : ℕ) (q kept : List Bytes) : Prop where
  suffix : kept <:+ q
  fits : size kept + n ≤ max
  longest : ∀ other, other <:+ q → size other + n ≤ max → other.length ≤ kept.length

variable {max n : ℕ} {s : SendQueue F} {log : List Record}

theorem Longest.refl {q : List Bytes} (h : size q + n ≤ max) : Longest max n q q :=
  ⟨List.suffix_refl _, h, fun _ hother _ => hother.length_le⟩

theorem Longest.cons {head : Bytes} {q kept : List Bytes} (h : Longest max n q kept)
    (hfull : max < size (head :: q) + n) : Longest max n (head :: q) kept := by
  refine ⟨h.suffix.trans (List.suffix_cons _ _), h.fits, ?_⟩
  intro other hother hfits
  rcases List.suffix_cons_iff.mp hother with rfl | hother
  · exact absurd hfits (by omega)
  · exact h.longest other hother hfits

/-- **The eviction loop stops at the longest suffix that leaves room** for a frame that fits into
an empty queue, and counts the frames before it. -/
theorem evict_spec (hn : n ≤ max) (q : List Bytes) (dropped : ℕ) :
    ∃ evicted kept, q = evicted ++ kept ∧ Longest max n q kept ∧
      evict max n q (size q) dropped = (kept, size kept, dropped + evicted.length) := by
  induction q generalizing dropped with
  | nil => exact ⟨[], [], rfl, Longest.refl (by simpa using hn), rfl⟩
  | cons head q ih =>
    rw [evict]
    split
    · next hfull =>
      obtain ⟨evicted, kept, hq, hlongest, hevict⟩ := ih (dropped + 1)
      refine ⟨head :: evicted, kept, by rw [hq, List.cons_append], hlongest.cons hfull, ?_⟩
      rw [size_cons, Nat.add_sub_cancel_left, hevict, List.length_cons]
      congr 2
      omega
    · next hroom =>
      exact ⟨[], head :: q, rfl, Longest.refl (not_lt.mp hroom), rfl⟩

/-! ### What offering a frame can do -/

/-- What offering `b` to the queue `s` can do. -/
inductive Enqueued (s : SendQueue F) (b : Bytes) : SendQueue F × Bool → Prop
  /-- A closed queue takes no notice. -/
  | turnedAway (hclosed : s.closed = true) : Enqueued s b (s, false)
  /-- The frame is dropped: it is too long, or the queue is full and keeps what it has. -/
  | refused {s' : SendQueue F} (hopen : s.closed = false)
      (hwhy : s.maxBytes < b.length ∨ s.drop = .newest ∧ s.maxBytes < s.bytes + b.length)
      (hq : s'.q = s.q) (hsent : s'.framesSent = s.framesSent ∧ s'.bytesSent = s.bytesSent)
      (hdropped : s'.dropped = s.dropped + 1) (hsame : SameTerms s s') : Enqueued s b (s', false)
  /-- The frame is the last to wait, behind all the frames that leave it room. -/
  | accepted {s' : SendQueue F} (evicted kept : List Bytes) (hopen : s.closed = false)
      (hsplit : s.q = evicted ++ kept) (hlongest : Longest s.maxBytes b.length s.q kept)
      (hnewest : s.drop = .newest → evicted = []) (hq : s'.q = kept ++ [b])
      (hsent : s'.framesSent = s.framesSent ∧ s'.bytesSent = s.bytesSent)
      (hdropped : s'.dropped = s.dropped + evicted.length) (hsame : SameTerms s s') :
      Enqueued s b (s', true)

/-- **What `enqueue` does.**  The loop never runs out of frames to evict. -/
theorem enqueued (s : SendQueue F) (b : Bytes) : Enqueued s b (s.enqueue b) := by
  have hcounted : s.bytes = size s.q := s.counted
  unfold enqueue
  split
  · next hclosed => exact .turnedAway hclosed
  next hopen =>
  rw [Bool.not_eq_true] at hopen
  split
  · next hlong =>
    exact .refused hopen (.inl hlong) rfl ⟨rfl, rfl⟩ rfl ⟨rfl, rfl, rfl, rfl, rfl, rfl⟩
  next hshort =>
  split
  · next hfull =>
    split
    · next hdrop =>
      exact .refused hopen (.inr ⟨hdrop, hfull⟩) rfl ⟨rfl, rfl⟩ rfl
        ⟨rfl, rfl, rfl, rfl, rfl, rfl⟩
    · next hdrop =>
      obtain ⟨evicted, kept, hsplit, hlongest, hevict⟩ :=
        evict_spec (not_lt.mp hshort) s.q s.dropped
      rw [← hcounted] at hevict
      -- the loop stops at a suffix that leaves room, so the frame is never given up
      have hfits : (evict s.maxBytes b.length s.q s.bytes s.dropped).2.1 + b.length ≤
          s.maxBytes := by
        rw [hevict]
        exact hlongest.fits
      dsimp only
      rw [dif_pos hfits]
      refine .accepted evicted kept hopen hsplit hlongest (fun h => ?_) ?_ ⟨rfl, rfl⟩ ?_
        ⟨rfl, rfl, rfl, rfl, rfl, rfl⟩
      · rw [hdrop] at h
        cases h
      · exact congrArg (fun r => r.1 ++ [b]) hevict
      · exact congrArg (fun r => r.2.2) hevict
  · next hroom =>
    refine .accepted [] s.q hopen rfl (.refl ?_) (fun _ => rfl) rfl ⟨rfl, rfl⟩ rfl
      ⟨rfl, rfl, rfl, rfl, rfl, rfl⟩
    omega

theorem accepts_oldest {b : Bytes} (hopen : s.closed = false) (hdrop : s.drop = .oldest)
    (hb : b.length ≤ s.maxBytes) : (s.enqueue b).2 = true := by
  have h := enqueued s b
  generalize s.enqueue b = r at h ⊢
  cases h with
  | turnedAway hclosed => simp [hopen] at hclosed
  | refused _ hwhy => exact absurd hwhy (by simp [hdrop, hb])
  | accepted => rfl

/-! ### Runs -/

/-- The calls of the producers and of the consumer. -/
inductive Call where
  | enqueue (b : Bytes)
  | popNext
  | close
deriving DecidableEq, Repr

/-- What a call records. -/
inductive Record where
  | accepted (b : Bytes)
  /-- The frame was dropped at once. -/
  | refused (b : Bytes)
  /-- The queue was closed. -/
  | turnedAway (b : Bytes)
  | popped (b : Bytes)
deriving DecidableEq, Repr

namespace Record

def acceptedOf (log : List Record) : List Bytes :=
  log.filterMap fun | .accepted b => some b | _ => none

/-- The frames offered while the queue was open. -/
def offeredOf (log : List Record) : List Bytes :=
  log.filterMap fun | .accepted b => some b | .refused b => some b | _ => none

def poppedOf (log : List Record) : List Bytes :=
  log.filterMap fun | .popped b => some b | _ => none

end Record

open Record

/-- One call.  A call of `popNext` that finds no frame waits, and is a call once there is one. -/
def step (s : SendQueue F) : Call → SendQueue F × List Record
  | .enqueue b =>
    let r := s.enqueue b
    (r.1, [if r.2 then .accepted b else if s.closed then .turnedAway b else .refused b])
  | .popNext =>
    match s.popNext with
    | none => (s, [])
    | some (b, s') => (s', [.popped b])
  | .close => (s.close, [])

/-- The counters that are reported: the frames and bytes popped, and the frames dropped. -/
def stats (s : SendQueue F) : ℕ × ℕ × ℕ := (s.framesSent, s.bytesSent, s.dropped)

/-- What a queue owes to the record of its calls. -/
structure Accounts (s : SendQueue F) (log : List Record) : Prop where
  /-- The frames popped and those waiting were accepted, in this order. -/
  order : (poppedOf log ++ s.q).Sublist (acceptedOf log)
  /-- If the newest are dropped, there are no others. -/
  kept : s.drop = .newest → poppedOf log ++ s.q = acceptedOf log
  /-- A frame offered is popped, waits or is lost, and only one of these; the counters are those of
  the popped and of the lost frames. -/
  fates : ∃ lost, (offeredOf log).Perm (poppedOf log ++ s.q ++ lost) ∧
    s.stats = ((poppedOf log).length, size (poppedOf log), lost.length)

theorem stats_lost {frames bytes dropped : ℕ} (h : s.stats = (frames, bytes, dropped)) (n : ℕ) :
    (s.framesSent, s.bytesSent, s.dropped + n) = (frames, bytes, dropped + n) := by
  simp only [stats, Prod.mk.injEq] at h
  rw [h.1, h.2.1, h.2.2]

theorem accounts_enqueue (h : Accounts s log) (b : Bytes) :
    Accounts (step s (.enqueue b)).1 (log ++ (step s (.enqueue b)).2) := by
  have hcase := enqueued s b
  dsimp only [step]
  generalize s.enqueue b = r at hcase ⊢
  obtain ⟨lost, hperm, hstats⟩ := h.fates
  cases hcase with
  | turnedAway hclosed =>
    simp only [hclosed, Bool.false_eq_true, if_false, if_true]
    refine ⟨?_, ?_, lost, ?_, ?_⟩
    all_goals simp only [poppedOf, acceptedOf, offeredOf, List.filterMap_append,
      List.filterMap_cons, List.filterMap_nil, List.append_nil]
    exacts [h.order, h.kept, hperm, hstats]
  | refused hopen _ hq hsent hdropped hsame =>
    simp only [hopen, Bool.false_eq_true, if_false]
    refine ⟨?_, ?_, lost ++ [b], ?_, ?_⟩
    all_goals simp only [poppedOf, acceptedOf, offeredOf, List.filterMap_append,
      List.filterMap_cons, List.filterMap_nil, List.append_nil, hq, hsame.drop, stats,
      hsent.1, hsent.2, hdropped, List.length_append, List.length_singleton]
    · exact h.order
    · exact h.kept
    · rw [← List.append_assoc]
      exact hperm.append_right [b]
    · exact stats_lost hstats 1
  | accepted evicted kept hopen hsplit _ hnewest hq hsent hdropped hsame =>
    rw [hsplit] at hperm
    simp only [if_true]
    refine ⟨?_, ?_, lost ++ evicted, ?_, ?_⟩
    all_goals simp only [poppedOf, acceptedOf, offeredOf, List.filterMap_append,
      List.filterMap_cons, List.filterMap_nil, List.append_nil, hq, hsame.drop, stats,
      hsent.1, hsent.2, hdropped, List.length_append]
    · -- dropping frames from the middle keeps the order of the others
      rw [← List.append_assoc]
      refine List.Sublist.append ?_ (List.Sublist.refl [b])
      refine List.Sublist.trans ?_ h.order
      rw [hsplit]
      exact (List.Sublist.refl _).append (List.sublist_append_right evicted kept)
    · intro hdrop
      have hkept := h.kept hdrop
      rw [hsplit, hnewest hdrop, List.nil_append] at hkept
      rw [← List.append_assoc]
      exact congrArg (· ++ [b]) hkept
    · -- the frames evicted were waiting, and are lost now
      rw [List.perm_iff_count] at hperm ⊢
      intro a
      have hcount := hperm a
      simp only [offeredOf, poppedOf, List.count_append] at hcount ⊢
      omega
    · exact stats_lost hstats evicted.length

theorem accounts_popNext (h : Accounts s log) :
    Accounts (step s .popNext).1 (log ++ (step s .popNext).2) := by
  dsimp only [step]
  cases hpop : s.popNext with
  | none => rwa [List.append_nil]
  | some popped =>
    obtain ⟨b, s'⟩ := popped
    have hp := SendQueue.popped hpop
    have horder := h.order
    have hkept := h.kept
    obtain ⟨lost, hperm, hstats⟩ := h.fates
    -- the first frame that waits becomes the last one popped
    rw [hp.q, List.append_cons] at horder hkept hperm
    refine ⟨?_, ?_, lost, ?_, ?_⟩
    all_goals simp only [poppedOf, acceptedOf, offeredOf, List.filterMap_append,
      List.filterMap_cons, List.filterMap_nil, List.append_nil, hp.same.drop]
    · exact horder
    · exact hkept
    · exact hperm
    · simp only [stats, Prod.mk.injEq, hp.framesSent, hp.bytesSent, hp.dropped] at hstats ⊢
      refine ⟨?_, ?_, hstats.2.2⟩
      · rw [hstats.1, List.length_append, List.length_singleton, poppedOf]
      · rw [hstats.2.1, size_append, size_cons, size_nil, Nat.add_zero, poppedOf]

/-- **Every call keeps the accounts.** -/
theorem accounts_step (h : Accounts s log) (c : Call) :
    Accounts (step s c).1 (log ++ (step s c).2) := by
  cases c with
  | enqueue b => exact accounts_enqueue h b
  | popNext => exact accounts_popNext h
  | close => simpa only [step, List.append_nil] using
      (⟨h.order, h.kept, h.fates⟩ : Accounts s.close log)

theorem terms_step (s : SendQueue F) (c : Call) :
    (step s c).1.maxBytes = s.maxBytes ∧ (step s c).1.drop = s.drop := by
  cases c with
  | enqueue b =>
    have hcase := enqueued s b
    dsimp only [step]
    generalize s.enqueue b = r at hcase ⊢
    cases hcase with
    | turnedAway => exact ⟨rfl, rfl⟩
    | refused _ _ _ _ _ hsame | accepted _ _ _ _ _ _ _ _ _ hsame =>
      exact ⟨hsame.maxBytes, hsame.drop⟩
  | popNext =>
    dsimp only [step]
    cases hpop : s.popNext with
    | none => exact ⟨rfl, rfl⟩
    | some found => exact ⟨(popped hpop).same.maxBytes, (popped hpop).same.drop⟩
  | close => exact ⟨rfl, rfl⟩

theorem longest_enqueue {b : Bytes} (h : (s.enqueue b).2 = true) :
    ∃ kept, (s.enqueue b).1.q = kept ++ [b] ∧ Longest s.maxBytes b.length s.q kept := by
  have hcase := enqueued s b
  generalize s.enqueue b = r at hcase h ⊢
  cases hcase with
  | turnedAway | refused => cases h
  | accepted evicted kept _ _ hlongest _ hq => exact ⟨kept, hq, hlongest⟩

theorem enqueue_newest (hdrop : s.drop = .newest) (b : Bytes) :
    (s.enqueue b).1.q = s.q ∨ (s.enqueue b).1.q = s.q ++ [b] := by
  have hcase := enqueued s b
  generalize s.enqueue b = r at hcase ⊢
  cases hcase with
  | turnedAway => exact .inl rfl
  | refused _ _ hq => exact .inl hq
  | accepted evicted kept _ hsplit _ hnewest hq =>
    rw [hnewest hdrop, List.nil_append] at hsplit
    exact .inr (by rw [hq, hsplit])

variable [Float64 F]

/-- **The send queue is bounded, in order and accounts for every frame.**  After any sequence of
calls it counts the bytes that wait, which are at most its bound; the accounts hold; and the next
frame offered is treated as its policy says: an accepted one stands behind the longest suffix that
leaves room for it, a queue that drops the newest evicts nothing, and the eviction loop ends with
room for every frame that fits into an empty queue, which a queue that drops the oldest accepts. -/
theorem queue_accounts (maxBytes : ℤ) (drop : QueueDrop) (rateBps : F) (now : Time)
    (calls : List Call) :
    let s₀ := newSendQueue maxBytes drop rateBps now
    let s := Run.exec step s₀ calls
    (s.bytes = size s.q ∧ s.bytes ≤ s₀.maxBytes) ∧
      Accounts s (Run.outputs step s₀ calls).flatten ∧
      ∀ b,
        ((s.enqueue b).2 = true →
          ∃ kept, (s.enqueue b).1.q = kept ++ [b] ∧ Longest s₀.maxBytes b.length s.q kept) ∧
        (drop = .newest → (s.enqueue b).1.q = s.q ∨ (s.enqueue b).1.q = s.q ++ [b]) ∧
        (b.length ≤ s₀.maxBytes →
          (evict s.maxBytes b.length s.q s.bytes s.dropped).2.1 + b.length ≤ s₀.maxBytes ∧
          (drop = .oldest → s.closed = false → (s.enqueue b).2 = true)) := by
  intro s₀ s
  have hstep : ∀ (t : SendQueue F) (c : Call), (t.maxBytes = s₀.maxBytes ∧ t.drop = drop) →
      (step t c).1.maxBytes = s₀.maxBytes ∧ (step t c).1.drop = drop :=
    fun t c ht => ⟨(terms_step t c).1.trans ht.1, (terms_step t c).2.trans ht.2⟩
  obtain ⟨hmax, hdrop⟩ : s.maxBytes = s₀.maxBytes ∧ s.drop = drop :=
    Run.exec_induct' hstep calls ⟨rfl, rfl⟩
  have haccounts : Accounts s ([] ++ (Run.outputs step s₀ calls).flatten) := by
    have hkeep : ∀ (t : SendQueue F) (log : List Record) (c : Call), Accounts t log → True →
        Accounts (step t c).1 (log ++ (step t c).2) := fun t log c h _ => accounts_step h c
    refine Run.exec_induct_outputs hkeep ?_ (Run.along_of_forall step (fun _ _ => trivial) s₀)
    exact ⟨List.Sublist.refl _, fun _ => rfl, [], .nil, rfl⟩
  rw [← hmax]
  refine ⟨⟨s.counted, s.bounded⟩, haccounts, fun b => ⟨longest_enqueue, ?_, fun hb => ⟨?_, ?_⟩⟩⟩
  · intro h
    exact enqueue_newest (hdrop.trans h) b
  · obtain ⟨evicted, kept, -, hlongest, hevict⟩ := evict_spec hb s.q s.dropped
    rw [show s.bytes = size s.q from s.counted, hevict]
    exact hlongest.fits
  · intro h hopen
    exact accepts_oldest hopen (hdrop.trans h) hb

end FlexBraid.SendQueue
