import FlexBraid.Tunnel.ServerSteps

/-!
# Captured handshakes

A handshake that creates a session opens a socket and starts a goroutine, so a
captured handshake must not be good for more than one.  Two windows stand against
a replay: that of the session while it lives, and the handshake window of its name
before and after.  The second is dropped five minutes after it was opened, however
long the session lived, and it can be evicted when the table is full.

## Main definitions

* `Server.creations` — how many sessions the copies of one datagram create in a
  run.

## Main results

* `Server.first_creates_once` — **copies of one handshake create at most one
  session** in every run that neither drops nor evicts its handshake window.
* `Server.first_creates_twice` — a replay after six minutes of silence creates the
  session again.
-/

namespace FlexBraid

namespace Server

variable {F C : Type} [Float64 F] {RS : ReedSolomon C} {P : Primitives} (env : ServerEnv F P)

/-- Whether an event delivers the given datagram. -/
def Event.delivers (d : Bytes) : Event F → Bool
  | .datagram _ _ _ d' => d' = d
  | _ => false

/-- How many sessions the copies of a datagram create in a run. -/
def creations (d : Bytes) : Server F RS P → List (Event F) → ℕ
  | _, [] => 0
  | s, e :: es =>
    (if e.delivers d then (s.step env e).2.countP ServerOut.isPut else 0) +
      creations d (s.step env e).1 es

variable {env} {s : Server F RS P} {e : Event F} {d : Bytes} {hdr : Frame}

theorem putSession_of_delivers (he : e.delivers d = true) (hhdr : Frame.decodeHeader d = .ok hdr)
    {id : UInt64} (hput : .putSession id ∈ (s.step env e).2) :
    id = hdr.sessionID ∧ ¬ s.mgr.FirstSeen hdr.sessionID hdr.seq ∧
      (s.step env e).1.mgr.FirstSeen hdr.sessionID hdr.seq ∧
      (s.step env e).2.count (.putSession hdr.sessionID) = 1 := by
  cases fate_step env s e id with
  | absent h h' hno => exact absurd hput hno
  | kept h h' hgrow hno => exact absurd hput hno
  | expired he' h hidle h' hno => exact absurd hput hno
  | @created now fresh addr d' sess he' h h' hcreates hseen hone =>
    subst he'
    have hd : d' = d := by simpa [Event.delivers] using he
    subst hd
    obtain ⟨hdr', plain, f, sPriv, shared, ⟨hhdr', -, hname, -, -⟩, -, hcheck, -⟩ := hcreates
    rw [hhdr] at hhdr'
    cases hhdr'
    subst hname
    refine ⟨rfl, ?_, hseen hdr hhdr, hone⟩
    intro hfs
    rw [hfs.refused fresh.order now] at hcheck
    cases hcheck

/-- One delivery creates nothing, or one session; then its number was new and is not
any more. -/
theorem countP_isPut_step (he : e.delivers d = true) (hhdr : Frame.decodeHeader d = .ok hdr) :
    (s.step env e).2.countP ServerOut.isPut = 0 ∨ (s.step env e).2.countP ServerOut.isPut = 1 ∧
        ¬ s.mgr.FirstSeen hdr.sessionID hdr.seq ∧
        (s.step env e).1.mgr.FirstSeen hdr.sessionID hdr.seq := by
  by_cases hany : ∃ id, .putSession id ∈ (s.step env e).2
  · obtain ⟨id, hput⟩ := hany
    obtain ⟨-, hnew, hseen, hone⟩ := putSession_of_delivers he hhdr hput
    refine .inr ⟨?_, hnew, hseen⟩
    rw [← hone, List.count]
    apply List.countP_congr
    intro o ho
    cases o with
    | putSession id' =>
      obtain ⟨rfl, -⟩ := putSession_of_delivers he hhdr ho
      simp [ServerOut.isPut]
    | _ => simp [ServerOut.isPut]
  · refine .inl (List.countP_eq_zero.mpr ?_)
    intro o ho
    cases o with
    | putSession id => exact absurd ⟨id, ho⟩ hany
    | _ => simp [ServerOut.isPut]

theorem creations_eq_zero (hhdr : Frame.decodeHeader d = .ok hdr) {es : List (Event F)}
    (hseen : s.mgr.FirstSeen hdr.sessionID hdr.seq)
    (hkeep : Run.Along (step env) (KeepsWindow hdr.sessionID) s es) : creations env d s es = 0 := by
  induction es generalizing s with
  | nil => rfl
  | cons e es ih =>
    rw [creations, ih (firstSeen_step hseen hkeep.1) hkeep.2, Nat.add_zero]
    split
    · next he =>
      rcases countP_isPut_step he hhdr with h | ⟨-, hnew, -⟩
      · exact h
      · exact absurd hseen hnew
    · rfl

/-- **Copies of one handshake create at most one session**, in every run that neither
drops nor evicts its handshake window. -/
theorem first_creates_once (s : Server F RS P) (es : List (Event F))
    (hhdr : Frame.decodeHeader d = .ok hdr)
    (hkeep : Run.Along (step env) (KeepsWindow hdr.sessionID) s es) : creations env d s es ≤ 1 := by
  induction es generalizing s with
  | nil => exact Nat.zero_le 1
  | cons e es ih =>
    rw [creations]
    split
    · next he =>
      rcases countP_isPut_step he hhdr with h | ⟨h, -, hseen⟩
      · rw [h, Nat.zero_add]
        exact ih _ hkeep.2
      · rw [h, creations_eq_zero hhdr hseen hkeep.2]
    · rw [Nat.zero_add]
      exact ih _ hkeep.2

/-! ### A handshake replayed -/

def capturedFirst : Bytes :=
  smallDatagram smallBaseAEAD .clientToServer (smallFirst 7 1 (smallKey 1))

/-- The delivery of the captured handshake at a given time; the server's key is
fresh. -/
def deliverFirst (now : Time) (b : UInt8) : Event ℚ :=
  .datagram now (smallFresh (smallKey b)) smallAddr capturedFirst

set_option maxRecDepth 2000

/-- Within five minutes, with a sweep in between, a replay is refused. -/
theorem first_creates_once_small : creations smallServerEnv capturedFirst smallServer
      [deliverFirst 0 2, .expireFirsts minute, .expire (6 * minute), deliverFirst (6 * minute) 3] ≤
        1 := by
  have hhdr : Frame.decodeHeader capturedFirst =
      .ok { smallFirst 7 1 (smallKey 1) with version := protocolVersion, payload := [] } := by
    decide
  refine first_creates_once smallServer _ hhdr ⟨?_, ?_, trivial, ?_, trivial⟩
  · intro hdr _
    exact .inr (.inl (by decide))
  · intro fw hfw
    have hcreated : ((smallServer.step smallServerEnv
        (deliverFirst 0 2)).1.mgr.firstWindows.lookup 7).map FirstWindow.created = some 0 := by
      with_unfolding_all decide
    have hlook : (smallServer.step smallServerEnv
        (deliverFirst 0 2)).1.mgr.firstWindows.lookup 7 = some fw := hfw
    rw [hlook, Option.map_some, Option.some_inj] at hcreated
    rw [hcreated]
    decide
  · intro hdr _
    exact .inr (.inl (by with_unfolding_all decide))

/-- **A replay after six minutes of silence creates the session again**: the sweep has
dropped both the session and the handshake window. -/
theorem first_creates_twice : creations smallServerEnv capturedFirst smallServer
      [deliverFirst 0 2, .expire (6 * minute), .expireFirsts (6 * minute),
        deliverFirst (6 * minute) 3] = 2 := by
  with_unfolding_all decide

end Server

end FlexBraid
