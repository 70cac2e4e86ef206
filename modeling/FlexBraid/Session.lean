import FlexBraid.Crypto.Keys
import FlexBraid.Crypto.Replay
import FlexBraid.Fec.Encoder
import FlexBraid.Lib.GoMap

/-!
# Sessions

A session is named by a random 64-bit number that the client chooses, not by the
client's address, so it survives a change of uplink.  The server keeps its
sessions in a table, next to a table of replay windows for handshakes of sessions
that do not exist yet.

The sequence counters are 32 bits wide; the model counts the calls of `NextSeq`,
and what goes on the wire is the count modulo 2³².  The clock readings a call
takes are arguments of the call.

## Main definitions

* `ClientSession`, `ServerSession` — the two ends of a session.
* `Manager` — the session table and the handshake windows.
* `Manager.checkFirstReplay`, `Manager.expire`, `Manager.expireFirsts` — the replay
  check of a handshake and the two sweeps.

## Main results

* `Manager.FirstSeen.refused` — **a handshake that was seen is refused.**
-/

namespace FlexBraid

/-- A UDP address. -/
structure UDPAddr where
  host : String
  port : ℕ
deriving DecidableEq, Repr

/-- The text of an address, by which paths are named. -/
def UDPAddr.toText (a : UDPAddr) : String := a.host ++ ":" ++ toString a.port

/-- The source of a datagram: a UDP address, or that of another transport. -/
inductive Addr where
  | udp (a : UDPAddr)
  | other
deriving DecidableEq, Repr

/-- The sequence number that goes on the wire as the `n`th of its counter. -/
def wireSeq (n : ℕ) : UInt32 := UInt32.ofNat n

theorem toNat_wireSeq {n : ℕ} (h : n < 2 ^ 32) : (wireSeq n).toNat = n := by
  rw [wireSeq, UInt32.toNat_ofNat']
  exact Nat.mod_eq_of_lt h

/-! ### The client's end -/

structure ClientSession where
  id : UInt64
  /-- How often `NextSeq` was called. -/
  seq : ℕ := 0
  /-- The window for frames from the server. -/
  replay : ReplayWindow
  /-- The address of the inner peer. -/
  wgAddr : Option UDPAddr := none

/-- A client's end with the given name. -/
def newClientWithID (id : UInt64) : ClientSession :=
  { id := id, replay := ReplayWindow.new defaultReplayWindow }

/-! ### The server's end -/

structure ServerSession (F : Type) {C : Type} (RS : ReedSolomon C) (P : Primitives) where
  id : UInt64
  /-- The session key. -/
  aead : AEAD P
  /-- The encoder for frames to the client. -/
  enc : Encoder F RS
  /-- How often `NextSeq` was called. -/
  seq : ℕ := 0
  /-- The window for frames from the client. -/
  replay : ReplayWindow
  /-- The server's ephemeral public key, which every acknowledgement repeats. -/
  serverPub : Bytes
  /-- The return address of each path. -/
  endpoints : GoMap String UDPAddr := ∅
  /-- When the last authentic frame came in. -/
  lastSeen : Time

/-- A server's end; it counts as seen now. -/
def newServerSession {F C : Type} {RS : ReedSolomon C} {P : Primitives} (now : Time) (id : UInt64)
    (aead : AEAD P) (enc : Encoder F RS) (serverPub : Bytes) : ServerSession F RS P :=
  { id := id, aead := aead, enc := enc, replay := ReplayWindow.new defaultReplayWindow
    serverPub := serverPub, lastSeen := now }

/-! ### The table of sessions -/

/-- The replay window for the handshakes of one session that does not exist yet. -/
structure FirstWindow where
  win : ReplayWindow
  created : Time

/-- The largest number of handshake windows. -/
def maxFirstWindows : ℕ := 4096

/-- The sessions of a server, each under its own name, and its handshake windows. -/
structure Manager (F : Type) {C : Type} (RS : ReedSolomon C) (P : Primitives) where
  sessions : GoMap UInt64 (ServerSession F RS P)
  firstWindows : GoMap UInt64 FirstWindow
  named : ∀ id s, sessions.lookup id = some s → s.id = id

section
variable {F C : Type} {RS : ReedSolomon C} {P : Primitives}

/-- A table without sessions. -/
def newManager : Manager F RS P := ⟨∅, ∅, fun _ _ h => by cases h⟩

namespace Manager

/-- The session with the given name. -/
def get (m : Manager F RS P) (id : UInt64) : Option (ServerSession F RS P) := m.sessions.lookup id

/-- Store a session. -/
def put (m : Manager F RS P) (s : ServerSession F RS P) : Manager F RS P :=
  { m with
    sessions := m.sessions.set s.id s
    named := by
      intro id s' h
      rw [AList.lookup_set] at h
      split at h
      · next hid =>
        cases h
        exact hid.symm
      · exact m.named id s' h }

/-- The number of sessions. -/
def count (m : Manager F RS P) : ℕ := m.sessions.size

/-- One entry in the search for the oldest window. -/
def olderOf (windows : GoMap UInt64 FirstWindow) (acc : UInt64 × Option Time) (id : UInt64) :
    UInt64 × Option Time :=
  match windows.lookup id, acc.2 with
  | none, _ => acc
  | some fw, none => (id, some fw.created)
  | some fw, some t => if fw.created < t then (id, some fw.created) else acc

/-- The oldest handshake window, for an order in which the table is searched. -/
def oldestFirst (m : Manager F RS P) (σ : IterOrder UInt64) : UInt64 :=
  ((σ.visit m.firstWindows.keys).foldl (olderOf m.firstWindows) (0, none)).1

/-- The windows after making room for a new one. -/
def makeRoom (m : Manager F RS P) (σ : IterOrder UInt64) : GoMap UInt64 FirstWindow :=
  if m.firstWindows.size ≥ maxFirstWindows then m.firstWindows.erase (m.oldestFirst σ)
  else m.firstWindows

/-- Check the number of a handshake for a session that does not exist, opening its
window on first sight. -/
def checkFirstReplay (m : Manager F RS P) (σ : IterOrder UInt64) (now : Time) (id : UInt64)
    (seq : UInt32) : Manager F RS P × Bool :=
  let windows := if (m.firstWindows.lookup id).isSome then m.firstWindows else m.makeRoom σ
  let fw := (m.firstWindows.lookup id).getD ⟨ReplayWindow.new defaultReplayWindow, now⟩
  let r := fw.win.checkAndMark seq
  ({ m with firstWindows := windows.set id { fw with win := r.1 } }, r.2)

/-- Drop the handshake windows older than `ttl`. -/
def expireFirsts (m : Manager F RS P) (now : Time) (ttl : Duration) : Manager F RS P :=
  { m with firstWindows := m.firstWindows.keep fun _ fw => decide (now - ttl ≤ fw.created) }

/-- Whether a session has been idle for longer than `ttl`. -/
def idle (now : Time) (ttl : Duration) (s : ServerSession F RS P) : Bool :=
  decide (s.lastSeen < now - ttl)

/-- Drop the sessions that have been idle for longer than `ttl`; their names are
returned. -/
def expire (m : Manager F RS P) (now : Time) (ttl : Duration) : Manager F RS P × List UInt64 :=
  ({ m with
      sessions := m.sessions.keep fun _ s => !idle now ttl s
      named := by
        intro id s h
        rw [AList.lookup_keep, Option.filter_eq_some_iff] at h
        exact m.named id s h.1 },
    m.sessions.keys.filter fun id => (m.sessions.lookup id).any (idle now ttl))

/-! ### What the operations do to one entry -/

@[simp] theorem get_put (m : Manager F RS P) (s : ServerSession F RS P) (id : UInt64) :
    (m.put s).get id = if id = s.id then some s else m.get id :=
  AList.lookup_set _ _ _ _

variable {m : Manager F RS P} {s : ServerSession F RS P} {id : UInt64}

theorem count_put_of_get {t : ServerSession F RS P} (h : m.get s.id = some t) :
    (m.put s).count = m.count := by
  have hmem : s.id ∈ m.sessions := by
    rw [← AList.lookup_isSome]
    exact Option.isSome_of_eq_some h
  exact AList.size_set_of_mem hmem s

theorem count_put_of_none (h : m.get s.id = none) : (m.put s).count = m.count + 1 :=
  AList.size_set_of_not_mem (AList.lookup_eq_none.mp h) s

theorem get_self (h : m.get id = some s) : m.get s.id = some s := by
  rw [m.named _ _ h, h]

theorem put_of_get (h : m.get s.id = some s) : m.put s = m := by
  have hset : m.sessions.set s.id s = m.sessions := AList.set_of_lookup h
  cases m
  simpa only [put, Manager.mk.injEq, and_true] using hset

theorem lookup_expireFirsts (m : Manager F RS P) (now : Time) (ttl : Duration) (id : UInt64) :
    (m.expireFirsts now ttl).firstWindows.lookup id =
      (m.firstWindows.lookup id).filter fun fw => decide (now - ttl ≤ fw.created) :=
  AList.lookup_keep _ _ _

theorem get_expire (m : Manager F RS P) (now : Time) (ttl : Duration) (id : UInt64) :
    (m.expire now ttl).1.get id = (m.get id).filter fun s => !idle now ttl s :=
  AList.lookup_keep _ _ _

/-! ### The number of handshake windows -/

theorem olderOf_mem {windows : GoMap UInt64 FirstWindow} {acc : UInt64 × Option Time}
    (hid : id ∈ windows) (hacc : acc.2.isSome → acc.1 ∈ windows) :
    (olderOf windows acc id).2.isSome ∧ (olderOf windows acc id).1 ∈ windows := by
  obtain ⟨fw, hfw⟩ := Option.isSome_iff_exists.mp (AList.lookup_isSome.mpr hid)
  unfold olderOf
  rw [hfw]
  split
  · next h => cases h
  · exact ⟨rfl, hid⟩
  · next h hsome =>
    split
    · exact ⟨rfl, hid⟩
    · rw [hsome]
      exact ⟨rfl, hacc (by rw [hsome]; rfl)⟩

theorem oldestFirst_mem (h : 0 < m.firstWindows.size) (σ : IterOrder UInt64) :
    m.oldestFirst σ ∈ m.firstWindows := by
  have hvisit : ∀ id ∈ σ.visit m.firstWindows.keys, id ∈ m.firstWindows := fun id hid =>
    AList.mem_keys.mpr (σ.mem_visit.mp hid)
  have hfold : ∀ (ids : List UInt64), (∀ id ∈ ids, id ∈ m.firstWindows) →
      ∀ acc : UInt64 × Option Time, acc.2.isSome ∧ acc.1 ∈ m.firstWindows →
        (ids.foldl (olderOf m.firstWindows) acc).1 ∈ m.firstWindows := by
    intro ids
    induction ids with
    | nil => exact fun _ acc hacc => hacc.2
    | cons id ids ih =>
      intro hids acc hacc
      obtain ⟨hid, hrest⟩ := List.forall_mem_cons.mp hids
      exact ih hrest _ (olderOf_mem hid fun _ => hacc.2)
  rw [oldestFirst]
  cases hids : σ.visit m.firstWindows.keys with
  | nil =>
    have hempty : m.firstWindows.keys = [] := by
      refine List.eq_nil_iff_forall_not_mem.mpr fun id hid => ?_
      have hmem := σ.mem_visit.mpr hid
      rw [hids] at hmem
      cases hmem
    rw [AList.size, hempty] at h
    cases h
  | cons id ids =>
    rw [hids] at hvisit
    obtain ⟨hid, hrest⟩ := List.forall_mem_cons.mp hvisit
    exact hfold ids hrest _ (olderOf_mem hid fun hnone => by cases hnone)

theorem size_makeRoom (h : m.firstWindows.size ≤ maxFirstWindows) (σ : IterOrder UInt64) :
    (m.makeRoom σ).size < maxFirstWindows := by
  rw [makeRoom]
  split
  · next hfull =>
    have hpos : 0 < m.firstWindows.size := lt_of_lt_of_le (by decide) hfull
    have herase := AList.size_erase_of_mem (oldestFirst_mem hpos σ)
    omega
  · next hroom => exact not_le.mp hroom

/-- **The table of handshake windows stays within its bound.** -/
theorem size_checkFirstReplay (h : m.firstWindows.size ≤ maxFirstWindows) (σ : IterOrder UInt64)
    (now : Time) (id : UInt64) (seq : UInt32) :
    (m.checkFirstReplay σ now id seq).1.firstWindows.size ≤ maxFirstWindows := by
  rw [checkFirstReplay]
  dsimp only
  split
  · next hsome =>
    rw [AList.size_set_of_mem (AList.lookup_isSome.mp hsome)]
    exact h
  · by_cases hmem : id ∈ m.makeRoom σ
    · rw [AList.size_set_of_mem hmem]
      exact (size_makeRoom h σ).le
    · rw [AList.size_set_of_not_mem hmem]
      exact size_makeRoom h σ

/-! ### The handshake windows -/

/-- A handshake touches its own window, and at most one more: the oldest, when the
table is full and its own window is new. -/
theorem lookup_checkFirstReplay (m : Manager F RS P) (σ : IterOrder UInt64) (now : Time)
    (id : UInt64) (seq : UInt32) {id' : UInt64} (hne : id' ≠ id)
    (hkept : (m.firstWindows.lookup id).isSome ∨ m.firstWindows.size < maxFirstWindows ∨
      id' ≠ m.oldestFirst σ) :
    (m.checkFirstReplay σ now id seq).1.firstWindows.lookup id' = m.firstWindows.lookup id' := by
  rw [checkFirstReplay]
  dsimp only
  rw [AList.lookup_set, if_neg hne]
  split
  · rfl
  · next hnew =>
    rw [makeRoom]
    split
    · next hfull =>
      rw [AList.lookup_erase_eq, if_neg]
      rcases hkept with h | h | h
      · exact absurd h hnew
      · exact absurd hfull (not_le.mpr h)
      · exact h
    · rfl

theorem lookup_checkFirstReplay_self (m : Manager F RS P) (σ : IterOrder UInt64) (now : Time)
    (id : UInt64) (seq : UInt32) :
    let fw := (m.firstWindows.lookup id).getD ⟨ReplayWindow.new defaultReplayWindow, now⟩
    (m.checkFirstReplay σ now id seq).1.firstWindows.lookup id =
        some { fw with win := (fw.win.checkAndMark seq).1 } ∧
      (m.checkFirstReplay σ now id seq).2 = (fw.win.checkAndMark seq).2 := by
  refine ⟨?_, rfl⟩
  rw [checkFirstReplay]
  dsimp only
  rw [AList.lookup_set, if_pos rfl]

/-- The handshake window of a session has seen a number. -/
def FirstSeen (m : Manager F RS P) (id : UInt64) (seq : UInt32) : Prop :=
  ∃ fw, m.firstWindows.lookup id = some fw ∧ fw.win.seen seq = true

theorem firstSeen_checkFirstReplay (m : Manager F RS P) (σ : IterOrder UInt64) (now : Time)
    (id : UInt64) (seq : UInt32) : (m.checkFirstReplay σ now id seq).1.FirstSeen id seq := by
  obtain ⟨hl, -⟩ := m.lookup_checkFirstReplay_self σ now id seq
  exact ⟨_, hl, ReplayWindow.seen_checkAndMark_self _ seq⟩

/-- **A handshake that was seen is refused.** -/
theorem FirstSeen.refused {seq : UInt32} (h : m.FirstSeen id seq) (σ : IterOrder UInt64)
    (now : Time) : (m.checkFirstReplay σ now id seq).2 = false := by
  obtain ⟨fw, hl, hseen⟩ := h
  obtain ⟨-, hr⟩ := m.lookup_checkFirstReplay_self σ now id seq
  rw [hr, hl, Option.getD_some, ReplayWindow.checkAndMark_of_seen hseen]

/-- Other handshakes do not make a window forget, unless it is evicted. -/
theorem FirstSeen.checkFirstReplay {seq : UInt32} (h : m.FirstSeen id seq) (σ : IterOrder UInt64)
    (now : Time) (id' : UInt64) (seq' : UInt32)
    (hkept : (m.firstWindows.lookup id').isSome ∨ m.firstWindows.size < maxFirstWindows ∨
      id ≠ m.oldestFirst σ) : (m.checkFirstReplay σ now id' seq').1.FirstSeen id seq := by
  obtain ⟨fw, hl, hseen⟩ := h
  by_cases hid : id = id'
  · subst hid
    obtain ⟨hl', -⟩ := m.lookup_checkFirstReplay_self σ now id seq'
    rw [hl, Option.getD_some] at hl'
    exact ⟨_, hl', ReplayWindow.seen_checkAndMark hseen seq'⟩
  · exact ⟨fw, by rw [m.lookup_checkFirstReplay σ now id' seq' hid hkept, hl], hseen⟩

end Manager

end

end FlexBraid
