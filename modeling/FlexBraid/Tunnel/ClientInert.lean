import FlexBraid.Lib.Passive
import FlexBraid.Tunnel.FrozenCodecs

/-!
# Datagrams that do nothing at the client

A receiver of the client that takes up a forged datagram, or a copy of one that the client has
processed, should go through its turn without a trace.  Its actions come between those of the other
goroutines, so this compares two runs: one with the turn, and one without it.

Three things last for the whole life of a client: the name of its session, the session key once it
is published, and the numbers in its window.  A receiver that has processed a datagram knows one of
them from which every later turn with a copy follows to be passive: the name, if the datagram is for
another session; the key, if the datagram does not open under it; its number otherwise.

Acknowledgements of the key exchange are the exception.  They do not pass through the window, and a
copy that finds the key published is taken for a sign of life of its path.

## Main definitions

* `Client.Later`, `Client.Fact` — what no action takes back, and properties that last.
* `Client.Knows` — the goroutines own facts.
* `Client.Deaf` — a turn with a datagram does nothing where a fact holds.
* `Client.Forged`, `Client.Processed` — the two kinds of injected datagrams.

## Main results

* `Client.owns_recv_knows` — **who has processed a datagram is deaf to it.**
* `Client.injected_turn_inert` — **forged and replayed datagrams are inert** wherever they are
  inserted, unless they are acknowledgements of the key exchange.
* `Client.replayed_ack_noticed` — a copied acknowledgement hides that its path is silent.
-/

namespace FlexBraid

namespace Client

open Prog

section
variable {F C : Type} {RS : ReedSolomon C} {P : Primitives} {c c' : Client F RS P}

/-! ### What lasts -/

/-- What no action takes back: the name of the session, the key once it is published, and the
numbers in the window. -/
structure Later (c c' : Client F RS P) : Prop where
  id : c'.sess.id = c.sess.id
  key : ∀ a, c.sessAEAD = some a → c'.sessAEAD = some a
  seen : ∀ seq, c.sess.replay.seen seq = true → c'.sess.replay.seen seq = true

theorem Later.of_eq (hsess : c'.sess = c.sess) (hkey : c'.sessAEAD = c.sessAEAD) : Later c c' :=
  ⟨by rw [hsess], fun a ha => by rw [hkey, ha], fun seq hseq => by rw [hsess, hseq]⟩

theorem composes_later :
    Composes fun (c : Client F RS P) (_ : List (ClientOut P)) c' => Later c c' where
  nil _ := .of_eq rfl rfl
  append h h' := ⟨h'.id.trans h.id, fun a ha => h'.key a (h.key a ha),
    fun seq hseq => h'.seen seq (h.seen seq hseq)⟩

theorem Still.later (h : c.Still c') : Later c c' := by
  refine ⟨h.id, fun a ha => by rw [h.sessAEAD, ha], fun seq hseq => ?_⟩
  rcases h.replay with hsame | ⟨s, hmark⟩
  · rw [hsame, hseq]
  · rw [hmark, ReplayWindow.seen_checkAndMark hseq s]

theorem sendActions_later :
    SendActions fun (c : Client F RS P) (_ : List (ClientOut P)) c' => Later c c' where
  composes := composes_later
  calm h := h.toStill.later
  number _ := ⟨rfl, fun _ ha => ha, fun _ hseq => hseq⟩
  send _ _ _ _ _ := .of_eq rfl rfl

theorem keeps_useEnc_later (slot : Option ℕ) (call : Encoder F RS → Encoder F RS × List Frame) :
    (useEnc slot call : CliProg RS F P (List Frame)).Keeps fun c _ c' => Later c c' := by
  refine keeps_atomic fun c => ?_
  split <;> exact .of_eq rfl rfl

/-- A property of clients that lasts. -/
structure Fact (F : Type) {C : Type} (RS : ReedSolomon C) (P : Primitives) where
  holds : Client F RS P → Prop
  lasts : ∀ {c c' : Client F RS P}, Later c c' → holds c → holds c'

/-- The name of the session. -/
def Fact.named (id : UInt64) : Fact F RS P := ⟨fun c => c.sess.id = id, fun h hid => h.id.trans hid⟩

def Fact.published : Fact F RS P :=
  ⟨fun c => ∃ a, c.sessAEAD = some a, fun h ⟨a, ha⟩ => ⟨a, h.key a ha⟩⟩

def Fact.key (a : AEAD P) : Fact F RS P := ⟨fun c => c.sessAEAD = some a, fun h => h.key a⟩

/-- A number that the window rejects. -/
def Fact.marked (seq : UInt32) : Fact F RS P :=
  ⟨fun c => c.sess.replay.seen seq = true, fun h => h.seen seq⟩

/-- The facts that are owned hold. -/
def Knows (c : Client F RS P) (_ : List (ClientOut P)) (m : Multiset (Fact F RS P)) : Prop :=
  ∀ K ∈ m, K.holds c

variable {m : Multiset (Fact F RS P)}

theorem knows_later (c : Client F RS P) (o : List (ClientOut P)) (c' : Client F RS P)
    (out : List (ClientOut P)) (m : Multiset (Fact F RS P)) (h : Later c c')
    (hknows : c.Knows out m) : c'.Knows (out ++ o) m :=
  fun K hK => K.lasts h (hknows K hK)

theorem owns_learn {α : Type} {f : Client F RS P → α} {Q : α → Multiset (Fact F RS P) → Prop}
    (h : ∀ c, c.Knows [] m → ∃ K : Fact F RS P, K.holds c ∧ Q (f c) (K ::ₘ m)) :
    Owns Knows Q (Prog.read f : CliProg RS F P α) m := by
  refine owns_atomic fun c out others hknows => ?_
  obtain ⟨K, hK, hQ⟩ := h c fun K hK => hknows K (Multiset.mem_add.mpr (.inl hK))
  refine ⟨K ::ₘ m, fun K' hK' => ?_, hQ⟩
  rw [Multiset.cons_add] at hK'
  rcases Multiset.mem_cons.mp hK' with rfl | hK'
  · exact hK
  · exact hknows K' hK'

end

variable {F C : Type} [Float64 F] {RS : ReedSolomon C} {P : Primitives} (env : ClientEnv F P)
  {m : Multiset (Fact F RS P)} {d : Bytes} {hdr : Frame}

theorem recvActions_later :
    RecvActions env fun (c : Client F RS P) (_ : List (ClientOut P)) c' => Later c c' where
  composes := composes_later
  still h := h.later
  adopt c data := by
    have hadopted := adopted_applyAnnounce env c data
    exact .of_eq hadopted.sess hadopted.sessAEAD
  publish c _ hnone := by
    refine ⟨rfl, fun a ha => ?_, fun _ hseq => hseq⟩
    rw [hnone] at ha
    cases ha
  pushed _ _ _ _ := .of_eq rfl rfl
  skipped _ _ _ := .of_eq rfl rfl
  write _ _ _ := .of_eq rfl rfl

theorem sendRules_knows :
    SendRules env (Knows : Client F RS P → _) (fun _ => 0) (fun _ => 0) fun _ => 0 :=
  sendActions_later.sendRules knows_later
    (fun slot _ => owns_of_keeps knows_later (keeps_useEnc_later slot _) 0)
    fun slot _ _ => owns_true_of_keeps knows_later (keeps_useEnc_later slot _) 0

theorem recvRules_knows : RecvRules env (Knows : Client F RS P → _) fun _ => True :=
  (recvActions_later env).recvRules knows_later

/-- **Every turn keeps the facts.** -/
theorem owns_body_knows (call : Call F) :
    Owns Knows (fun _ _ => True) (body env call : CliProg RS F P Unit) 0 := by
  have hbrings : call.Brings fun _ => True := by cases call <;> trivial
  refine ((sendRules_knows env).slotRules ?_).owns_body (recvRules_knows env) call hbrings
  intro slot now start id seq payload
  refine (owns_of_keeps knows_later (keeps_useEnc_later slot _) 0).mono ?_
  rintro frames m rfl
  rw [List.map_const', List.sum_replicate, nsmul_zero]

/-! ### Turns that do nothing -/

/-- No frame comes out of the datagram under the key. -/
def Unreadable (a : AEAD P) (d : Bytes) : Prop :=
  ∀ plain f, a.openFrame .serverToClient d = .ok plain → Frame.decode plain ≠ .ok f

/-- A turn with the datagram does nothing where the fact holds. -/
def Deaf (d : Bytes) (K : Fact F RS P) : Prop :=
  ∀ i now τ, (recv env i now τ d : CliProg RS F P Unit).Passive K.holds fun _ => True

/-- A fact is known for which a turn with the datagram does nothing. -/
def Answered (d : Bytes) (m : Multiset (Fact F RS P)) : Prop := ∃ K ∈ m, Deaf env d K

section
variable {K : Client F RS P → Prop}

section
omit [Float64 F]

theorem verify_of_unreadable {a : AEAD P} (h : Unreadable a d) :
    (verify a d : CliProg RS F P (Option Frame)) = pure none := by
  rw [verify]
  split
  · rfl
  · next plain hopen =>
    split
    · rfl
    · next f hf => exact absurd hf (h plain f hopen)

theorem seq_of_openFrame {a : AEAD P} {plain : Bytes} {f : Frame}
    (hhdr : Frame.decodeHeader d = .ok hdr) (hopen : a.openFrame .serverToClient d = .ok plain)
    (hf : Frame.decode plain = .ok f) : f.seq = hdr.seq := by
  obtain ⟨g, hg, -, -, hseq, -⟩ := Frame.decodeHeader_of_decode hf
  rw [AEAD.decodeHeader_openFrame hopen, hhdr] at hg
  cases hg
  exact hseq.symm

theorem passive_foreign (hdr : Frame) (d : Bytes) (hK : ∀ c, K c → hdr.sessionID ≠ c.sess.id) :
    (openAndVerify hdr d : CliProg RS F P (Option Frame)).Passive K (· = none) := by
  refine (passive_read hK).bind fun id hid => ?_
  rw [if_pos hid]
  exact passive_pure rfl

theorem passive_unreadable (hdr : Frame)
    (hK : ∀ c, K c → ∀ a, c.sessAEAD = some a → Unreadable a d) :
    (openAndVerify hdr d : CliProg RS F P (Option Frame)).Passive K (· = none) := by
  refine (passive_look _).bind fun id _ => ?_
  split
  · exact passive_pure rfl
  · have hkey : (getSessionAEAD : CliProg RS F P (Option (AEAD P))).Passive K fun aead =>
        ∀ a, aead = some a → Unreadable a d := passive_read hK
    refine hkey.bind fun aead haead => ?_
    split
    · exact passive_pure rfl
    · next a =>
      rw [verify_of_unreadable (haead a rfl)]
      exact passive_pure rfl

theorem passive_marked (hhdr : Frame.decodeHeader d = .ok hdr)
    (hK : ∀ c, K c → c.sess.replay.seen hdr.seq = true) :
    (openAndVerify hdr d : CliProg RS F P (Option Frame)).Passive K (· = none) := by
  refine (passive_look _).bind fun id _ => ?_
  split
  · exact passive_pure rfl
  · refine (passive_look _).bind fun aead _ => ?_
    split
    · exact passive_pure rfl
    · next a =>
      rw [verify]
      split
      · exact passive_pure rfl
      · next plain hopen =>
        split
        · exact passive_pure rfl
        · next f hf =>
          rw [seq_of_openFrame hhdr hopen hf]
          have hcheck : (checkReplay hdr.seq : CliProg RS F P Bool).Passive K (· = false) := by
            refine passive_atomic fun c hc => ?_
            rw [ReplayWindow.checkAndMark_of_seen (hK c hc)]
            exact ⟨rfl, rfl⟩
          refine hcheck.bind ?_
          rintro _ rfl
          exact passive_pure rfl

theorem passive_recvFrame
    (h : (openAndVerify hdr d : CliProg RS F P (Option Frame)).Passive K (· = none)) (i : ℕ)
    (now : Time) (τ : IterOrder UInt32) :
    (recvFrame i now τ hdr d : CliProg RS F P Unit).Passive K fun _ => True := by
  refine h.bind ?_
  rintro _ rfl
  exact passive_pure trivial

end

end

theorem deaf_of_dropped {K : Fact F RS P} (hack : isAck d = false)
    (h : ∀ hdr, Frame.decodeHeader d = .ok hdr →
      (openAndVerify hdr d : CliProg RS F P (Option Frame)).Passive K.holds (· = none)) :
    Deaf env d K := by
  intro i now τ
  rw [recv]
  split
  · exact passive_pure trivial
  · next hdr hhdr =>
    have hkex : hdr.hasFlag flagKex = false := by
      rw [isAck, hhdr] at hack
      exact hack
    refine (passive_look _).bind fun id _ => ?_
    rw [hkex, Bool.and_false, if_neg Bool.false_ne_true]
    exact passive_recvFrame (h hdr hhdr) i now τ

/-! ### Datagrams that were processed -/

omit [Float64 F] in
theorem owns_openAndVerify_knows (hhdr : Frame.decodeHeader d = .ok hdr) :
    Owns Knows (fun _ m => ∃ K ∈ m,
        (openAndVerify hdr d : CliProg RS F P (Option Frame)).Passive K.holds (· = none))
      (openAndVerify hdr d : CliProg RS F P (Option Frame)) {.published} := by
  have hid : Owns Knows (fun id m => m = {.named id, .published})
      (Prog.read (·.sess.id) : CliProg RS F P UInt64) {.published} :=
    owns_learn fun c _ => ⟨.named c.sess.id, rfl, rfl⟩
  refine hid.bind ?_
  rintro id _ rfl
  split
  · next hforeign =>
    refine owns_pure ⟨.named id, Multiset.mem_cons_self _ _, passive_foreign hdr d fun c hc => ?_⟩
    rwa [show c.sess.id = id from hc]
  · have hkey : Owns Knows (fun aead m => ∃ a, aead = some a ∧ m = {.key a, .named id, .published})
        (getSessionAEAD : CliProg RS F P (Option (AEAD P))) {.named id, .published} := by
      refine owns_learn fun c hknows => ?_
      obtain ⟨a, ha⟩ := hknows .published (by simp)
      exact ⟨.key a, ha, a, ha, rfl⟩
    refine hkey.bind ?_
    rintro _ _ ⟨a, rfl, rfl⟩
    by_cases hread : Unreadable a d
    · dsimp only
      rw [verify_of_unreadable hread]
      -- the key stays, so a copy will not be readable either
      have hpassive : (openAndVerify hdr d : CliProg RS F P (Option Frame)).Passive
          (Fact.key a).holds (· = none) := by
        refine passive_unreadable hdr fun c hc a' ha' => ?_
        rw [show c.sessAEAD = some a from hc] at ha'
        cases ha'
        exact hread
      exact owns_pure ⟨.key a, Multiset.mem_cons_self _ _, hpassive⟩
    · obtain ⟨plain, f, hopen, hf⟩ : ∃ plain f, a.openFrame .serverToClient d = .ok plain ∧
          Frame.decode plain = .ok f := by
        simpa only [Unreadable, not_forall, ne_eq, not_not, exists_prop] using hread
      have hseq := seq_of_openFrame hhdr hopen hf
      simp only [verify, hopen, hf]
      -- whether the number is new or not, the window rejects it from now on
      have hcheck : Owns Knows (fun _ m => Fact.marked hdr.seq ∈ m)
          (checkReplay f.seq : CliProg RS F P Bool) {.key a, .named id, .published} := by
        refine owns_atomic fun c out others hknows => ?_
        refine ⟨{.marked hdr.seq, .key a, .named id, .published}, fun K hK => ?_,
          Multiset.mem_cons_self _ _⟩
        have hlater : Later c { c with
            sess := { c.sess with replay := (c.sess.replay.checkAndMark f.seq).1 } } :=
          ⟨rfl, fun _ ha => ha, fun _ hs => ReplayWindow.seen_checkAndMark hs f.seq⟩
        rcases Multiset.mem_add.mp hK with hK | hK
        · rcases Multiset.mem_cons.mp hK with rfl | hK
          · exact hseq ▸ ReplayWindow.seen_checkAndMark_self c.sess.replay f.seq
          · exact K.lasts hlater (hknows K (Multiset.mem_add.mpr (.inl hK)))
        · exact K.lasts hlater (hknows K (Multiset.mem_add.mpr (.inr hK)))
      refine hcheck.bind fun fresh m hm => owns_pure ?_
      exact ⟨.marked hdr.seq, hm, passive_marked hhdr fun c hc => hc⟩

/-- **Who has processed a datagram is deaf to it.**  A receiver that takes it up when a key is
published knows a fact, when its turn has ended, for which a turn with a copy does nothing. -/
theorem owns_recv_knows (hack : isAck d = false) (i : ℕ) (now : Time) (τ : IterOrder UInt32) :
    Owns Knows (fun _ => Answered env d) (recv env i now τ d : CliProg RS F P Unit)
      {.published} := by
  have hrules : RecvRules env (Knows : Client F RS P → _) fun _ => True := recvRules_knows env
  rw [recv]
  split
  · next e he =>
    refine owns_pure ⟨.published, Multiset.mem_singleton_self _, deaf_of_dropped env hack ?_⟩
    intro hdr hhdr
    rw [he] at hhdr
    cases hhdr
  · next hdr hhdr =>
    have hkex : hdr.hasFlag flagKex = false := by
      rw [isAck, hhdr] at hack
      exact hack
    have hdeaf : ∀ K : Fact F RS P,
        (openAndVerify hdr d : CliProg RS F P (Option Frame)).Passive K.holds (· = none) →
          Deaf env d K := by
      intro K hK
      refine deaf_of_dropped env hack fun hdr' hhdr' => ?_
      rw [hhdr] at hhdr'
      cases hhdr'
      exact hK
    refine (hrules.owns_of_quiet (calm_read _).quiet _).bind ?_
    rintro id _ rfl
    rw [hkex, Bool.and_false, if_neg Bool.false_ne_true]
    refine (owns_openAndVerify_knows hhdr).bind ?_
    rintro f m ⟨K, hK, hpassive⟩
    split
    · exact owns_pure ⟨K, hK, hdeaf K hpassive⟩
    · next f =>
      refine (hrules.owns_of_quiet (calm_touch i now).quiet m).bind ?_
      rintro _ m rfl
      -- the fact is not needed for the rest of the turn, and kept
      have hroute := (hrules.owns_route i now τ f).frame m
      rw [zero_add] at hroute
      refine hroute.mono ?_
      rintro _ _ ⟨m₀, rfl, -⟩
      exact ⟨K, Multiset.mem_add.mpr (.inr hK), hdeaf K hpassive⟩

/-! ### Runs -/

variable {T : Type} [DecidableEq T] {es : List (Pool.Event T (Call F))}
  {p : Pool T (Client F RS P) (ClientOut P)} {out : List (ClientOut P)} {K : Fact F RS P}

omit [Float64 F] [DecidableEq T] in
theorem lent_fact {Q : T → Multiset (Fact F RS P) → Prop} (h : Pool.Lent Knows Q 0 p out)
    (hK : K.holds p.state) : Pool.Lent Knows Q {K} p out := by
  refine h.exchange fun m hm K' hK' => ?_
  rcases Multiset.mem_add.mp hK' with hK' | hK'
  · exact hm K' (Multiset.mem_add.mpr (.inl hK'))
  · rwa [Multiset.mem_singleton.mp hK']

theorem lent_run {r : Multiset (Fact F RS P)}
    (h : Pool.Lent Knows (fun _ _ => True) r p out) (es : List (Pool.Event T (Call F))) :
    Pool.Lent Knows (fun _ _ => True) r (Run.exec (step env) p es)
      (out ++ (Run.outputs (step env) p es).flatten) :=
  Pool.lent_exec (fun _ call _ => ⟨rfl, owns_body_knows env call⟩) h

theorem holds_exec (h : Pool.Lent Knows (fun _ _ => True) 0 p out) (hK : K.holds p.state)
    (es : List (Pool.Event T (Call F))) : K.holds (Run.exec (step env) p es).state := by
  obtain ⟨own, hknows, -⟩ := lent_run env (lent_fact h hK) es
  exact hknows K (Multiset.mem_add.mpr (.inr (Multiset.mem_singleton_self K)))

omit [Float64 F] [DecidableEq T] in
theorem lent_idle (c : Client F RS P) :
    Pool.Lent Knows (fun _ _ => True) 0 (Pool.idle c : Pool T _ _) [] :=
  Pool.lent_iff_sound.mpr (Pool.sound_idle fun _ hK => absurd hK (Multiset.notMem_zero _))

theorem exec_crashed (h : p.state.crashed = true) (es : List (Pool.Event T (Call F))) :
    Run.exec (step env) p es = p ∧ (Run.outputs (step env) p es).flatten = [] :=
  Pool.exec_halted h es

/-- No server sealed the datagram, under any key. -/
def Forged (sealedBy : AEAD P → NonceDirection → Bytes → Prop) (d : Bytes) : Prop :=
  ∀ (a : AEAD P) (plain : Bytes), sealedBy a .serverToClient plain →
    a.sealFrame .serverToClient plain ≠ .ok d

/-- The client has processed a datagram: a receiver took it up, and its turn has ended.  The key
was published when it began, or the number of the datagram is in the window since. -/
def Processed (p : Pool T (Client F RS P) (ClientOut P)) (es : List (Pool.Event T (Call F)))
    (d : Bytes) : Prop :=
  ∃ pre t i now τ turn post, es = pre ++ .start t (.recv i now τ d) :: (turn ++ post) ∧
    let before := Run.exec (step env) p pre
    let after := Run.exec (step env) before (.start t (.recv i now τ d) :: turn)
    before.busy t = false ∧ (∀ call, .start t call ∉ turn) ∧ after.busy t = false ∧
      (before.state.sessAEAD ≠ none ∨
        ∃ hdr, Frame.decodeHeader d = .ok hdr ∧ after.state.sess.replay.seen hdr.seq = true)

/-- A turn with a datagram, begun when a key is published. -/
theorem exists_deaf_of_turn {t : T} {i : ℕ} {now : Time} {τ : IterOrder UInt32}
    {turn : List (Pool.Event T (Call F))} (h : Pool.Lent Knows (fun _ _ => True) 0 p out)
    (hcrashed : p.state.crashed = false) (hkey : p.state.sessAEAD ≠ none)
    (hidle : p.busy t = false) (hack : isAck d = false) (hturn : ∀ call, .start t call ∉ turn)
    (hend : (Run.exec (step env) p (.start t (.recv i now τ d) :: turn)).busy t = false) :
    ∃ K : Fact F RS P, Deaf env d K ∧
      K.holds (Run.exec (step env) p (.start t (.recv i now τ d) :: turn)).state := by
  have hpublished : Fact.published.holds p.state := Option.ne_none_iff_exists'.mp hkey
  -- the receiver is lent the fact that a key is published
  have hlent : Pool.Lent Knows (fun _ _ => True) ({.published} + 0) p out := by
    rw [add_zero]
    exact lent_fact h hpublished
  have hbegin := Pool.lent_start (fun _ call => body env call) (c := .recv i now τ d)
    (Answered env d) hlent (owns_recv_knows env hack i now τ)
    (fun m m' ⟨K, hK, hdeaf⟩ => ⟨K, Multiset.mem_add.mpr (.inl hK), hdeaf⟩)
    (Pool.thread_of_not_busy hidle)
  have hstep : step env p (.start t (.recv i now τ d)) =
      Pool.stepEvent (fun _ call => body env call) p (.start t (.recv i now τ d)) :=
    if_neg (by rw [hcrashed]; decide)
  rw [← hstep] at hbegin
  have hothers : ∀ u call, .start u call ∈ turn →
      Function.update (fun _ _ => True) t (Answered env d : Multiset (Fact F RS P) → Prop) u =
          (fun _ => True) ∧
        Owns Knows (fun _ _ => True) (body env call : CliProg RS F P Unit) 0 := by
    intro u call hu
    have hut : u ≠ t := by
      rintro rfl
      exact hturn call hu
    rw [Function.update_of_ne hut]
    exact ⟨rfl, owns_body_knows env call⟩
  obtain ⟨own, hknows, hown⟩ := Pool.lent_exec hothers hbegin
  have ht : Owns Knows (fun _ => Answered env d)
      ((Run.exec (step env) p (.start t (.recv i now τ d) :: turn)).thread t) (own t) := by
    have hthread := hown t
    rwa [Function.update_self] at hthread
  rw [Pool.thread_of_not_busy hend] at ht
  obtain ⟨K, hK, hdeaf⟩ := ht
  refine ⟨K, hdeaf, hknows K ?_⟩
  rw [add_zero, Pool.total_eq own t]
  exact Multiset.mem_add.mpr (.inl hK)

theorem exists_deaf (c : Client F RS P) (hack : isAck d = false)
    (hprocessed : Processed env (Pool.idle c) es d)
    (hcrashed : (Run.exec (step env) (Pool.idle c) es).state.crashed = false) :
    ∃ K : Fact F RS P, Deaf env d K ∧ K.holds (Run.exec (step env) (Pool.idle c) es).state := by
  obtain ⟨pre, t, i, now, τ, turn, post, rfl, hidle, hturn, hend, hkey⟩ := hprocessed
  have hpre := lent_run env (lent_idle c) pre
  have hafter := lent_run env hpre (.start t (.recv i now τ d) :: turn)
  rw [← List.cons_append, Run.exec_append, Run.exec_append] at hcrashed ⊢
  -- a panic before the turn would have ended the run
  have halive : (Run.exec (step env) (Pool.idle c) pre).state.crashed = false := by
    by_contra hpanic
    rw [Bool.not_eq_false] at hpanic
    rw [(exec_crashed env hpanic _).1, (exec_crashed env hpanic _).1, hpanic] at hcrashed
    cases hcrashed
  have hdeaf : ∃ K : Fact F RS P, Deaf env d K ∧ K.holds (Run.exec (step env)
      (Run.exec (step env) (Pool.idle c) pre) (.start t (.recv i now τ d) :: turn)).state := by
    rcases hkey with hkey | ⟨hdr, hhdr, hseen⟩
    · exact exists_deaf_of_turn env hpre halive hkey hidle hack hturn hend
    · refine ⟨.marked hdr.seq, deaf_of_dropped env hack fun hdr' hhdr' => ?_, hseen⟩
      rw [hhdr] at hhdr'
      cases hhdr'
      exact passive_marked hhdr fun c hc => hc
  obtain ⟨K, hdeaf, hK⟩ := hdeaf
  exact ⟨K, hdeaf, holds_exec env hafter hK post⟩

theorem deaf_of_forged {sealedBy : AEAD P → NonceDirection → Bytes → Prop}
    (hideal : AEAD.Unforgeable sealedBy) (hforged : Forged sealedBy d) (K : Fact F RS P) :
    Deaf env d K := by
  have hopen : ∀ (a : AEAD P) (plain : Bytes), a.openFrame .serverToClient d ≠ .ok plain := by
    intro a plain hopen
    obtain ⟨plaintext, hby, hseal⟩ := hideal a _ d plain hopen
    exact hforged a plaintext hby hseal
  have hack : ∀ id, openAck env id d = none := by
    intro id
    rw [openAck]
    split
    · rfl
    · next plain h => exact absurd h (hopen _ plain)
  intro i now τ
  rw [recv]
  split
  · exact passive_pure trivial
  · next hdr hhdr =>
    refine (passive_look _).bind fun id _ => ?_
    split
    · have hkex : (handleKexAck env d : CliProg RS F P Bool).Passive K.holds (· = false) := by
        refine (passive_look _).bind fun id _ => ?_
        rw [hack id]
        exact passive_pure rfl
      refine hkex.bind ?_
      rintro _ rfl
      exact passive_pure trivial
    · exact passive_recvFrame
        (passive_unreadable hdr fun _ _ a _ plain _ h => absurd h (hopen a plain)) i now τ

end Client

/-! ### Datagrams injected into a small run -/

/-- The key exchange of the small client, on its first WAN. -/
def smallEstablished : List (Pool.Event Bool (Client.Call ℚ)) :=
  .start false (.recv 0 0 IterOrder.plain smallCodedAck) :: List.replicate 8 (.sched false)

/-- The session key that the client gets from it. -/
def smallCodedAEAD : AEAD smallPrimitives :=
  (Client.sessionKey smallCodedEnv 5 ((smallKey 9).pub smallPrimitives)).getD smallBaseAEAD

/-- An answer of the server to a probe. -/
def smallAnswer : Bytes :=
  smallDatagram smallCodedAEAD .serverToClient
    { flags := flagPong, sessionID := 5, seq := 1, payload := putUint64 0 }

/-- The same answer with a made-up tag. -/
def forgedAnswer : Bytes := smallAnswer.dropLast ++ [1, 2]

/-- The client processes the answer. -/
def smallProcessing : List (Pool.Event Bool (Client.Call ℚ)) :=
  smallEstablished ++
    .start false (.recv 0 0 IterOrder.plain smallAnswer) :: (List.replicate 8 (.sched false) ++ [])

/-- The actions of the receiver of a copy, and those of another goroutine between them. -/
def smallCopyTurn : List (Pool.Event Bool (Client.Call ℚ)) :=
  [.sched true, .start false (.handshake 0), .sched true, .sched false, .sched true, .sched false,
    .sched true, .sched true]

theorem Client.processed_smallAnswer :
    Processed smallCodedEnv (Pool.idle smallClient) smallProcessing smallAnswer := by
  refine ⟨smallEstablished, false, 0, 0, IterOrder.plain, List.replicate 8 (.sched false), [], rfl,
    ?_, ?_, ?_, .inl ?_⟩
  · decide +kernel
  · intro call hmem
    cases List.eq_of_mem_replicate hmem
  · decide +kernel
  · decide +kernel

/-- After the key exchange the second WAN is probed. -/
def smallProbed : List (Pool.Event Bool (Client.Call ℚ)) :=
  smallEstablished ++ .start true (.keepaliveSend 1 second) :: List.replicate 12 (.sched true)

/-- A copy of the acknowledgement on the second WAN, a minute later. -/
def smallAckCopy : List (Pool.Event Bool (Client.Call ℚ)) :=
  .start false (.recv 1 minute IterOrder.plain smallCodedAck) :: List.replicate 12 (.sched false)

/-- The next turn of the probes of the second WAN. -/
def smallNextProbe : List (Pool.Event Bool (Client.Call ℚ)) :=
  .start true (.keepaliveTick 1 (minute + second)) :: List.replicate 12 (.sched true)

/-- What the probes of a WAN depend on, and what they found. -/
def WanLink.liveness (w : WanLink ℚ) : Time × ℤ × ℚ := (w.lastRx, w.health.misses, w.health.loss)

end FlexBraid
