import FlexBraid.Tunnel.Client

/-!
# New clients, and what an announce changes

A new client has the codecs of its own configuration.  The server announces its
coding parameters with the acknowledgement of the key exchange, and the client
rebuilds its codecs for them.

## Main definitions

* `Encoder.Fresh` — an encoder that was not used yet.
* `Client.SetUp`, `Client.Added` — what setting up the shared codecs and a WAN can do.
* `Client.Initial` — what a new client has.
* `Client.Adopted` — what an announce leaves alone.

## Main results

* `Client.initial_newClient` — new clients have it.
* `Client.adopted_applyAnnounce` — an announce only adds codecs and changes slots.
-/

namespace FlexBraid

variable {F C : Type} [Float64 F] {RS : ReedSolomon C} {P : Primitives}

/-- An encoder that was not used yet. -/
structure Encoder.Fresh (e : Encoder F RS) : Prop where
  pending : e.pending = []
  blocksCoded : e.blocksCoded = 0

theorem fresh_newEncoder {p : Params F} {enc : Encoder F RS} (h : newEncoder RS p = .ok enc) :
    enc.Fresh := by
  rw [newEncoder] at h
  split at h
  · split at h
    · cases h
    · cases h
      exact ⟨rfl, rfl⟩
  · cases h
    exact ⟨rfl, rfl⟩

theorem pending_newEncoder {p : Params F} {enc : Encoder F RS} (h : newEncoder RS p = .ok enc) :
    enc.pending = [] := (fresh_newEncoder h).pending

namespace Client

/-! ### New clients -/

/-- What a new client has, however many codecs its configuration asks for. -/
structure Initial (env : ClientEnv F P) (id : UInt64) (c : Client F RS P) : Prop where
  sess : c.sess = newClientWithID id
  delivery : c.delivery =
    newDeliveryBuffer (env.cfg.delivery.gapTimeoutMS * millisecond) env.cfg.delivery.maxPending
  sessAEAD : c.sessAEAD = none
  crashed : c.crashed = false
  fresh : ∀ e ∈ c.encs, e.Fresh

omit [Float64 F] in
theorem fresh_append {encs : List (Encoder F RS)} {enc : Encoder F RS}
    (h : ∀ e ∈ encs, e.Fresh) (henc : enc.Fresh) : ∀ e ∈ encs ++ [enc], e.Fresh := by
  intro e he
  rcases List.mem_append.mp he with he | he
  · exact h e he
  · rwa [List.mem_singleton.mp he]

/-- What setting up the codecs that all WANs share can do. -/
inductive SetUp (env : ClientEnv F P) (c : Client F RS P) : Client F RS P → Prop
  | perWan (hmode : env.cfg.fec.mode ≠ .crosspath) : SetUp env c c
  | cross (p : Params F) (enc : Encoder F RS) (hmode : env.cfg.fec.mode = .crosspath)
      (hp : fecParamsFor env.cfg env.cfg.wans.head? = .ok p) (henc : newEncoder RS p = .ok enc) :
      SetUp env c
        { c.addCodecs enc p with
          crossPath := true, xenc := some c.encs.length, xdec := some c.decs.length }

variable {c c' : Client F RS P} {id : UInt64}

theorem setUp {env : ClientEnv F P} (h : setUpCross env c = .ok c') : SetUp env c c' := by
  rw [setUpCross] at h
  split at h
  · next hmode =>
    split at h
    · cases h
    · next p hp =>
      split at h
      · cases h
      · next enc henc =>
        cases h
        exact .cross p enc hmode hp henc
  · next hmode =>
    cases h
    exact .perWan hmode

/-- A WAN as it is set up, with the given slots. -/
def freshLink (env : ClientEnv F P) (w : WanConfig F) (p : Params F) (enc dec : Option ℕ) :
    WanLink F where
  cfg := w
  enc := enc
  dec := dec
  health := newMonitor (healthOptions env.cfg.health (fecCompensableLoss p))

/-- What setting up a WAN can do: it is given the shared codecs, or codecs of its own. -/
inductive Added (env : ClientEnv F P) (c : Client F RS P) (w : WanConfig F) :
    Client F RS P → Prop
  | cross (p : Params F) (hcross : c.crossPath = true)
      (hp : fecParamsFor env.cfg (some w) = .ok p) :
      Added env c w
        { c with
          wans := c.wans ++ [freshLink env w p c.xenc c.xdec]
          sched := c.sched.addPath w.id (effectiveCapacity w p env.cfg.scheduler.balanceBy) }
  | perWan (p : Params F) (enc : Encoder F RS) (hcross : c.crossPath ≠ true)
      (hp : fecParamsFor env.cfg (some w) = .ok p) (henc : newEncoder RS p = .ok enc) :
      Added env c w
        { c.addCodecs enc p with
          wans := c.wans ++ [freshLink env w p (some c.encs.length) (some c.decs.length)]
          sched := c.sched.addPath w.id (effectiveCapacity w p env.cfg.scheduler.balanceBy) }

theorem added {env : ClientEnv F P} {w : WanConfig F} (h : addWan env c w = .ok c') :
    Added env c w c' := by
  rw [addWan] at h
  split at h
  · cases h
  · next p hp =>
    dsimp only at h
    split at h
    · next hcross =>
      cases h
      exact .cross p hcross hp
    · next hcross =>
      split at h
      · cases h
      · next enc henc =>
        cases h
        exact .perWan p enc hcross hp henc

theorem initial_setUpCross {env : ClientEnv F P} (h : c.Initial env id)
    (hset : setUpCross env c = .ok c') : c'.Initial env id := by
  cases setUp hset with
  | perWan => exact h
  | cross p enc _ _ henc =>
    exact ⟨h.sess, h.delivery, h.sessAEAD, h.crashed, fresh_append h.fresh (fresh_newEncoder henc)⟩

theorem initial_addWan {env : ClientEnv F P} (h : c.Initial env id) {wcfg : WanConfig F}
    (hadd : addWan env c wcfg = .ok c') : c'.Initial env id := by
  cases added hadd with
  | cross => exact ⟨h.sess, h.delivery, h.sessAEAD, h.crashed, h.fresh⟩
  | perWan p enc _ _ henc =>
    exact ⟨h.sess, h.delivery, h.sessAEAD, h.crashed, fresh_append h.fresh (fresh_newEncoder henc)⟩

theorem initial_newClient {env : ClientEnv F P} (h : newClient RS env id = .ok c) :
    c.Initial env id := by
  obtain ⟨c₁, hset, hwans⟩ := Except.bind_eq_ok h
  have h₁ : c₁.Initial env id :=
    initial_setUpCross ⟨rfl, rfl, rfl, rfl, fun e he => absurd he List.not_mem_nil⟩ hset
  exact Except.foldlM_induct (I := Initial env id) (fun _ _ _ h hadd => initial_addWan h hadd) h₁
    hwans

/-! ### What an announce replaces -/

/-- What adopting an announce leaves alone: all but the mode, the slots, the MTU and the
announced section; codecs are only added, and the new ones are fresh. -/
structure Adopted (c c' : Client F RS P) : Prop where
  sess : c'.sess = c.sess
  sched : c'.sched = c.sched
  delivery : c'.delivery = c.delivery
  sessAEAD : c'.sessAEAD = c.sessAEAD
  crashed : c'.crashed = c.crashed
  length_wans : c'.wans.length = c.wans.length
  encs : ∃ new, c'.encs = c.encs ++ new ∧ ∀ e ∈ new, e.Fresh
  decs : ∃ new, c'.decs = c.decs ++ new

omit [Float64 F] in
theorem Adopted.refl (c : Client F RS P) : c.Adopted c :=
  ⟨rfl, rfl, rfl, rfl, rfl, rfl, ⟨[], by simp, by simp⟩, ⟨[], by simp⟩⟩

omit [Float64 F] in
theorem Adopted.trans {c₁ c₂ c₃ : Client F RS P} (h : c₁.Adopted c₂) (h' : c₂.Adopted c₃) :
    c₁.Adopted c₃ := by
  obtain ⟨new, hencs, hfresh⟩ := h.encs
  obtain ⟨new', hencs', hfresh'⟩ := h'.encs
  obtain ⟨newd, hdecs⟩ := h.decs
  obtain ⟨newd', hdecs'⟩ := h'.decs
  refine ⟨h'.sess.trans h.sess, h'.sched.trans h.sched, h'.delivery.trans h.delivery,
    h'.sessAEAD.trans h.sessAEAD, h'.crashed.trans h.crashed,
    h'.length_wans.trans h.length_wans, ⟨new ++ new', ?_, ?_⟩, ⟨newd ++ newd', ?_⟩⟩
  · rw [hencs', hencs, List.append_assoc]
  · intro e he
    exact (List.mem_append.mp he).elim (hfresh e) (hfresh' e)
  · rw [hdecs', hdecs, List.append_assoc]

theorem adopted_adoptCross (c : Client F RS P) (p : Params F) : c.Adopted (c.adoptCross p).2 := by
  rw [adoptCross]
  split
  · exact ⟨rfl, rfl, rfl, rfl, rfl, rfl, ⟨[], by simp, by simp⟩, ⟨[], by simp⟩⟩
  · next enc henc =>
    refine ⟨rfl, rfl, rfl, rfl, rfl, by simp, ⟨[enc], rfl, ?_⟩, ⟨_, rfl⟩⟩
    intro e he
    rw [List.mem_singleton.mp he]
    exact fresh_newEncoder henc

variable (env : ClientEnv F P)

theorem adopted_adoptWan (tmp : Config F) (c : Client F RS P) (i : ℕ) :
    c.Adopted (c.adoptWan env tmp i).2 := by
  rw [adoptWan]
  split
  · exact .refl c
  · split
    · exact ⟨rfl, rfl, rfl, rfl, rfl, by simp, ⟨[], by simp, by simp⟩, ⟨[], by simp⟩⟩
    · next enc henc =>
      refine ⟨rfl, rfl, rfl, rfl, rfl, by simp, ⟨[enc], rfl, ?_⟩, ⟨_, rfl⟩⟩
      intro e he
      rw [List.mem_singleton.mp he]
      exact fresh_newEncoder henc

theorem adopted_adoptWans (tmp : Config F) (c : Client F RS P) (is : List ℕ) :
    c.Adopted (c.adoptWans env tmp is).2 := by
  induction is generalizing c with
  | nil => exact .refl c
  | cons i is ih =>
    have hwan := adopted_adoptWan env tmp c i
    rw [adoptWans]
    split
    · next e c' h =>
      rw [h] at hwan
      exact hwan
    · next c' h =>
      rw [h] at hwan
      exact hwan.trans (ih c')

theorem adopted_adoptCodecs (c : Client F RS P) (ann : ServerAnnounce F) :
    c.Adopted (c.adoptCodecs env ann).2 := by
  have hmode : ∀ b, c.Adopted { c with crossPath := b } :=
    fun b => ⟨rfl, rfl, rfl, rfl, rfl, rfl, ⟨[], by simp, by simp⟩, ⟨[], by simp⟩⟩
  rw [adoptCodecs]
  dsimp only
  split
  · split
    · exact hmode _
    · exact (hmode _).trans (adopted_adoptCross _ _)
  · exact (hmode _).trans (adopted_adoptWans env _ _ _)

/-- An announce leaves all but the codecs alone, whether it is adopted or not. -/
theorem adopted_applyAnnounce (c : Client F RS P) (data : Bytes) :
    c.Adopted (c.applyAnnounce env data).2 := by
  rw [applyAnnounce]
  split
  · exact .refl c
  · split
    · exact .refl c
    · next ann _ =>
      split
      · exact .refl c
      · have hcodecs := adopted_adoptCodecs env c ann
        split
        · next e c' h =>
          rw [h] at hcodecs
          exact hcodecs
        · next c' h =>
          rw [h] at hcodecs
          exact hcodecs.trans
            ⟨rfl, rfl, rfl, rfl, rfl, rfl, ⟨[], by simp, by simp⟩, ⟨[], by simp⟩⟩

end Client

end FlexBraid
