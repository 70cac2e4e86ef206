import FlexBraid.Tunnel.Announce
import FlexBraid.Tunnel.ClientRules

/-!
# The numbers of the blocks of a client

Every encoder numbers its blocks by its own counter.  Whatever the goroutines of a client
do, the numbers in the batches that one encoder returns increase, until the counter wraps
around.

## Main definitions

* `batches` — the batches of frames that an encoder returned.
* `Encoder.InOrder` — their numbers increase up to the counter of the encoder.
* `Client.slots`, `Client.InSlot` — the codec slots.
* `Client.Same` — the actions that leave the codecs and the key alone.
* `Client.Blocks` — the invariant of the block numbers.

## Main results

* `Client.rules_blocks` — **the block numbers of every encoder increase**, whatever
  happens.
-/

namespace FlexBraid

section
variable {P : Primitives}

/-! ### The batches of an encoder -/

/-- The batches of frames that an encoder returned, in order. -/
def batches (j : ℕ) (log : List (ClientOut P)) : List (List Frame) :=
  log.filterMap fun
    | .coded i frames => if i = j ∧ frames ≠ [] then some frames else none
    | _ => none

/-- An output that no encoder made. -/
def ClientOut.Uncoded : ClientOut P → Prop
  | .coded .. => False
  | _ => True

theorem batches_append (j : ℕ) (log out : List (ClientOut P)) :
    batches j (log ++ out) = batches j log ++ batches j out := List.filterMap_append

theorem batches_uncoded (j : ℕ) (log : List (ClientOut P)) {out : List (ClientOut P)}
    (h : ∀ o ∈ out, o.Uncoded) : batches j (log ++ out) = batches j log := by
  have hnone : batches j out = [] := by
    refine List.filterMap_eq_nil_iff.mpr fun o ho => ?_
    cases o with
    | coded => exact (h _ ho).elim
    | _ => rfl
  rw [batches_append, hnone, List.append_nil]

theorem batches_coded (j : ℕ) (log : List (ClientOut P)) (frames : List Frame) :
    batches j (log ++ [.coded j frames]) =
      if frames = [] then batches j log else batches j log ++ [frames] := by
  rw [batches_append]
  split
  · next h => simp [batches, h]
  · next h => simp [batches, h]

theorem batches_coded_of_ne {i j : ℕ} (h : i ≠ j) (log : List (ClientOut P)) (frames : List Frame) :
    batches j (log ++ [.coded i frames]) = batches j log := by
  rw [batches_append]
  simp [batches, h]

/-- The numbers of one batch are below those of another. -/
def NumbersBefore (b b' : List Frame) : Prop :=
  ∀ f ∈ b, ∀ g ∈ b', f.coded = true → g.coded = true → f.blockSeq < g.blockSeq

end

/-! ### The block numbers of an encoder -/

section
variable {F C : Type} {RS : ReedSolomon C}

/-- The numbers of the blocks that an encoder made increase, up to the last one; they wrap
around after `2 ^ 32` of them. -/
structure Encoder.InOrder (e : Encoder F RS) (bs : List (List Frame)) : Prop where
  counted : e.blocksCoded ≤ bs.length
  plain : ∀ f ∈ e.pending, f.flags = 0 ∧ f.blockSeq = 0
  below : bs.length < 2 ^ 32 → ∀ b ∈ bs, ∀ f ∈ b, f.coded = true → f.blockSeq.toNat ≤ e.blocksCoded
  sorted : bs.length < 2 ^ 32 → bs.Pairwise NumbersBefore

namespace Encoder

variable {e e' : Encoder F RS} {bs : List (List Frame)} {out : List Frame}

theorem InOrder.of_uncoded (h : e.InOrder bs) (hcoded : e'.blocksCoded = e.blocksCoded)
    (hpending : e'.pending = []) (hout : ∀ f ∈ out, f.coded = false) :
    e'.InOrder (bs ++ [out]) where
  counted := by
    rw [hcoded, List.length_append, List.length_singleton]
    exact Nat.le_succ_of_le h.counted
  plain f hf := by
    rw [hpending] at hf
    cases hf
  below hlen b hb f hf hcodedf := by
    rw [List.length_append, List.length_singleton] at hlen
    rw [hcoded]
    rcases List.mem_append.mp hb with hb | hb
    · exact h.below (by omega) b hb f hf hcodedf
    · rw [List.mem_singleton.mp hb] at hf
      exact absurd hcodedf (by rw [hout f hf]; decide)
  sorted hlen := by
    rw [List.length_append, List.length_singleton] at hlen
    refine List.pairwise_append.mpr ⟨h.sorted (by omega), List.pairwise_singleton _ _, ?_⟩
    intro b _ b' hb' f _ g hg _ hcodedg
    rw [List.mem_singleton.mp hb'] at hg
    exact absurd hcodedg (by rw [hout g hg]; decide)

theorem InOrder.of_block (h : e.InOrder bs) (hcoded : e'.blocksCoded = e.blocksCoded + 1)
    (hpending : e'.pending = []) (hout : ∀ f ∈ out, f.blockSeq = e.block + 1) :
    e'.InOrder (bs ++ [out]) := by
  have hnum : (bs ++ [out]).length < 2 ^ 32 → ∀ f ∈ out, f.blockSeq.toNat = e.blocksCoded + 1 := by
    intro hlen f hf
    have hcounted := h.counted
    rw [List.length_append, List.length_singleton] at hlen
    rw [hout f hf, e.block_eq, UInt32.toNat_add, UInt32.toNat_ofNat']
    show (e.blocksCoded % 2 ^ 32 + 1) % 2 ^ 32 = _
    omega
  constructor
  · rw [hcoded, List.length_append, List.length_singleton]
    exact Nat.succ_le_succ h.counted
  · intro f hf
    rw [hpending] at hf
    cases hf
  · intro hlen b hb f hf hcodedf
    rw [hcoded]
    rcases List.mem_append.mp hb with hb | hb
    · rw [List.length_append] at hlen
      exact Nat.le_succ_of_le (h.below (by omega) b hb f hf hcodedf)
    · rw [List.mem_singleton.mp hb] at hf
      rw [hnum hlen f hf]
  · intro hlen
    have hshort : bs.length < 2 ^ 32 := by
      rw [List.length_append] at hlen
      omega
    refine List.pairwise_append.mpr ⟨h.sorted hshort, List.pairwise_singleton _ _, ?_⟩
    intro b hb b' hb' f hf g hg hcodedf _
    rw [List.mem_singleton.mp hb'] at hg
    rw [UInt32.lt_iff_toNat_lt, hnum hlen g hg]
    exact Nat.lt_succ_of_le (h.below hshort b hb f hf hcodedf)

theorem coded_markPassSeq {data : List Frame} (hdata : ∀ f ∈ data, f.flags = 0 ∧ f.blockSeq = 0) :
    ∀ f ∈ markPassSeq data, f.coded = false := by
  intro f hf
  obtain ⟨g, hg, rfl⟩ := List.mem_map.mp hf
  simp [Frame.coded, Frame.hasFlag, (hdata g hg).1,
    show flagPassSeq &&& flagFECParity = 0 by decide, show flagPassSeq ≠ 0 by decide]

theorem coded_of_plain {f : Frame} (hf : f.flags = 0 ∧ f.blockSeq = 0) : f.coded = false := by
  simp [Frame.coded, Frame.hasFlag, hf.1, hf.2]

/-- A call leaves the block numbers in order. -/
theorem InOrder.of_emission [Float64 F] {data : List Frame} (h : e.InOrder bs)
    (hdata : ∀ f ∈ data, f.flags = 0 ∧ f.blockSeq = 0) (hcall : Emission e data e' out) :
    e'.InOrder (if out = [] then bs else bs ++ [out]) := by
  cases hcall with
  | hold hparams hcoded hpending =>
    rw [if_pos rfl]
    exact ⟨hcoded ▸ h.counted, hpending ▸ hdata, hcoded ▸ h.below, h.sorted⟩
  | pass hparams hcoded hpending =>
    split
    · exact ⟨hcoded ▸ h.counted, by simp [hpending], hcoded ▸ h.below, h.sorted⟩
    · exact h.of_uncoded hcoded hpending (coded_markPassSeq hdata)
  | plain hparams hcoded hpending =>
    split
    · exact ⟨hcoded ▸ h.counted, by simp [hpending], hcoded ▸ h.below, h.sorted⟩
    · exact h.of_uncoded hcoded hpending fun f hf => coded_of_plain (hdata f hf)
  | block hparams hcoded hpending hne _ p shard _ _ =>
    rw [if_neg (by simp [hne])]
    refine h.of_block hcoded hpending fun f hf => ?_
    rcases List.mem_append.mp hf with hf | hf
    · obtain ⟨g, -, rfl⟩ := List.mem_map.mp hf
      rfl
    · obtain ⟨i, -, rfl⟩ := List.mem_map.mp hf
      rfl

theorem Fresh.inOrder (h : e.Fresh) : e.InOrder [] := by
  refine ⟨h.blocksCoded.le, ?_, fun _ b hb => absurd hb List.not_mem_nil, fun _ => .nil⟩
  intro f hf
  rw [h.pending] at hf
  cases hf

theorem Emission.nil [Float64 F] (h : Emission e [] e' out) : e'.pending = [] ∧ out = [] := by
  cases h with
  | hold _ _ hpending => exact ⟨hpending, rfl⟩
  | pass _ _ hpending => exact ⟨hpending, rfl⟩
  | plain _ _ hpending => exact ⟨hpending, rfl⟩
  | block _ _ _ hne => exact absurd rfl hne

end Encoder
end

namespace Client

variable {F C : Type} {RS : ReedSolomon C} {P : Primitives}

open Prog

/-! ### The slots -/

/-- The codec slots: the shared ones and those of the WANs. -/
def slots (c : Client F RS P) : Option ℕ × Option ℕ × List (Option ℕ × Option ℕ) :=
  (c.xenc, c.xdec, c.wans.map WanLink.slots)

/-- An encoder that is in a slot. -/
def InSlot (c : Client F RS P) (j : ℕ) : Prop := c.xenc = some j ∨ ∃ w ∈ c.wans, w.enc = some j

theorem inSlot_iff (c : Client F RS P) (j : ℕ) :
    c.InSlot j ↔ c.slots.1 = some j ∨ some j ∈ c.slots.2.2.map Prod.fst := by
  simp [InSlot, slots, WanLink.slots]

/-- Actions that leave the key, the slots and the encoders alone. -/
structure Same (c : Client F RS P) (out : List (ClientOut P)) (c' : Client F RS P) : Prop where
  sessAEAD : c'.sessAEAD = c.sessAEAD
  slots : c'.slots = c.slots
  encs : c'.encs = c.encs
  uncoded : ∀ o ∈ out, o.Uncoded

theorem composes_same : Composes (Same : Client F RS P → _) where
  nil _ := ⟨rfl, rfl, rfl, by simp⟩
  append h h' := ⟨h'.1.trans h.1, h'.2.trans h.2, h'.3.trans h.3,
    List.forall_mem_append.mpr ⟨h.4, h'.4⟩⟩

theorem same_crash (c : Client F RS P) : Same c [] { c with crashed := true } :=
  ⟨rfl, rfl, rfl, by simp⟩

variable {c c' : Client F RS P} {log : List (ClientOut P)}

theorem Still.same (h : c.Still c') : Same c [] c' := by
  refine ⟨h.sessAEAD, ?_, h.encs, by simp⟩
  rw [Client.slots, Client.slots, h.xenc, h.xdec, h.slots]

theorem sendActions_same : SendActions (Same : Client F RS P → _) where
  composes := composes_same
  calm h := h.toStill.same
  number _ := ⟨rfl, rfl, rfl, by simp⟩
  send _ _ _ _ _ := ⟨rfl, rfl, rfl, by simp [ClientOut.Uncoded]⟩

theorem deliverActions_same : DeliverActions (Same : Client F RS P → _) where
  composes := composes_same
  pushed _ _ _ _ := ⟨rfl, rfl, rfl, by simp [ClientOut.Uncoded]⟩
  skipped _ _ _ := ⟨rfl, rfl, rfl, by simp [ClientOut.Uncoded]⟩
  write _ _ _ := ⟨rfl, rfl, rfl, by simp [ClientOut.Uncoded]⟩

/-! ### Block numbers -/

/-- The numbers of the blocks of every encoder increase. -/
structure Blocks (c : Client F RS P) (log : List (ClientOut P)) : Prop where
  inOrder : ∀ {j : ℕ} {e : Encoder F RS}, c.encs[j]? = some e → e.InOrder (batches j log)
  unused : ∀ {j : ℕ}, c.encs.length ≤ j → batches j log = []

theorem Blocks.of_same {out : List (ClientOut P)} (h : c.Blocks log) (hsame : Same c out c') :
    c'.Blocks (log ++ out) := by
  refine ⟨fun {j e} he => ?_, fun {j} hj => ?_⟩
  · rw [batches_uncoded j log hsame.uncoded]
    exact h.inOrder (hsame.encs ▸ he)
  · rw [batches_uncoded j log hsame.uncoded]
    exact h.unused (hsame.encs ▸ hj)

theorem Blocks.code (h : c.Blocks log) {i : ℕ} {e e' : Encoder F RS} {out : List Frame}
    (he : c.encs[i]? = some e)
    (hcall : ∀ bs, e.InOrder bs → e'.InOrder (if out = [] then bs else bs ++ [out])) :
    Blocks { c with encs := c.encs.set i e' } (log ++ [.coded i out]) := by
  obtain ⟨hi, -⟩ := List.getElem?_eq_some_iff.mp he
  refine ⟨fun {j e₁} he₁ => ?_, fun {j} hj => ?_⟩
  · rw [List.getElem?_set] at he₁
    split at he₁
    · next hij =>
      subst hij
      rw [Option.some_inj] at he₁
      rw [← he₁, batches_coded]
      exact hcall _ (h.inOrder he)
    · next hij =>
      rw [batches_coded_of_ne hij]
      exact h.inOrder he₁
  · rw [List.length_set] at hj
    rw [batches_coded_of_ne (by omega)]
    exact h.unused hj

/-- Encoders that are added have made no blocks yet. -/
theorem Blocks.adopt (h : c.Blocks log) (hadopted : c.Adopted c') : c'.Blocks log := by
  obtain ⟨new, hencs, hfresh⟩ := hadopted.encs
  refine ⟨fun {j e} he => ?_, fun {j} hj => ?_⟩
  · rw [hencs] at he
    by_cases hj : j < c.encs.length
    · rw [List.getElem?_append_left hj] at he
      exact h.inOrder he
    · have hle : c.encs.length ≤ j := Nat.le_of_not_lt hj
      rw [List.getElem?_append_right hle] at he
      rw [h.unused hle]
      exact (hfresh e (List.mem_of_getElem? he)).inOrder
  · rw [hencs, List.length_append] at hj
    exact h.unused (by omega)

theorem owns_useEnc_blocks (slot : Option ℕ) {call : Encoder F RS → Encoder F RS × List Frame}
    (hcall : ∀ e bs, e.InOrder bs →
      (call e).1.InOrder (if (call e).2 = [] then bs else bs ++ [(call e).2])) :
    Owns (fun (c : Client F RS P) log (_ : Prog.NoShare) => c.Blocks log) (fun _ m => m = 0)
      (useEnc slot call) 0 := by
  refine owns_encoderCall ?_ ?_
  · intro c log others h
    have hsame := h.of_same (same_crash c)
    rw [List.append_nil] at hsame
    exact ⟨0, hsame, rfl⟩
  · intro c i e log others _ he h
    exact ⟨0, h.code he (hcall e), rfl⟩

variable [Float64 F] (env : ClientEnv F P)

theorem recvActions_blocks : RecvActions env fun (c : Client F RS P) out c' =>
    ∀ log, c.Blocks log → c'.Blocks (log ++ out) where
  composes := by
    refine ⟨fun _ log h => ?_, fun h h' log hlog => ?_⟩
    · rwa [List.append_nil]
    · rw [← List.append_assoc]
      exact h' _ (h log hlog)
  still hstill _ h := h.of_same hstill.same
  adopt c data log h := by
    rw [List.append_nil]
    exact h.adopt (adopted_applyAnnounce env c data)
  publish _ _ _ log h := by
    rw [List.append_nil]
    exact ⟨h.inOrder, h.unused⟩
  pushed _ _ _ _ _ h := h.of_same (deliverActions_same.pushed _ _ _ _)
  skipped _ _ _ _ h := h.of_same (deliverActions_same.skipped _ _ _)
  write _ _ _ _ h := h.of_same (deliverActions_same.write _ _ _)

/-- **The block numbers of every encoder increase**, whatever happens. -/
theorem rules_blocks : Rules env (fun (c : Client F RS P) log (_ : Prog.NoShare) => c.Blocks log)
    (fun _ => 0) (fun _ => 0) (fun _ => 0) fun _ => True := by
  have hinv : ∀ (c : Client F RS P) o c' log (_ : Prog.NoShare), Same c o c' → c.Blocks log →
      c'.Blocks (log ++ o) := fun _ _ _ _ _ hsame h => h.of_same hsame
  have hsend : SendRules env (fun (c : Client F RS P) log (_ : Prog.NoShare) => c.Blocks log)
      (fun _ => 0) (fun _ => 0) (fun _ => 0) := by
    refine sendActions_same.sendRules hinv ?_ ?_
    · intro slot now
      exact owns_useEnc_blocks slot fun e bs h => h.of_emission h.plain (e.emission_tick now)
    · intro slot now loss
      refine (owns_useEnc_blocks slot fun e bs h => ?_).mono fun _ _ _ => trivial
      exact h.of_emission h.plain (e.emission_setLossRate now loss)
  have hrecv : RecvRules env (fun (c : Client F RS P) log (_ : Prog.NoShare) => c.Blocks log)
      fun _ => True := (recvActions_blocks env).recvRules fun _ _ _ _ _ hkeeps h => hkeeps _ h
  refine { hsend, hrecv with push := fun slot now start id seq payload => ?_ }
  refine owns_useEnc_blocks slot fun e bs h => ?_
  refine h.of_emission ?_ (e.emission_push now start _)
  intro f hf
  rcases List.mem_append.mp hf with hf | hf
  · exact h.plain f hf
  · rw [List.mem_singleton.mp hf]
    exact ⟨rfl, rfl⟩

end Client

end FlexBraid
