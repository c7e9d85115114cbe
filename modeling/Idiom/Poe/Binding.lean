import Idiom.Poe.Membership

/-!
# What a challenge binds

A challenge should determine the nonce, the context and the session, so that a proof made for one
session is of no use in another. But bytes of any length are folded into a field.
-/

namespace Idiom.Poe

open List LittleEndian Option

/-! ## Stating it -/

/-- The hash of three inputs takes no two of these to one value. -/
def Poseidon.CollisionFree3 (poseidon : Poseidon) (inputs : Set (Fp × Fp × Fp)) : Prop :=
  Set.InjOn (fun x => poseidon.hash3 x.1 x.2.1 x.2.2) inputs

/-- A proof is accepted for the public inputs it was made for, and for no others. -/
structure Halo2.Sound (halo2 : Halo2) : Prop where
  sound : ∀ circuit inputs rng proof inputs', halo2.createProof circuit inputs rng = some proof →
    halo2.verifyProof proof inputs' = true → inputs' = inputs

/-- The field elements of a binding. -/
def Binding.felts (binding : Binding) : Fp × Fp × Fp :=
  (Fin.ofNat pastaPrime (limbsNumber binding.nonce),
    Fin.ofNat pastaPrime (limbsNumber binding.contextHash),
    Fin.ofNat pastaPrime (limbsNumber binding.sessionId))

structure BindsContext (poseidon : Poseidon) (halo2 : Halo2) (binding binding' : Binding)
    (root tag : Bytes32) : Prop where
  injective : challengeFromBinding poseidon binding = challengeFromBinding poseidon binding' →
    binding = binding'
  /-- A proof made for one binding does not verify for the other. -/
  session : ∀ key siblings dirs rng proof root tag root' tag',
    provePoe poseidon halo2 key siblings dirs binding rng = some (proof, root, tag) →
    verifyPoe poseidon halo2 proof root' binding' tag' = some true → binding = binding'
  returns : ∀ proof, ∀ b ∈ [binding, binding'], (verifyPoe poseidon halo2 proof root b tag).isSome

/-- Component by component, the two bindings have numbers that are equal modulo the prime. -/
def Congruent (binding binding' : Binding) : Prop :=
  limbsNumber binding.nonce % pastaPrime = limbsNumber binding'.nonce % pastaPrime ∧
    limbsNumber binding.contextHash % pastaPrime = limbsNumber binding'.contextHash % pastaPrime ∧
    limbsNumber binding.sessionId % pastaPrime = limbsNumber binding'.sessionId % pastaPrime

/-! ## Challenges -/

section

variable {poseidon : Poseidon} {halo2 : Halo2} {binding binding' : Binding}

theorem challengeFromBinding_eq (poseidon : Poseidon) (binding : Binding) :
    challengeFromBinding poseidon binding =
      some (poseidon.hash3 binding.felts.1 binding.felts.2.1 binding.felts.2.2) := by
  unfold challengeFromBinding
  rw [fieldFromBytes_eq, fieldFromBytes_eq, fieldFromBytes_eq]
  rfl

theorem felts_eq_iff : binding.felts = binding'.felts ↔ Congruent binding binding' := by
  unfold Binding.felts Congruent
  simp only [Prod.mk.injEq, Fin.ext_iff, Fin.val_ofNat]

/-- Without a collision, equal challenges come from congruent bindings. -/
theorem challengeFromBinding_eq_iff
    (hfree : poseidon.CollisionFree3 {binding.felts, binding'.felts}) :
    challengeFromBinding poseidon binding = challengeFromBinding poseidon binding' ↔
      Congruent binding binding' := by
  rw [challengeFromBinding_eq, challengeFromBinding_eq, some.injEq, ← felts_eq_iff]
  constructor
  · intro h
    exact hfree (.inl rfl) (.inr rfl) h
  · intro h
    rw [h]

theorem verifyPoe_isSome_iff {proof : List UInt8} {root tag : Bytes32} :
    (verifyPoe poseidon halo2 proof root binding tag).isSome ↔
      number root.1 < pastaPrime ∧ number tag.1 < pastaPrime := by
  rw [← fromRepr_isSome_iff, ← fromRepr_isSome_iff]
  unfold verifyPoe
  rw [challengeFromBinding_eq]
  simp only [bind]
  cases fromRepr root with
  | none => simp
  | some r => cases fromRepr tag with
    | none | some t => simp

theorem challenge_eq_of_verifyPoe (hsound : halo2.Sound) {key : Bytes32} {siblings : List Bytes32}
    {dirs : List Bool} {rng : ℕ} {proof : List UInt8} {root tag root' tag' : Bytes32}
    (hprove : provePoe poseidon halo2 key siblings dirs binding rng = some (proof, root, tag))
    (hverify : verifyPoe poseidon halo2 proof root' binding' tag' = some true) :
    challengeFromBinding poseidon binding = challengeFromBinding poseidon binding' := by
  unfold provePoe at hprove
  split at hprove
  · simp only [bind, bind_eq_some_iff] at hprove
    obtain ⟨sib, -, challenge, hchallenge, ⟨proof', t⟩, hmade, hresult⟩ := hprove
    unfold prove at hmade
    simp only [bind, bind_eq_some_iff] at hmade
    obtain ⟨_, hcreate, heq⟩ := hmade
    cases heq
    cases hresult
    unfold verifyPoe at hverify
    simp only [bind, bind_eq_some_iff] at hverify
    obtain ⟨challenge', hchallenge', _, -, _, -, haccept⟩ := hverify
    have hinputs := hsound.sound _ _ _ _ _ hcreate (some.inj haccept)
    rw [hchallenge, hchallenge', (cons.inj (cons.inj hinputs).2).1]
  · cases hprove

/-- **A challenge binds what is not congruent**, and bytes below the prime are verified. -/
theorem bindsContext_iff (poseidon : Poseidon) (halo2 : Halo2) (binding binding' : Binding)
    (root tag : Bytes32) (hfree : poseidon.CollisionFree3 {binding.felts, binding'.felts})
    (hsound : halo2.Sound) :
    BindsContext poseidon halo2 binding binding' root tag ↔
      (binding = binding' ∨ ¬ Congruent binding binding') ∧
        number root.1 < pastaPrime ∧ number tag.1 < pastaPrime := by
  constructor
  · intro h
    refine ⟨?_, verifyPoe_isSome_iff.1 (h.returns [] binding mem_cons_self)⟩
    by_cases hcongruent : Congruent binding binding'
    · exact .inl (h.injective ((challengeFromBinding_eq_iff hfree).2 hcongruent))
    · exact .inr hcongruent
  · rintro ⟨hbinding, hbytes⟩
    have hinjective : challengeFromBinding poseidon binding =
        challengeFromBinding poseidon binding' → binding = binding' := fun heq =>
      hbinding.resolve_right (not_not_intro ((challengeFromBinding_eq_iff hfree).1 heq))
    refine ⟨hinjective, fun _ _ _ _ _ _ _ _ _ hprove hverify => ?_,
      fun proof b _ => verifyPoe_isSome_iff.2 hbytes⟩
    exact hinjective (challenge_eq_of_verifyPoe hsound hprove hverify)

end

/-! ## Two nonces with one challenge -/

/-- A proof that is the list of its public inputs. -/
def openHalo2 : Halo2 where
  createProof _ inputs _ := some (inputs.flatMap fun f => (toRepr f).1)
  verifyProof proof inputs := proof = inputs.flatMap fun f => (toRepr f).1

/-- Blocks of 32 bytes, one after another, are told apart. -/
theorem eq_of_flatMap_toRepr_eq {inputs inputs' : List Fp}
    (h : (inputs.flatMap fun f => (toRepr f).1) = inputs'.flatMap fun f => (toRepr f).1) :
    inputs = inputs' := by
  induction inputs generalizing inputs' with
  | nil =>
    cases inputs' with
    | nil => rfl
    | cons f' inputs' =>
      have hlength := congrArg length h
      rw [flatMap_cons, length_append, (toRepr f').2, flatMap_nil, length_nil] at hlength
      omega
  | cons f inputs ih =>
    cases inputs' with
    | nil =>
      have hlength := congrArg length h
      rw [flatMap_cons, length_append, (toRepr f).2, flatMap_nil, length_nil] at hlength
      omega
    | cons f' inputs' =>
      rw [flatMap_cons] at h
      obtain ⟨hhead, htail⟩ := append_inj h (by rw [(toRepr f).2, (toRepr f').2])
      have hfelt : f = f' := by
        have hsome := congrArg fromRepr (Subtype.ext hhead : toRepr f = toRepr f')
        rwa [fromRepr_toRepr, fromRepr_toRepr, some.injEq] at hsome
      rw [hfelt, ih htail]

theorem openHalo2_sound : openHalo2.Sound := by
  refine ⟨fun circuit inputs rng proof inputs' hcreate hverify => ?_⟩
  cases hcreate
  exact (eq_of_flatMap_toRepr_eq (of_decide_eq_true hverify)).symm

/-- The empty nonce and the nonce of one zero byte have one challenge. -/
theorem bindsContext_fails : ¬ ∀ (poseidon : Poseidon) (halo2 : Halo2) (binding binding' : Binding)
    (root tag : Bytes32), poseidon.CollisionFree3 {binding.felts, binding'.felts} → halo2.Sound →
    BindsContext poseidon halo2 binding binding' root tag := by
  intro h
  have hfelts : (⟨[], [], []⟩ : Binding).felts = (⟨[0], [], []⟩ : Binding).felts := by decide
  have hbinds := h sumPoseidon openHalo2 ⟨[], [], []⟩ ⟨[0], [], []⟩ (toRepr 0) (toRepr 0)
    (by rw [← hfelts, Set.pair_eq_singleton]; exact Set.injOn_singleton _ _) openHalo2_sound
  refine absurd (hbinds.injective ?_) (by decide)
  rw [challengeFromBinding_eq, challengeFromBinding_eq, hfelts]

/-- Two sessions that are told apart. -/
theorem bindsContext_sessions : sumPoseidon.CollisionFree3
      {(⟨[1], [2], [3]⟩ : Binding).felts, (⟨[1], [2], [4]⟩ : Binding).felts} ∧
    openHalo2.Sound ∧
    BindsContext sumPoseidon openHalo2 ⟨[1], [2], [3]⟩ ⟨[1], [2], [4]⟩ (toRepr 7) (toRepr 8) := by
  have hfree : sumPoseidon.CollisionFree3
      {(⟨[1], [2], [3]⟩ : Binding).felts, (⟨[1], [2], [4]⟩ : Binding).felts} := by
    have hne : sumPoseidon.hash3 (Fin.ofNat _ 1) (Fin.ofNat _ 2) (Fin.ofNat _ 3) ≠
        sumPoseidon.hash3 (Fin.ofNat _ 1) (Fin.ofNat _ 2) (Fin.ofNat _ 4) := by decide
    rintro x (rfl | rfl) y (rfl | rfl) h
    · rfl
    · exact absurd h hne
    · exact absurd h.symm hne
    · rfl
  refine ⟨hfree, openHalo2_sound, (bindsContext_iff sumPoseidon openHalo2 ⟨[1], [2], [3]⟩
    ⟨[1], [2], [4]⟩ (toRepr 7) (toRepr 8) hfree openHalo2_sound).2 ⟨.inr ?_, ?_⟩⟩
  · unfold Congruent
    decide
  · decide

end Idiom.Poe
