import Idiom.Ajna.DocumentRuns

/-!
# Integrity of the method set over authorized histories

What a document says about its verification methods has to agree with the methods it
holds: every purpose reference names one of them, and each of them belongs to the DID.
`apply_operation_v2` guards both on the way in. It lets a method go while references
to it remain, and it compares a method id with the DID by a raw prefix test.
-/

namespace Idiom.Ajna

open Sample AuthorizationEngine AjnaMethod ORSet AuthorizationResult Run Option

/-! ## The resolver's check -/

namespace ResolutionService

/-- The loop over the references of one purpose. -/
def checkReferences (order : IterOrder VerificationMethod) (refOrder : IterOrder String)
    (document : AjnaDocument) (label : String) : Option (ORSet String) → Except AjnaError Unit
  | none => .ok ()
  | some set =>
    match (refOrder.list set.keys).find? fun vmId =>
        (document.getVerificationMethod order vmId).isNone with
    | some vmId => .error (.invalidReference (label ++ " references non-existent VM: " ++ vmId))
    | none => .ok ()

/-- Validate document consistency. The references of key agreement, capability invocation
and capability delegation are not looked at. -/
def validate (order : IterOrder VerificationMethod) (refOrder : IterOrder String)
    (document : AjnaDocument) : Except AjnaError Unit :=
  if document.isDeactivated then .error .deactivatedDID
  else
    match checkReferences order refOrder document "Authentication" document.authentication with
    | .error e => .error e
    | .ok () =>
      checkReferences order refOrder document "AssertionMethod" document.assertionMethod

end ResolutionService

open ResolutionService

namespace AjnaDocument

def HasMethod (doc : AjnaDocument) (id : String) : Prop :=
  ∃ method ∈ doc.verificationMethods.keys, method.id = id

def References (doc : AjnaDocument) (q : VerificationPurpose) (id : String) : Prop :=
  ∃ set, doc.purposeSet q = some set ∧ set.contains id = true

/-- Every reference, for each of the five purposes, names a verification method. -/
def RefsResolve (doc : AjnaDocument) : Prop :=
  ∀ q id, doc.References q id → doc.HasMethod id

/-- References resolve, and the resolver accepts the document while it is active. -/
def Resolvable (doc : AjnaDocument) : Prop :=
  doc.RefsResolve ∧ (doc.isDeactivated = false →
    ∀ order refOrder, validate order refOrder doc = .ok ())

variable {doc : AjnaDocument} {id : String}

theorem getVerificationMethod_isSome_iff (order : IterOrder VerificationMethod) :
    (doc.getVerificationMethod order id).isSome = true ↔ doc.HasMethod id := by
  unfold getVerificationMethod HasMethod
  simp

theorem hasMethod_of_not_isNone {order : IterOrder VerificationMethod}
    (h : ¬ (doc.getVerificationMethod order id).isNone = true) : doc.HasMethod id := by
  rw [← getVerificationMethod_isSome_iff order]
  simpa [isSome_iff_ne_none] using h

theorem checkReferences_of_refsResolve (h : doc.RefsResolve) (order : IterOrder VerificationMethod)
    (refOrder : IterOrder String) (label : String) (q : VerificationPurpose) :
    checkReferences order refOrder doc label (doc.purposeSet q) = .ok () := by
  cases hset : doc.purposeSet q with
  | none => rfl
  | some set =>
    have hfind : ((refOrder.list set.keys).find? fun vmId =>
        (doc.getVerificationMethod order vmId).isNone) = none := by
      rw [refOrder.find?_eq_none]
      intro id hid
      have hmethod := h q id ⟨set, hset, (mem_keys_iff id).1 hid⟩
      simpa using (getVerificationMethod_isSome_iff order).2 hmethod
    simp only [checkReferences, hfind]

/-- Referential integrity is all the resolver asks of an active document. -/
theorem resolvable_iff_refsResolve : doc.Resolvable ↔ doc.RefsResolve := by
  refine ⟨fun h => h.1, fun h => ⟨h, fun hactive order refOrder => ?_⟩⟩
  have hauth := checkReferences_of_refsResolve h order refOrder "Authentication" .authentication
  have hassert := checkReferences_of_refsResolve h order refOrder "AssertionMethod" .assertionMethod
  unfold purposeSet at hauth hassert
  simp [validate, hactive, hauth, hassert]

theorem keys_removeFirstMethod (h : doc.HasMethod id) (order : IterOrder VerificationMethod) :
    ∃ method ∈ doc.verificationMethods.keys, method.id = id ∧
      ∀ m, m ∈ (removeFirstMethod doc.verificationMethods order id).keys ↔
        m ≠ method ∧ m ∈ doc.verificationMethods.keys := by
  obtain ⟨method, hfind⟩ := isSome_iff_exists.1 ((getVerificationMethod_isSome_iff order).2 h)
  obtain ⟨hmem, hid⟩ := order.mem_of_find? hfind
  refine ⟨method, hmem, by simpa using hid, fun m => ?_⟩
  unfold getVerificationMethod at hfind
  simp only [removeFirstMethod, hfind, mem_keys_iff, contains_remove]

/-! ## What a call does to the references -/

/-- An allowed removal does not take the last method of a referenced id: nothing refers
to the id, or two methods carry it. -/
def KeepsReferenced (doc : AjnaDocument) (call : V2Call) : Prop :=
  ∀ id, call.1.delta = .vmRemove id → (canApply call.2.authOrder call.1 doc).isAllowed = true →
    (∀ q, ¬ doc.References q id) ∨
    ∃ m₁ ∈ doc.verificationMethods.keys, ∃ m₂ ∈ doc.verificationMethods.keys,
      m₁ ≠ m₂ ∧ m₁.id = id ∧ m₂.id = id

section

variable {host : Host} {document doc : AjnaDocument} {call : V2Call}

theorem hasMethod_of_allowed (hd : call.1.delta = .vmRemove id ∨ ∃ p, call.1.delta = .refAdd p id)
    (h : (canApply call.2.authOrder call.1 document).isAllowed = true) : document.HasMethod id := by
  have hdelta := authorizeDelta_of_canApply h
  rcases hd with hd | ⟨p, hd⟩ <;>
  · rw [hd] at hdelta
    simp only [authorizeDelta] at hdelta
    split at hdelta
    · cases hdelta
    · next hsome => exact hasMethod_of_not_isNone hsome

theorem references_of_transformed (ht : Transformed call document doc) {q : VerificationPurpose}
    (h : doc.References q id) :
    document.References q id ∨ (document.HasMethod id ∧ ∃ p, call.1.delta = .refAdd p id) := by
  obtain ⟨set, hset, hid⟩ := h
  rw [ht.purposeSet q] at hset
  cases hd : call.1.delta with
  | refAdd p r =>
    have hmethod : document.HasMethod r := hasMethod_of_allowed (.inr ⟨p, hd⟩) ht.allowed
    simp only [hd, Delta.onPurposeSet] at hset
    split at hset
    · cases hset
      rcases (contains_add _ r id _).1 hid with rfl | hold
      · exact .inr ⟨hmethod, p, rfl⟩
      · cases hold' : document.purposeSet q with
        | none => simp [hold'] at hold
        | some set' => exact .inl ⟨set', hold', by simpa [hold'] using hold⟩
    · exact .inl ⟨set, hset, hid⟩
  | refRemove p r =>
    simp only [hd, Delta.onPurposeSet] at hset
    split at hset
    · obtain ⟨set', hold, rfl⟩ := map_eq_some_iff.1 hset
      exact .inl ⟨set', hold, ((contains_remove _ r id).1 hid).2⟩
    · exact .inl ⟨set, hset, hid⟩
  | _ =>
    simp only [hd] at hset
    exact .inl ⟨set, hset, hid⟩

theorem hasMethod_of_transformed (ht : Transformed call document doc) (h : document.HasMethod id)
    (hd : ∀ r, call.1.delta ≠ .vmRemove r) : doc.HasMethod id := by
  obtain ⟨method, hmem, hid⟩ := h
  refine ⟨method, ?_, hid⟩
  rw [ht.verificationMethods]
  cases hdelta : call.1.delta with
  | vmAdd entry =>
    rw [mem_keys_iff] at hmem ⊢
    exact (contains_add _ entry method _).2 (.inr hmem)
  | vmRemove r => exact absurd hdelta (hd r)
  | _ => exact hmem

theorem refsResolve_of_transformed (ht : Transformed call document doc)
    (h : document.RefsResolve) (hkeeps : document.KeepsReferenced call) : doc.RefsResolve := by
  intro q id href
  cases hd : call.1.delta with
  | vmRemove r =>
    rcases references_of_transformed ht href with hold | ⟨-, p, hadd⟩
    · obtain ⟨method, -, hmethod, hkeys⟩ :=
        keys_removeFirstMethod (hasMethod_of_allowed (.inl hd) ht.allowed) (call.2.amb 0).order
      have hvm : doc.verificationMethods =
          removeFirstMethod document.verificationMethods (call.2.amb 0).order r := by
        rw [ht.verificationMethods, hd]
        rfl
      by_cases hid : id = r
      · subst hid
        rcases hkeeps id hd ht.allowed with hnone | ⟨m₁, hm₁, m₂, hm₂, hne, hid₁, hid₂⟩
        · exact absurd hold (hnone q)
        · -- the loop takes out at most one of the two
          by_cases hfirst : m₁ = method
          · exact ⟨m₂, by rw [hvm, hkeys]; exact ⟨fun hc => hne (hfirst.trans hc.symm), hm₂⟩, hid₂⟩
          · exact ⟨m₁, by rw [hvm, hkeys]; exact ⟨hfirst, hm₁⟩, hid₁⟩
      · obtain ⟨m, hm, hmid⟩ := h q id hold
        refine ⟨m, ?_, hmid⟩
        rw [hvm, hkeys]
        refine ⟨?_, hm⟩
        rintro rfl
        exact hid (hmid.symm.trans hmethod)
    · rw [hd] at hadd
      cases hadd
  | _ =>
    refine hasMethod_of_transformed ht ?_ (by simp [hd])
    rcases references_of_transformed ht href with hold | ⟨hmethod, -⟩
    · exact h q id hold
    · exact hmethod

theorem dangling_of_not_keepsReferenced (host : Host) (h : ¬ document.KeepsReferenced call) :
    ∃ doc, v2Transform host call.1 call.2 document = .ok doc ∧ ¬ doc.RefsResolve := by
  unfold KeepsReferenced at h
  push Not at h
  obtain ⟨id, hd, hallowed, ⟨q, set, hset, hid⟩, hunique⟩ := h
  obtain ⟨doc, hdoc⟩ := v2Transform_of_passes host hallowed (by rw [hd]; trivial)
  refine ⟨doc, hdoc, fun hres => ?_⟩
  have ht := transformed_of_ok hdoc
  obtain ⟨method, hmem, hmethod, hkeys⟩ :=
    keys_removeFirstMethod (hasMethod_of_allowed (.inl hd) hallowed) (call.2.amb 0).order
  have href : doc.References q id := by
    refine ⟨set, ?_, hid⟩
    rw [ht.purposeSet q, hd]
    exact hset
  obtain ⟨m, hm, hmid⟩ := hres q id href
  rw [ht.verificationMethods, hd] at hm
  obtain ⟨hne, hold⟩ := (hkeys m).1 hm
  exact hunique m hold method hmem hne hmid hmethod

end
end AjnaDocument

open AjnaDocument

/-- **Along every run from a creation, the document stays resolvable if and only if no
allowed `vmRemove` takes the last method of an id that is still referenced.** -/
theorem resolvable_iff (host : Host) (m₀ m₁ : AjnaMethod) (did : String)
    (hcreate : CreatesInto m₀ did m₁) (calls : List V2Call) :
    (∀ m, Visits (v2Step host) m₁ calls m → m.Holds did Resolvable) ↔
      Along (v2Step host) (OnDocument did KeepsReferenced) m₁ calls := by
  refine holds_iff_along (fun document call doc h hkeeps hdoc => ?_)
    (fun document call _ hkeeps => ?_) ?_ calls
  · rw [resolvable_iff_refsResolve] at h ⊢
    exact refsResolve_of_transformed (transformed_of_ok hdoc) h hkeeps
  · obtain ⟨doc, hdoc, hdangling⟩ := dangling_of_not_keepsReferenced host hkeeps
    exact ⟨doc, hdoc, fun hres => hdangling hres.1⟩
  · obtain ⟨document, hl, -, -, hpurpose, -⟩ := lookup_of_createsInto hcreate
    refine ⟨document, hl, resolvable_iff_refsResolve.2 ?_⟩
    rintro q id ⟨set, hset, -⟩
    rw [hpurpose q] at hset
    cases hset

def Sample.key : VerificationMethod :=
  ⟨"did:ajna:alice#key-1", "Ed25519VerificationKey2020", did, "z6Mk", none⟩

def Sample.withKey : AjnaDocument :=
  { document with
    verificationMethods := new.add key 0
    vectorClock := document.vectorClock.increment did }

/-- The sample document with its key, which may authenticate. -/
def Sample.withRef : AjnaDocument :=
  { withKey with
    authentication := some (new.add key.id 0)
    vectorClock := withKey.vectorClock.increment did }

theorem Sample.mem_keys_withKey (m : VerificationMethod) :
    m ∈ withKey.verificationMethods.keys ↔ m = key := by
  rw [mem_keys_iff]
  show (new.add key 0).contains m = true ↔ _
  rw [contains_add]
  simp

theorem Sample.hasMethod_withKey : withKey.HasMethod key.id :=
  ⟨key, (mem_keys_withKey _).2 rfl, rfl⟩

theorem Sample.addKey_allowed {key : VerificationMethod}
    (hown : startsWith key.id document.id = true) :
    (canApply env.authOrder (change (.vmAdd key)).1 document).isAllowed = true := by
  refine canApply_of_selfControlled rfl rfl rfl rfl ?_
  simp [change, authorizeDelta, hown, isAllowed]

theorem Sample.addRef_allowed : (canApply env.authOrder
    (change (.refAdd .authentication key.id)).1 withKey).isAllowed = true := by
  refine canApply_of_selfControlled rfl rfl rfl rfl ?_
  have hsome := (getVerificationMethod_isSome_iff env.authOrder).2 hasMethod_withKey
  simp [change, authorizeDelta, isSome_iff_ne_none.1 hsome, isAllowed]

theorem Sample.removeKey_allowed : (canApply env.authOrder
    (change (.vmRemove key.id)).1 withRef).isAllowed = true := by
  refine canApply_of_selfControlled rfl rfl rfl rfl ?_
  have hsome : (withRef.getVerificationMethod env.authOrder key.id).isSome = true :=
    (getVerificationMethod_isSome_iff _).2 hasMethod_withKey
  simp [change, authorizeDelta, isSome_iff_ne_none.1 hsome, isAllowed]

theorem Sample.not_keepsReferenced_removeKey :
    ¬ withRef.KeepsReferenced (change (.vmRemove key.id)) := by
  intro hkeeps
  rcases hkeeps _ rfl removeKey_allowed with hnone | ⟨m₁, hm₁, m₂, hm₂, hne, -, -⟩
  · exact hnone .authentication ⟨_, rfl, (contains_add _ _ _ _).2 (.inl rfl)⟩
  · exact hne (((mem_keys_withKey m₁).1 hm₁).trans ((mem_keys_withKey m₂).1 hm₂).symm)

/-- Adding a key and then a reference to it. -/
theorem resolvable_addKey_addRef :
    ∃ m, exec (v2Step Sample.host) method
      [change (.vmAdd key), change (.refAdd .authentication key.id)] = some m ∧
      m.Holds did Resolvable := by
  refine ⟨_, rfl, (resolvable_iff Sample.host (new "node1") method did
    ⟨env, document, .inl create_did⟩ [_, _]).2 ?_ _ (.of_exec rfl)⟩
  refine ⟨?_, fun m _ => ⟨?_, ?_⟩⟩
  · intro _ document _ id hd
    cases hd
  · intro _ document _ id hd
    cases hd
  · intro _ _
    trivial

/-- A key, a reference to it, and then the removal of the key: all allowed, and the
reference dangles. -/
theorem resolvable_fails_dangling :
    ¬ ∃ host : Host, ∀ (m₀ m₁ : AjnaMethod) (did : String) (calls : List V2Call)
      (m : AjnaMethod), CreatesInto m₀ did m₁ →
      Along (v2Step host) Authorizes m₁ calls →
      exec (v2Step host) m₁ calls = some m →
      ∀ document, m.registry.lookup did = some document → document.isDeactivated = false →
        document.RefsResolve ∧
        ∀ order refOrder, validate order refOrder document = .ok () := by
  rintro ⟨host, hclaim⟩
  have haddKey := addKey_allowed (show startsWith key.id document.id = true by
    decide)
  have ht₁ : v2Transform host (change (.vmAdd key)).1 env document = .ok withKey :=
    v2Transform_eq_ok_iff.2 ⟨haddKey, _, rfl, rfl⟩
  have ht₂ : v2Transform host (change (.refAdd .authentication key.id)).1 env withKey =
      .ok withRef :=
    v2Transform_eq_ok_iff.2 ⟨addRef_allowed, _, rfl, rfl⟩
  obtain ⟨doc, ht₃, hdangling⟩ :=
    dangling_of_not_keepsReferenced host not_keepsReferenced_removeKey
  obtain ⟨m₁, hs₁, hl₁⟩ := v2Step_of_ok (change_doc _) lookup_registry ht₁
  obtain ⟨m₂, hs₂, hl₂⟩ := v2Step_of_ok (change_doc _) hl₁ ht₂
  obtain ⟨m₃, hs₃, hl₃⟩ := v2Step_of_ok (change_doc _) hl₂ ht₃
  refine hdangling (hclaim (new "node1") method did
    [change (.vmAdd key), change (.refAdd .authentication key.id), change (.vmRemove key.id)] m₃
    ⟨env, document, .inl create_did⟩ ?_ ?_ doc hl₃ ?_).1
  · refine ⟨⟨_, lookup_registry, haddKey⟩, fun m hm => ?_⟩
    obtain rfl : m₁ = m := some.inj (hs₁.symm.trans hm)
    refine ⟨⟨_, hl₁, addRef_allowed⟩, fun m hm => ?_⟩
    obtain rfl : m₂ = m := some.inj (hs₂.symm.trans hm)
    exact ⟨⟨_, hl₂, removeKey_allowed⟩, fun _ _ => trivial⟩
  · rw [exec_cons_eq_some]
    refine ⟨m₁, hs₁, exec_cons_eq_some.2 ⟨m₂, hs₂, exec_cons_eq_some.2 ⟨m₃, hs₃, rfl⟩⟩⟩
  · rw [isDeactivated, (transformed_of_ok ht₃).deactivated]
    rfl

/-! ## Whose methods they are -/

def OwnId (did id : String) : Prop := id = did ∨ ∃ fragment, id = did ++ "#" ++ fragment

/-- After as many characters as the DID has, the id ends or goes on with `#`. -/
def FragmentFollows (did id : String) : Prop :=
  (id.toList.drop did.toList.length).head? = none ∨
  (id.toList.drop did.toList.length).head? = some '#'

theorem startsWith_iff {s pat : String} :
    startsWith s pat = true ↔ ∃ rest, s.toList = pat.toList ++ rest := by
  unfold startsWith
  rw [ List.isPrefixOf_iff_prefix]
  constructor
  · rintro ⟨rest, h⟩
    exact ⟨rest, h.symm⟩
  · rintro ⟨rest, h⟩
    exact ⟨rest, h.symm⟩

theorem ownId_iff {did id : String} (h : startsWith id did = true) :
    OwnId did id ↔ FragmentFollows did id := by
  obtain ⟨rest, hrest⟩ := startsWith_iff.1 h
  have hdrop : id.toList.drop did.toList.length = rest := by
    rw [hrest, List.drop_left]
  have htext : ∀ s : String, id = s ↔ did.toList ++ rest = s.toList := by
    intro s
    rw [← hrest, String.toList_inj]
  unfold OwnId FragmentFollows
  rw [hdrop]
  cases rest with
  | nil => simp [htext]
  | cons c rest =>
    constructor
    · rintro (hid | ⟨fragment, hid⟩)
      · simp [htext] at hid
      · rw [htext, String.toList_append, String.toList_append, List.append_assoc,
          List.append_cancel_left_eq] at hid
        obtain ⟨rfl, -⟩ := List.cons.inj hid
        exact .inr rfl
    · rintro (hnone | hsome)
      · cases hnone
      · obtain rfl : c = '#' := some.inj hsome
        refine .inr ⟨String.ofList rest, ?_⟩
        rw [htext]
        simp [String.toList_append]

namespace AjnaDocument

/-- The document is the DID's, and so is every verification method. -/
def OwnMethods (did : String) (doc : AjnaDocument) : Prop :=
  doc.id = did ∧ ∀ method ∈ doc.verificationMethods.keys, OwnId did method.id

/-- In an allowed addition, nothing or a `#` follows the DID. -/
def AddsOwn (did : String) (doc : AjnaDocument) (call : V2Call) : Prop :=
  ∀ entry, call.1.delta = .vmAdd entry → (canApply call.2.authOrder call.1 doc).isAllowed = true →
    FragmentFollows did entry.id

section

variable {did : String} {document doc : AjnaDocument} {call : V2Call}

theorem startsWith_of_allowed_vmAdd {entry : VerificationMethod} (hd : call.1.delta = .vmAdd entry)
    (h : (canApply call.2.authOrder call.1 document).isAllowed = true) :
    startsWith entry.id document.id = true := by
  have hdelta := authorizeDelta_of_canApply h
  rw [hd] at hdelta
  simp only [authorizeDelta] at hdelta
  split at hdelta
  · cases hdelta
  · next hstarts => simpa using hstarts

theorem mem_keys_of_transformed (ht : Transformed call document doc) {m : VerificationMethod}
    (h : m ∈ doc.verificationMethods.keys) :
    m ∈ document.verificationMethods.keys ∨ call.1.delta = .vmAdd m := by
  rw [ht.verificationMethods] at h
  cases hd : call.1.delta with
  | vmAdd entry =>
    rw [hd, mem_keys_iff] at h
    rcases (contains_add _ entry m _).1 h with rfl | hold
    · exact .inr rfl
    · exact .inl ((mem_keys_iff m).2 hold)
  | vmRemove id =>
    have hmethod := hasMethod_of_allowed (.inl hd) ht.allowed
    obtain ⟨_, -, -, hkeys⟩ := keys_removeFirstMethod hmethod (call.2.amb 0).order
    rw [hd] at h
    exact .inl ((hkeys m).1 h).2
  | _ =>
    rw [hd] at h
    exact .inl h

theorem ownMethods_of_transformed (ht : Transformed call document doc)
    (h : document.OwnMethods did) (hadds : document.AddsOwn did call) : doc.OwnMethods did := by
  refine ⟨ht.id.trans h.1, fun method hmem => ?_⟩
  rcases mem_keys_of_transformed ht hmem with hold | hd
  · exact h.2 method hold
  · have hstarts := startsWith_of_allowed_vmAdd hd ht.allowed
    rw [h.1] at hstarts
    exact (ownId_iff hstarts).2 (hadds method hd ht.allowed)

theorem foreign_of_not_addsOwn (host : Host) (h : document.OwnMethods did)
    (hadds : ¬ document.AddsOwn did call) :
    ∃ doc, v2Transform host call.1 call.2 document = .ok doc ∧ ¬ doc.OwnMethods did := by
  unfold AddsOwn at hadds
  push Not at hadds
  obtain ⟨entry, hd, hallowed, hfollows⟩ := hadds
  obtain ⟨doc, hdoc⟩ := v2Transform_of_passes host hallowed (by rw [hd]; trivial)
  refine ⟨doc, hdoc, fun hown => ?_⟩
  have hstarts := startsWith_of_allowed_vmAdd hd hallowed
  rw [h.1] at hstarts
  refine hfollows ((ownId_iff hstarts).1 (hown.2 entry ?_))
  rw [(transformed_of_ok hdoc).verificationMethods, hd, mem_keys_iff]
  exact (contains_add _ entry entry _).2 (.inl rfl)

end
end AjnaDocument

/-- **Along every run from a creation, every verification method belongs to the DID if
and only if, in every allowed `vmAdd`, the id ends after the DID or goes on with `#`.** -/
theorem ownMethods_iff (host : Host) (m₀ m₁ : AjnaMethod) (did : String)
    (hcreate : CreatesInto m₀ did m₁) (calls : List V2Call) :
    (∀ m, Visits (v2Step host) m₁ calls m → m.Holds did (OwnMethods did)) ↔
      Along (v2Step host) (OnDocument did (AddsOwn did)) m₁ calls := by
  refine holds_iff_along
    (fun document call doc h hadds hdoc =>
      ownMethods_of_transformed (transformed_of_ok hdoc) h hadds)
    (fun document call h hadds => foreign_of_not_addsOwn host h hadds) ?_ calls
  obtain ⟨document, hl, hid, hmethods, -, -⟩ := lookup_of_createsInto hcreate
  refine ⟨document, hl, hid, fun method hmem => ?_⟩
  rw [hmethods, mem_keys_iff] at hmem
  cases hmem

/-- A key of the DID itself. -/
theorem ownMethods_addKey :
    ∃ m, exec (v2Step Sample.host) method [change (.vmAdd key)] = some m ∧
      m.Holds did (OwnMethods did) := by
  refine ⟨_, rfl, (ownMethods_iff Sample.host (new "node1") method did
    ⟨env, document, .inl create_did⟩ [_]).2 ?_ _ (.of_exec rfl)⟩
  refine ⟨?_, fun m _ => trivial⟩
  intro _ document _ entry hd _
  cases hd
  exact .inr (by decide)

/-- The key of a DID that has the sample DID as a raw prefix. -/
def Sample.foreignKey : VerificationMethod :=
  { key with id := "did:ajna:alice2#key-1", controller := "did:ajna:alice2" }

/-- The key of `did:ajna:alice2` is admitted to the document of `did:ajna:alice`. -/
theorem ownMethods_fails_prefix :
    ¬ ∃ host : Host, ∀ (m₀ m₁ : AjnaMethod) (did : String) (calls : List V2Call)
      (m : AjnaMethod), CreatesInto m₀ did m₁ →
      Along (v2Step host) Authorizes m₁ calls →
      exec (v2Step host) m₁ calls = some m →
      ∀ document, m.registry.lookup did = some document →
        ∀ method ∈ document.verificationMethods.keys, OwnId did method.id := by
  rintro ⟨host, hclaim⟩
  have hallowed := addKey_allowed (show startsWith foreignKey.id document.id = true by decide)
  have hempty : document.OwnMethods did := by
    refine ⟨rfl, fun method hmem => ?_⟩
    rw [show document.verificationMethods = ORSet.new from rfl] at hmem
    cases hmem
  have hbreaks : ¬ document.AddsOwn did (change (.vmAdd foreignKey)) := by
    intro hadds
    have hfollows := hadds foreignKey rfl hallowed
    revert hfollows
    unfold FragmentFollows
    decide
  obtain ⟨doc, ht, hforeign⟩ := foreign_of_not_addsOwn host hempty hbreaks
  obtain ⟨m, hs, hl⟩ := v2Step_of_ok (change_doc _) lookup_registry ht
  refine hforeign ⟨(transformed_of_ok ht).id, ?_⟩
  refine hclaim (new "node1") method did [change (.vmAdd foreignKey)] m
    ⟨env, document, .inl create_did⟩ ?_ ?_ doc hl
  · exact ⟨⟨_, lookup_registry, hallowed⟩, fun _ _ => trivial⟩
  · exact exec_cons_eq_some.2 ⟨m, hs, rfl⟩

end Idiom.Ajna
