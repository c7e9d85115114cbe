import Idiom.Ajna.DocumentRuns

/-!
# Controllers: quorum, and who may become one

A document with a controller set is changed by its controllers, and some changes need
a quorum of them. The engine counts the distinct signers of an operation against the
quorum of the policy; it never asks whether the additional signers control anything.
-/

namespace Idiom.Ajna

open Sample AjnaMethod ORSet Option List

namespace AuthorizationEngine

/-! ## Quorum -/

/-- The integer the policy holds for a kind of delta: under its own key, else under the
key for all updates. -/
def applicableQuorum (delta : Delta) (doc : AjnaDocument) : Option ℤ :=
  (doc.getPolicyInt (quorumPolicyKey delta)).or (doc.getPolicyInt "auth.quorum.update")

def signers (context : AuthorizationContext) : Finset String :=
  insert context.actor context.additionalSignatures.toFinset

def insiders (context : AuthorizationContext) : Finset String :=
  (signers context).filter fun did =>
    context.document.isController did = true ∨ did = context.document.id

/-- If the operation is allowed and the policy asks for a quorum, that many controllers
have signed. -/
def QuorumSound (order : IterOrder VerificationMethod) (operation : Operation)
    (context : AuthorizationContext) : Prop :=
  authorize order operation context = .allowed →
    ∀ q, applicableQuorum operation.delta context.document = some q → 2 ≤ q →
      q ≤ (insiders context).card

/-- The operation passes every other check, and the quorum is reached only by counting
signers who are neither controllers nor the DID itself. -/
structure OutsidersCounted (order : IterOrder VerificationMethod) (operation : Operation)
    (context : AuthorizationContext) : Prop where
  active : context.document.isDeactivated = false
  actor : isActorAuthorized context.actor context.document operation.delta = true
  delta : (authorizeDelta order operation.delta context).isAllowed = true
  /-- There are enough signers, and not enough insiders among them. -/
  short : ∃ q, applicableQuorum operation.delta context.document = some q ∧ 2 ≤ q ∧
    (insiders context).card < q ∧ q ≤ (signers context).card

theorem isAllowed_iff {r : AuthorizationResult} : r.isAllowed = true ↔ r = .allowed := by
  cases r <;> simp [AuthorizationResult.isAllowed]

theorem asI64_lt {j : Json} {q : ℤ} (h : j.asI64 = some q) : q < 2 ^ 63 := by
  cases j with
  | number n =>
    cases n with
    | posInt n =>
      simp only [Json.asI64] at h
      split at h
      · next hle => cases h; omega
      · cases h
    | negInt n =>
      cases h
      exact n.toInt_lt
    | float bits => cases h
  | _ => cases h

theorem asUsize_of_applicableQuorum {delta : Delta} {doc : AjnaDocument} {q : ℤ}
    (h : applicableQuorum delta doc = some q) (hq : 2 ≤ q) : (asUsize q : ℤ) = q := by
  have hlt : q < 2 ^ 63 := by
    rcases or_eq_some_iff.1 h with hown | ⟨-, hall⟩
    · obtain ⟨j, -, hj⟩ := bind_eq_some_iff.1 hown
      exact asI64_lt hj
    · obtain ⟨j, -, hj⟩ := bind_eq_some_iff.1 hall
      exact asI64_lt hj
  unfold asUsize
  omega

theorem getQuorumRequirement_eq {delta : Delta} {doc : AjnaDocument} {q : ℤ}
    (h : applicableQuorum delta doc = some q) : getQuorumRequirement delta doc = asUsize q := by
  unfold getQuorumRequirement
  rcases or_eq_some_iff.1 h with hown | ⟨hown, hall⟩
  · rw [hown]
  · rw [hown, hall]

theorem checkQuorum_isAllowed_iff {operation : Operation} {context : AuthorizationContext} {q : ℤ}
    (h : applicableQuorum operation.delta context.document = some q) (hq : 2 ≤ q) :
    (checkQuorum operation context).isAllowed = true ↔ q ≤ (signers context).card := by
  have husize := asUsize_of_applicableQuorum h hq
  unfold checkQuorum
  dsimp only
  rw [getQuorumRequirement_eq h, if_neg (by omega),
    show insert context.actor context.additionalSignatures.toFinset = signers context from rfl]
  split
  · next hle => exact ⟨fun _ => by omega, fun _ => rfl⟩
  · next hlt => exact ⟨fun hc => (by cases hc), fun hc => absurd hc (by omega)⟩

/-- **A met quorum means that many controllers or the DID itself signed, if and only if
it was not reached by counting outsiders.** -/
theorem quorumSound_iff (order : IterOrder VerificationMethod) (operation : Operation)
    (context : AuthorizationContext) :
    QuorumSound order operation context ↔ ¬ OutsidersCounted order operation context := by
  constructor
  · rintro hsound ⟨hactive, hactor, hdelta, q, hquorum, hq, hshort, henough⟩
    have hallowed : (authorize order operation context).isAllowed = true :=
      authorize_isAllowed_iff.2
        ⟨hactive, hactor, (checkQuorum_isAllowed_iff hquorum hq).2 henough, hdelta⟩
    have := hsound (isAllowed_iff.1 hallowed) q hquorum hq
    omega
  · intro hnot hallowed q hquorum hq
    obtain ⟨hactive, hactor, hcheck, hdelta⟩ :=
      authorize_isAllowed_iff.1 (isAllowed_iff.2 hallowed)
    by_contra hshort
    exact hnot ⟨hactive, hactor, hdelta, q, hquorum, hq, by omega,
      (checkQuorum_isAllowed_iff hquorum hq).1 hcheck⟩

end AuthorizationEngine

open AuthorizationEngine

/-- A document with two controllers whose keys take two signatures to change. -/
def Sample.governed : AjnaDocument :=
  AjnaDocument.newWithGenesis did "node1" ["did:ajna:bob", "did:ajna:carol"]
    [("auth.quorum.vm", .number (.posInt 2))] 0 0 (fun _ => 0) (fun _ => 0)

/-- Bob drops a key reference, with a signature of somebody who controls nothing. -/
def Sample.signedByMallory : AuthorizationContext :=
  ⟨did, "did:ajna:bob", ["did:ajna:mallory"], governed⟩

theorem Sample.isController_governed (d : String) :
    governed.isController d = true ↔ d = "did:ajna:bob" ∨ d = "did:ajna:carol" := by
  show ((new.add "did:ajna:bob" 0).add "did:ajna:carol" 0).contains d = true ↔ _
  rw [contains_add, contains_add, or_comm]
  simp

theorem Sample.applicableQuorum_governed (purpose : VerificationPurpose) (ref : String) :
    applicableQuorum (.refRemove purpose ref) governed = some 2 := by
  rw [applicableQuorum, quorumPolicyKey]
  rfl

/-- One controller and one outsider pass for two controllers. -/
theorem quorumSound_fails_outsider :
    ¬ ∀ (order : IterOrder VerificationMethod) (operation : Operation)
      (context : AuthorizationContext), context.document.controller.isSome = true →
      QuorumSound order operation context := by
  intro hclaim
  have hactor : governed.isController "did:ajna:bob" = true :=
    (isController_governed _).2 (.inl rfl)
  have hinsiders : insiders signedByMallory = {"did:ajna:bob"} := by
    unfold insiders
    rw [show signedByMallory.document = governed from rfl]
    simp only [isController_governed]
    decide
  have hallowed : authorize IterOrder.some (refRemove "op-1" []) signedByMallory = .allowed := by
    refine isAllowed_iff.1 (authorize_isAllowed_iff.2 ⟨rfl, ?_, ?_, rfl⟩)
    · show isActorAuthorized "did:ajna:bob" governed _ = true
      unfold isActorAuthorized
      rw [if_neg (by decide), if_pos hactor]
    · decide
  have hmet := hclaim _ _ signedByMallory rfl hallowed 2 (applicableQuorum_governed _ _) (le_refl 2)
  exact absurd hmet (by decide)

/-! ## Who becomes a controller -/

namespace AjnaDocument

theorem contains_addAll (l : List (String × ℕ)) (set : ORSet String) (uuid : ℕ → Uuid)
    (d : String) :
    (l.foldl (fun s p => s.add p.1 (uuid p.2)) set).contains d = true ↔
      d ∈ l.map Prod.fst ∨ set.contains d = true := by
  induction l generalizing set with
  | nil => simp
  | cons p l ih =>
    rw [foldl_cons, ih, contains_add, map_cons, mem_cons]
    tauto

theorem controller_newWithGenesis (did nodeId : String) {controllers : List String}
    (policy : List (String × Json)) (created updated : DateTime) (uuid : ℕ → Uuid)
    (now : ℕ → DateTime) (hne : controllers ≠ []) :
    ∃ set, (newWithGenesis did nodeId controllers policy created updated uuid now).controller =
        some set ∧ ∀ d, set.contains d = true ↔ d ∈ controllers := by
  have hfilled : controllers.isEmpty = false := by simpa using hne
  refine ⟨controllers.zipIdx.foldl (fun s p => s.add p.1 (uuid p.2)) ORSet.new, ?_, fun d => ?_⟩
  · simp [newWithGenesis, hfilled]
  · rw [contains_addAll]
    simp [zipIdx_map_fst]

/-- The step lemma: an allowed call leaves a controller, and only an addition by a
controller brings a new one. -/
theorem controller_of_transformed {call : V2Call} {document doc : AjnaDocument}
    (ht : Transformed call document doc) {set : ORSet String}
    (hset : document.controller = some set) (hne : set.keys.Nonempty) :
    ∃ set', doc.controller = some set' ∧ set'.keys.Nonempty ∧
      ∀ d, set'.contains d = true → set.contains d = true ∨
        (call.1.delta = .controllerAdd d ∧ document.isController call.1.actor = true) := by
  obtain ⟨-, hactor, -, hdelta⟩ := authorize_isAllowed_iff.1 ht.allowed
  have hctrl := ht.controller
  rw [hset] at hctrl
  cases hd : call.1.delta with
  | controllerAdd did =>
    -- with a controller set, an addition is by a controller
    have hby : document.isController call.1.actor = true := by
      rw [hd] at hactor
      simpa [isActorAuthorized, hset] using hactor
    rw [hd] at hctrl
    refine ⟨_, hctrl, ⟨did, ?_⟩, fun d hin => ?_⟩
    · rw [mem_keys_iff, contains_add]
      exact .inl rfl
    · rcases (contains_add _ did d _).1 hin with rfl | hold
      · exact .inr ⟨rfl, hby⟩
      · exact .inl hold
  | controllerRemove did =>
    -- at least two controllers, so one other than the removed one
    have hlen : 1 < set.keys.card := by
      rw [hd] at hdelta
      simp only [authorizeDelta, hset] at hdelta
      split at hdelta
      · cases hdelta
      · next hlen => exact not_le.1 hlen
    obtain ⟨other, hmem, hother⟩ := Finset.exists_mem_ne hlen did
    rw [hd] at hctrl
    refine ⟨_, hctrl, ⟨other, ?_⟩, fun d hin => ?_⟩
    · rw [mem_keys_iff] at hmem ⊢
      exact (contains_remove _ did other).2 ⟨hother, hmem⟩
    · exact .inl ((contains_remove _ did d).1 hin).2
  | _ =>
    rw [hd] at hctrl
    exact ⟨set, hctrl, hne, fun d hin => .inl hin⟩

end AjnaDocument

/-- Somewhere in the run a `controllerAdd` of `d` was allowed, and its actor was a
controller right before it. -/
def AddedByController (host : Host) (m₁ : AjnaMethod) (calls : List V2Call) (did d : String) :
    Prop :=
  ∃ l₁ call l₂ m, calls = l₁ ++ call :: l₂ ∧ Run.exec (v2Step host) m₁ l₁ = some m ∧
    call.1.doc = did ∧ call.1.delta = .controllerAdd d ∧
    m.Holds did fun document => document.isController call.1.actor = true ∧
      (canApply call.2.authOrder call.1 document).isAllowed = true

theorem AddedByController.snoc {host : Host} {m₁ : AjnaMethod} {calls : List V2Call}
    {did d : String} (h : AddedByController host m₁ calls did d) (call : V2Call) :
    AddedByController host m₁ (calls ++ [call]) did d := by
  obtain ⟨l₁, c, l₂, m, rfl, hm, hdid, hdelta, hby⟩ := h
  exact ⟨l₁, c, l₂ ++ [call], m, by simp, hm, hdid, hdelta, hby⟩

/-- **Over every run from a genesis with controllers, the document always has one, and
every controller is an initial one or was added by somebody who was a controller at that
moment.** -/
theorem controllers_sound (host : Host) (m₀ m₁ : AjnaMethod) (did : String)
    (controllers : List String) (policy : List (String × Json)) (env : CallAmbient)
    (created : AjnaDocument)
    (hcreate : m₀.createWithGenesis did controllers policy env = (m₁, .ok created))
    (hne : controllers ≠ []) (calls : List V2Call) (m : AjnaMethod)
    (hexec : Run.exec (v2Step host) m₁ calls = some m) :
    ∃ document set, m.registry.lookup did = some document ∧ document.controller = some set ∧
      set.keys.Nonempty ∧
      ∀ d, set.contains d = true → d ∈ controllers ∨ AddedByController host m₁ calls did d := by
  induction calls using reverseRecOn generalizing m with
  | nil =>
    cases hexec
    obtain ⟨-, hl⟩ := lookup_createWith hcreate
    obtain ⟨set, hset, hmem⟩ := AjnaDocument.controller_newWithGenesis did m₀.nodeId policy
      env.created env.updated (fun i => (env.amb i).uuid) (fun i => (env.amb i).now) hne
    obtain ⟨d, hd⟩ := exists_mem_of_ne_nil _ hne
    exact ⟨_, set, hl, hset, ⟨d, (mem_keys_iff d).2 ((hmem d).2 hd)⟩,
      fun d hd => .inl ((hmem d).1 hd)⟩
  | append_singleton calls call ih =>
    obtain ⟨u, hu, hstep⟩ := Run.exec_append_eq_some.1 hexec
    obtain ⟨m', hcall, hend⟩ := Run.exec_cons_eq_some.1 hstep
    cases hend
    obtain ⟨document, set, hl, hset, hfilled, horigin⟩ := ih u hu
    have hlift : ∀ d, set.contains d = true →
        d ∈ controllers ∨ AddedByController host m₁ (calls ++ [call]) did d :=
      fun d hd => (horigin d hd).imp_right fun h => h.snoc call
    rcases lookup_v2Step hcall did with ⟨hsame, -⟩ | ⟨hdid, document', doc, hl', ht, hl''⟩
    · exact ⟨document, set, hsame.trans hl, hset, hfilled, hlift⟩
    · obtain rfl : document' = document := some.inj (hl'.symm.trans hl)
      have htrans := transformed_of_ok ht
      obtain ⟨set', hset', hfilled', hnew⟩ :=
        AjnaDocument.controller_of_transformed htrans hset hfilled
      refine ⟨doc, set', hl'', hset', hfilled', fun d hd => ?_⟩
      rcases hnew d hd with hold | ⟨hdelta, hby⟩
      · exact hlift d hold
      · exact .inr ⟨calls, call, [], u, rfl, hu, hdid, hdelta, document', hl, hby, htrans.allowed⟩

/-- An instance whose one DID has the controllers Bob and Carol. -/
noncomputable def Sample.governedMethod : AjnaMethod :=
  ((new "node1").createWithGenesis did ["did:ajna:bob", "did:ajna:carol"] [] env).1

theorem Sample.create_governed : ∃ created,
    (new "node1").createWithGenesis did ["did:ajna:bob", "did:ajna:carol"] []
      env = (governedMethod, .ok created) := by
  exact ⟨_, rfl⟩

noncomputable def Sample.handover : List V2Call :=
  [({ (change (.controllerAdd "did:ajna:dave")).1 with actor := "did:ajna:bob" }, env),
    ({ (change (.controllerRemove "did:ajna:carol")).1 with actor := "did:ajna:bob" }, env)]

theorem controllers_sound_handover :
    ∃ m, Run.exec (v2Step Sample.host) governedMethod handover = some m ∧
      ∃ document set, m.registry.lookup did = some document ∧
        document.controller = some set ∧ set.keys.Nonempty ∧
        ∀ d, set.contains d = true → d ∈ ["did:ajna:bob", "did:ajna:carol"] ∨
          AddedByController Sample.host governedMethod handover did d := by
  obtain ⟨created, hcreate⟩ := create_governed
  exact ⟨_, rfl, controllers_sound _ (new "node1") governedMethod did
    ["did:ajna:bob", "did:ajna:carol"] [] env created hcreate (by decide) handover _ rfl⟩

end Idiom.Ajna
