import Idiom.Ajna.Method

/-!
# `apply_operation_v2`: two stores, one call

The call writes the registry first and appends to the history second, and only the
second step looks at the operation's parents. Parents are documented to be operation
ids; the history looks them up as node hashes.
-/

namespace Idiom.Ajna

open AjnaMethod AuthorizationEngine DagNode MerkleDAG AjnaDocument Operation Finmap Option List

variable {host : Host}

/-! ## One call -/

variable {operation : Operation} {env : CallAmbient}

theorem v2Transform_ok {document doc : AjnaDocument}
    (h : v2Transform host operation env document = .ok doc) :
    (canApply env.authOrder operation document).isAllowed = true ∧
    operation.delta.Applies ∧
    doc.vectorClock = document.vectorClock.increment operation.actor := by
  unfold v2Transform at h
  dsimp only at h
  split at h
  · cases h
  · next hallowed =>
    cases hd : document.applyDeltaV2 operation.delta (env.amb 0) with
    | error fault => rw [hd] at h; cases h
    | ok d =>
      rw [hd] at h
      cases h
      refine ⟨by simpa using hallowed, applies_of_ok hd, ?_⟩
      simp only [(applied_of_ok hd).vectorClock]

theorem v2Transform_of_passes (host : Host) {document : AjnaDocument}
    (hallowed : (canApply env.authOrder operation document).isAllowed = true)
    (happlies : operation.delta.Applies) :
    ∃ doc, v2Transform host operation env document = .ok doc := by
  obtain ⟨d, hd⟩ := applyDeltaV2_ok happlies document (env.amb 0)
  simp only [v2Transform, hallowed, hd]
  exact ⟨_, rfl⟩

/-- Applying an operation always moves the vector clock of the document. -/
theorem v2Transform_ne {document doc : AjnaDocument}
    (h : v2Transform host operation env document = .ok doc) : doc ≠ document := by
  rintro rfl
  exact VectorClock.increment_ne _ _ (v2Transform_ok h).2.2.symm

def Operation.HasDate (operation : Operation) : Prop :=
  (timestampMillisOpt operation.timestampMs.toInt).isSome = true

theorem fromOperationV2_of_hasDate (host : Host) (h : operation.HasDate) (nodeId : String) :
    ∃ node, fromOperationV2 host operation nodeId = .ok node := by
  obtain ⟨t, ht⟩ := isSome_iff_exists.1 h
  simp only [fromOperationV2, ht]
  exact ⟨_, rfl⟩

theorem hasDate_of_fromOperationV2 {nodeId : String} {node : DagNode}
    (h : fromOperationV2 host operation nodeId = .ok node) : operation.HasDate := by
  unfold fromOperationV2 at h
  unfold HasDate
  split at h
  · cases h
  · next t ht => rw [ht]; rfl

/-- The history of a DID; a missing one counts as empty. -/
def AjnaMethod.dag (m : AjnaMethod) (did : String) : MerkleDAG :=
  (m.history.lookup did).getD MerkleDAG.new

section

variable {m : AjnaMethod} {operation : Operation} {env : CallAmbient}
  {document doc : AjnaDocument} {node : DagNode}

section

variable (hl : m.registry.lookup operation.doc = some document)
  (ht : AjnaMethod.v2Transform host operation env document = .ok doc)
  (hn : fromOperationV2 host operation m.nodeId = .ok node)
include hl ht hn

/-- The call once every check on the document has passed: the registry is written, and the
history decides. -/
theorem applyOperationV2_of_transformed :
    m.applyOperationV2 host operation env =
      match (m.dag operation.doc).addNode host node with
      | .ok dag' =>
        ({ m with
            registry := m.registry.insert operation.doc doc
            history := m.history.insert operation.doc dag' }, .ok doc)
      | .error e =>
        ({ m with
            registry := m.registry.insert operation.doc doc
            history := m.history.insert operation.doc (m.dag operation.doc) },
              .error (.err e)) := by
  have hres := AjnaMethod.resolve_eq_ok.2 hl
  unfold AjnaMethod.dag
  simp only [AjnaMethod.applyOperationV2, hres, AjnaMethod.modify, ht, AjnaMethod.pushHistory, hn,
    AjnaMethod.history_insertDocument]
  cases ((m.history.lookup operation.doc).getD new).addNode host node <;> rfl

theorem applyOperationV2_accepted (hp : (m.dag operation.doc).HasParents operation.parents) :
    ∃ dag', m.applyOperationV2 host operation env =
      ({ m with
          registry := m.registry.insert operation.doc doc
          history := m.history.insert operation.doc dag' }, .ok doc) ∧
      dag'.nodes = (m.dag operation.doc).nodes.insert node.hash node := by
  obtain ⟨-, hparents, hv⟩ := fromOperationV2_ok hn
  rw [← hparents] at hp
  obtain ⟨dag', hadd, hnodes⟩ := addNode_of_hasParents hv hp
  refine ⟨dag', ?_, hnodes⟩
  rw [applyOperationV2_of_transformed hl ht hn, hadd]

/-- The call once every check on the document has passed and a parent is missing: the
registry is written all the same. -/
theorem applyOperationV2_rejected (hp : ¬ (m.dag operation.doc).HasParents operation.parents) :
    ∃ parent ∈ operation.parents, m.applyOperationV2 host operation env =
      ({ m with
          registry := m.registry.insert operation.doc doc
          history := m.history.insert operation.doc (m.dag operation.doc) },
        .error (.err (.merkleDag ("Parent node not found: " ++ parent)))) := by
  obtain ⟨-, hparents, hv⟩ := fromOperationV2_ok hn
  rw [← hparents] at hp
  obtain ⟨parent, hmem, -, hadd⟩ := addNode_of_not_hasParents hv hp
  refine ⟨parent, hparents ▸ hmem, ?_⟩
  rw [applyOperationV2_of_transformed hl ht hn, hadd]

end

theorem applyOperationV2_panicked (hl : m.registry.lookup operation.doc = some document)
    (ht : AjnaMethod.v2Transform host operation env document = .ok doc)
    (hdate : ¬ operation.HasDate) :
    m.applyOperationV2 host operation env =
      ({ m with
          registry := m.registry.insert operation.doc doc
          history := m.history.insert operation.doc (m.dag operation.doc) },
        .error .panicked) := by
  have hres := AjnaMethod.resolve_eq_ok.2 hl
  have hnode : fromOperationV2 host operation m.nodeId = .error .panicked := by
    have hnone : timestampMillisOpt operation.timestampMs.toInt = none := by
      simpa [HasDate] using hdate
    simp only [fromOperationV2, hnone]
  simp only [AjnaMethod.applyOperationV2, hres, AjnaMethod.modify, ht, hnode]
  rfl

theorem applyOperationV2_of_transform_error {fault : Fault}
    (hl : m.registry.lookup operation.doc = some document)
    (ht : AjnaMethod.v2Transform host operation env document = .error fault) :
    m.applyOperationV2 host operation env = (m, .error fault) := by
  have hres := AjnaMethod.resolve_eq_ok.2 hl
  simp only [AjnaMethod.applyOperationV2, hres, AjnaMethod.modify, ht]

theorem applyOperationV2_of_missing (hl : m.registry.lookup operation.doc = none) :
    m.applyOperationV2 host operation env = (m, .error (.err (.didNotFound operation.doc))) := by
  simp only [applyOperationV2, resolve, hl]

theorem AjnaMethod.dag_insertHistory (m : AjnaMethod) (registry : FMap String AjnaDocument)
    (did d : String) (dag : MerkleDAG) :
    ({ m with registry := registry, history := m.history.insert did dag } : AjnaMethod).dag d =
      if d = did then dag else m.dag d := by
  unfold AjnaMethod.dag
  rw [FMap.lookup_insert_ite]
  split <;> rfl

theorem AjnaMethod.dag_insertHistory_self (m : AjnaMethod) (registry : FMap String AjnaDocument)
    (did d : String) :
    ({ m with registry := registry, history := m.history.insert did (m.dag did) } :
      AjnaMethod).dag d = m.dag d := by
  rw [dag_insertHistory]
  split
  · next h => rw [h]
  · rfl

/-- What a call does to the histories: one node is stored in the DID's own if the call
succeeds, and nothing changes if it does not. -/
theorem dag_applyOperationV2 (host : Host) (m : AjnaMethod) (operation : Operation)
    (env : CallAmbient) :
    (∃ doc node m', m.applyOperationV2 host operation env = (m', .ok doc) ∧
      m'.nodeId = m.nodeId ∧ fromOperationV2 host operation m.nodeId = .ok node ∧
      (m.dag operation.doc).HasParents operation.parents ∧
      (∃ dag', m'.history.lookup operation.doc = some dag' ∧
        dag'.nodes = (m.dag operation.doc).nodes.insert node.hash node) ∧
      ∀ d, d ≠ operation.doc → m'.dag d = m.dag d) ∨
    (∃ fault m', m.applyOperationV2 host operation env = (m', .error fault) ∧
      m'.nodeId = m.nodeId ∧ ∀ d, m'.dag d = m.dag d) := by
  cases hl : m.registry.lookup operation.doc with
  | none => exact .inr ⟨_, _, applyOperationV2_of_missing hl, rfl, fun _ => rfl⟩
  | some document =>
    cases ht : v2Transform host operation env document with
    | error fault =>
      exact .inr ⟨_, _, applyOperationV2_of_transform_error hl ht, rfl, fun _ => rfl⟩
    | ok doc =>
      by_cases hdate : operation.HasDate
      · obtain ⟨node, hn⟩ := fromOperationV2_of_hasDate host hdate m.nodeId
        by_cases hp : (m.dag operation.doc).HasParents operation.parents
        · obtain ⟨dag', hcall, hnodes⟩ := applyOperationV2_accepted hl ht hn hp
          refine .inl ⟨doc, node, _, hcall, rfl, hn, hp, ⟨dag', ?_, hnodes⟩, fun d hd => ?_⟩
          · exact lookup_insert _
          · rw [dag_insertHistory, if_neg hd]
        · obtain ⟨parent, -, hcall⟩ := applyOperationV2_rejected hl ht hn hp
          exact .inr ⟨_, _, hcall, rfl, fun d => dag_insertHistory_self m _ _ d⟩
      · exact .inr ⟨_, _, applyOperationV2_panicked hl ht hdate, rfl,
          fun d => dag_insertHistory_self m _ _ d⟩

end

/-! ## All or nothing -/

/-- An error leaves the document and the history of the DID as they were; a success
leaves the returned document and a node that holds the operation. -/
def AllOrNothing (host : Host) (m : AjnaMethod) (operation : Operation) (env : CallAmbient) :
    Prop :=
  match m.applyOperationV2 host operation env with
  | (m', .error (.err _)) =>
    m'.registry.lookup operation.doc = m.registry.lookup operation.doc ∧
    m'.history.lookup operation.doc = m.history.lookup operation.doc
  | (m', .ok document) =>
    m'.registry.lookup operation.doc = some document ∧
    ∃ dag hash node, m'.history.lookup operation.doc = some dag ∧
      dag.nodes.lookup hash = some node ∧ node.operations = .v2 operation
  | (_, .error .panicked) => True

/-- The operation passes every check on the document, and one of its parents is not
the hash of a node. -/
structure WrittenThenRejected (m : AjnaMethod) (operation : Operation) (env : CallAmbient) :
    Prop where
  /-- The DID is registered and the engine allows the operation. -/
  allowed : ∃ document, m.registry.lookup operation.doc = some document ∧
    (canApply env.authOrder operation document).isAllowed = true
  /-- The delta applies. -/
  applies : operation.delta.Applies
  /-- The timestamp is a date. -/
  date : operation.HasDate
  /-- A parent is not a key of the history. -/
  orphan : ¬ (m.dag operation.doc).HasParents operation.parents

theorem not_allOrNothing_of_writtenThenRejected {m : AjnaMethod}
    (h : WrittenThenRejected m operation env) : ¬ AllOrNothing host m operation env := by
  obtain ⟨⟨document, hl, hallowed⟩, happlies, hdate, horphan⟩ := h
  obtain ⟨doc, ht⟩ := v2Transform_of_passes host hallowed happlies
  obtain ⟨node, hn⟩ := fromOperationV2_of_hasDate host hdate m.nodeId
  obtain ⟨parent, -, hcall⟩ := applyOperationV2_rejected hl ht hn horphan
  unfold AllOrNothing
  rw [hcall]
  rintro ⟨hreg, -⟩
  rw [lookup_insert, hl, some.injEq] at hreg
  exact v2Transform_ne ht hreg

theorem allOrNothing_of_not_writtenThenRejected {m : AjnaMethod}
    (h : ¬ WrittenThenRejected m operation env) : AllOrNothing host m operation env := by
  unfold AllOrNothing
  cases hl : m.registry.lookup operation.doc with
  | none =>
    rw [applyOperationV2_of_missing hl]
    exact ⟨hl, rfl⟩
  | some document =>
    cases ht : v2Transform host operation env document with
    | error fault =>
      rw [applyOperationV2_of_transform_error hl ht]
      cases fault with
      | err e => exact ⟨hl, rfl⟩
      | panicked => trivial
    | ok doc =>
      by_cases hdate : operation.HasDate
      · obtain ⟨node, hn⟩ := fromOperationV2_of_hasDate host hdate m.nodeId
        have hp : (m.dag operation.doc).HasParents operation.parents := by
          by_contra horphan
          obtain ⟨hallowed, happlies, -⟩ := v2Transform_ok ht
          exact h ⟨⟨document, hl, hallowed⟩, happlies, hdate, horphan⟩
        obtain ⟨dag', hcall, hnodes⟩ := applyOperationV2_accepted hl ht hn hp
        rw [hcall]
        refine ⟨lookup_insert _, dag', node.hash, node, lookup_insert _, ?_, ?_⟩
        · rw [hnodes, lookup_insert]
        · exact (fromOperationV2_ok hn).1
      · rw [applyOperationV2_panicked hl ht hdate]
        trivial

/-- **`apply_operation_v2` is all-or-nothing exactly when it is not the case that the
operation passes every check on the document and a parent is missing from the
history.** -/
theorem allOrNothing_iff (host : Host) (m : AjnaMethod) (operation : Operation)
    (env : CallAmbient) :
    AllOrNothing host m operation env ↔ ¬ WrittenThenRejected m operation env :=
  ⟨fun h hw => not_allOrNothing_of_writtenThenRejected hw h,
    allOrNothing_of_not_writtenThenRejected⟩

open Sample

/-- An operation by the DID itself that drops a key reference; always allowed on the
sample document. -/
def Sample.refRemove (opId : String) (parents : List String) : Operation where
  opType := "org.ajna.did/op/1.0"
  doc := Sample.did
  opId := opId
  parents := parents
  actor := Sample.did
  clock := ⟨1, 1⟩
  delta := .refRemove .authentication "did:ajna:alice#key-1"
  auth := ⟨"", "did:ajna:alice#key-1"⟩
  timestampMs := 0

theorem Sample.refRemove_allowed (opId : String) (parents : List String) {doc : AjnaDocument}
    (hid : doc.id = Sample.did) (hdeact : doc.deactivated = none) (hpol : doc.policy = none) :
    (canApply Sample.env.authOrder (refRemove opId parents) doc).isAllowed = true := by
  simp [canApply, authorize, isDeactivated, hdeact, isActorAuthorized, hid, refRemove,
    checkQuorum, getQuorumRequirement, getPolicyInt, getPolicy, hpol, authorizeDelta,
    AuthorizationResult.isAllowed]

theorem Sample.refRemove_hasDate (opId : String) (parents : List String) :
    (refRemove opId parents).HasDate := by
  show (timestampMillisOpt (0 : Int64).toInt).isSome = true
  decide

/-- An allowed operation whose parent is unknown: the call returns an error and the
registry has changed. -/
theorem allOrNothing_fails_orphan :
    ¬ ∃ host : Host, AllOrNothing host Sample.method
      (refRemove "op-2" ["op-1"]) Sample.env := by
  rintro ⟨host, h⟩
  have horphan : ¬ (Sample.method.dag Sample.did).HasParents ["op-1"] := by
    intro hp
    have hlook := hp "op-1" mem_cons_self
    simp [dag, MerkleDAG.new] at hlook
  have hrejected : WrittenThenRejected Sample.method (refRemove "op-2" ["op-1"])
      Sample.env :=
    { allowed := ⟨Sample.document, lookup_registry,
        refRemove_allowed _ _ rfl rfl rfl⟩
      applies := trivial
      date := refRemove_hasDate _ _
      orphan := horphan }
  exact not_allOrNothing_of_writtenThenRejected hrejected h

/-! ## Runs from a creation -/

/-- A state of a run, with the operations applied to the DID so far, newest first. -/
structure V2Run where
  method : AjnaMethod
  applied : List Operation

open V2Run

def V2Run.step (host : Host) (did : String) (s : V2Run) (c : Operation × CallAmbient) : V2Run :=
  match s.method.applyOperationV2 host c.1 c.2 with
  | (m, .ok _) => ⟨m, if c.1.doc = did then c.1 :: s.applied else s.applied⟩
  | (m, .error _) => ⟨m, s.applied⟩

def V2Run.run (host : Host) (did : String) (s : V2Run) (calls : List (Operation × CallAmbient)) :
    V2Run :=
  calls.foldl (step host did) s

/-- The run starts right after a successful `create` or `create_with_genesis`. -/
def CreatesInto (m : AjnaMethod) (did : String) (m' : AjnaMethod) : Prop :=
  ∃ env document, m.create did env = (m', .ok document) ∨
    ∃ controllers policy, m.createWithGenesis did controllers policy env = (m', .ok document)

/-- The hash under which the history keeps an operation. -/
def Operation.nodeHash (host : Host) (nodeId : String) (operation : Operation) : Option Hash :=
  (fromOperationV2 host operation nodeId).toOption.map hash

/-- The newest applied operation whose node has the given hash. -/
def V2Run.atHash (host : Host) (s : V2Run) (hash : Hash) : Option Operation :=
  s.applied.find? fun p => p.nodeHash host s.method.nodeId = some hash

/-- The history holds the nodes of the applied operations and nothing else. -/
def V2Run.Recorded (host : Host) (did : String) (s : V2Run) : Prop :=
  ∀ hash, (s.method.dag did).nodes.lookup hash =
    (s.atHash host hash).bind fun p =>
      (fromOperationV2 host p s.method.nodeId).toOption

variable {did : String}

theorem V2Run.recorded_start {m m' : AjnaMethod} (h : CreatesInto m did m') :
    Recorded host did ⟨m', []⟩ := by
  have hwith : ∀ document document', m.createWith did document = (m', .ok document') →
      m'.dag did = MerkleDAG.new := by
    intro document document' hc
    unfold createWith at hc
    split at hc
    · cases hc
    · cases hc
      simp [dag, initHistory]
  have hdag : m'.dag did = MerkleDAG.new := by
    obtain ⟨env, document, hc | ⟨controllers, policy, hc⟩⟩ := h
    · exact hwith _ _ hc
    · exact hwith _ _ hc
  intro hash
  simp [hdag, MerkleDAG.new, atHash]

variable {s : V2Run}

theorem V2Run.recorded_step (h : s.Recorded host did) (c : Operation × CallAmbient) :
    (s.step host did c).Recorded host did := by
  obtain ⟨operation, env⟩ := c
  rcases dag_applyOperationV2 host s.method operation env with
    ⟨doc, node, m', hcall, hnode, hn, -, ⟨dag', hdag', hnodes⟩, hother⟩ | ⟨fault, m', hcall, hnode,
      hsame⟩
  · simp only [step, hcall]
    intro hash
    by_cases hdid : operation.doc = did
    · subst hdid
      have hhash : operation.nodeHash host s.method.nodeId = some node.hash := by
        rw [nodeHash, hn]
        rfl
      have hdag : m'.dag operation.doc = dag' := by rw [dag, hdag']; rfl
      have hold := h hash
      unfold atHash at hold ⊢
      rw [hdag, hnodes, FMap.lookup_insert_ite]
      by_cases heq : hash = node.hash
      · subst heq
        simp [hhash, hnode, hn, Except.toOption]
      · have hne : ¬ node.hash = hash := fun hc => heq hc.symm
        rw [if_neg heq, hold, hnode]
        simp [hhash, hne]
    · have hne : did ≠ operation.doc := fun hc => hdid hc.symm
      have hold := h hash
      simp only [if_neg hdid, atHash, hnode, hother did hne] at hold ⊢
      exact hold
  · simp only [step, hcall]
    intro hash
    have hold := h hash
    simp only [atHash, hnode, hsame did] at hold ⊢
    exact hold

theorem V2Run.recorded_run (h : s.Recorded host did) (calls : List (Operation × CallAmbient)) :
    (s.run host did calls).Recorded host did := by
  induction calls generalizing s with
  | nil => exact h
  | cons c l ih => exact ih (recorded_step h c)

/-! ## Causally ready operations -/

/-- The engine allows the operation on the stored document. -/
def V2Run.Authorized (s : V2Run) (operation : Operation) (env : CallAmbient) : Prop :=
  ∃ document, s.method.registry.lookup operation.doc = some document ∧
    (canApply env.authOrder operation document).isAllowed = true

def V2Run.CausallyReady (s : V2Run) (operation : Operation) : Prop :=
  ∀ parent ∈ operation.parents, ∃ p ∈ s.applied, p.opId = parent

/-- The call succeeds and stores a node with the operation, each of whose parents
leads, in the history the node is appended to, to the applied operation it names. -/
def V2Run.Accepted (host : Host) (s : V2Run) (operation : Operation) (env : CallAmbient) : Prop :=
  ∃ m' document dag' node, s.method.applyOperationV2 host operation env = (m', .ok document) ∧
    fromOperationV2 host operation s.method.nodeId = .ok node ∧
    m'.history.lookup operation.doc = some dag' ∧ dag'.nodes.lookup node.hash = some node ∧
    node.operations = .v2 operation ∧
    ∀ parent ∈ node.parents, ∃ pnode p,
      (s.method.dag operation.doc).nodes.lookup parent = some pnode ∧
      pnode.operations = .v2 p ∧ p ∈ s.applied ∧ p.opId = parent

/-- The parent is both the id of an applied operation and the hash of its node. -/
def V2Run.NamesNode (host : Host) (s : V2Run) (parent : String) : Prop :=
  ∃ p, s.atHash host parent = some p ∧ p.opId = parent

theorem V2Run.nodeHash_of_atHash {hash : Hash} {p : Operation} (h : s.atHash host hash = some p) :
    p ∈ s.applied ∧ ∃ node, fromOperationV2 host p s.method.nodeId = .ok node ∧
      node.hash = hash := by
  refine ⟨mem_of_find?_eq_some h, ?_⟩
  have hhash : p.nodeHash host s.method.nodeId = some hash := by
    simpa using find?_some h
  unfold nodeHash at hhash
  cases hn : fromOperationV2 host p s.method.nodeId with
  | error fault => rw [hn] at hhash; cases hhash
  | ok node =>
    rw [hn] at hhash
    exact ⟨node, rfl, some.inj hhash⟩

theorem V2Run.namesNode_iff (h : s.Recorded host did) (parent : String) :
    s.NamesNode host parent ↔ ∃ pnode p, (s.method.dag did).nodes.lookup parent = some pnode ∧
      pnode.operations = .v2 p ∧ p ∈ s.applied ∧ p.opId = parent := by
  constructor
  · rintro ⟨p, hat, hid⟩
    obtain ⟨hmem, node, hn, -⟩ := nodeHash_of_atHash hat
    refine ⟨node, p, ?_, (fromOperationV2_ok hn).1, hmem, hid⟩
    rw [h parent, hat]
    simp [hn, Except.toOption]
  · rintro ⟨pnode, p, hlook, hops, -, hid⟩
    rw [h parent] at hlook
    cases hat : s.atHash host parent with
    | none => rw [hat] at hlook; cases hlook
    | some q =>
      obtain ⟨-, node, hn, -⟩ := nodeHash_of_atHash hat
      rw [hat] at hlook
      simp only [bind_some, hn, Except.toOption, some.injEq] at hlook
      subst hlook
      rw [(fromOperationV2_ok hn).1] at hops
      cases hops
      exact ⟨p, hat, hid⟩

theorem V2Run.accepted_iff (h : s.Recorded host operation.doc) (hauth : s.Authorized operation env)
    :
    s.Accepted host operation env ↔
      operation.delta.Applies ∧ operation.HasDate ∧
        ∀ parent ∈ operation.parents, s.NamesNode host parent := by
  obtain ⟨document, hl, hallowed⟩ := hauth
  constructor
  · rintro ⟨m', document', dag', node, hcall, hn, -, -, -, hparents⟩
    refine ⟨?_, hasDate_of_fromOperationV2 hn, fun parent hmem => ?_⟩
    · simp only [applyOperationV2, resolve_eq_ok.2 hl] at hcall
      exact (v2Transform_ok (modify_ok host hcall)).2.1
    · rw [← (fromOperationV2_ok hn).2.1] at hmem
      exact (namesNode_iff h parent).2 (hparents parent hmem)
  · rintro ⟨happlies, hdate, hnames⟩
    obtain ⟨doc, ht⟩ := v2Transform_of_passes host hallowed happlies
    obtain ⟨node, hn⟩ := fromOperationV2_of_hasDate host hdate s.method.nodeId
    have hp : (s.method.dag operation.doc).HasParents operation.parents := by
      intro parent hmem
      obtain ⟨pnode, p, hlook, -⟩ := (namesNode_iff h parent).1 (hnames parent hmem)
      rw [hlook]
      rfl
    obtain ⟨dag', hcall, hnodes⟩ := applyOperationV2_accepted hl ht hn hp
    obtain ⟨hops, hparents, -⟩ := fromOperationV2_ok hn
    refine ⟨_, doc, dag', node, hcall, hn, lookup_insert _, ?_, hops, ?_⟩
    · rw [hnodes, lookup_insert]
    · intro parent hmem
      rw [hparents] at hmem
      exact (namesNode_iff h parent).1 (hnames parent hmem)

/-- **Along every run from a creation, an authorized operation whose parents are ids of
applied operations is accepted exactly when it applies, has a date, and each parent is
also the hash of the node of the operation it names.** -/
theorem causallyReady_accepted_iff (host : Host) (m₀ m₁ : AjnaMethod) (did : String)
    (hcreate : CreatesInto m₀ did m₁) (calls : List (Operation × CallAmbient))
    (operation : Operation) (hdoc : operation.doc = did) (env : CallAmbient)
    (hauth : (run host did ⟨m₁, []⟩ calls).Authorized operation env) :
    (run host did ⟨m₁, []⟩ calls).CausallyReady operation →
    ((run host did ⟨m₁, []⟩ calls).Accepted host operation env ↔
      operation.delta.Applies ∧ operation.HasDate ∧
        ∀ parent ∈ operation.parents, (run host did ⟨m₁, []⟩ calls).NamesNode host parent) := by
  intro _
  subst hdoc
  exact accepted_iff (recorded_run (recorded_start hcreate) calls) hauth

/-- The first operation after a creation has no parents and is accepted. -/
theorem causallyReady_accepted_first :
    (run Sample.host Sample.did ⟨Sample.method, []⟩ []).Accepted Sample.host
      (refRemove "op-1" []) Sample.env := by
  refine (causallyReady_accepted_iff _ (new "node1") Sample.method Sample.did
    ⟨Sample.env, Sample.document, .inl create_did⟩ [] (refRemove "op-1" []) rfl
    Sample.env ?_ ?_).2 ?_
  · exact ⟨Sample.document, lookup_registry, refRemove_allowed _ _ rfl rfl rfl⟩
  · intro parent hmem
    cases hmem
  · exact ⟨trivial, refRemove_hasDate _ _, fun parent hmem => by cases hmem⟩

/-- The sample document after its first operation. -/
def Sample.documentOne : AjnaDocument :=
  { Sample.document with vectorClock := Sample.document.vectorClock.increment Sample.did }

theorem Sample.run_first (host : Host) :
    ∃ m, run host Sample.did ⟨Sample.method, []⟩ [(refRemove "op-1" [], Sample.env)] =
        ⟨m, [refRemove "op-1" []]⟩ ∧
      m.registry.lookup Sample.did = some documentOne := by
  obtain ⟨node, hn⟩ := fromOperationV2_of_hasDate host (refRemove_hasDate "op-1" [])
    Sample.method.nodeId
  have ht : v2Transform host (refRemove "op-1" []) Sample.env Sample.document =
      .ok documentOne := by
    simp only [v2Transform]
    rfl
  obtain ⟨dag', hcall, -⟩ := applyOperationV2_accepted lookup_registry ht hn
    (fun parent hmem => by cases hmem)
  refine ⟨⟨Sample.method.registry.insert Sample.did documentOne,
    Sample.method.history.insert Sample.did dag', "node1"⟩, ?_, lookup_insert _⟩
  simp only [run, foldl_cons, step, hcall]
  rfl


/-- Two operations in a row, the second naming the first by its id: whatever hash
function of 43 characters is linked, the second is refused. -/
theorem causallyReady_refused :
    ¬ ∃ host : Host, (∀ bytes, (host.digest bytes).length = 43) ∧
      ∀ (m₀ m₁ : AjnaMethod) (did : String) (calls : List (Operation × CallAmbient))
        (operation : Operation) (env : CallAmbient), CreatesInto m₀ did m₁ →
        operation.doc = did → (run host did ⟨m₁, []⟩ calls).Authorized operation env →
        (run host did ⟨m₁, []⟩ calls).CausallyReady operation →
        (run host did ⟨m₁, []⟩ calls).Accepted host operation env := by
  rintro ⟨host, hdigest, hclaim⟩
  have hcreate : CreatesInto (new "node1") did method :=
    ⟨env, document, .inl create_did⟩
  obtain ⟨m, hrun, hlook⟩ := run_first host
  have hauth : (mk m [refRemove "op-1" []]).Authorized
      (refRemove "op-2" ["op-1"]) env :=
    ⟨documentOne, hlook, refRemove_allowed _ _ rfl rfl rfl⟩
  have hready : (mk m [refRemove "op-1" []]).CausallyReady
      (refRemove "op-2" ["op-1"]) := by
    intro parent hmem
    exact ⟨_, mem_cons_self, (mem_singleton.1 hmem).symm⟩
  have hstart : Recorded host did ⟨method, []⟩ := recorded_start hcreate
  have hrecorded := recorded_run hstart [(refRemove "op-1" [], env)]
  have hacc := hclaim _ _ _ [(refRemove "op-1" [], env)] _ env hcreate rfl
    (hrun ▸ hauth) (hrun ▸ hready)
  rw [hrun] at hacc hrecorded
  obtain ⟨-, -, hnames⟩ := (accepted_iff hrecorded hauth).1 hacc
  obtain ⟨p, hat, -⟩ := hnames "op-1" mem_cons_self
  -- so "op-1" would be a digest
  obtain ⟨-, node, hn, hhash⟩ := nodeHash_of_atHash hat
  obtain ⟨bytes, hbytes⟩ := fromOperationV2_hash hn
  have hlen := hdigest bytes
  rw [← hbytes, hhash] at hlen
  exact absurd hlen (by decide)

end Idiom.Ajna
