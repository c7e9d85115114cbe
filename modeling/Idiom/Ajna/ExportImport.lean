import Idiom.Ajna.DagChain
import Idiom.Ajna.LegacyReplay

/-!
# Exporting a document and importing it elsewhere

An export carries the legacy operations of the history and an import replays them on an
empty document. The registry document was built call by call, the history node by node;
here both are followed along a run, and they stay replays of one list of operations.
-/

namespace Idiom.Ajna

open CRDTOperation ORSet List Option IterOrder Run

/-! ## Replaying the methods twice -/

/-- No two live methods share an id. -/
def UniqueIds (methods : ORSet VerificationMethod) : Prop :=
  ∀ a ∈ methods.keys, ∀ b ∈ methods.keys, a.id = b.id → a = b

/-- What an operation makes of the live methods, as long as ids are unique. -/
def CRDTOperation.onKeys (keys : Finset VerificationMethod) : CRDTOperation →
    Finset VerificationMethod
  | .addVerificationMethod method _ _ => insert method keys
  | .removeVerificationMethod methodId _ _ _ => keys.filter fun m => m.id ≠ methodId
  | _ => keys

theorem keys_onMethods {methods : ORSet VerificationMethod} (h : UniqueIds methods)
    (op : CRDTOperation) (amb : Ambient) :
    (op.onMethods amb methods).keys = op.onKeys methods.keys := by
  cases op with
  | addVerificationMethod method timestamp nodeId =>
    ext e
    rw [mem_keys_iff, onMethods, contains_add, onKeys, Finset.mem_insert, mem_keys_iff]
  | removeVerificationMethod methodId method timestamp nodeId =>
    ext e
    rw [mem_keys_iff, onMethods, onKeys, Finset.mem_filter, mem_keys_iff]
    by_cases hid : e.id = methodId
    · subst hid
      refine iff_of_false (fun hc => ?_) (fun hc => hc.2 rfl)
      have hmem := (mem_keys_iff e).2 (contains_of_removeFirstMethod hc)
      have hgone : (AjnaDocument.removeFirstMethod methods amb.order e.id).contains e = false :=
        contains_removeFirstMethod_self fun m hm heq =>
          h m ((mem_keys_iff m).2 hm) e hmem heq
      rw [hgone] at hc
      cases hc
    · rw [contains_removeFirstMethod_of_ne hid]
      exact (and_iff_left hid).symm
  | _ => rfl

variable {l₁ l₂ : List (CRDTOperation × Ambient)}

/-- **Two replays of one list end in one method set**, whatever UUIDs and iteration orders
they use, if ids are unique before every operation of the first. -/
theorem keys_methodsAll_eq {methods₁ methods₂ : ORSet VerificationMethod}
    (hl : l₁.map Prod.fst = l₂.map Prod.fst) (hkeys : methods₁.keys = methods₂.keys)
    (huniq : ∀ l, l <+: l₁ → UniqueIds (methodsAll l methods₁)) :
    (methodsAll l₁ methods₁).keys = (methodsAll l₂ methods₂).keys := by
  induction l₁ generalizing l₂ methods₁ methods₂ with
  | nil =>
    rw [map_nil, eq_comm, map_eq_nil_iff] at hl
    rw [hl]
    exact hkeys
  | cons p l₁ ih =>
    cases l₂ with
    | nil => cases hl
    | cons q l₂ =>
      obtain ⟨hop, htail⟩ := cons.inj hl
      have hu₁ : UniqueIds methods₁ := huniq [] nil_prefix
      have hu₂ : UniqueIds methods₂ := by
        unfold UniqueIds
        rw [← hkeys]
        exact hu₁
      show (methodsAll l₁ (p.1.onMethods p.2 methods₁)).keys =
        (methodsAll l₂ (q.1.onMethods q.2 methods₂)).keys
      refine ih htail ?_ fun l hpre => huniq (p :: l) (cons_prefix_cons.2 ⟨rfl, hpre⟩)
      rw [keys_onMethods hu₁, keys_onMethods hu₂, hkeys, hop]

/-! ## Runs -/

namespace Call

def isLegacy : Call → Bool
  | .create _ => true
  | .applyOperation _ _ => true
  | .applyOperations _ _ => true
  | .mergeUpdate _ => true
  | _ => false

/-- The legacy operations a call applies. -/
def operations : Call → List CRDTOperation
  | .applyOperation _ operation => [operation]
  | .applyOperations _ operations => operations
  | .mergeUpdate update => update.operations
  | _ => []

def applied (call : Call) (env : CallAmbient) : List (CRDTOperation × Ambient) :=
  stamped call.operations env.amb

end Call

namespace AjnaMethod

/-- Run a legacy call for the DID; what a failed call leaves behind counts too. -/
def legacyStep (host : Host) (did : String) (m : AjnaMethod) (p : Call × CallAmbient) :
    Option AjnaMethod :=
  if p.1.isLegacy && p.1.did = did then some (p.1.perform host m p.2).1 else none

/-- The history of a DID, empty if there is none. -/
def historyOf (m : AjnaMethod) (did : String) : MerkleDAG :=
  (m.history.lookup did).getD MerkleDAG.new

/-- The methods of a DID, none if there is no document. -/
def methodsOf (m : AjnaMethod) (did : String) : ORSet VerificationMethod :=
  ((m.registry.lookup did).map AjnaDocument.verificationMethods).getD ORSet.new

def NoCollision (host : Host) (did : String) (m : AjnaMethod) (p : Call × CallAmbient) : Prop :=
  ∀ mkNode node, p.1.record host m.nodeId p.2 = some mkNode → mkNode (m.historyOf did) = .ok node →
    host.CollisionFree (insert (node.hashedBytes host)
      {bytes | ∃ n, (m.historyOf did).Contains n ∧ bytes = n.hashedBytes host})

/-- While the call applies its operations, no two live methods share an id. -/
def Unambiguous (did : String) (m : AjnaMethod) (p : Call × CallAmbient) : Prop :=
  (m.registry.lookup did).isSome = true ∨ p.1.createsMissing = true →
    ∀ l, l <+: p.1.applied p.2 → UniqueIds (methodsAll l (m.methodsOf did))

/-- The DID has no document and no history. -/
structure Absent (did : String) (m : AjnaMethod) : Prop where
  registry : m.registry.lookup did = none
  history : m.history.lookup did = none

/-- The document and the history of the DID, as replays of `l`. -/
structure Present (host : Host) (did : String) (m : AjnaMethod) (doc : AjnaDocument)
    (l : List (CRDTOperation × Ambient)) : Prop where
  registry : m.registry.lookup did = some doc
  history : ∃ dag chain, m.history.lookup did = some dag ∧ dag.IsChain host chain ∧
    chain.flatMap DagNode.getOperations = l.map Prod.fst
  methods : doc.verificationMethods = methodsAll l ORSet.new
  service : doc.service = serviceAll (l.map Prod.fst) none

variable {m : AjnaMethod} {host : Host} {did : String} {doc : AjnaDocument} {env : CallAmbient}

/-- **An update of a chain** writes the document and appends one node. -/
theorem modify_chain (hf : host.Formats) {doc' : AjnaDocument} {dag : MerkleDAG}
    {chain : List DagNode} {transform : AjnaDocument → Result AjnaDocument}
    {ops : List CRDTOperation} {nodeId : String} (hhist : m.history.lookup did = some dag)
    (hchain : dag.IsChain host chain) (ht : transform doc = .ok doc')
    (hcf : ∀ node, legacyNode host ops nodeId env dag = .ok node →
      host.CollisionFree (insert (node.hashedBytes host)
        {bytes | ∃ n, dag.Contains n ∧ bytes = n.hashedBytes host})) :
    ∃ m' dag' node, m.modify host did doc transform (some (legacyNode host ops nodeId env)) =
        (m', .ok doc') ∧ m'.registry.lookup did = some doc' ∧ m'.history.lookup did = some dag' ∧
      dag'.IsChain host (chain ++ [node]) ∧ node.getOperations = ops := by
  obtain ⟨node, hnode⟩ : ∃ node, legacyNode host ops nodeId env dag = .ok node := ⟨_, rfl⟩
  have hnew : node = DagNode.new host ops (lastHash chain) nodeId env.nodeTime := by
    rw [← hchain.getHeads env.headOrder]
    exact (Except.ok.inj hnode).symm
  have hv : node.verifyHash host = true := by
    rw [hnew]
    exact DagNode.verifyHash_new _ _ _ _ _
  obtain ⟨dag', hadd, hchain'⟩ := hchain.addNode hf hv (by rw [hnew]; rfl)
    ⟨ops, by rw [hnew]; rfl⟩ (hcf node hnode)
  refine ⟨{ m.insertDocument did doc' with history := m.history.insert did dag' }, dag', node, ?_,
    ?_, ?_, hchain', by rw [hnew]; rfl⟩
  · unfold modify pushHistory
    rw [ht]
    simp only [history_insertDocument, hhist, getD_some, hnode, hadd]
  · simp
  · simp

variable {call : Call}

theorem transform_legacy (h : call.isLegacy = true) (hc : call.onlyCreates = false) (host : Host)
    (env : CallAmbient) (nodeId : String) (doc : AjnaDocument) :
    ∃ doc' origin, call.transform host env doc = .ok doc' ∧
      call.record host nodeId env = some (legacyNode host call.operations origin env) ∧
      doc'.verificationMethods = methodsAll (call.applied env) doc.verificationMethods ∧
      doc'.service = serviceAll call.operations doc.service := by
  cases call with
  | applyOperation did operation =>
    refine ⟨_, nodeId, rfl, rfl, ?_, service_apply _ _ _⟩
    exact verificationMethods_apply operation doc (env.amb 0)
  | applyOperations did operations =>
    exact ⟨_, nodeId, rfl, rfl, verificationMethods_applyAll _ _ _, service_applyAll _ _ _⟩
  | mergeUpdate update =>
    exact ⟨_, update.originNode, rfl, rfl, verificationMethods_applyAll _ _ _,
      service_applyAll _ _ _⟩
  | create did | createWithGenesis did controllers policy => cases hc
  | deactivate did reason | applyOperationV2 operation => cases h

/-- Ids are unique at every point of the replay. -/
def UniqueAlong (l : List (CRDTOperation × Ambient)) : Prop :=
  ∀ l', l' <+: l → UniqueIds (methodsAll l' ORSet.new)

theorem UniqueAlong.append (h₁ : UniqueAlong l₁)
    (h₂ : ∀ l, l <+: l₂ → UniqueIds (methodsAll l (methodsAll l₁ ORSet.new))) :
    UniqueAlong (l₁ ++ l₂) := by
  intro l hl
  rcases prefix_or_prefix_of_prefix hl (prefix_append l₁ l₂) with hpre | ⟨t, rfl⟩
  · exact h₁ l hpre
  · rw [methodsAll_append]
    exact h₂ t ((prefix_append_right_inj l₁).1 hl)

/-- Whether absent or present, the document and the history are replays of one list. -/
def Replays (host : Host) (did : String) (m : AjnaMethod) : Prop :=
  Absent did m ∨ ∃ doc l, Present host did m doc l ∧ UniqueAlong l

theorem present_created (host : Host) (m : AjnaMethod) (did : String) (created updated : DateTime) :
    Present host did ((m.insertDocument did (.new did m.nodeId created updated)).initHistory did)
      (.new did m.nodeId created updated) [] where
  registry := by simp
  history := ⟨MerkleDAG.new, [], by simp [initHistory], MerkleDAG.isChain_new host, rfl⟩
  methods := rfl
  service := rfl

theorem uniqueAlong_nil : UniqueAlong [] := by
  intro l hl a ha
  rw [prefix_nil.1 hl] at ha
  simp [methodsAll, ORSet.keys, ORSet.new] at ha

theorem Present.update (hf : host.Formats) {l : List (CRDTOperation × Ambient)} {nodeId : String}
    (hp : Present host call.did m doc l) (hu : UniqueAlong l) (hlegacy : call.isLegacy = true)
    (hupdates : call.onlyCreates = false)
    (hcf : ∀ mkNode node, call.record host nodeId env = some mkNode →
      mkNode (m.historyOf call.did) = .ok node →
      host.CollisionFree (insert (node.hashedBytes host)
        {bytes | ∃ n, (m.historyOf call.did).Contains n ∧ bytes = n.hashedBytes host}))
    (hids : ∀ l', l' <+: call.applied env → UniqueIds (methodsAll l' doc.verificationMethods)) :
    ∃ doc', Present host call.did (m.modify host call.did doc (call.transform host env)
      (call.record host nodeId env)).1 doc' (l ++ call.applied env) ∧
      UniqueAlong (l ++ call.applied env) := by
  obtain ⟨dag, chain, hhist, hchain, hops⟩ := hp.history
  obtain ⟨doc', origin, ht, hrecord, hmethods, hservice⟩ :=
    transform_legacy hlegacy hupdates host env nodeId doc
  have hdag : m.historyOf call.did = dag := by rw [historyOf, hhist, getD_some]
  rw [hdag] at hcf
  rw [hrecord]
  obtain ⟨m', dag', node, hmodify, hreg, hhist', hchain', hnode⟩ :=
    modify_chain hf hhist hchain ht fun node hnode => hcf _ node hrecord hnode
  rw [hmodify]
  have hfst : (call.applied env).map Prod.fst = call.operations := map_fst_stamped _ _
  refine ⟨doc', ⟨hreg, ⟨dag', _, hhist', hchain', ?_⟩, ?_, ?_⟩, hu.append fun l' hl' => ?_⟩
  · rw [flatMap_append, flatMap_singleton, hops, hnode, map_append, hfst]
  · rw [hmethods, hp.methods, methodsAll_append]
  · rw [hservice, hp.service, map_append, serviceAll_append, hfst]
  · rw [← hp.methods]
    exact hids l' hl'

theorem newDocument_of_isLegacy (h : call.isLegacy = true) (nodeId : String) (env : CallAmbient) :
    call.newDocument nodeId env = .new call.did nodeId env.created env.updated := by
  cases call with
  | createWithGenesis did controllers policy | deactivate did reason => cases h
  | _ => rfl

theorem Absent.methodsOf_eq (h : Absent did m) : m.methodsOf did = ORSet.new := by
  rw [methodsOf, h.registry]
  rfl

theorem Absent.historyOf_eq (h : Absent did m) : m.historyOf did = MerkleDAG.new := by
  rw [historyOf, h.history, getD_none]

theorem Absent.update (hf : host.Formats) (h : Absent call.did m) (hlegacy : call.isLegacy = true)
    (hupdates : call.onlyCreates = false) (hcf : NoCollision host call.did m (call, env))
    (hids : ∀ l, l <+: call.applied env → UniqueIds (methodsAll l (m.methodsOf call.did))) :
    Replays host call.did (((m.insertDocument call.did
      (.new call.did m.nodeId env.created env.updated)).initHistory call.did).modify host call.did
        (.new call.did m.nodeId env.created env.updated) (call.transform host env)
        (call.record host m.nodeId env)).1 := by
  have hhistory : ((m.insertDocument call.did (.new call.did m.nodeId env.created
      env.updated)).initHistory call.did).historyOf call.did = MerkleDAG.new := by
    simp [historyOf, initHistory]
  unfold NoCollision at hcf
  rw [h.historyOf_eq, ← hhistory] at hcf
  rw [h.methodsOf_eq] at hids
  obtain ⟨doc', hpresent, hu⟩ := (present_created host m call.did env.created env.updated).update
    hf uniqueAlong_nil hlegacy hupdates hcf hids
  exact .inr ⟨doc', _, hpresent, hu⟩

/-- **Every legacy call keeps document and history replays of one list.** -/
theorem Replays.step (hf : host.Formats) {m' : AjnaMethod} {p : Call × CallAmbient}
    (h : Replays host did m) (hd : NoCollision host did m p ∧ Unambiguous did m p)
    (hstep : legacyStep host did m p = some m') : Replays host did m' := by
  obtain ⟨call, env⟩ := p
  obtain ⟨hcf, hids⟩ := hd
  unfold legacyStep at hstep
  split at hstep
  case isFalse => cases hstep
  case isTrue hcall =>
    simp only [Bool.and_eq_true, decide_eq_true_eq] at hcall
    obtain ⟨hlegacy, rfl⟩ := hcall
    obtain rfl := some.inj hstep
    rw [perform_eq, newDocument_of_isLegacy hlegacy]
    by_cases hcreates : call.onlyCreates = true
    · rw [if_pos hcreates, createWith]
      split
      · exact h
      · exact .inr ⟨_, [], present_created host m call.did _ _, uniqueAlong_nil⟩
    · have hupdates : call.onlyCreates = false := by simpa using hcreates
      rw [if_neg hcreates]
      rcases h with habsent | ⟨doc, l, hp, hu⟩
      · rw [habsent.registry]
        dsimp only
        split
        · next hmissing => exact habsent.update hf hlegacy hupdates hcf (hids (.inr hmissing))
        · exact .inl habsent
      · rw [hp.registry]
        have hids' := hids (.inl (by rw [hp.registry]; rfl))
        rw [methodsOf, hp.registry] at hids'
        obtain ⟨doc', hpresent', hu'⟩ := hp.update hf hu hlegacy hupdates hcf hids'
        exact .inr ⟨doc', _, hpresent', hu'⟩

theorem Present.exportUpdate {l : List (CRDTOperation × Ambient)} (h : Present host did m doc l)
    (env : ExportAmbient) :
    ∃ update, m.exportUpdate did env = .ok update ∧ update.did = did ∧
      update.operations = l.map Prod.fst := by
  obtain ⟨dag, chain, hhist, hchain, hops⟩ := h.history
  have hhistory : m.getHistory did env.historyOrder = .ok (l.map Prod.fst) := by
    rw [getHistory, hhist]
    simp only
    rw [hchain.getAllOperations_eq, hops]
  unfold AjnaMethod.exportUpdate
  rw [resolve_eq_ok.2 h.registry]
  simp only [hhistory]
  exact ⟨_, rfl, rfl, rfl⟩

theorem collisionFree_new (host : Host) (bytes : List UInt8) :
    host.CollisionFree (insert bytes
      {b | ∃ n, MerkleDAG.new.Contains n ∧ b = n.hashedBytes host}) := by
  have hnone : {b | ∃ n, MerkleDAG.new.Contains n ∧ b = n.hashedBytes host} = ∅ := by
    refine Set.eq_empty_iff_forall_notMem.2 fun b ⟨n, hn, _⟩ => ?_
    exact not_mem_nil (((MerkleDAG.isChain_new host).contains n).1 hn)
  rw [hnone, insert_empty_eq]
  exact Set.injOn_singleton _ _

theorem mergeUpdate_new (host : Host) (hf : host.Formats) (nodeId : String) (update : DIDUpdate)
    (env : CallAmbient) :
    ∃ m doc, (new nodeId).mergeUpdate host update env = (m, .ok doc) ∧
      m.registry.lookup update.did = some doc ∧
      doc.verificationMethods = methodsAll (stamped update.operations env.amb) ORSet.new ∧
      doc.service = serviceAll update.operations none := by
  obtain ⟨doc, origin, ht, hrecord, hmethods, hservice⟩ := transform_legacy
    (show (Call.mergeUpdate update).isLegacy = true from rfl) rfl host env nodeId
    (.new update.did nodeId env.created env.updated)
  have hhist : (((new nodeId).insertDocument update.did (.new update.did nodeId env.created
      env.updated)).initHistory update.did).history.lookup update.did = some MerkleDAG.new := by
    simp [initHistory]
  obtain ⟨m, dag, node, hmodify, hreg, -⟩ :=
    modify_chain hf hhist (MerkleDAG.isChain_new host) ht fun _ _ => collisionFree_new host _
  have hnone : (new nodeId).registry.lookup update.did = none := by simp [new]
  refine ⟨m, doc, ?_, hreg, hmethods, hservice⟩
  have hform := perform_eq host (new nodeId) env (.mergeUpdate update)
  simp only [Call.did, hnone] at hform
  exact hform.trans hmodify

end AjnaMethod

open AjnaMethod in
/-- **Export then import reproduces the document.**  After any run of legacy calls for one
DID on a node, in which no two live methods share an id, the document of the DID is exported,
and the import on a fresh node has the same methods and the same services. -/
theorem export_import (host : Host) (hf : host.Formats) (did node₁ node₂ : String)
    (calls : List (Call × CallAmbient)) (m : AjnaMethod)
    (hrun : exec (legacyStep host did) (AjnaMethod.new node₁) calls = some m)
    (hcf : Along (legacyStep host did) (NoCollision host did) (AjnaMethod.new node₁) calls)
    (hids : Along (legacyStep host did) (Unambiguous did) (AjnaMethod.new node₁) calls)
    (doc : AjnaDocument) (hdoc : m.registry.lookup did = some doc) (exportEnv : ExportAmbient)
    (importEnv : CallAmbient) :
    ∃ update m' doc', m.exportUpdate did exportEnv = .ok update ∧
      (AjnaMethod.new node₂).mergeUpdate host update importEnv = (m', .ok doc') ∧
      m'.registry.lookup did = some doc' ∧
      doc'.verificationMethods.keys = doc.verificationMethods.keys ∧
      doc'.service = doc.service := by
  have hreplays : Replays host did m :=
    exec_invariant_along (fun _ _ _ h hd hstep => h.step hf hd hstep)
      (.inl ⟨by simp [AjnaMethod.new], by simp [AjnaMethod.new]⟩) (hcf.and hids) hrun
  rcases hreplays with habsent | ⟨doc₀, l, hp, hu⟩
  · rw [habsent.registry] at hdoc
    cases hdoc
  · obtain rfl : doc₀ = doc := some.inj (hp.registry.symm.trans hdoc)
    obtain ⟨update, hexport, rfl, hops⟩ := hp.exportUpdate exportEnv
    obtain ⟨m', doc', hmerge, hreg, hmethods, hservice⟩ :=
      mergeUpdate_new host hf node₂ update importEnv
    refine ⟨update, m', doc', hexport, hmerge, hreg, ?_, ?_⟩
    · rw [hmethods, hp.methods]
      refine (keys_methodsAll_eq ?_ rfl hu).symm
      rw [map_fst_stamped, hops]
    · rw [hservice, hp.service, hops]

/-! ## One exported key -/

namespace Sample

def firstKey : VerificationMethod :=
  ⟨"did:ajna:alice#key-1", "Ed25519VerificationKey2020", "did:ajna:alice", "z6Mk", none⟩

/-- The key is added on `node1`. -/
def addFirstKey : CRDTOperation := .addVerificationMethod firstKey 0 "node1"

/-- The text of this operation, with the sample hash. -/
def printingHost : Host :=
  { host with
    opJson := fun _ => some ("\x7b\"type\":\"add_verification_method\",\"method\":\x7b" ++
      "\"id\":\"did:ajna:alice#key-1\",\"type\":\"Ed25519VerificationKey2020\"," ++
      "\"controller\":\"did:ajna:alice\",\"publicKeyMultibase\":\"z6Mk\"\x7d," ++
      "\"timestamp\":\"1970-01-01T00:00:00Z\",\"node_id\":\"node1\"\x7d") }

theorem printingHost_formats : printingHost.Formats where
  digestLength := host_fixedLength
  digestChars bytes := by
    simp only [printingHost, host]
    split <;> decide +kernel
  opJson op := ⟨_, rfl, by decide⟩
  opJsonPrefixFree op op' text text' rest rest' h h' _ := by
    cases h
    cases h'
    rfl
  timeHead t := by
    show (asBytes "1970-01-01T00:00:00+00:00").head? ≠ some openBrace
    decide
  timeColon t := by
    show colon ∈ (asBytes "1970-01-01T00:00:00+00:00").take 43
    decide

noncomputable def exportRun : List (Call × CallAmbient) :=
  [(.create did, env), (.applyOperation did addFirstKey, env)]

theorem legacyStep_create :
    AjnaMethod.legacyStep printingHost did (.new "node1") (.create did, env) = some method := by
  rfl

theorem along_exportRun {D : AjnaMethod → Call × CallAmbient → Prop}
    (hcreate : D (.new "node1") (.create did, env))
    (hadd : D method (.applyOperation did addFirstKey, env)) :
    Along (AjnaMethod.legacyStep printingHost did) D (.new "node1") exportRun := by
  refine ⟨hcreate, fun m hm => ⟨?_, fun _ _ => trivial⟩⟩
  obtain rfl : method = m := some.inj (legacyStep_create.symm.trans hm)
  exact hadd

open AjnaMethod

theorem exists_document_exportRun :
    ∃ m doc, exec (legacyStep printingHost did) (.new "node1") exportRun = some m ∧
      m.registry.lookup did = some doc := by
  refine ⟨(Call.perform printingHost method env (.applyOperation did addFirstKey)).1, ?_⟩
  rw [perform_eq]
  simp only [Call.onlyCreates, Call.did, lookup_registry, Bool.false_eq_true, if_false,
    registry_modify]
  exact ⟨_, rfl, Finmap.lookup_insert _⟩

theorem noCollision_exportRun :
    Along (legacyStep printingHost did) (NoCollision printingHost did) (.new "node1")
      exportRun := by
  refine along_exportRun (fun _ _ hnone => by cases hnone) fun _ node _ _ => ?_
  rw [historyOf]
  exact collisionFree_new _ _

theorem eq_firstKey {vm : VerificationMethod}
    (h : vm ∈ (methodsAll [(addFirstKey, env.amb 0)] document.verificationMethods).keys) :
    vm = firstKey := by
  rcases (contains_add _ _ _ _).1 ((mem_keys_iff vm).1 h) with rfl | hold
  · rfl
  · cases hold

theorem unambiguous_exportRun :
    Along (legacyStep printingHost did) (Unambiguous did) (.new "node1") exportRun := by
  refine along_exportRun (fun hcall => ?_) fun _ l hl => ?_
  · rcases hcall with hsome | hmissing
    · simp [AjnaMethod.new] at hsome
    · cases hmissing
  · rw [methodsOf]
    have hl' : l = [] ∨ l = [(addFirstKey, env.amb 0)] := by
      have hl₁ : l <+: [(addFirstKey, env.amb 0)] := hl
      simpa [prefix_cons_iff] using hl₁
    rcases hl' with rfl | rfl
    · intro a ha
      simp [methodsAll, document, AjnaDocument.new, ORSet.keys, ORSet.new] at ha
    · intro a ha b hb hab
      rw [eq_firstKey ha, eq_firstKey hb]

end Sample

open Sample

open AjnaMethod in
theorem export_import_addKey :
    ∃ m doc update m' doc',
      exec (legacyStep printingHost did) (.new "node1") exportRun = some m ∧
      m.registry.lookup did = some doc ∧
      m.exportUpdate did ⟨some, some, 0⟩ = .ok update ∧
      (AjnaMethod.new "node2").mergeUpdate printingHost update env = (m', .ok doc') ∧
      doc'.verificationMethods.keys = doc.verificationMethods.keys ∧
      doc'.service = doc.service := by
  obtain ⟨m, doc, hm, hdoc⟩ := exists_document_exportRun
  obtain ⟨update, m', doc', hexport, hmerge, -, hmethods, hservice⟩ :=
    export_import Sample.printingHost printingHost_formats did "node1" "node2"
      exportRun m hm noCollision_exportRun unambiguous_exportRun doc hdoc
      ⟨some, some, 0⟩ env
  exact ⟨m, doc, update, m', doc', hm, hdoc, hexport, hmerge, hmethods, hservice⟩

end Idiom.Ajna
