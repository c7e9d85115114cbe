import Idiom.Lib.Prog
import Idiom.Lib.Run
import Idiom.Workflow.Template

/-!
# The workflow service: `protocols/workflow/src/services/workflow_service.rs`

Every operation is a sequence of repository calls. The repositories are the in-memory ones:
hash maps by record id, searched in their iteration order.
-/

namespace Idiom.Workflow

open Ajna (Json)

/-! ## Repositories -/

structure WorkflowTemplateRecord where
  id : String
  templateId : String
  version : String
  template : WorkflowTemplate

structure WorkflowInstanceRecord where
  id : String
  data : WorkflowInstanceData

/-- The repositories, and the advance locks that are held. -/
structure Store where
  templates : FMap String WorkflowTemplateRecord
  instances : FMap String WorkflowInstanceRecord
  locked : String → Bool

namespace Store

def empty : Store := ⟨∅, ∅, fun _ => false⟩

variable (s : Store) (order : IterOrder String)

/-- `values()` of the instances. -/
def instanceList : List WorkflowInstanceRecord :=
  (order.list s.instances.keys).filterMap s.instances.lookup

/-- `values()` of the templates. -/
def templateList : List WorkflowTemplateRecord :=
  (order.list s.templates.keys).filterMap s.templates.lookup

def findByInstanceId (instanceId : String) : Option WorkflowInstanceRecord :=
  (s.instanceList order).find? fun r => r.data.instanceId = instanceId

def findByTemplateAndConnection (templateId : String) (connectionId : Option String) :
    List WorkflowInstanceRecord :=
  (s.instanceList order).filter fun r =>
    r.data.templateId = templateId ∧ r.data.connectionId = connectionId

/-- Without a version, the latest by version string. -/
def findByTemplateIdAndVersion (templateId : String) (version : Option String) :
    Option WorkflowTemplateRecord :=
  let found := (s.templateList order).filter fun r => r.templateId = templateId
  match version with
  | some version => found.find? fun r => r.version = version
  | none => (found.mergeSort fun a b => decide (b.version ≤ a.version)).head?

end Store

/-! ## Repository calls -/

/-- What an operation reads from outside: the iteration order of the hash maps, the action
handlers, the clock, and a new UUID. -/
structure Input where
  order : IterOrder String
  registry : ActionRegistry
  now : String
  uuid : String

/-- The accesses of an operation. -/
inductive RepoCall where
  | findTemplate
  | findTemplates
  | saveTemplate
  | updateTemplate
  | deleteTemplate
  | findInstance
  | findByTemplateAndConnection
  | saveInstance (record : WorkflowInstanceRecord)
  | updateInstance (record : WorkflowInstanceRecord)
  | execute
  | now
  | uuid
  | lock (instanceId : String)
  | unlock (instanceId : String)

/-- An operation of the service. -/
abbrev Op := Prog Store Input RepoCall WorkflowError

/-- `ok_or_else`. -/
def orFail {α : Type} (error : WorkflowError) : Option α → Op α
  | some a => .done a
  | none => .fail error

def findByInstanceId (instanceId : String) : Op (Option WorkflowInstanceRecord) :=
  .access .findInstance (fun _ s => s) fun e s => .done (s.findByInstanceId e.order instanceId)

def findByTemplateAndConnection (templateId : String) (connectionId : Option String) :
    Op (List WorkflowInstanceRecord) :=
  .access .findByTemplateAndConnection (fun _ s => s) fun e s =>
    .done (s.findByTemplateAndConnection e.order templateId connectionId)

def findByTemplateIdAndVersion (templateId : String) (version : Option String) :
    Op (Option WorkflowTemplateRecord) :=
  .access .findTemplate (fun _ s => s) fun e s =>
    .done (s.findByTemplateIdAndVersion e.order templateId version)

def saveInstance (record : WorkflowInstanceRecord) : Op Unit :=
  .modify (.saveInstance record) fun s =>
    { s with instances := s.instances.insert record.id record }

/-- Only a record that is there is updated. -/
def updateInstance (record : WorkflowInstanceRecord) : Op Unit :=
  .access (.updateInstance record)
    (fun _ s => if record.id ∈ s.instances then
      { s with instances := s.instances.insert record.id record } else s)
    fun _ s => if record.id ∈ s.instances then .done () else .fail (.instanceNotFound record.id)

def saveTemplate (record : WorkflowTemplateRecord) : Op Unit :=
  .modify .saveTemplate fun s => { s with templates := s.templates.insert record.id record }

def updateTemplate (record : WorkflowTemplateRecord) : Op Unit :=
  .access .updateTemplate
    (fun _ s => if record.id ∈ s.templates then
      { s with templates := s.templates.insert record.id record } else s)
    fun _ s => if record.id ∈ s.templates then .done () else .fail (.templateNotFound record.id)

def deleteTemplateRecord (id : String) : Op Unit :=
  .modify .deleteTemplate fun s => { s with templates := s.templates.erase id }

/-- The instance, or an error. -/
def requireInstance (instanceId : String) : Op WorkflowInstanceRecord := do
  let found ← findByInstanceId instanceId
  orFail (.instanceNotFound instanceId) found

/-- Hold the advance lock of the instance; it is released on every way out. -/
def withInstanceLock {α : Type} (instanceId : String) (p : Op α) : Op α := do
  .modify (.lock instanceId) fun s => { s with locked := Function.update s.locked instanceId true }
  let result ← p.attempt
  .modify (.unlock instanceId) fun s =>
    { s with locked := Function.update s.locked instanceId false }
  .ofExcept result

/-! ## Operations -/

structure StartOptions where
  templateId : String
  templateVersion : Option String
  instanceId : Option String
  connectionId : Option String
  participants : Option (List (String × Participant))
  context : Option Json

/-- Options for advancing a workflow instance. -/
structure AdvanceOptions where
  instanceId : String
  event : String
  idempotencyKey : Option String
  input : Option Json

def idempotencyHistoryLimit : ℕ := 100

namespace WorkflowService

def publishTemplate (template : WorkflowTemplate) : Op WorkflowTemplateRecord := do
  .ofExcept (validateTemplate template)
  let found ← findByTemplateIdAndVersion template.templateId (some template.version)
  match found with
  | some existing =>
    let existing := { existing with template := template }
    updateTemplate existing
    return existing
  | none =>
    let id ← .ask .uuid Input.uuid
    let record : WorkflowTemplateRecord := ⟨id, template.templateId, template.version, template⟩
    saveTemplate record
    return record

/-- The loop of `delete_template`, as the number of records it deletes. -/
def deleteMatching (id : String) : List WorkflowTemplateRecord → Op ℕ
  | [] => .done 0
  | record :: rest =>
    if record.templateId = id ∨ record.id = id then do
      deleteTemplateRecord record.id
      let deleted ← deleteMatching id rest
      return deleted + 1
    else deleteMatching id rest

def deleteTemplate (id : String) : Op ℕ := do
  let all ← .access .findTemplates (fun _ s => s) fun e s => .done (s.templateList e.order)
  let deleted ← deleteMatching id all
  if deleted = 0 then .fail (.templateNotFound id) else return deleted

def checkInstancePolicy (template : WorkflowTemplate) (connectionId : Option String) : Op Unit :=
  match template.policyMode, connectionId with
  | .singletonPerConnection, some connId => do
    let existing ← findByTemplateAndConnection template.templateId (some connId)
    if existing.any fun r => r.data.status = .active ∨ r.data.status = .paused then
      .fail (.policyViolation
        ("Singleton policy: active instance already exists for template '" ++
          template.templateId ++ "' on connection '" ++ connId ++ "'"))
    else return ()
  | _, _ => return ()

/-- The id, or a new one. -/
def orUuid : Option String → Op String
  | some id => .done id
  | none => .ask .uuid Input.uuid

/-- The part of `start` after the idempotency check. -/
def startNew (opts : StartOptions) : Op WorkflowInstanceRecord := do
  let found ← findByTemplateIdAndVersion opts.templateId opts.templateVersion
  let templateRecord ← orFail (.templateNotFound opts.templateId) found
  let template := templateRecord.template
  checkInstancePolicy template opts.connectionId
  let startState ← orFail (.validationFailed "Template has no start state") template.startState
  let instanceId ← orUuid opts.instanceId
  let id ← .ask .uuid Input.uuid
  let record : WorkflowInstanceRecord := ⟨id, {
    instanceId := instanceId
    templateId := template.templateId
    templateVersion := template.version
    connectionId := opts.connectionId
    participants := opts.participants.getD []
    state := startState.name
    section_ := startState.section_
    context := opts.context.getD (.object [])
    artifacts := .object []
    status := .active
    history := []
    idempotencyKeys := [] }⟩
  saveInstance record
  return record

/-- A start with an explicit id that is taken gives the instance that is there. -/
def start (opts : StartOptions) : Op WorkflowInstanceRecord :=
  match opts.instanceId with
  | none => startNew opts
  | some instanceId => do
    let found ← findByInstanceId instanceId
    match found with
    | some existing => return existing
    | none => startNew opts

/-- Only an instance that is neither paused nor finished is advanced. -/
def checkAdvance : InstanceStatus → Except WorkflowError Unit
  | .paused => .error (.invalidStatus .paused "advance")
  | .canceled => .error (.invalidStatus .canceled "advance")
  | .completed => .error (.invalidStatus .completed "advance")
  | _ => .ok ()

/-- The action of a transition. On the mirror path an action may fail. -/
def executeAction (template : WorkflowTemplate) (data : WorkflowInstanceData)
    (opts : AdvanceOptions) (lenient : Bool) (action : Option String) : Op ActionResult :=
  match action.bind template.findAction with
  | none => return .default
  | some action => do
    let result ← .ask .execute fun e => e.registry.execute action
      ⟨template, data, action, opts.input⟩
    match result, lenient with
    | .ok result, _ => return result
    | .error _, true => return .default
    | .error error, false => .fail error

/-- The keys, with the new one last; only the newest are kept. -/
def pushIdempotencyKey (keys : List String) : Option String → List String
  | none => keys
  | some key => (keys ++ [key]).drop ((keys ++ [key]).length - idempotencyHistoryLimit)

def applyTransition (template : WorkflowTemplate) (data : WorkflowInstanceData)
    (opts : AdvanceOptions) (transition : TransitionDef) (result : ActionResult) (now : String) :
    WorkflowInstanceData :=
  { data with
    state := transition.target
    section_ := match template.findState transition.target with
      | some target => target.section_
      | none => data.section_
    artifacts := match result.artifacts with
      | some artifacts => mergeJson data.artifacts artifacts
      | none => data.artifacts
    context := match result.contextMerge with
      | some patch => mergeJson data.context patch
      | none => data.context
    history := data.history ++
      [⟨now, opts.event, data.state, transition.target, transition.action, result.messageId⟩]
    idempotencyKeys := pushIdempotencyKey data.idempotencyKeys opts.idempotencyKey
    status := if template.isFinal transition.target then .completed else data.status }

variable (jmespath : JmesPath)

def enabledTransition (template : WorkflowTemplate) (data : WorkflowInstanceData)
    (event : String) : Option TransitionDef :=
  (template.transitionsFrom data.state event).find? fun t =>
    GuardEvaluator.eval jmespath t.guard data

/-- The part of `advance_inner` after the idempotency check. -/
def advanceRecord (opts : AdvanceOptions) (lenient : Bool) (record : WorkflowInstanceRecord) :
    Op WorkflowInstanceRecord := do
  let found ← findByTemplateIdAndVersion record.data.templateId (some record.data.templateVersion)
  let templateRecord ← orFail (.templateNotFound record.data.templateId) found
  let template := templateRecord.template
  let transition ← orFail (.noEnabledTransition record.data.state opts.event)
    (enabledTransition jmespath template record.data opts.event)
  let result ← executeAction template record.data opts lenient transition.action
  let now ← .ask .now Input.now
  let record : WorkflowInstanceRecord :=
    { record with data := applyTransition template record.data opts transition result now }
  updateInstance record
  return record

/-- The key of the advance was seen before. -/
def isRetry (opts : AdvanceOptions) (data : WorkflowInstanceData) : Bool :=
  match opts.idempotencyKey with
  | some key => data.idempotencyKeys.contains key
  | none => false

def advanceInner (opts : AdvanceOptions) (lenient : Bool) : Op WorkflowInstanceRecord :=
  withInstanceLock opts.instanceId do
    let record ← requireInstance opts.instanceId
    .ofExcept (checkAdvance record.data.status)
    if isRetry opts record.data then return record
    else advanceRecord jmespath opts lenient record

/-- Advance an instance (strict): an action-handler failure aborts the transition. -/
def advance (opts : AdvanceOptions) : Op WorkflowInstanceRecord := advanceInner jmespath opts false

/-- Advance a *mirrored* instance from a peer-received advance. -/
def advanceMirror (opts : AdvanceOptions) : Op WorkflowInstanceRecord :=
  advanceInner jmespath opts true

/-- Load an instance, change it, write it back. -/
def modifyInstance (instanceId : String) (f : WorkflowInstanceData → WorkflowInstanceData) :
    Op WorkflowInstanceRecord := do
  let record ← requireInstance instanceId
  let record := { record with data := f record.data }
  updateInstance record
  return record

def pause (instanceId : String) : Op WorkflowInstanceRecord :=
  modifyInstance instanceId fun data => { data with status := .paused }

def resume (instanceId : String) : Op WorkflowInstanceRecord :=
  modifyInstance instanceId fun data => { data with status := .active }

def cancel (instanceId : String) : Op WorkflowInstanceRecord :=
  modifyInstance instanceId fun data => { data with status := .canceled }

/-- Shallow-merge `patch` into the instance's context. -/
def updateContext (instanceId : String) (patch : Json) : Op WorkflowInstanceRecord :=
  modifyInstance instanceId fun data => { data with context := mergeJson data.context patch }

/-- Shallow-merge `artifacts` into the instance's accumulated artifacts. -/
def appendArtifacts (instanceId : String) (artifacts : Json) : Op WorkflowInstanceRecord :=
  modifyInstance instanceId fun data =>
    { data with artifacts := mergeJson data.artifacts artifacts }

/-- Nothing is written: the state must be final already, if the template is there. -/
def complete (instanceId : String) : Op WorkflowInstanceRecord := do
  let record ← requireInstance instanceId
  let found ← findByTemplateIdAndVersion record.data.templateId (some record.data.templateVersion)
  match found with
  | none => return record
  | some templateRecord =>
    if templateRecord.template.isFinal record.data.state then return record
    else .fail (.invalidStatus record.data.status
      ("complete (state '" ++ record.data.state ++ "' is not a final state)"))

end WorkflowService

/-! ## Runs -/

/-- The operations of the service. -/
inductive WorkflowOp where
  | start (opts : StartOptions)
  | advance (opts : AdvanceOptions)
  | advanceMirror (opts : AdvanceOptions)
  | pause (instanceId : String)
  | resume (instanceId : String)
  | cancel (instanceId : String)
  | complete (instanceId : String)
  | updateContext (instanceId : String) (patch : Json)
  | appendArtifacts (instanceId : String) (artifacts : Json)
  | publishTemplate (template : WorkflowTemplate)
  | deleteTemplate (id : String)

inductive Reply where
  | instance_ (record : WorkflowInstanceRecord)
  | template (record : WorkflowTemplateRecord)
  | deleted (count : ℕ)

variable (jmespath : JmesPath)

open WorkflowService in
def perform : WorkflowOp → Op Reply
  | .start opts => Reply.instance_ <$> start opts
  | .advance opts => Reply.instance_ <$> advance jmespath opts
  | .advanceMirror opts => Reply.instance_ <$> advanceMirror jmespath opts
  | .pause instanceId => Reply.instance_ <$> pause instanceId
  | .resume instanceId => Reply.instance_ <$> resume instanceId
  | .cancel instanceId => Reply.instance_ <$> cancel instanceId
  | .complete instanceId => Reply.instance_ <$> complete instanceId
  | .updateContext instanceId patch => Reply.instance_ <$> updateContext instanceId patch
  | .appendArtifacts instanceId artifacts =>
    Reply.instance_ <$> appendArtifacts instanceId artifacts
  | .publishTemplate template => Reply.template <$> publishTemplate template
  | .deleteTemplate id => Reply.deleted <$> deleteTemplate id

def Store.Unused (s : Store) (uuid : String) : Prop :=
  ∀ id ∈ s.instances.keys, uuid ≠ id ∧
    ∀ record ∈ s.instances.lookup id, uuid ≠ record.data.instanceId

instance (s : Store) (uuid : String) : Decidable (s.Unused uuid) :=
  inferInstanceAs (Decidable (∀ id ∈ s.instances.keys, uuid ≠ id ∧
    ∀ record ∈ s.instances.lookup id, uuid ≠ record.data.instanceId))

/-- One operation, from its start to its end. A new UUID was never used before. -/
def step (s : Store) (action : WorkflowOp × List Input) : Option Store :=
  if ∀ e ∈ action.2, s.Unused e.uuid then
    ((perform jmespath action.1).run action.2 s).map fun result => result.2.1
  else none

end Idiom.Workflow
