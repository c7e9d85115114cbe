import Idiom.Lib.Guarded
import Idiom.Workflow.Change

/-!
# The status of an instance

`WorkflowService::status` lists the events of the transitions from the current state whose guard
passes. An advance takes the first such transition of its event, but looks at the status of the
instance before.
-/

namespace Idiom.Workflow

open Ajna (Json)
open Prog GuardEvaluator

/-- Options for querying workflow status. -/
structure StatusOptions where
  instanceId : String
  uiProfile : Option String

structure StatusMessage where
  instanceId : String
  state : String
  section_ : Option String
  allowedEvents : List String
  actionMenu : List Json
  artifacts : Json
  ui : Option Json
  uiProfile : Option String
  assets : Option Json

structure StatusResponse where
  message : StatusMessage
  record : WorkflowInstanceRecord

variable (jmespath : JmesPath)

namespace WorkflowService

/-- The loop over the transitions: an event that is listed is not listed again. -/
def allowedEvents (template : WorkflowTemplate) (data : WorkflowInstanceData) : List String :=
  template.transitions.foldl (fun events transition =>
    if transition.source = data.state ∧ eval jmespath transition.guard data ∧
        transition.on ∉ events then
      events ++ [transition.on]
    else events) []

def status (opts : StatusOptions) : Op StatusResponse := do
  let record ← requireInstance opts.instanceId
  let found ← findByTemplateIdAndVersion record.data.templateId (some record.data.templateVersion)
  return {
    message := {
      instanceId := record.data.instanceId
      state := record.data.state
      section_ := record.data.section_
      allowedEvents := match found with
        | some templateRecord => allowedEvents jmespath templateRecord.template record.data
        | none => []
      actionMenu := []
      artifacts := record.data.artifacts
      ui := none
      uiProfile := opts.uiProfile
      assets := none }
    record := record }

variable {jmespath} {template : WorkflowTemplate} {data : WorkflowInstanceData} {event : String}

theorem mem_foldl_allowed (transitions : List TransitionDef) (events : List String) :
    event ∈ transitions.foldl (fun events transition =>
        if transition.source = data.state ∧ eval jmespath transition.guard data ∧
            transition.on ∉ events then
          events ++ [transition.on]
        else events) events ↔
      event ∈ events ∨ ∃ transition ∈ transitions, transition.source = data.state ∧
        transition.on = event ∧ eval jmespath transition.guard data = true := by
  induction transitions generalizing events with
  | nil => simp
  | cons transition rest ih =>
    rw [List.foldl_cons, ih]
    by_cases hlisted : transition.on ∈ events
    · simp only [hlisted, not_true_eq_false, and_false, if_false, List.mem_cons, exists_eq_or_imp]
      grind
    · simp only [List.mem_cons, exists_eq_or_imp]
      grind

theorem mem_allowedEvents : event ∈ allowedEvents jmespath template data ↔
    ∃ transition ∈ template.transitions, transition.source = data.state ∧
      transition.on = event ∧ eval jmespath transition.guard data = true := by
  unfold allowedEvents
  rw [mem_foldl_allowed]
  simp

/-- **Listed and enabled.**  The events that are listed are those with an enabled transition. -/
theorem mem_allowedEvents_iff : event ∈ allowedEvents jmespath template data ↔
    (enabledTransition jmespath template data event).isSome := by
  rw [mem_allowedEvents, enabledTransition, List.find?_isSome]
  simp [WorkflowTemplate.transitionsFrom, and_assoc]

end WorkflowService

/-! ## The two of them -/

open WorkflowService

variable {jmespath} {order : IterOrder String} {e : Input} {s : Store}
  {record : WorkflowInstanceRecord} {found : WorkflowTemplateRecord} {opts : AdvanceOptions}

/-- Whatever the action does, the advance fails for the status or for want of a transition. -/
def Rejects (jmespath : JmesPath) (order : IterOrder String) (s : Store) (opts : AdvanceOptions) :
    Prop :=
  ∀ e : Input, e.order = order →
    (∃ status operation,
      ((advance jmespath opts).always e s).1 = .error (.invalidStatus status operation)) ∨
    ∃ state event, ((advance jmespath opts).always e s).1 =
      .error (.noEnabledTransition state event)

theorem always_withInstanceLock {α : Type} (instanceId : String) (p : Op α) (e : Input)
    (s : Store) :
    ((withInstanceLock instanceId p).always e s).1 =
      (p.always e { s with locked := Function.update s.locked instanceId true }).1 := by
  simp only [withInstanceLock, Prog.modify, Prog.access_bind, Prog.done_bind, Prog.always_access]
  rw [Prog.always_bind_ok (Prog.always_attempt ..), Prog.always_access]
  cases (p.always e _).1 <;> rfl

theorem always_advance (hrecord : s.findByInstanceId e.order opts.instanceId = some record)
    (hfound : s.findByTemplateIdAndVersion e.order record.data.templateId
      (some record.data.templateVersion) = some found)
    (hkey : isRetry opts record.data = false) :
    ((advance jmespath opts).always e s).1 =
      match checkAdvance record.data.status,
        enabledTransition jmespath found.template record.data opts.event with
      | .error error, _ => .error error
      | .ok _, none => .error (.noEnabledTransition record.data.state opts.event)
      | .ok _, some transition =>
        ((executeAction found.template record.data opts false transition.action >>= fun result =>
          Prog.ask .now Input.now >>= fun now =>
            let record := { record with
              data := applyTransition found.template record.data opts transition result now }
            updateInstance record >>= fun _ => pure record).always e
          { s with locked := Function.update s.locked opts.instanceId true }).1 := by
  unfold advance advanceInner
  rw [always_withInstanceLock]
  -- the lock is no part of what is looked up
  generalize hu : ({ s with locked := Function.update s.locked opts.instanceId true } : Store) = u
  have hrecord : u.findByInstanceId e.order opts.instanceId = some record := hu ▸ hrecord
  have hfound : u.findByTemplateIdAndVersion e.order record.data.templateId
    (some record.data.templateVersion) = some found := hu ▸ hfound
  simp only [requireInstance, findByInstanceId, Prog.access_bind, Prog.done_bind,
    Prog.always_access, hrecord, orFail]
  cases checkAdvance record.data.status with
  | error error => rfl
  | ok _ =>
    simp only [Prog.ofExcept, Prog.done_bind, hkey, Bool.false_eq_true, if_false, advanceRecord,
      findByTemplateIdAndVersion, Prog.access_bind, Prog.always_access, hfound, orFail]
    cases enabledTransition jmespath found.template record.data opts.event <;> rfl

theorem checkAdvance_eq_error {status : InstanceStatus} {error : WorkflowError}
    (h : checkAdvance status = .error error) : error = .invalidStatus status "advance" := by
  cases status <;> cases h <;> rfl

/-- Handlers that do nothing. -/
def idle : ActionRegistry := fun _ => some fun _ => .ok .default

theorem always_executeAction (hregistry : e.registry = idle) (template : WorkflowTemplate)
    (data : WorkflowInstanceData) (action : Option String) :
    (executeAction template data opts false action).always e s = (.ok .default, s) := by
  unfold executeAction
  cases action.bind template.findAction with
  | none => rfl
  | some action =>
    simp only [ask, access_bind, done_bind, always_access, ActionRegistry.execute, hregistry, idle]
    rfl

/-- **Rejected or not.**  An advance with a new key is rejected for the status, or when no
transition of its event is enabled. -/
theorem rejects_iff (hrecord : s.findByInstanceId order opts.instanceId = some record)
    (hfound : s.findByTemplateIdAndVersion order record.data.templateId
      (some record.data.templateVersion) = some found)
    (hkey : isRetry opts record.data = false) :
    Rejects jmespath order s opts ↔ checkAdvance record.data.status ≠ .ok () ∨
      enabledTransition jmespath found.template record.data opts.event = none := by
  constructor
  · intro h
    by_contra hgoes
    push Not at hgoes
    obtain ⟨hcheck, henabled⟩ := hgoes
    obtain ⟨transition, henabled⟩ := Option.ne_none_iff_exists'.1 henabled
    have h := h ⟨order, idle, "", ""⟩ rfl
    rw [always_advance hrecord hfound hkey, hcheck, henabled] at h
    dsimp only at h
    rw [always_bind_ok (always_executeAction rfl ..)] at h
    simp only [ask, access_bind, done_bind, always_access, updateInstance] at h
    split at h <;> simp at h
  · rintro h e rfl
    rw [always_advance hrecord hfound hkey]
    cases hcheck : checkAdvance record.data.status with
    | error error => exact .inl ⟨_, _, by rw [checkAdvance_eq_error hcheck]⟩
    | ok _ => exact .inr ⟨_, _, by rw [h.resolve_left fun hne => hne hcheck]⟩

theorem always_status (jmespath : JmesPath) (statusOpts : StatusOptions)
    (hrecord : s.findByInstanceId e.order statusOpts.instanceId = some record)
    (hfound : s.findByTemplateIdAndVersion e.order record.data.templateId
      (some record.data.templateVersion) = some found) :
    ∃ response, (status jmespath statusOpts).always e s = (.ok response, s) ∧
      response.message.allowedEvents = allowedEvents jmespath found.template record.data := by
  simp only [status, requireInstance, findByInstanceId, access_bind, done_bind,
    always_access, hrecord, orFail, findByTemplateIdAndVersion, hfound]
  exact ⟨_, rfl, rfl⟩

/-- **What `status` lists is what `advance` takes**, just when the instance is neither paused nor
finished, or nothing is enabled in its state. -/
theorem status_agrees_iff {statusOpts : StatusOptions} {response : StatusResponse} {key : String}
    {input : Option Json} (hrecord : s.findByInstanceId e.order statusOpts.instanceId = some record)
    (hfound : s.findByTemplateIdAndVersion e.order record.data.templateId
      (some record.data.templateVersion) = some found)
    (hstatus : ((status jmespath statusOpts).always e s).1 = .ok response)
    (hkey : key ∉ record.data.idempotencyKeys) :
    (∀ event, event ∈ response.message.allowedEvents ↔
      ¬ Rejects jmespath e.order s ⟨statusOpts.instanceId, event, some key, input⟩) ↔
    (record.data.status = .active ∨ record.data.status = .error) ∨
      ∀ transition ∈ found.template.transitions, transition.source = record.data.state →
        eval jmespath transition.guard record.data = false := by
  obtain ⟨_, hr, hlisted⟩ := always_status jmespath _ hrecord hfound
  rw [hr] at hstatus
  cases hstatus
  have hrejects : ∀ event,
      Rejects jmespath e.order s ⟨statusOpts.instanceId, event, some key, input⟩ ↔
        checkAdvance record.data.status ≠ .ok () ∨
          enabledTransition jmespath found.template record.data event = none := fun event =>
    rejects_iff hrecord hfound (by simpa [isRetry] using hkey)
  have hactive : checkAdvance record.data.status = .ok () ↔
      record.data.status = .active ∨ record.data.status = .error := by
    cases record.data.status <;> simp [checkAdvance]
  have hquiet : (∀ event, event ∉ allowedEvents jmespath found.template record.data) ↔
      ∀ transition ∈ found.template.transitions, transition.source = record.data.state →
        eval jmespath transition.guard record.data = false := by
    simp only [mem_allowedEvents]
    grind
  rw [hlisted, ← hactive, ← hquiet]
  simp only [hrejects, mem_allowedEvents_iff, Option.isSome_iff_ne_none]
  by_cases hcheck : checkAdvance record.data.status = .ok () <;> simp [hcheck]

namespace Sample

def oneStepInstance (status : InstanceStatus) : WorkflowInstanceRecord :=
  ⟨"r1", ⟨"i1", "onboarding", "1.0.0", none, [], "new", none, .object [], .object [], status,
    [], []⟩⟩

def statusStore (status : InstanceStatus) : Store :=
  ⟨Finmap.singleton "t1" oneStepRecord, Finmap.singleton "r1" (oneStepInstance status),
    fun _ => false⟩

noncomputable def statusInput : Input := ⟨.some, fun _ => none, "", ""⟩

theorem findByInstanceId_statusStore (status : InstanceStatus) :
    (statusStore status).findByInstanceId statusInput.order "i1" =
      some (oneStepInstance status) := by
  simp [Store.findByInstanceId, Store.instanceList, statusStore, IterOrder.list_singleton,
    oneStepInstance]

theorem findByTemplateIdAndVersion_statusStore (status : InstanceStatus) :
    (statusStore status).findByTemplateIdAndVersion statusInput.order "onboarding"
      (some "1.0.0") = some oneStepRecord := by
  simp [Store.findByTemplateIdAndVersion, Store.templateList, statusStore,
    IterOrder.list_singleton, oneStepRecord]

end Sample

open Sample

/-- An active instance. -/
theorem status_agrees_active : ∃ response,
    ((status (fun _ _ => none) ⟨"i1", none⟩).always statusInput (statusStore .active)).1 =
      .ok response ∧
    ∀ event, event ∈ response.message.allowedEvents ↔ ¬ Rejects (fun _ _ => none)
      statusInput.order (statusStore .active) ⟨"i1", event, some "k", none⟩ := by
  obtain ⟨response, hr, _⟩ := always_status (fun _ _ => none) ⟨"i1", none⟩
    (findByInstanceId_statusStore .active) (findByTemplateIdAndVersion_statusStore .active)
  have hstatus := congrArg Prod.fst hr
  exact ⟨response, hstatus, (status_agrees_iff (findByInstanceId_statusStore .active)
    (findByTemplateIdAndVersion_statusStore .active) hstatus List.not_mem_nil).2 (.inl (.inl rfl))⟩

/-- A paused instance: the event is listed, and the advance rejected. -/
theorem status_agrees_fails : ∃ response,
    ((status (fun _ _ => none) ⟨"i1", none⟩).always statusInput (statusStore .paused)).1 =
      .ok response ∧
    "finish" ∈ response.message.allowedEvents ∧ Rejects (fun _ _ => none) statusInput.order
      (statusStore .paused) ⟨"i1", "finish", some "k", none⟩ := by
  obtain ⟨response, hr, hlisted⟩ := always_status (fun _ _ => none) ⟨"i1", none⟩
    (findByInstanceId_statusStore .paused) (findByTemplateIdAndVersion_statusStore .paused)
  refine ⟨response, congrArg Prod.fst hr, ?_, (rejects_iff (findByInstanceId_statusStore .paused)
    (findByTemplateIdAndVersion_statusStore .paused) rfl).2 (.inl nofun)⟩
  rw [hlisted]
  decide

end Idiom.Workflow
