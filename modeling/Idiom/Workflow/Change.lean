import Idiom.Workflow.Finished

/-!
# What the calls on an instance write

Seven operations load an instance, change it and write it back; `advance` and `advance_mirror` do
so under the advance lock of the instance, and run an action in between. `complete` loads and
writes nothing.
-/

namespace Idiom.Workflow

open Ajna (Json)
open Prog

/-! ## Changes -/

inductive Change where
  | status (status : InstanceStatus)
  | context (patch : Json)
  | artifacts (patch : Json)
  | transition (template : WorkflowTemplate) (opts : AdvanceOptions) (transition : TransitionDef)
      (result : ActionResult) (now : String)

def Change.apply (data : WorkflowInstanceData) : Change → WorkflowInstanceData
  | .status new => { data with status := new }
  | .context patch => { data with context := mergeJson data.context patch }
  | .artifacts patch => { data with artifacts := mergeJson data.artifacts patch }
  | .transition template opts found result now =>
    WorkflowService.applyTransition template data opts found result now

def HasTemplate (templates : FMap String WorkflowTemplateRecord) (data : WorkflowInstanceData)
    (record : WorkflowTemplateRecord) : Prop :=
  (∃ id, templates.lookup id = some record) ∧ record.templateId = data.templateId ∧
    record.version = data.templateVersion

/-- The change an advance makes: the first enabled transition of a stored template. -/
def Advances (jmespath : JmesPath) (templates : FMap String WorkflowTemplateRecord)
    (opts : AdvanceOptions) (data : WorkflowInstanceData) (change : Change) : Prop :=
  WorkflowService.checkAdvance data.status = .ok () ∧ WorkflowService.isRetry opts data = false ∧
    ∃ record transition result now, HasTemplate templates data record ∧
      WorkflowService.enabledTransition jmespath record.template data opts.event = some transition ∧
      change = .transition record.template opts transition result now

/-- The operation may change the instance so. -/
def Change.Of (jmespath : JmesPath) (templates : FMap String WorkflowTemplateRecord)
    (op : WorkflowOp) (data : WorkflowInstanceData) (change : Change) : Prop :=
  match op with
  | .pause _ => change = .status .paused
  | .resume _ => change = .status .active
  | .cancel _ => change = .status .canceled
  | .updateContext _ patch => change = .context patch
  | .appendArtifacts _ patch => change = .artifacts patch
  | .advance opts => Advances jmespath templates opts data change
  | .advanceMirror opts => Advances jmespath templates opts data change
  | _ => False

@[simp] theorem Change.apply_instanceId (data : WorkflowInstanceData) (change : Change) :
    (change.apply data).instanceId = data.instanceId := by cases change <;> rfl

@[simp] theorem Change.apply_templateId (data : WorkflowInstanceData) (change : Change) :
    (change.apply data).templateId = data.templateId := by cases change <;> rfl

@[simp] theorem Change.apply_templateVersion (data : WorkflowInstanceData) (change : Change) :
    (change.apply data).templateVersion = data.templateVersion := by cases change <;> rfl

/-! ## The calls on an instance -/

/-- The call is on the instance. -/
def WorkflowOp.On (instanceId : String) : WorkflowOp → Prop
  | .advance opts => opts.instanceId = instanceId
  | .advanceMirror opts => opts.instanceId = instanceId
  | .pause id => id = instanceId
  | .resume id => id = instanceId
  | .cancel id => id = instanceId
  | .updateContext id _ => id = instanceId
  | .appendArtifacts id _ => id = instanceId
  | _ => False

theorem WorkflowOp.on_or (op : WorkflowOp) :
    (∃ instanceId, op.On instanceId) ∨ (∃ opts, op = .start opts) ∨
      (∃ instanceId, op = .complete instanceId) ∨ (∃ template, op = .publishTemplate template) ∨
        ∃ id, op = .deleteTemplate id := by
  cases op with
  | start opts => exact .inr (.inl ⟨opts, rfl⟩)
  | complete id => exact .inr (.inr (.inl ⟨id, rfl⟩))
  | publishTemplate template => exact .inr (.inr (.inr (.inl ⟨template, rfl⟩)))
  | deleteTemplate id => exact .inr (.inr (.inr (.inr ⟨id, rfl⟩)))
  | advance opts | advanceMirror opts => exact .inl ⟨opts.instanceId, rfl⟩
  | pause id | resume id | cancel id | updateContext id patch
  | appendArtifacts id patch => exact .inl ⟨id, rfl⟩

def WorkflowOp.advanceOptions : WorkflowOp → Option AdvanceOptions
  | .advance opts => some opts
  | .advanceMirror opts => some opts
  | _ => none

def WorkflowOp.isAdvance (op : WorkflowOp) : Bool := op.advanceOptions.isSome

namespace WorkflowService

/-- An advance from its load on. -/
def advanceRest (jmespath : JmesPath) (opts : AdvanceOptions) (lenient : Bool)
    (record : WorkflowInstanceRecord) : Op WorkflowInstanceRecord := do
  .ofExcept (checkAdvance record.data.status)
  if isRetry opts record.data then return record
  else advanceRecord jmespath opts lenient record

/-- The other calls from their load on. -/
def modifyRest (f : WorkflowInstanceData → WorkflowInstanceData)
    (record : WorkflowInstanceRecord) : Op WorkflowInstanceRecord := do
  let record := { record with data := f record.data }
  updateInstance record
  return record

end WorkflowService

open WorkflowService

/-- A call from its load on. -/
def WorkflowOp.rest (jmespath : JmesPath) : WorkflowOp → WorkflowInstanceRecord →
    Op WorkflowInstanceRecord
  | .advance opts => advanceRest jmespath opts false
  | .advanceMirror opts => advanceRest jmespath opts true
  | .pause _ => modifyRest fun data => { data with status := .paused }
  | .resume _ => modifyRest fun data => { data with status := .active }
  | .cancel _ => modifyRest fun data => { data with status := .canceled }
  | .updateContext _ patch =>
    modifyRest fun data => { data with context := mergeJson data.context patch }
  | .appendArtifacts _ artifacts =>
    modifyRest fun data => { data with artifacts := mergeJson data.artifacts artifacts }
  | _ => fun record => .done record

/-- What is left of an advance that holds the lock. -/
def release (instanceId : String) (q : Op WorkflowInstanceRecord) :
    Op WorkflowInstanceRecord := do
  let result ← q.attempt
  .modify (.unlock instanceId) fun s =>
    { s with locked := Function.update s.locked instanceId false }
  .ofExcept result

/-- What is left of a call that has taken its lock, if it takes one. -/
def WorkflowOp.close (op : WorkflowOp) (instanceId : String) (q : Op WorkflowInstanceRecord) :
    Op Reply :=
  Reply.instance_ <$> if op.isAdvance then release instanceId q else q

/-- The call has the lock. -/
def lockInstance (instanceId : String) (s : Store) : Store :=
  { s with locked := Function.update s.locked instanceId true }

def unlockInstance (instanceId : String) (s : Store) : Store :=
  { s with locked := Function.update s.locked instanceId false }

section

variable {jmespath : JmesPath} {op : WorkflowOp} {instanceId : String}

/-- **A call on an instance** loads it and goes on, under the lock if it is an advance. -/
theorem perform_eq (hon : op.On instanceId) :
    perform jmespath op =
      if op.isAdvance then .access (.lock instanceId) (fun _ s => lockInstance instanceId s)
        fun _ _ => op.close instanceId (requireInstance instanceId >>= op.rest jmespath)
      else op.close instanceId (requireInstance instanceId >>= op.rest jmespath) := by
  cases op with
  | advance opts | advanceMirror opts | pause id | resume id | cancel id | updateContext id patch
  | appendArtifacts id artifacts => cases hon; rfl
  | _ => exact hon.elim

theorem close_access {label : RepoCall} {effect : Input → Store → Store}
    {next : Input → Store → Op WorkflowInstanceRecord} :
    op.close instanceId (.access label effect next) =
      .access label effect fun e s => op.close instanceId (next e s) := by
  unfold WorkflowOp.close
  cases op.isAdvance <;> rfl

theorem close_ofExcept {result : Except WorkflowError WorkflowInstanceRecord} :
    op.close instanceId (.ofExcept result) =
      if op.isAdvance then .access (.unlock instanceId) (fun _ s => unlockInstance instanceId s)
        fun _ _ => Reply.instance_ <$> .ofExcept result
      else Reply.instance_ <$> .ofExcept result := by
  unfold WorkflowOp.close
  cases op.isAdvance <;> cases result <;> rfl

theorem close_load {k : WorkflowInstanceRecord → Op WorkflowInstanceRecord} :
    op.close instanceId (requireInstance instanceId >>= k) =
      .access .findInstance (fun _ s => s) fun e s =>
        op.close instanceId (match s.findByInstanceId e.order instanceId with
          | some record => k record
          | none => .fail (.instanceNotFound instanceId)) := by
  have hload : requireInstance instanceId >>= k =
      .access .findInstance (fun _ s => s) fun e s =>
        match s.findByInstanceId e.order instanceId with
          | some record => k record
          | none => .fail (.instanceNotFound instanceId) := by
    show access RepoCall.findInstance (fun _ s => s) (fun e s =>
      orFail (.instanceNotFound instanceId) (s.findByInstanceId e.order instanceId) >>= k) = _
    congr
    funext e s
    cases s.findByInstanceId e.order instanceId <;> rfl
  rw [hload, close_access]

end

/-! ## Between the load and the write -/

/-- An access that has nothing to do with the instances. -/
def RepoCall.isQuiet : RepoCall → Bool
  | .findTemplate => true
  | .execute => true
  | .now => true
  | _ => false

/-- Quiet accesses, and then one write of a record with `W`, while the templates are these. It may
fail, or end without a write with a record that has `D`. -/
def Pending (templates : FMap String WorkflowTemplateRecord) (D W : WorkflowInstanceRecord → Prop) :
    Op WorkflowInstanceRecord → Prop
  | .done record => D record
  | .fail _ => True
  | .access label effect next =>
    (label.isQuiet = true ∧ ∀ e s, s.templates = templates →
      effect e s = s ∧ Pending templates D W (next e s)) ∨
    ∃ record, W record ∧
      .access label effect next = updateInstance record >>= fun _ => .done record

/-- A record with the change of a call. -/
def Writes (jmespath : JmesPath) (templates : FMap String WorkflowTemplateRecord)
    (op : WorkflowOp) (record record' : WorkflowInstanceRecord) : Prop :=
  ∃ change : Change, change.Of jmespath templates op record.data ∧
    record' = { record with data := change.apply record.data }

/-- A call that ends with the record it has loaded: a retry. -/
def Keeps (op : WorkflowOp) (record record' : WorkflowInstanceRecord) : Prop :=
  record' = record ∧ ∃ opts, op.advanceOptions = some opts ∧
    checkAdvance record.data.status = .ok () ∧
    isRetry opts record.data = true

section

variable {jmespath : JmesPath} {templates : FMap String WorkflowTemplateRecord}
  {op : WorkflowOp} {instanceId : String} {record : WorkflowInstanceRecord}
  {D W : WorkflowInstanceRecord → Prop} {P : Input → Prop} {s t : Store}

theorem pending_update (hW : W record) :
    Pending templates D W (updateInstance record >>= fun _ => .done record) :=
  .inr ⟨record, hW, rfl⟩

theorem findByTemplateIdAndVersion_eq_some {order : IterOrder String}
    {templateId version : String} {found : WorkflowTemplateRecord}
    (h : s.findByTemplateIdAndVersion order templateId (some version) = some found) :
    (∃ id, s.templates.lookup id = some found) ∧ found.templateId = templateId ∧
      found.version = version := by
  have hversion := List.find?_some h
  obtain ⟨hmem, hid⟩ := List.mem_filter.1 (List.mem_of_find?_eq_some h)
  obtain ⟨id, _, hlookup⟩ := List.mem_filterMap.1 hmem
  exact ⟨⟨id, hlookup⟩, of_decide_eq_true hid, of_decide_eq_true hversion⟩

variable {opts : AdvanceOptions} {lenient : Bool}

theorem pending_executeAction {template : WorkflowTemplate} {data : WorkflowInstanceData}
    {action : Option String} {k : ActionResult → Op WorkflowInstanceRecord}
    (hk : ∀ result, Pending templates D W (k result)) :
    Pending templates D W (executeAction template data opts lenient action >>= k) := by
  unfold executeAction
  cases action.bind template.findAction with
  | none => exact hk _
  | some action =>
    refine .inl ⟨rfl, fun e s _ => ⟨rfl, ?_⟩⟩
    dsimp only
    cases e.registry.execute action ⟨template, data, action, opts.input⟩ with
    | ok result => exact hk result
    | error error =>
      cases lenient with
      | true => exact hk _
      | false => trivial

theorem pending_advanceRecord (hcheck : checkAdvance record.data.status = .ok ())
    (hretry : isRetry opts record.data = false)
    (hW : ∀ change, Advances jmespath templates opts record.data change →
      W { record with data := change.apply record.data }) :
    Pending templates D W (advanceRecord jmespath opts lenient record) := by
  refine .inl ⟨rfl, fun e s hs => ⟨rfl, ?_⟩⟩
  show Pending templates D W (orFail _ (s.findByTemplateIdAndVersion e.order
    record.data.templateId (some record.data.templateVersion)) >>= _)
  cases hfound : s.findByTemplateIdAndVersion e.order record.data.templateId
      (some record.data.templateVersion) with
  | none => trivial
  | some found =>
    show Pending templates D W (orFail _ (enabledTransition jmespath
      found.template record.data opts.event) >>= _)
    cases htransition : enabledTransition jmespath found.template record.data
        opts.event with
    | none => trivial
    | some transition =>
      refine pending_executeAction fun result => .inl ⟨rfl, fun e' s' _ => ⟨rfl, ?_⟩⟩
      refine pending_update (hW (.transition found.template opts transition result e'.now) ?_)
      exact ⟨hcheck, hretry, found, transition, result, e'.now,
        hs ▸ findByTemplateIdAndVersion_eq_some hfound, htransition, rfl⟩

theorem pending_advanceRest
    (hD : checkAdvance record.data.status = .ok () → isRetry opts record.data = true → D record)
    (hW : ∀ change, Advances jmespath templates opts record.data change →
      W { record with data := change.apply record.data }) :
    Pending templates D W (advanceRest jmespath opts lenient record) := by
  unfold advanceRest
  cases hcheck : checkAdvance record.data.status with
  | error e => trivial
  | ok u =>
    show Pending templates D W (if isRetry opts record.data = true then _ else _)
    cases hretry : isRetry opts record.data with
    | true => exact hD hcheck hretry
    | false => exact pending_advanceRecord hcheck hretry hW

/-- **What follows the load** of an instance: one change of it, or nothing. -/
theorem pending_rest (hon : op.On instanceId) :
    Pending templates (Keeps op record) (Writes jmespath templates op record)
      (op.rest jmespath record) := by
  cases op with
  | advance opts | advanceMirror opts =>
    exact pending_advanceRest (fun hcheck hretry => ⟨rfl, opts, rfl, hcheck, hretry⟩)
      fun change hchange => ⟨change, hchange, rfl⟩
  | pause id => exact pending_update ⟨.status .paused, rfl, rfl⟩
  | resume id => exact pending_update ⟨.status .active, rfl, rfl⟩
  | cancel id => exact pending_update ⟨.status .canceled, rfl, rfl⟩
  | updateContext id patch => exact pending_update ⟨.context patch, rfl, rfl⟩
  | appendArtifacts id patch => exact pending_update ⟨.artifacts patch, rfl, rfl⟩
  | _ => exact hon.elim

/-! ## A call alone -/

variable {q : Op WorkflowInstanceRecord} {r : Except WorkflowError WorkflowInstanceRecord}

theorem Pending.ends (hq : Pending templates D W q) (hs : s.templates = templates)
    (h : q.Ends P s r t) :
    t = s ∨ ∃ record, W record ∧ t = if record.id ∈ s.instances then
      { s with instances := s.instances.insert record.id record } else s := by
  induction q generalizing s with
  | done a => exact .inl (ends_done.1 h).2
  | fail e => exact .inl (ends_fail.1 h).2
  | access label effect next ih =>
    rcases hq with ⟨_, hq⟩ | ⟨record, hW, heq⟩
    · obtain ⟨e, _, h⟩ := ends_access.1 h
      obtain ⟨hsame, hnext⟩ := hq e s hs
      rw [hsame] at h
      exact ih e s hnext hs h
    · rw [heq] at h
      obtain ⟨e, _, h⟩ := ends_access.1 h
      refine .inr ⟨record, hW, ?_⟩
      by_cases hmem : record.id ∈ s.instances
      · simp only [hmem] at h ⊢
        exact (ends_done.1 h).2
      · simp only [hmem] at h ⊢
        exact (ends_fail.1 h).2

theorem Ends.release (h : (Workflow.release instanceId q).Ends P s r t) :
    ∃ t' r', q.Ends P s r' t' ∧ t.instances = t'.instances ∧ t.templates = t'.templates := by
  rcases ends_bind.1 h with ⟨e, h, _⟩ | ⟨result, t', hq, h₁⟩
  · obtain ⟨_, h, _⟩ := ends_attempt.1 h
    cases h
  obtain ⟨r', _, hq⟩ := ends_attempt.1 hq
  refine ⟨t', r', hq, ?_⟩
  rcases ends_bind.1 h₁ with ⟨e, h, _⟩ | ⟨_, v, hunlock, h₂⟩
  · cases (Ends.of_modify h).1
  rw [(Ends.of_ofExcept h₂).2, (Ends.of_modify hunlock).2]
  exact ⟨rfl, rfl⟩

theorem Ends.close {r : Except WorkflowError Reply} (h : (op.close instanceId q).Ends P s r t) :
    ∃ t' r', q.Ends P s r' t' ∧ t.instances = t'.instances ∧ t.templates = t'.templates := by
  obtain ⟨r', h, _⟩ := ends_map.1 h
  cases hop : op.isAdvance with
  | false =>
    rw [hop] at h
    exact ⟨t, r', h, rfl, rfl⟩
  | true =>
    rw [hop] at h
    exact Ends.release h

/-- **A call alone**: it leaves the store alone, or changes the instance once. -/
theorem Ends.call {r : Except WorkflowError Reply} (hon : op.On instanceId)
    (h : (perform jmespath op).Ends P s r t) :
    t.templates = s.templates ∧ (t.instances = s.instances ∨
      ∃ id record change, s.instances.lookup id = some record ∧
        record.data.instanceId = instanceId ∧
        Change.Of jmespath s.templates op record.data change ∧
        t.instances = if record.id ∈ s.instances then
          s.instances.insert record.id { record with data := change.apply record.data }
        else s.instances) := by
  -- with the lock or without it, the store is the same to the rest of the call
  obtain ⟨s₁, t₁, r₁, hinstances, htemplates, hends, hti, htt⟩ :
      ∃ s₁ t₁ r₁, s₁.instances = s.instances ∧ s₁.templates = s.templates ∧
        (Workflow.requireInstance instanceId >>= op.rest jmespath).Ends P s₁ r₁ t₁ ∧
        t.instances = t₁.instances ∧ t.templates = t₁.templates := by
    rw [perform_eq hon] at h
    split at h
    · obtain ⟨e, _, h⟩ := ends_access.1 h
      obtain ⟨t₁, r₁, hq, hti, htt⟩ := Ends.close h
      exact ⟨lockInstance instanceId s, t₁, r₁, rfl, rfl, hq, hti, htt⟩
    · obtain ⟨t₁, r₁, hq, hti, htt⟩ := Ends.close h
      exact ⟨s, t₁, r₁, rfl, rfl, hq, hti, htt⟩
  rw [hti, htt, ← hinstances, ← htemplates]
  rcases ends_bind.1 hends with ⟨e, h, _⟩ | ⟨record, u, hload, hrest⟩
  · rw [(Ends.requireInstance h).1]
    exact ⟨rfl, .inl rfl⟩
  obtain ⟨rfl, ⟨id, record', hlookup, hid, hr⟩ | ⟨_, hr⟩⟩ := Ends.requireInstance hload
  · cases hr
    rcases (@pending_rest jmespath _ _ _ _ hon).ends rfl hrest with
      rfl | ⟨record', ⟨change, hchange, rfl⟩, rfl⟩
    · exact ⟨rfl, .inl rfl⟩
    · split
      · next hmem =>
        refine ⟨rfl, .inr ⟨id, record, change, hlookup, hid, hchange, ?_⟩⟩
        rw [if_pos hmem]
      · exact ⟨rfl, .inl rfl⟩
  · cases hr

end

/-! ## A template with one step -/

namespace Sample

/-- One event leads from the start state to a final state. -/
def oneStep : WorkflowTemplate where
  templateId := "onboarding"
  version := "1.0.0"
  policyMode := .multiPerConnection
  states := [⟨"new", .start, none⟩, ⟨"done", .final, none⟩]
  transitions := [⟨"new", "done", "finish", none, none⟩]
  actions := []

def oneStepRecord : WorkflowTemplateRecord := ⟨"t1", "onboarding", "1.0.0", oneStep⟩

def finish : AdvanceOptions := ⟨"i1", "finish", none, none⟩

def finished : WorkflowInstanceRecord :=
  ⟨"r1", ⟨"i1", "onboarding", "1.0.0", none, [], "done", none, .object [], .object [], .completed,
    [⟨"2025-01-01T00:00:00Z", "finish", "new", "done", none, none⟩], []⟩⟩

end Sample

end Idiom.Workflow
