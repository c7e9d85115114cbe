import Idiom.Workflow.Service

/-!
# Finished workflows

`advance` refuses an instance that is canceled or completed. `pause`, `resume` and `cancel` write
the status of any instance.
-/

namespace Idiom.Workflow

open Run Prog WorkflowService Ends Finmap Option

def InstanceStatus.isFinished : InstanceStatus → Bool
  | .canceled => true
  | .completed => true
  | _ => false

/-- Every finished instance is still there, with the same status in the same state. -/
def KeepsFinished (s t : Store) : Prop :=
  ∀ id record, s.instances.lookup id = some record → record.data.status.isFinished = true →
    ∃ record', t.instances.lookup id = some record' ∧
      record'.data.status = record.data.status ∧ record'.data.state = record.data.state

/-- At no point of the run is a finished instance changed later. -/
def StaysFinished (jmespath : JmesPath) (l : List (WorkflowOp × List Input)) : Prop :=
  Related (step jmespath) KeepsFinished .empty l

/-- Every instance with the id has a status with `P`. -/
def Store.StatusOf (s : Store) (P : InstanceStatus → Prop) (instanceId : String) : Prop :=
  ∀ id record, s.instances.lookup id = some record → record.data.instanceId = instanceId →
    P record.data.status

def LeavesFinished (s : Store) : WorkflowOp × List Input → Prop
  | (.pause instanceId, _) => s.StatusOf (fun status => status.isFinished = false) instanceId
  | (.resume instanceId, _) => s.StatusOf (fun status => status.isFinished = false) instanceId
  | (.cancel instanceId, _) => s.StatusOf (· ≠ .completed) instanceId
  | _ => True

/-! ## What an operation does -/

section

variable {P : Input → Prop} {s t : Store}

variable {order : IterOrder String} {record : WorkflowInstanceRecord}

theorem mem_instanceList :
    record ∈ s.instanceList order ↔ ∃ id, s.instances.lookup id = some record := by
  unfold Store.instanceList
  rw [List.mem_filterMap]
  constructor
  · rintro ⟨id, _, h⟩
    exact ⟨id, h⟩
  · rintro ⟨id, h⟩
    refine ⟨id, ?_, h⟩
    rw [IterOrder.mem_list]
    exact mem_of_lookup_eq_some h

variable {instanceId : String}

theorem findByInstanceId_eq_some (h : s.findByInstanceId order instanceId = some record) :
    (∃ id, s.instances.lookup id = some record) ∧ record.data.instanceId = instanceId := by
  refine ⟨mem_instanceList.1 (List.mem_of_find?_eq_some h), ?_⟩
  simpa using List.find?_some h

theorem findByInstanceId_eq_none :
    s.findByInstanceId order instanceId = none ↔
      ∀ id record, s.instances.lookup id = some record → record.data.instanceId ≠ instanceId := by
  unfold Store.findByInstanceId
  rw [List.find?_eq_none]
  constructor
  · intro h id record hrecord
    simpa using h record (mem_instanceList.2 ⟨id, hrecord⟩)
  · intro h record hmem
    obtain ⟨id, hrecord⟩ := mem_instanceList.1 hmem
    simpa using h id record hrecord

theorem lookup_of_findByTemplateIdAndVersion {templateId : String} {version : Option String}
    {found : WorkflowTemplateRecord}
    (h : s.findByTemplateIdAndVersion order templateId version = some found) :
    ∃ id, s.templates.lookup id = some found := by
  have hmem : found ∈ (s.templateList order).filter fun r => r.templateId = templateId := by
    cases version with
    | none => exact List.mem_mergeSort.1 (List.mem_of_mem_head? h)
    | some version => exact List.mem_of_find?_eq_some h
  obtain ⟨id, _, hlookup⟩ := List.mem_filterMap.1 (List.mem_filter.1 hmem).1
  exact ⟨id, hlookup⟩

theorem Ends.orFail {α : Type} {error : WorkflowError} {found : Option α}
    {r : Except WorkflowError α} (h : (orFail error found).Ends P s r t) :
    t = s ∧ ((∃ a, found = some a ∧ r = .ok a) ∨ found = none ∧ r = .error error) := by
  cases found with
  | none =>
    obtain ⟨hr, ht⟩ := ends_fail.1 h
    exact ⟨ht, .inr ⟨rfl, hr⟩⟩
  | some a =>
    obtain ⟨hr, ht⟩ := ends_done.1 h
    exact ⟨ht, .inl ⟨a, rfl, hr⟩⟩

theorem Ends.findByTemplateIdAndVersion {templateId : String} {version : Option String}
    {r : Except WorkflowError (Option WorkflowTemplateRecord)}
    (h : (Workflow.findByTemplateIdAndVersion templateId version).Ends P s r t) : t = s := by
  obtain ⟨e, _, h⟩ := ends_access.1 h
  exact (ends_done.1 h).2

variable {r : Except WorkflowError WorkflowInstanceRecord}

theorem Ends.requireInstance (h : (Workflow.requireInstance instanceId).Ends P s r t) :
    t = s ∧ ((∃ id record, s.instances.lookup id = some record ∧
        record.data.instanceId = instanceId ∧ r = .ok record) ∨
      ((∀ id record, s.instances.lookup id = some record → record.data.instanceId ≠ instanceId) ∧
        r = .error (.instanceNotFound instanceId))) := by
  obtain ⟨e, _, h⟩ := ends_access.1 h
  obtain ⟨rfl, h⟩ := orFail h
  refine ⟨rfl, ?_⟩
  rcases h with ⟨record, hfound, hr⟩ | ⟨hfound, hr⟩
  · obtain ⟨⟨id, hrecord⟩, hid⟩ := findByInstanceId_eq_some hfound
    exact .inl ⟨id, record, hrecord, hid, hr⟩
  · exact .inr ⟨findByInstanceId_eq_none.1 hfound, hr⟩

theorem Ends.updateInstance {r : Except WorkflowError Unit}
    (h : (Workflow.updateInstance record).Ends P s r t) :
    t.instances = if record.id ∈ s.instances then s.instances.insert record.id record
      else s.instances := by
  obtain ⟨e, _, h⟩ := ends_access.1 h
  by_cases hmem : record.id ∈ s.instances
  · simp only [hmem, if_true, ends_done] at h ⊢
    rw [h.2]
  · simp only [hmem, if_false, ends_fail] at h ⊢
    rw [h.2]

variable {f : WorkflowInstanceData → WorkflowInstanceData}

/-- Load, change and write back: the record of the instance, if there is one. -/
theorem Ends.modifyInstance (h : (modifyInstance instanceId f).Ends P s r t) :
    (∃ id record, s.instances.lookup id = some record ∧ record.data.instanceId = instanceId ∧
        t.instances = if record.id ∈ s.instances then
          s.instances.insert record.id { record with data := f record.data } else s.instances) ∨
      ((∀ id record, s.instances.lookup id = some record → record.data.instanceId ≠ instanceId) ∧
        t = s) := by
  rcases ends_bind.1 h with ⟨e, h, _⟩ | ⟨record, u, h, hu⟩
  · obtain ⟨rfl, ⟨_, _, _, _, hr⟩ | ⟨hnone, _⟩⟩ := requireInstance h
    · cases hr
    · exact .inr ⟨hnone, rfl⟩
  · obtain ⟨rfl, ⟨id, record', hrecord, hid, hr⟩ | ⟨_, hr⟩⟩ := requireInstance h
    · cases hr
      refine .inl ⟨id, record, hrecord, hid, ?_⟩
      rcases ends_bind.1 hu with ⟨e, hu, _⟩ | ⟨_, v, hu, hv⟩
      · exact updateInstance hu
      · rw [(ends_done.1 hv).2]
        exact updateInstance hu
    · cases hr

variable {opts : AdvanceOptions} {lenient : Bool} {template : WorkflowTemplate}

theorem Ends.executeAction {data : WorkflowInstanceData} {action : Option String}
    {r : Except WorkflowError ActionResult}
    (h : (executeAction template data opts lenient action).Ends P s r t) : t = s := by
  unfold WorkflowService.executeAction at h
  split at h
  · exact (ends_done.1 h).2
  · rcases ends_bind.1 h with ⟨e, h, _⟩ | ⟨result, u, h, hu⟩
    · exact (of_ask h).2
    · obtain ⟨_, rfl⟩ := of_ask h
      split at hu
      · exact (ends_done.1 hu).2
      · exact (ends_done.1 hu).2
      · exact (ends_fail.1 hu).2

variable {jmespath : JmesPath}

theorem Ends.advanceRecord (h : (advanceRecord jmespath opts lenient record).Ends P s r t) :
    t = s ∨ ∃ data, data.instanceId = record.data.instanceId ∧
      t.instances = if record.id ∈ s.instances then
        s.instances.insert record.id { record with data := data } else s.instances := by
  rcases ends_bind.1 h with ⟨e, h, _⟩ | ⟨found, u, hfound, h₁⟩
  · exact .inl (findByTemplateIdAndVersion h)
  obtain rfl := findByTemplateIdAndVersion hfound
  rcases ends_bind.1 h₁ with ⟨e, h, _⟩ | ⟨templateRecord, u, htemplate, h₂⟩
  · exact .inl (orFail h).1
  obtain rfl := (orFail htemplate).1
  rcases ends_bind.1 h₂ with ⟨e, h, _⟩ | ⟨transition, u, htransition, h₃⟩
  · exact .inl (orFail h).1
  obtain rfl := (orFail htransition).1
  rcases ends_bind.1 h₃ with ⟨e, h, _⟩ | ⟨result, u, hresult, h₄⟩
  · exact .inl (executeAction h)
  obtain rfl := executeAction hresult
  rcases ends_bind.1 h₄ with ⟨e, h, _⟩ | ⟨now, u, hnow, h₅⟩
  · exact .inl (of_ask h).2
  obtain ⟨_, rfl⟩ := of_ask hnow
  refine .inr ⟨applyTransition templateRecord.template record.data opts transition
    result now, rfl, ?_⟩
  rcases ends_bind.1 h₅ with ⟨e, h, _⟩ | ⟨_, u, hu, h₆⟩
  · exact updateInstance h
  · rw [(ends_done.1 h₆).2]
    exact updateInstance hu

theorem Ends.withInstanceLock {α : Type} {p : Op α} {r : Except WorkflowError α}
    (h : (Workflow.withInstanceLock instanceId p).Ends P s r t) :
    ∃ s' t' r', s'.instances = s.instances ∧ p.Ends P s' r' t' ∧ t.instances = t'.instances := by
  rcases ends_bind.1 h with ⟨e, h, _⟩ | ⟨_, s', hlock, h₁⟩
  · cases (of_modify h).1
  have hs' := congrArg Store.instances (of_modify hlock).2
  rcases ends_bind.1 h₁ with ⟨e, h, _⟩ | ⟨result, t', hp, h₂⟩
  · obtain ⟨_, h, _⟩ := ends_attempt.1 h
    cases h
  obtain ⟨r', _, hp⟩ := ends_attempt.1 hp
  refine ⟨s', t', r', hs', hp, ?_⟩
  rcases ends_bind.1 h₂ with ⟨e, h, _⟩ | ⟨_, v, hunlock, h₃⟩
  · cases (of_modify h).1
  rw [(of_ofExcept h₃).2, (of_modify hunlock).2]

theorem isFinished_of_checkAdvance {status : InstanceStatus}
    (h : checkAdvance status = .ok ()) : status.isFinished = false := by
  cases status with
  | canceled | completed => cases h
  | _ => rfl

theorem Ends.advanceInner (h : (advanceInner jmespath opts lenient).Ends P s r t) :
    t.instances = s.instances ∨ ∃ id record data, s.instances.lookup id = some record ∧
      record.data.status.isFinished = false ∧ data.instanceId = record.data.instanceId ∧
      t.instances = if record.id ∈ s.instances then
        s.instances.insert record.id { record with data := data } else s.instances := by
  obtain ⟨s', t', r', hs, h, ht⟩ := withInstanceLock h
  rw [ht, ← hs]
  rcases ends_bind.1 h with ⟨e, h, _⟩ | ⟨record, u, hrecord, h₁⟩
  · rw [(requireInstance h).1]
    exact .inl rfl
  obtain ⟨rfl, ⟨id, record', hlookup, hid, hr⟩ | ⟨_, hr⟩⟩ := requireInstance hrecord
  · cases hr
    rcases ends_bind.1 h₁ with ⟨e, h, _⟩ | ⟨_, v, hcheck, h₂⟩
    · rw [(of_ofExcept h).2]
      exact .inl rfl
    obtain ⟨hok, rfl⟩ := of_ofExcept hcheck
    have hstatus := isFinished_of_checkAdvance hok.symm
    split at h₂
    · rw [(ends_done.1 h₂).2]
      exact .inl rfl
    · rcases advanceRecord h₂ with rfl | ⟨data, hdata, ht'⟩
      · exact .inl rfl
      · exact .inr ⟨id, record, data, hlookup, hstatus, hdata, ht'⟩
  · cases hr

theorem Ends.checkInstancePolicy {connectionId : Option String} {r : Except WorkflowError Unit}
    (h : (checkInstancePolicy template connectionId).Ends P s r t) : t = s := by
  unfold WorkflowService.checkInstancePolicy at h
  split at h
  · rcases ends_bind.1 h with ⟨e, h, _⟩ | ⟨existing, u, hfind, h₁⟩
    · obtain ⟨_, _, h⟩ := ends_access.1 h
      exact (ends_done.1 h).2
    obtain ⟨_, _, hfind⟩ := ends_access.1 hfind
    obtain ⟨_, rfl⟩ := ends_done.1 hfind
    split at h₁
    · exact (ends_fail.1 h₁).2
    · exact (ends_done.1 h₁).2
  · exact (ends_done.1 h).2

def NewInstance (P : Input → Prop) (opts : StartOptions) (record : WorkflowInstanceRecord) : Prop :=
  record.data.status.isFinished = false ∧ (∃ e, P e ∧ record.id = e.uuid) ∧
    (opts.instanceId = some record.data.instanceId ∨ ∃ e, P e ∧ record.data.instanceId = e.uuid)

def Started (s : Store) (record : WorkflowInstanceRecord) : Prop :=
  ∃ id found startState, s.templates.lookup id = some found ∧
    found.template.startState = some startState ∧
    record.data.templateId = found.template.templateId ∧
    record.data.templateVersion = found.template.version ∧ record.data.state = startState.name ∧
    record.data.status = .active ∧ record.data.history = []

theorem Ends.orUuid {id : Option String} {r : Except WorkflowError String}
    (h : (orUuid id).Ends P s r t) :
    t = s ∧ ∀ a, r = .ok a → id = some a ∨ ∃ e, P e ∧ a = e.uuid := by
  cases id with
  | some id =>
    obtain ⟨hr, ht⟩ := ends_done.1 h
    refine ⟨ht, fun a ha => .inl ?_⟩
    rw [hr] at ha
    cases ha
    rfl
  | none =>
    obtain ⟨⟨e, he, hr⟩, ht⟩ := of_ask h
    refine ⟨ht, fun a ha => .inr ⟨e, he, ?_⟩⟩
    rw [hr] at ha
    cases ha
    rfl

theorem Ends.startNew {opts : StartOptions} (h : (startNew opts).Ends P s r t) :
    t = s ∨ ∃ record, NewInstance P opts record ∧ Started s record ∧
      t = { s with instances := s.instances.insert record.id record } := by
  rcases ends_bind.1 h with ⟨e, h, _⟩ | ⟨found, u, hfound, h₁⟩
  · exact .inl (findByTemplateIdAndVersion h)
  obtain ⟨e₀, _, hfound⟩ := ends_access.1 hfound
  obtain ⟨hfound, rfl⟩ := ends_done.1 hfound
  rcases ends_bind.1 h₁ with ⟨e, h, _⟩ | ⟨templateRecord, u, htemplate, h₂⟩
  · exact .inl (orFail h).1
  obtain ⟨rfl, ⟨_, hsome, hr⟩ | ⟨_, hr⟩⟩ := orFail htemplate
  case inr => cases hr
  cases hr
  cases Except.ok.inj hfound.symm
  obtain ⟨templateId, htemplate⟩ := lookup_of_findByTemplateIdAndVersion hsome
  rcases ends_bind.1 h₂ with ⟨e, h, _⟩ | ⟨_, u, hpolicy, h₃⟩
  · exact .inl (checkInstancePolicy h)
  obtain rfl := checkInstancePolicy hpolicy
  rcases ends_bind.1 h₃ with ⟨e, h, _⟩ | ⟨startState, u, hstart, h₄⟩
  · exact .inl (orFail h).1
  obtain ⟨rfl, ⟨_, hstartState, hr⟩ | ⟨_, hr⟩⟩ := orFail hstart
  case inr => cases hr
  cases hr
  rcases ends_bind.1 h₄ with ⟨e, h, _⟩ | ⟨instanceId, u, hid, h₅⟩
  · exact .inl (orUuid h).1
  obtain ⟨rfl, hnew⟩ := orUuid hid
  rcases ends_bind.1 h₅ with ⟨e, h, _⟩ | ⟨id, u, huuid, h₆⟩
  · exact .inl (of_ask h).2
  obtain ⟨⟨e, he, hr⟩, rfl⟩ := of_ask huuid
  cases hr
  rcases ends_bind.1 h₆ with ⟨e, h, _⟩ | ⟨_, u, hsave, h₇⟩
  · cases (of_modify h).1
  rw [(ends_done.1 h₇).2, (of_modify hsave).2]
  exact .inr ⟨_, ⟨rfl, ⟨e, he, rfl⟩, hnew instanceId rfl⟩,
    ⟨templateId, templateRecord, startState, htemplate, hstartState, rfl, rfl, rfl, rfl, rfl⟩, rfl⟩

theorem Ends.start {opts : StartOptions} (h : (start opts).Ends P s r t) :
    t = s ∨ ∃ record, NewInstance P opts record ∧ Started s record ∧
      (opts.instanceId = some record.data.instanceId → ∀ id record', s.instances.lookup id =
        some record' → record'.data.instanceId ≠ record.data.instanceId) ∧
      t = { s with instances := s.instances.insert record.id record } := by
  unfold WorkflowService.start at h
  cases hopts : opts.instanceId with
  | none =>
    rw [hopts] at h
    rcases startNew h with rfl | ⟨record, hnew, hstarted, ht⟩
    · exact .inl rfl
    · exact .inr ⟨record, hnew, hstarted, (fun h => by cases h), ht⟩
  | some instanceId =>
    simp only [hopts] at h
    rcases ends_bind.1 h with ⟨e, h, _⟩ | ⟨found, u, hfind, h₁⟩
    · obtain ⟨_, _, h⟩ := ends_access.1 h
      exact .inl (ends_done.1 h).2
    obtain ⟨input, _, hfind⟩ := ends_access.1 hfind
    obtain ⟨hfound, rfl⟩ := ends_done.1 hfind
    cases hfound' : found with
    | some existing =>
      rw [hfound'] at h₁
      exact .inl (ends_done.1 h₁).2
    | none =>
      rw [hfound'] at h₁ hfound
      rcases startNew h₁ with rfl | ⟨record, hnew, hstarted, ht⟩
      · exact .inl rfl
      · refine .inr ⟨record, hnew, hstarted, fun hid => ?_, ht⟩
        cases hid
        exact findByInstanceId_eq_none.1 (Except.ok.inj hfound).symm

theorem Ends.deleteMatching {id : String} {records : List WorkflowTemplateRecord}
    {r : Except WorkflowError ℕ} (h : (deleteMatching id records).Ends P s r t) :
    t.instances = s.instances := by
  induction records generalizing s r t with
  | nil => rw [(ends_done.1 h).2]
  | cons record rest ih =>
    unfold deleteMatching at h
    split at h
    · rcases ends_bind.1 h with ⟨e, h, _⟩ | ⟨_, u, hdelete, h₁⟩
      · cases (of_modify h).1
      have hu : u.instances = s.instances := by rw [(of_modify hdelete).2]
      rcases ends_bind.1 h₁ with ⟨e, h, _⟩ | ⟨_, v, hrest, h₂⟩
      · rw [ih h, hu]
      · rw [(ends_done.1 h₂).2, ih hrest, hu]
    · exact ih h

theorem Ends.deleteTemplate {id : String} {r : Except WorkflowError ℕ}
    (h : (deleteTemplate id).Ends P s r t) : t.instances = s.instances := by
  rcases ends_bind.1 h with ⟨e, h, _⟩ | ⟨all, u, hall, h₁⟩
  · obtain ⟨_, _, h⟩ := ends_access.1 h
    rw [(ends_done.1 h).2]
  obtain ⟨_, _, hall⟩ := ends_access.1 hall
  obtain ⟨_, rfl⟩ := ends_done.1 hall
  rcases ends_bind.1 h₁ with ⟨e, h, _⟩ | ⟨deleted, v, hdelete, h₂⟩
  · exact deleteMatching h
  rw [← deleteMatching hdelete]
  split at h₂
  · rw [(ends_fail.1 h₂).2]
  · rw [(ends_done.1 h₂).2]

theorem Ends.updateTemplate {record : WorkflowTemplateRecord} {r : Except WorkflowError Unit}
    (h : (Workflow.updateTemplate record).Ends P s r t) : t.instances = s.instances := by
  obtain ⟨e, _, h⟩ := ends_access.1 h
  by_cases hmem : record.id ∈ s.templates
  · simp only [hmem, if_true, ends_done] at h
    rw [h.2]
  · simp only [hmem, if_false, ends_fail] at h
    rw [h.2]

theorem Ends.publishTemplate {r : Except WorkflowError WorkflowTemplateRecord}
    (h : (publishTemplate template).Ends P s r t) : t.instances = s.instances := by
  rcases ends_bind.1 h with ⟨e, h, _⟩ | ⟨_, u, hvalid, h₁⟩
  · rw [(of_ofExcept h).2]
  obtain ⟨_, rfl⟩ := of_ofExcept hvalid
  rcases ends_bind.1 h₁ with ⟨e, h, _⟩ | ⟨found, u, hfound, h₂⟩
  · rw [findByTemplateIdAndVersion h]
  obtain rfl := findByTemplateIdAndVersion hfound
  split at h₂
  · rcases ends_bind.1 h₂ with ⟨e, h, _⟩ | ⟨_, v, hupdate, h₃⟩
    · exact updateTemplate h
    · rw [(ends_done.1 h₃).2]
      exact updateTemplate hupdate
  · rcases ends_bind.1 h₂ with ⟨e, h, _⟩ | ⟨_, v, huuid, h₃⟩
    · rw [(of_ask h).2]
    obtain ⟨_, rfl⟩ := of_ask huuid
    rcases ends_bind.1 h₃ with ⟨e, h, _⟩ | ⟨_, w, hsave, h₄⟩
    · cases (of_modify h).1
    rw [(ends_done.1 h₄).2, (of_modify hsave).2]

theorem Ends.complete (h : (complete instanceId).Ends P s r t) : t = s := by
  rcases ends_bind.1 h with ⟨e, h, _⟩ | ⟨record, u, hrecord, h₁⟩
  · exact (requireInstance h).1
  obtain rfl := (requireInstance hrecord).1
  rcases ends_bind.1 h₁ with ⟨e, h, _⟩ | ⟨found, u, hfound, h₂⟩
  · exact findByTemplateIdAndVersion h
  obtain rfl := findByTemplateIdAndVersion hfound
  split at h₂
  · exact (ends_done.1 h₂).2
  · split at h₂
    · exact (ends_done.1 h₂).2
    · exact (ends_fail.1 h₂).2

/-- How an operation may change an instance. -/
def Edits (op : WorkflowOp) (data data' : WorkflowInstanceData) : Prop :=
  match op with
  | .pause instanceId => data.instanceId = instanceId
  | .resume instanceId => data.instanceId = instanceId
  | .cancel instanceId => data.instanceId = instanceId ∧ data'.status = .canceled ∧
      data'.state = data.state
  | .advance _ => data.status.isFinished = false
  | .advanceMirror _ => data.status.isFinished = false
  | .updateContext _ _ => data'.status = data.status ∧ data'.state = data.state
  | .appendArtifacts _ _ => data'.status = data.status ∧ data'.state = data.state
  | _ => False

/-- The operation leaves the instances alone, or changes one. -/
def EditsOne (op : WorkflowOp) (s t : Store) : Prop :=
  t.instances = s.instances ∨
    ∃ id record data, s.instances.lookup id = some record ∧ Edits op record.data data ∧
      data.instanceId = record.data.instanceId ∧
      t.instances = if record.id ∈ s.instances then
        s.instances.insert record.id { record with data := data } else s.instances

variable {op : WorkflowOp}

theorem editsOne_of_modifyInstance (h : (modifyInstance instanceId f).Ends P s r t)
    (hedits : ∀ data, data.instanceId = instanceId → Edits op data (f data))
    (hid : ∀ data, (f data).instanceId = data.instanceId) : EditsOne op s t := by
  rcases Ends.modifyInstance h with ⟨id, record, hrecord, hname, ht⟩ | ⟨_, rfl⟩
  · exact .inr ⟨id, record, f record.data, hrecord, hedits _ hname, hid _, ht⟩
  · exact .inl rfl

theorem editsOne_of_advanceInner
    (hedits : ∀ data data', data.status.isFinished = false → Edits op data data')
    (h : (advanceInner jmespath opts lenient).Ends P s r t) : EditsOne op s t := by
  rcases Ends.advanceInner h with ht | ⟨id, record, data, hrecord, hstatus, hid, ht⟩
  · exact .inl ht
  · exact .inr ⟨id, record, data, hrecord, hedits _ _ hstatus, hid, ht⟩

/-- **What an operation does to the instances**: it makes one, or changes at most one. -/
theorem perform_cases {r : Except WorkflowError Reply} (h : (perform jmespath op).Ends P s r t) :
    (∃ opts record, op = .start opts ∧ NewInstance P opts record ∧
      (opts.instanceId = some record.data.instanceId → ∀ id record', s.instances.lookup id =
        some record' → record'.data.instanceId ≠ record.data.instanceId) ∧
      t.instances = s.instances.insert record.id record) ∨ EditsOne op s t := by
  cases op with
  | start opts =>
    obtain ⟨_, h, _⟩ := ends_map.1 h
    rcases Ends.start h with rfl | ⟨record, hnew, _, hid, rfl⟩
    · exact .inr (.inl rfl)
    · exact .inl ⟨opts, record, rfl, hnew, hid, rfl⟩
  | advance opts | advanceMirror opts =>
    obtain ⟨_, h, _⟩ := ends_map.1 h
    exact .inr (editsOne_of_advanceInner (fun _ _ h => h) h)
  | pause instanceId | resume instanceId =>
    obtain ⟨_, h, _⟩ := ends_map.1 h
    exact .inr (editsOne_of_modifyInstance h (fun _ h => h) (fun _ => rfl))
  | cancel instanceId =>
    obtain ⟨_, h, _⟩ := ends_map.1 h
    exact .inr (editsOne_of_modifyInstance h (fun _ h => ⟨h, rfl, rfl⟩) (fun _ => rfl))
  | complete instanceId =>
    obtain ⟨_, h, _⟩ := ends_map.1 h
    rw [Ends.complete h]
    exact .inr (.inl rfl)
  | updateContext instanceId patch | appendArtifacts instanceId artifacts =>
    obtain ⟨_, h, _⟩ := ends_map.1 h
    exact .inr (editsOne_of_modifyInstance h (fun _ _ => ⟨rfl, rfl⟩) (fun _ => rfl))
  | publishTemplate template =>
    obtain ⟨_, h, _⟩ := ends_map.1 h
    exact .inr (.inl (Ends.publishTemplate h))
  | deleteTemplate id =>
    obtain ⟨_, h, _⟩ := ends_map.1 h
    exact .inr (.inl (Ends.deleteTemplate h))

end

/-! ## One operation -/

/-- Records stand under their ids, and no two instances have the same instance id. -/
structure Store.Invariant (s : Store) : Prop where
  ids : ∀ id record, s.instances.lookup id = some record → record.id = id
  unique : ∀ id id' record record', s.instances.lookup id = some record →
    s.instances.lookup id' = some record' →
    record.data.instanceId = record'.data.instanceId → id = id'

open Store

theorem invariant_empty : empty.Invariant :=
  ⟨fun id record h => by simp [empty] at h, fun id _ record _ h => by simp [empty] at h⟩

section

variable {s t : Store}

variable {id : String} {record : WorkflowInstanceRecord}

theorem Store.Invariant.lookup_edit (hs : s.Invariant) {data : WorkflowInstanceData}
    (hrecord : s.instances.lookup id = some record)
    (ht : t.instances = if record.id ∈ s.instances then
      s.instances.insert record.id { record with data := data } else s.instances) (id' : String) :
    t.instances.lookup id' =
      if id' = id then some { record with data := data } else s.instances.lookup id' := by
  have hid := hs.ids id record hrecord
  subst hid
  rw [if_pos (mem_of_lookup_eq_some hrecord)] at ht
  rw [ht, FMap.lookup_insert_ite]

theorem Store.Invariant.edit (hs : s.Invariant) {op : WorkflowOp} (h : EditsOne op s t) :
    t.Invariant := by
  rcases h with ht | ⟨id, record, data, hrecord, _, hdata, ht⟩
  · exact ⟨fun id record => by rw [ht]; exact hs.ids id record,
      fun id id' record record' => by rw [ht]; exact hs.unique id id' record record'⟩
  have hlookup := hs.lookup_edit hrecord ht
  refine ⟨fun id' record' h' => ?_, fun id₁ id₂ r₁ r₂ h₁ h₂ heq => ?_⟩
  · rw [hlookup] at h'
    split at h'
    · next h => cases h'; exact h ▸ hs.ids id record hrecord
    · exact hs.ids id' record' h'
  · -- an edited record has the instance id of the record it replaces
    have hold : ∀ id' record', t.instances.lookup id' = some record' → ∃ old,
        s.instances.lookup id' = some old ∧ old.data.instanceId = record'.data.instanceId := by
      intro id' record' h'
      rw [hlookup] at h'
      split at h'
      · next h => cases h'; exact ⟨record, h ▸ hrecord, hdata.symm⟩
      · exact ⟨record', h', rfl⟩
    obtain ⟨o₁, ho₁, he₁⟩ := hold id₁ r₁ h₁
    obtain ⟨o₂, ho₂, he₂⟩ := hold id₂ r₂ h₂
    exact hs.unique id₁ id₂ o₁ o₂ ho₁ ho₂ (by rw [he₁, he₂, heq])

theorem keepsFinished_of_editsOne (hs : s.Invariant) {op : WorkflowOp} (inputs : List Input)
    (hop : LeavesFinished s (op, inputs)) (h : EditsOne op s t) : KeepsFinished s t := by
  rcases h with ht | ⟨id, record, data, hrecord, hedits, _, ht⟩
  · intro id record hrecord _
    exact ⟨record, ht ▸ hrecord, rfl, rfl⟩
  intro id' record' h' hfinished
  rw [hs.lookup_edit hrecord ht]
  split
  · next heq =>
    obtain rfl : record' = record := some.inj (h'.symm.trans (heq ▸ hrecord))
    refine ⟨_, rfl, ?_⟩
    cases op with
    | pause instanceId | resume instanceId => simp [hop id' record' h' hedits] at hfinished
    | cancel instanceId =>
      obtain ⟨hname, hstatus, hstate⟩ := hedits
      have hne := hop id' record' h' hname
      refine ⟨?_, hstate⟩
      show data.status = record'.data.status
      cases hold : record'.data.status with
      | canceled => exact hstatus
      | completed => exact absurd hold hne
      | _ => simp [hold, InstanceStatus.isFinished] at hfinished
    | advance opts
    | advanceMirror opts => exact absurd hfinished (by simp [show _ = false from hedits])
    | updateContext instanceId patch | appendArtifacts instanceId artifacts => exact hedits
    | _ => exact hedits.elim
  · exact ⟨record', h', rfl, rfl⟩

theorem unused_iff {uuid : String} : s.Unused uuid ↔ ∀ id record,
    s.instances.lookup id = some record → uuid ≠ id ∧ uuid ≠ record.data.instanceId := by
  constructor
  · intro h id record hrecord
    obtain ⟨hid, hname⟩ := h id (mem_keys.2 (mem_of_lookup_eq_some hrecord))
    exact ⟨hid, hname record hrecord⟩
  · intro h id hmem
    obtain ⟨record, hrecord⟩ := mem_iff.1 (mem_keys.1 hmem)
    refine ⟨(h id record hrecord).1, fun record' hrecord' => ?_⟩
    exact (h id record' hrecord').2

theorem NewInstance.fresh {opts : StartOptions}
    (hnew : NewInstance (fun e => s.Unused e.uuid) opts record)
    (hname : opts.instanceId = some record.data.instanceId → ∀ id record',
      s.instances.lookup id = some record' →
      record'.data.instanceId ≠ record.data.instanceId) {record' : WorkflowInstanceRecord}
    (h : s.instances.lookup id = some record') :
    record.id ≠ id ∧ record'.data.instanceId ≠ record.data.instanceId := by
  obtain ⟨_, ⟨e, he, hid⟩, hinst⟩ := hnew
  refine ⟨hid ▸ (unused_iff.1 he id record' h).1, ?_⟩
  rcases hinst with hopts | ⟨e', he', hinst⟩
  · exact hname hopts id record' h
  · rw [hinst]
    exact (unused_iff.1 he' id record' h).2.symm

/-- **One operation** keeps the invariant, and the finished instances if it leaves them alone. -/
theorem step_keeps {jmespath : JmesPath} {action : WorkflowOp × List Input} (hs : s.Invariant)
    (h : step jmespath s action = some t) :
    t.Invariant ∧ (LeavesFinished s action → KeepsFinished s t) := by
  obtain ⟨op, inputs⟩ := action
  unfold step at h
  split_ifs at h with hfresh
  obtain ⟨⟨r, t', rest⟩, hrun, rfl⟩ := map_eq_some_iff.1 h
  have hends : (perform jmespath op).Ends (fun e => s.Unused e.uuid) s r t' :=
    ⟨inputs, rest, hfresh, hrun⟩
  rcases perform_cases hends with ⟨opts, record, rfl, hnew, hname, ht⟩ | hedits
  · have hlookup (id : String) : t'.instances.lookup id =
        if id = record.id then some record else s.instances.lookup id := by
      rw [ht, FMap.lookup_insert_ite]
    have hother : ∀ id record', s.instances.lookup id = some record' →
        t'.instances.lookup id = some record' := by
      intro id record' h'
      rw [hlookup, if_neg (hnew.fresh hname h').1.symm, h']
    refine ⟨⟨fun id record' h' => ?_, fun id₁ id₂ r₁ r₂ h₁ h₂ heq => ?_⟩,
      fun _ id record' h' _ => ⟨record', hother id record' h', rfl, rfl⟩⟩
    · rw [hlookup] at h'
      split at h'
      · next heq => cases h'; exact heq.symm
      · exact hs.ids id record' h'
    · rw [hlookup] at h₁ h₂
      split at h₁ <;> split at h₂
      · next e₁ e₂ => rw [e₁, e₂]
      · cases h₁
        exact absurd heq.symm (hnew.fresh hname h₂).2
      · cases h₂
        exact absurd heq (hnew.fresh hname h₁).2
      · exact hs.unique id₁ id₂ r₁ r₂ h₁ h₂ heq
  · exact ⟨hs.edit hedits, fun hop => keepsFinished_of_editsOne hs inputs hop hedits⟩

theorem not_keepsFinished_of_modifyInstance {P : Input → Prop} (hs : s.Invariant)
    {instanceId : String} {f : WorkflowInstanceData → WorkflowInstanceData}
    {r : Except WorkflowError WorkflowInstanceRecord}
    (h : (modifyInstance instanceId f).Ends P s r t)
    (hrecord : s.instances.lookup id = some record) (hname : record.data.instanceId = instanceId)
    (hfinished : record.data.status.isFinished = true)
    (hstatus : (f record.data).status ≠ record.data.status) : ¬ KeepsFinished s t := by
  rcases Ends.modifyInstance h with ⟨id', record', hrecord', hname', ht⟩ | ⟨hnone, _⟩
  · obtain rfl := hs.unique id id' record record' hrecord hrecord' (hname.trans hname'.symm)
    obtain rfl : record = record' := some.inj (hrecord.symm.trans hrecord')
    intro hkeeps
    obtain ⟨after, hafter, hsame, _⟩ := hkeeps id record hrecord hfinished
    rw [hs.lookup_edit hrecord ht, if_pos rfl] at hafter
    cases hafter
    exact hstatus hsame
  · exact absurd hname (hnone id record hrecord)

theorem not_statusOf {Q : InstanceStatus → Prop} {instanceId : String}
    (h : ¬ s.StatusOf Q instanceId) : ∃ id record, s.instances.lookup id = some record ∧
      record.data.instanceId = instanceId ∧ ¬ Q record.data.status := by
  unfold StatusOf at h
  push Not at h
  exact h

theorem leavesFinished_of_keeps {jmespath : JmesPath} {action : WorkflowOp × List Input}
    (hs : s.Invariant) (h : step jmespath s action = some t) (hkeeps : KeepsFinished s t) :
    LeavesFinished s action := by
  obtain ⟨op, inputs⟩ := action
  unfold step at h
  split_ifs at h with hfresh
  obtain ⟨⟨r, t', rest⟩, hrun, rfl⟩ := map_eq_some_iff.1 h
  have hends : (perform jmespath op).Ends (fun e => s.Unused e.uuid) s r t' :=
    ⟨inputs, rest, hfresh, hrun⟩
  by_contra hleaves
  cases op with
  | pause instanceId | resume instanceId =>
    obtain ⟨_, hends, _⟩ := ends_map.1 hends
    simp only [LeavesFinished] at hleaves
    obtain ⟨id, record, hrecord, hname, hstatus⟩ := not_statusOf hleaves
    have hfinished := eq_true_of_ne_false hstatus
    refine not_keepsFinished_of_modifyInstance hs hends hrecord hname hfinished ?_ hkeeps
    intro heq
    rw [← heq] at hfinished
    cases hfinished
  | cancel instanceId =>
    obtain ⟨_, hends, _⟩ := ends_map.1 hends
    simp only [LeavesFinished] at hleaves
    obtain ⟨id, record, hrecord, hname, hstatus⟩ := not_statusOf hleaves
    have hcompleted := not_not.1 hstatus
    refine not_keepsFinished_of_modifyInstance hs hends hrecord hname (by rw [hcompleted]; rfl)
      ?_ hkeeps
    intro heq
    rw [hcompleted] at heq
    cases heq
  | _ => exact hleaves trivial

end

/-! ## Runs -/

theorem keepsFinished_refl (s : Store) : KeepsFinished s s :=
  fun _ record h _ => ⟨record, h, rfl, rfl⟩

theorem keepsFinished_trans (s t u : Store) (h₁ : KeepsFinished s t) (h₂ : KeepsFinished t u) :
    KeepsFinished s u := by
  intro id record hrecord hfinished
  obtain ⟨record₁, hrecord₁, hstatus₁, hstate₁⟩ := h₁ id record hrecord hfinished
  obtain ⟨record₂, hrecord₂, hstatus₂, hstate₂⟩ :=
    h₂ id record₁ hrecord₁ (by rw [hstatus₁]; exact hfinished)
  exact ⟨record₂, hrecord₂, hstatus₂.trans hstatus₁, hstate₂.trans hstate₁⟩

/-- **Finished workflows stay finished** exactly in the runs in which no pause or resume names a
finished instance, and no cancel a completed one. -/
theorem staysFinished_iff (jmespath : JmesPath) (l : List (WorkflowOp × List Input)) (t : Store)
    (h : exec (step jmespath) .empty l = some t) :
    StaysFinished jmespath l ↔ Along (step jmespath) LeavesFinished .empty l := by
  rw [StaysFinished, related_iff_along keepsFinished_refl keepsFinished_trans]
  refine along_iff_along_of_exec (I := Invariant) (fun s action t hs ha => ?_)
    (fun s action t hs ha => (step_keeps hs ha).1) invariant_empty h
  constructor
  · intro hkeeps
    exact leavesFinished_of_keeps hs ha (hkeeps t ha)
  · intro hleaves t' ha'
    obtain rfl : t = t' := some.inj (ha.symm.trans ha')
    exact (step_keeps hs ha).2 hleaves

/-! ## A run -/

namespace Sample

noncomputable def input (uuid : String) : Input := ⟨.some, .new, "2025-01-01T00:00:00Z", uuid⟩

def template : WorkflowTemplate where
  templateId := "onboarding"
  version := "1.0.0"
  policyMode := .multiPerConnection
  states := [⟨"new", .start, none⟩]
  transitions := []
  actions := []

/-- No guard is used. -/
def jmespath : JmesPath := fun _ _ => none

def startOptions : StartOptions := ⟨"onboarding", none, some "i1", none, none, none⟩

def templateRecord : WorkflowTemplateRecord := ⟨"t1", "onboarding", "1.0.0", template⟩

def record (status : InstanceStatus) : WorkflowInstanceRecord :=
  ⟨"r1", ⟨"i1", "onboarding", "1.0.0", none, [], "new", none, .object [], .object [], status, [],
    []⟩⟩

def store (status : InstanceStatus) : Store :=
  ⟨singleton "t1" templateRecord, singleton "r1" (record status), fun _ => false⟩

theorem findByInstanceId_store (order : IterOrder String) (status : InstanceStatus) :
    (store status).findByInstanceId order "i1" = some (record status) := by
  simp [Store.findByInstanceId, Store.instanceList, store, IterOrder.list_singleton, record]

theorem eq_record_of_lookup_store {id : String} {status : InstanceStatus}
    {r : WorkflowInstanceRecord} (h : (store status).instances.lookup id = some r) :
    r = record status := by
  have hmem := mem_of_lookup_eq_some h
  rw [store, mem_singleton] at hmem
  subst hmem
  simpa [store] using h.symm

theorem unused_store (status : InstanceStatus) : (store status).Unused "u" := by
  simp [Unused, store, record]

theorem step_status {op : WorkflowOp} {status status' : InstanceStatus}
    (hop : perform jmespath op = Reply.instance_ <$> modifyInstance "i1"
      fun data => { data with status := status' }) :
    step jmespath (store status) (op, [input "u", input "u"]) = some (store status') := by
  unfold step
  rw [if_pos (by simpa [input] using unused_store status), hop]
  simp [modifyInstance, requireInstance, findByInstanceId, map_eq,
    findByInstanceId_store, orFail, updateInstance, record]
  simp [store, record]

theorem step_publish {t : WorkflowTemplate} (hvalid : validateTemplate t = .ok ()) :
    step jmespath .empty (.publishTemplate t, [input "t1", input "t1", input "t1"]) =
      some ⟨singleton "t1" ⟨"t1", t.templateId, t.version, t⟩, ∅, fun _ => false⟩ := by
  unfold step
  rw [if_pos (by simp [Store.Unused, Store.empty])]
  simp [perform, publishTemplate, Prog.map_eq, hvalid, Prog.ofExcept,
    findByTemplateIdAndVersion, Store.findByTemplateIdAndVersion, Store.templateList, Store.empty,
    Prog.ask, saveTemplate, Prog.modify]
  rfl

theorem step_start {t : WorkflowTemplate} (hid : t.templateId = "onboarding")
    (hversion : t.version = "1.0.0") (hstart : t.startState = some ⟨"new", .start, none⟩) :
    step jmespath ⟨singleton "t1" ⟨"t1", t.templateId, t.version, t⟩, ∅, fun _ => false⟩
      (.start startOptions, [input "r1", input "r1", input "r1", input "r1"]) =
        some ⟨singleton "t1" ⟨"t1", t.templateId, t.version, t⟩,
          singleton "r1" (record .active), fun _ => false⟩ := by
  unfold step
  rw [if_pos (by simp [Store.Unused])]
  simp [perform, start, startNew, startOptions, Prog.map_eq,
    findByInstanceId, Store.findByInstanceId, Store.instanceList, findByTemplateIdAndVersion,
    Store.findByTemplateIdAndVersion, Store.templateList, IterOrder.list_singleton, orFail,
    hid, hversion, checkInstancePolicy, hstart, orUuid, Prog.ask, saveInstance, Prog.modify]
  rfl

noncomputable def cancelRun : List (WorkflowOp × List Input) :=
  [(.publishTemplate template, [input "t1", input "t1", input "t1"]),
    (.start startOptions, [input "r1", input "r1", input "r1", input "r1"]),
    (.cancel "i1", [input "u", input "u"])]

theorem exec_cancelRun : exec (step jmespath) .empty cancelRun = some (store .canceled) := by
  rw [cancelRun, exec_cons, step_publish rfl, bind_some, exec_cons, step_start rfl rfl rfl]
  exact exec_cons_eq_some.2 ⟨_, step_status rfl, rfl⟩

end Sample

open Sample in
theorem staysFinished_iff_canceled :
    exec (step jmespath) .empty cancelRun = some (store .canceled) ∧
      StaysFinished jmespath cancelRun := by
  refine ⟨exec_cancelRun, (staysFinished_iff jmespath cancelRun _ exec_cancelRun).2 ?_⟩
  refine along_cons trivial (step_publish rfl) (along_cons trivial (step_start rfl rfl rfl)
    (along_cons ?_ (step_status rfl) trivial))
  intro id record hrecord _
  rw [eq_record_of_lookup_store hrecord]
  exact InstanceStatus.noConfusion

open Sample in
/-- A canceled instance is resumed. -/
theorem staysFinished_fails_resume :
    ¬ StaysFinished jmespath (cancelRun ++ [(.resume "i1", [input "u", input "u"])]) := by
  intro h
  have hkeeps := h cancelRun [(.resume "i1", [input "u", input "u"])] [] (store .canceled)
    (store .active) (by simp) exec_cancelRun (by rw [exec_cons, step_status rfl]; rfl)
  obtain ⟨record', hrecord', hstatus, _⟩ := hkeeps "r1" (record .canceled) (by simp [store]) rfl
  rw [show (store .active).instances.lookup "r1" = some (record .active) by simp [store]]
    at hrecord'
  cases hrecord'
  cases hstatus

end Idiom.Workflow
