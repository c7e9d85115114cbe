import Idiom.Workflow.Change

/-!
# Histories

Every advance that goes through appends an entry to the history of its instance.
-/

namespace Idiom.Workflow

open Run WorkflowService Prog Finmap Option List

/-! ## Paths -/

/-- The entries lead from state to state. -/
def IsPath : String → List InstanceHistoryItem → String → Prop
  | source, [], target => source = target
  | source, item :: rest, target => item.source = source ∧ IsPath item.target rest target

theorem IsPath.snoc {source target : String} {items : List InstanceHistoryItem}
    {item : InstanceHistoryItem} (h : IsPath source items target) (hitem : item.source = target) :
    IsPath source (items ++ [item]) item.target := by
  induction items generalizing source with
  | nil =>
    cases h
    exact ⟨hitem, rfl⟩
  | cons first rest ih => exact ⟨h.1, ih h.2⟩

def HasPath (template : WorkflowTemplate) (data : WorkflowInstanceData) : Prop :=
  ∃ start, template.startState = some start ∧ IsPath start.name data.history data.state

/-- The first transition in the order of the template that leaves the state on the event and whose
guard holds. -/
def firstEnabled (jmespath : JmesPath) (template : WorkflowTemplate)
    (data : WorkflowInstanceData) (event : String) : Option TransitionDef :=
  template.transitions.find? fun t =>
    t.source = data.state ∧ t.on = event ∧ GuardEvaluator.eval jmespath t.guard data = true

/-- The entry is the step of an advance on the instance as it was. -/
def Takes (jmespath : JmesPath) (template : WorkflowTemplate) (data : WorkflowInstanceData)
    (item : InstanceHistoryItem) : Prop :=
  item.source = data.state ∧ ∃ transition,
    firstEnabled jmespath template data item.event = some transition ∧
      item.target = transition.target ∧ item.actionKey = transition.action

/-- What an operation makes of an instance: a step of the template, which completes the instance
exactly when it enters a final state, or a change outside of the history, which does not. -/
def Moves (jmespath : JmesPath) (template : WorkflowTemplate)
    (data data' : WorkflowInstanceData) : Prop :=
  (∃ item, data'.history = data.history ++ [item] ∧ data'.state = item.target ∧
      Takes jmespath template data item ∧ data.status ≠ .completed ∧
      (data'.status = .completed ↔ template.isFinal data'.state = true)) ∨
    (data'.history = data.history ∧ data'.state = data.state ∧
      (data'.status = .completed → data.status = .completed))

section

variable {jmespath : JmesPath} {templates : FMap String WorkflowTemplateRecord}
  {template : WorkflowTemplate} {data data' : WorkflowInstanceData}

theorem enabledTransition_eq (event : String) :
    enabledTransition jmespath template data event = firstEnabled jmespath template data event := by
  unfold enabledTransition WorkflowTemplate.transitionsFrom firstEnabled
  simp [and_assoc]

theorem HasPath.moves (h : HasPath template data) (hmoves : Moves jmespath template data data') :
    HasPath template data' := by
  obtain ⟨start, hstart, hpath⟩ := h
  refine ⟨start, hstart, ?_⟩
  rcases hmoves with ⟨item, hhistory, hstate, ⟨hsource, _⟩, _⟩ | ⟨hhistory, hstate, _⟩
  · rw [hhistory, hstate]
    exact hpath.snoc hsource
  · rwa [hhistory, hstate]

theorem ne_completed_of_checkAdvance {status : InstanceStatus}
    (h : checkAdvance status = .ok ()) : status ≠ .completed := by
  rintro rfl
  cases h

theorem Advances.moves {opts : AdvanceOptions} {change : Change}
    (h : Advances jmespath templates opts data change) :
    ∃ record, HasTemplate templates data record ∧
      Moves jmespath record.template data (change.apply data) := by
  obtain ⟨hcheck, _, record, transition, result, now, htemplate, henabled, rfl⟩ := h
  refine ⟨record, htemplate, .inl ⟨_, rfl, rfl, ⟨rfl, transition, ?_, rfl, rfl⟩,
    ne_completed_of_checkAdvance hcheck, ?_⟩⟩
  · rw [← enabledTransition_eq]
    exact henabled
  · show (if record.template.isFinal transition.target then InstanceStatus.completed
      else data.status) = .completed ↔ record.template.isFinal transition.target = true
    cases hfinal : record.template.isFinal transition.target with
    | true => simp
    | false => simpa using ne_completed_of_checkAdvance hcheck

/-- **Every change** of an instance is a step of its template or outside of the history. -/
theorem Change.Of.moves {op : WorkflowOp} {change : Change} {record : WorkflowTemplateRecord}
    (hunique : ∀ record', HasTemplate templates data record' → record' = record)
    (h : change.Of jmespath templates op data) :
    Moves jmespath record.template data (change.apply data) := by
  have hadvance : ∀ opts, Advances jmespath templates opts data change →
      Moves jmespath record.template data (change.apply data) := by
    intro opts h
    obtain ⟨record', htemplate, hmoves⟩ := h.moves
    rwa [hunique record' htemplate] at hmoves
  cases op with
  | advance opts | advanceMirror opts => exact hadvance opts h
  | pause id | resume id | cancel id =>
    cases h
    exact .inr ⟨rfl, rfl, fun h => by cases h⟩
  | updateContext id patch | appendArtifacts id patch =>
    cases h
    exact .inr ⟨rfl, rfl, fun h => h⟩
  | _ => exact h.elim

end

/-! ## Templates -/

/-- Template records stand under their ids and have the id and the version of their template, and no
two have the same. -/
structure Store.Catalog (s : Store) : Prop where
  ids : ∀ id record, s.templates.lookup id = some record → record.id = id
  fields : ∀ id record, s.templates.lookup id = some record →
    record.template.templateId = record.templateId ∧ record.template.version = record.version
  unique : ∀ id id' record record', s.templates.lookup id = some record →
    s.templates.lookup id' = some record' → record.templateId = record'.templateId →
    record.version = record'.version → id = id'

open Store

theorem catalog_empty : empty.Catalog :=
  ⟨fun id record h => by simp [empty] at h, fun id record h => by simp [empty] at h,
    fun id _ record _ h => by simp [empty] at h⟩

/-- The template with the id and the version is neither republished nor deleted, and no new UUID is
the id of a template record. -/
def LeavesTemplate (templateId version : String) (s : Store) : WorkflowOp × List Input → Prop
  | (.publishTemplate template, inputs) =>
    (∀ e ∈ inputs, e.uuid ∉ s.templates) ∧
      (template.templateId = templateId → template.version = version →
        ∀ id record, s.templates.lookup id = some record →
          ¬ (record.templateId = templateId ∧ record.version = version))
  | (.deleteTemplate id, _) =>
    ∀ id' record, s.templates.lookup id' = some record → record.templateId = templateId →
      record.version = version → id ≠ templateId ∧ id ≠ record.id
  | _ => True

section

variable {P : Input → Prop} {s t : Store}

theorem Store.Catalog.hasTemplate_unique (hs : s.Catalog) {data : WorkflowInstanceData}
    {record record' : WorkflowTemplateRecord} (h : HasTemplate s.templates data record)
    (h' : HasTemplate s.templates data record') : record' = record := by
  obtain ⟨⟨id, hid⟩, hname, hversion⟩ := h
  obtain ⟨⟨id', hid'⟩, hname', hversion'⟩ := h'
  obtain rfl := hs.unique id id' record record' hid hid' (hname.trans hname'.symm)
    (hversion.trans hversion'.symm)
  exact some.inj (hid'.symm.trans hid)

theorem mem_templateList {order : IterOrder String} {record : WorkflowTemplateRecord} :
    record ∈ s.templateList order ↔ ∃ id, s.templates.lookup id = some record := by
  unfold templateList
  rw [mem_filterMap]
  constructor
  · rintro ⟨id, _, h⟩
    exact ⟨id, h⟩
  · rintro ⟨id, h⟩
    refine ⟨id, ?_, h⟩
    rw [IterOrder.mem_list]
    exact mem_of_lookup_eq_some h

variable {r : Except WorkflowError ℕ}

theorem Ends.deleteMatching_templates {id : String} {records : List WorkflowTemplateRecord}
    (h : (WorkflowService.deleteMatching id records).Ends P s r t) (id' : String) :
    (∀ record, t.templates.lookup id' = some record → s.templates.lookup id' = some record) ∧
      ((∀ record ∈ records, record.templateId = id ∨ record.id = id → record.id ≠ id') →
        t.templates.lookup id' = s.templates.lookup id') := by
  induction records generalizing s r t with
  | nil =>
    rw [(ends_done.1 h).2]
    exact ⟨fun _ h => h, fun _ => rfl⟩
  | cons first rest ih =>
    unfold WorkflowService.deleteMatching at h
    split at h
    · next hfirst =>
      rcases ends_bind.1 h with ⟨e, h, _⟩ | ⟨_, u, hdelete, h₁⟩
      · cases (Ends.of_modify h).1
      have hu : u.templates = s.templates.erase first.id := by
        rw [(Ends.of_modify hdelete).2]
      have hrest : ∃ r', (WorkflowService.deleteMatching id rest).Ends P u r' t := by
        rcases ends_bind.1 h₁ with ⟨e, h, _⟩ | ⟨_, v, hrest, h₂⟩
        · exact ⟨_, h⟩
        · rw [(ends_done.1 h₂).2]
          exact ⟨_, hrest⟩
      obtain ⟨r', hrest⟩ := hrest
      obtain ⟨hsub, hsame⟩ := ih hrest
      rw [hu, FMap.lookup_erase_ite] at hsub hsame
      constructor
      · intro record hrecord
        have hlookup := hsub record hrecord
        split at hlookup
        · cases hlookup
        · exact hlookup
      · intro hother
        rw [hsame fun record hrecord => hother record (mem_cons_of_mem _ hrecord),
          if_neg (hother first mem_cons_self hfirst).symm]
    · obtain ⟨hsub, hsame⟩ := ih h
      exact ⟨hsub, fun hother => hsame fun record hrecord =>
        hother record (mem_cons_of_mem _ hrecord)⟩

theorem Ends.deleteTemplate_templates {id : String}
    (h : (WorkflowService.deleteTemplate id).Ends P s r t) (id' : String) :
    (∀ record, t.templates.lookup id' = some record → s.templates.lookup id' = some record) ∧
      ((∀ id₀ record, s.templates.lookup id₀ = some record →
        record.templateId = id ∨ record.id = id → record.id ≠ id') →
        t.templates.lookup id' = s.templates.lookup id') := by
  rcases ends_bind.1 h with ⟨e, h, _⟩ | ⟨all, u, hall, h₁⟩
  · obtain ⟨_, _, h⟩ := ends_access.1 h
    rw [(ends_done.1 h).2]
    exact ⟨fun _ h => h, fun _ => rfl⟩
  obtain ⟨e, _, hall⟩ := ends_access.1 hall
  obtain ⟨hall, rfl⟩ := ends_done.1 hall
  cases hall
  have hdelete : ∃ r', (WorkflowService.deleteMatching id (u.templateList e.order)).Ends P u r'
    t := by
    rcases ends_bind.1 h₁ with ⟨e, h, _⟩ | ⟨deleted, v, hdelete, h₂⟩
    · exact ⟨_, h⟩
    · split at h₂
      · rw [(ends_fail.1 h₂).2]
        exact ⟨_, hdelete⟩
      · rw [(ends_done.1 h₂).2]
        exact ⟨_, hdelete⟩
  obtain ⟨r', hdelete⟩ := hdelete
  obtain ⟨hsub, hsame⟩ := Ends.deleteMatching_templates hdelete id'
  refine ⟨hsub, fun hother => hsame fun record hrecord => ?_⟩
  obtain ⟨id₀, hlookup⟩ := mem_templateList.1 hrecord
  exact hother id₀ record hlookup

variable {template : WorkflowTemplate}

theorem Ends.publishTemplate_templates {r : Except WorkflowError WorkflowTemplateRecord}
    (h : (WorkflowService.publishTemplate template).Ends P s r t) :
    t.templates = s.templates ∨
      (∃ id existing, s.templates.lookup id = some existing ∧
        existing.templateId = template.templateId ∧ existing.version = template.version ∧
        t.templates = if existing.id ∈ s.templates then
          s.templates.insert existing.id { existing with template := template }
        else s.templates) ∨
      ((∀ id record, s.templates.lookup id = some record →
          ¬ (record.templateId = template.templateId ∧ record.version = template.version)) ∧
        ∃ e, P e ∧ t.templates = s.templates.insert e.uuid
          ⟨e.uuid, template.templateId, template.version, template⟩) := by
  rcases ends_bind.1 h with ⟨e, h, _⟩ | ⟨_, u, hvalid, h₁⟩
  · rw [(Ends.of_ofExcept h).2]
    exact .inl rfl
  obtain ⟨_, rfl⟩ := Ends.of_ofExcept hvalid
  rcases ends_bind.1 h₁ with ⟨e, h, _⟩ | ⟨found, u, hfound, h₂⟩
  · rw [Ends.findByTemplateIdAndVersion h]
    exact .inl rfl
  obtain ⟨e₀, _, hfound⟩ := ends_access.1 hfound
  obtain ⟨hfound, rfl⟩ := ends_done.1 hfound
  cases hfound
  split at h₂
  · next existing hsome =>
    have hupdate : ∀ v (r : Except WorkflowError Unit),
        (Workflow.updateTemplate { existing with template := template }).Ends P u r v →
        v.templates = if existing.id ∈ u.templates then
          u.templates.insert existing.id { existing with template := template }
        else u.templates := by
      intro v r h
      obtain ⟨e, _, h⟩ := ends_access.1 h
      by_cases hmem : existing.id ∈ u.templates
      · simp only [hmem, if_true, ends_done] at h ⊢
        rw [h.2]
      · simp only [hmem, if_false, ends_fail] at h ⊢
        rw [h.2]
    obtain ⟨⟨id, hlookup⟩, hid, hversion⟩ := findByTemplateIdAndVersion_eq_some hsome
    refine .inr (.inl ⟨id, existing, hlookup, hid, hversion, ?_⟩)
    rcases ends_bind.1 h₂ with ⟨e, h, _⟩ | ⟨_, v, hu, h₃⟩
    · exact hupdate t _ h
    · rw [(ends_done.1 h₃).2]
      exact hupdate v _ hu
  · next hnone =>
    rcases ends_bind.1 h₂ with ⟨e, h, _⟩ | ⟨_, v, huuid, h₃⟩
    · rw [(Ends.of_ask h).2]
      exact .inl rfl
    obtain ⟨⟨e, he, hr⟩, rfl⟩ := Ends.of_ask huuid
    cases hr
    rcases ends_bind.1 h₃ with ⟨e, h, _⟩ | ⟨_, w, hsave, h₄⟩
    · cases (Ends.of_modify h).1
    rw [(ends_done.1 h₄).2, (Ends.of_modify hsave).2]
    refine .inr (.inr ⟨fun id record hlookup => ?_, e, he, rfl⟩)
    rintro ⟨hid, hversion⟩
    have hmem : record ∈ (v.templateList e₀.order).filter fun r =>
        r.templateId = template.templateId :=
      mem_filter.2 ⟨mem_templateList.2 ⟨id, hlookup⟩, decide_eq_true hid⟩
    exact absurd (decide_eq_true hversion) (find?_eq_none.1 hnone record hmem)

/-- The records with the id and the version stay as they are. -/
def KeepsTemplate (templateId version : String) (s t : Store) : Prop :=
  ∀ id found, s.templates.lookup id = some found → found.templateId = templateId →
    found.version = version → t.templates.lookup id = some found

theorem Store.Catalog.of_eq (hs : s.Catalog) (ht : t.templates = s.templates) : t.Catalog where
  ids := by rw [ht]; exact hs.ids
  fields := by rw [ht]; exact hs.fields
  unique := by rw [ht]; exact hs.unique

theorem KeepsTemplate.of_eq {templateId version : String} (ht : t.templates = s.templates) :
    KeepsTemplate templateId version s t := fun id found h _ _ => by rw [ht, h]

theorem Store.Catalog.replace (hs : s.Catalog) {existing : WorkflowTemplateRecord}
    (hexisting : s.templates.lookup existing.id = some existing)
    (hname : existing.templateId = template.templateId)
    (hversion : existing.version = template.version)
    (hlookup : ∀ id, t.templates.lookup id = if id =
      existing.id then some { existing with template := template } else s.templates.lookup id)
    : t.Catalog := by
  have hold : ∀ id record, t.templates.lookup id = some record → ∃ old,
      s.templates.lookup id = some old ∧ old.id = record.id ∧
      old.templateId = record.templateId ∧ old.version = record.version := by
    intro id record hrecord
    rw [hlookup] at hrecord
    split at hrecord
    · next heq => cases hrecord; exact ⟨existing, heq ▸ hexisting, rfl, rfl, rfl⟩
    · exact ⟨record, hrecord, rfl, rfl, rfl⟩
  refine ⟨fun id record hrecord => ?_, fun id record hrecord => ?_,
    fun id id' record record' hrecord hrecord' heq heq' => ?_⟩
  · obtain ⟨old, hlookup', hid, _⟩ := hold id record hrecord
    rw [← hid]
    exact hs.ids id old hlookup'
  · rw [hlookup] at hrecord
    split at hrecord
    · cases hrecord; exact ⟨hname.symm, hversion.symm⟩
    · exact hs.fields id record hrecord
  · obtain ⟨old, ho, _, h₁, h₂⟩ := hold id record hrecord
    obtain ⟨old', ho', _, h₁', h₂'⟩ := hold id' record' hrecord'
    exact hs.unique id id' old old' ho ho' (by rw [h₁, h₁', heq]) (by rw [h₂, h₂', heq'])

theorem Store.Catalog.add (hs : s.Catalog) {uuid : String}
    (hnone : ∀ id record, s.templates.lookup id = some record →
      ¬ (record.templateId = template.templateId ∧ record.version = template.version))
    (hlookup : ∀ id, t.templates.lookup id = if id =
      uuid then some ⟨uuid, template.templateId, template.version, template⟩ else s.templates.lookup
      id)
    : t.Catalog := by
  refine ⟨fun id record hrecord => ?_, fun id record hrecord => ?_,
    fun id id' record record' hrecord hrecord' heq heq' => ?_⟩
  · rw [hlookup] at hrecord
    split at hrecord
    · next heq => cases hrecord; exact heq.symm
    · exact hs.ids id record hrecord
  · rw [hlookup] at hrecord
    split at hrecord
    · cases hrecord; exact ⟨rfl, rfl⟩
    · exact hs.fields id record hrecord
  · rw [hlookup] at hrecord hrecord'
    split at hrecord <;> split at hrecord'
    · next e₁ e₂ => rw [e₁, e₂]
    · cases hrecord
      exact absurd ⟨heq.symm, heq'.symm⟩ (hnone id' record' hrecord')
    · cases hrecord'
      exact absurd ⟨heq, heq'⟩ (hnone id record hrecord)
    · exact hs.unique id id' record record' hrecord hrecord' heq heq'

theorem catalog_publishTemplate {templateId version : String} {inputs : List Input}
    {r : Except WorkflowError WorkflowTemplateRecord} (hs : s.Catalog)
    (hleaves : LeavesTemplate templateId version s (.publishTemplate template, inputs))
    (h : (publishTemplate template).Ends (fun e => e ∈ inputs) s r t) :
    t.Catalog ∧ KeepsTemplate templateId version s t := by
  obtain ⟨hfresh, hother⟩ := hleaves
  rcases Ends.publishTemplate_templates h with ht | ⟨id₀, existing, hid₀, hname, hversion, ht⟩ |
    ⟨hnone, e, he, ht⟩
  · exact ⟨hs.of_eq ht, .of_eq ht⟩
  · obtain rfl := hs.ids id₀ existing hid₀
    rw [if_pos (mem_of_lookup_eq_some hid₀)] at ht
    have hlookup (id : String) : t.templates.lookup id = if id = existing.id then
        some { existing with template := template } else s.templates.lookup id := by
      rw [ht, FMap.lookup_insert_ite]
    refine ⟨hs.replace hid₀ hname hversion hlookup, fun id found hfound hf hf' => ?_⟩
    rw [hlookup, if_neg, hfound]
    rintro rfl
    obtain rfl : existing = found := some.inj (hid₀.symm.trans hfound)
    exact hother (hname.symm.trans hf) (hversion.symm.trans hf') existing.id existing hid₀ ⟨hf, hf'⟩
  · have hlookup (id : String) : t.templates.lookup id = if id = e.uuid then
        some ⟨e.uuid, template.templateId, template.version, template⟩
        else s.templates.lookup id := by rw [ht, FMap.lookup_insert_ite]
    refine ⟨hs.add hnone hlookup, fun id found hfound _ _ => ?_⟩
    rw [hlookup, if_neg, hfound]
    rintro rfl
    exact hfresh e he (mem_of_lookup_eq_some hfound)

theorem catalog_deleteTemplate {templateId version name : String} {inputs : List Input}
    (hs : s.Catalog) (hleaves : LeavesTemplate templateId version s (.deleteTemplate name, inputs))
    (h : (WorkflowService.deleteTemplate name).Ends P s r t) :
    t.Catalog ∧ KeepsTemplate templateId version s t := by
  have hsub := fun id => (Ends.deleteTemplate_templates h id).1
  refine ⟨⟨fun id record hrecord => hs.ids id record (hsub id record hrecord),
    fun id record hrecord => hs.fields id record (hsub id record hrecord),
    fun id id' record record' hrecord hrecord' =>
      hs.unique id id' record record' (hsub id record hrecord) (hsub id' record' hrecord')⟩,
    fun id found hfound hf hf' => ?_⟩
  obtain ⟨hname, hid⟩ := hleaves id found hfound hf hf'
  rw [(Ends.deleteTemplate_templates h id).2, hfound]
  rintro id₀ record hrecord hnamed rfl
  obtain rfl := hs.ids id₀ record hrecord
  obtain rfl : record = found := some.inj (hrecord.symm.trans hfound)
  rcases hnamed with hnamed | hnamed
  · exact hname (hnamed.symm.trans hf)
  · exact hid hnamed.symm

end

/-! ## One operation -/

/-- What an operation does to the instances of the template. -/
def Follows (jmespath : JmesPath) (templateId version : String) (s t : Store) : Prop :=
  ∀ id record', t.instances.lookup id = some record' → record'.data.templateId = templateId →
    record'.data.templateVersion = version →
    ∃ found, HasTemplate t.templates record'.data found ∧
      ((s.instances.lookup id = none ∧ record'.data.history = [] ∧ record'.data.status = .active ∧
          ∃ start, found.template.startState = some start ∧ record'.data.state = start.name) ∨
        ∃ record, s.instances.lookup id = some record ∧ HasTemplate s.templates record.data found ∧
          Moves jmespath found.template record.data record'.data)

/-- The instances of the template have it, and their histories are paths of it. -/
structure Store.Historic (templateId version : String) (s : Store) : Prop where
  instances : s.Invariant
  templates : s.Catalog
  paths : ∀ id record, s.instances.lookup id = some record → record.data.templateId = templateId →
    record.data.templateVersion = version →
    ∃ found, HasTemplate s.templates record.data found ∧ HasPath found.template record.data

section

variable {jmespath : JmesPath} {templateId version : String} {s t : Store}

theorem historic_empty : empty.Historic templateId version :=
  ⟨invariant_empty, catalog_empty, fun id record h => by simp [empty] at h⟩

theorem KeepsTemplate.hasTemplate (h : KeepsTemplate templateId version s t)
    {data : WorkflowInstanceData} {found : WorkflowTemplateRecord}
    (hdata : data.templateId = templateId) (hversion : data.templateVersion = version)
    (hfound : HasTemplate s.templates data found) : HasTemplate t.templates data found := by
  obtain ⟨⟨id, hid⟩, hname, hv⟩ := hfound
  exact ⟨⟨id, h id found hid (hname.trans hdata) (hv.trans hversion)⟩, hname, hv⟩

theorem Store.Historic.follow_same (hs : s.Historic templateId version)
    (hkeeps : KeepsTemplate templateId version s t) {id : String}
    {record : WorkflowInstanceRecord} (hrecord : s.instances.lookup id = some record)
    (hname : record.data.templateId = templateId)
    (hversion : record.data.templateVersion = version) :
    ∃ found, HasTemplate t.templates record.data found ∧ HasTemplate s.templates record.data found ∧
      Moves jmespath found.template record.data record.data := by
  obtain ⟨found, hfound, _⟩ := hs.paths id record hrecord hname hversion
  exact ⟨found, hkeeps.hasTemplate hname hversion hfound, hfound, .inr ⟨rfl, rfl, fun h => h⟩⟩

theorem Store.Historic.follows {op : WorkflowOp} {inputs : List Input}
    (hs : s.Historic templateId version)
    (hleaves : LeavesTemplate templateId version s (op, inputs))
    (h : step jmespath s (op, inputs) = some t) :
    t.Catalog ∧ KeepsTemplate templateId version s t ∧ Follows jmespath templateId version s t := by
  unfold step at h
  split_ifs at h with hfresh
  obtain ⟨⟨r, t, rest⟩, hrun, rfl⟩ := map_eq_some_iff.1 h
  have hends : (perform jmespath op).Ends (fun e => e ∈ inputs) s r t :=
    ⟨inputs, rest, fun _ h => h, hrun⟩
  have hsame : t.instances = s.instances → KeepsTemplate templateId version s t →
      Follows jmespath templateId version s t := by
    intro ht hkeeps id record' hrecord' hname hversion
    rw [ht] at hrecord'
    obtain ⟨found, hfound, hfound', hmoves⟩ :=
      @Historic.follow_same jmespath _ _ _ _ hs hkeeps _ _ hrecord' hname hversion
    exact ⟨found, hfound, .inr ⟨record', hrecord', hfound', hmoves⟩⟩
  obtain ⟨instanceId, hon⟩ | ⟨opts, rfl⟩ | ⟨instanceId, rfl⟩ | ⟨template, rfl⟩ | ⟨name, rfl⟩ :=
    op.on_or
  · obtain ⟨htemplates, ht⟩ := Ends.call hon hends
    have hkeeps : KeepsTemplate templateId version s t := .of_eq htemplates
    refine ⟨hs.templates.of_eq htemplates, hkeeps, ?_⟩
    rcases ht with ht | ⟨id, record, change, hrecord, _, hchange, ht⟩
    · exact hsame ht hkeeps
    intro id' record' hrecord' hname hversion
    rw [hs.instances.lookup_edit hrecord ht] at hrecord'
    split at hrecord'
    · next heq =>
      cases hrecord'
      subst heq
      obtain ⟨found, hfound, _⟩ := hs.paths id' record hrecord (by simpa using hname)
        (by simpa using hversion)
      have hmoves := hchange.moves fun _ h => hs.templates.hasTemplate_unique hfound h
      refine ⟨found, ?_, .inr ⟨record, hrecord, hfound, hmoves⟩⟩
      rw [htemplates]
      simpa [HasTemplate] using hfound
    · obtain ⟨found, hfound, hfound', hmoves⟩ :=
        @Historic.follow_same jmespath _ _ _ _ hs hkeeps _ _ hrecord' hname hversion
      exact ⟨found, hfound, .inr ⟨record', hrecord', hfound', hmoves⟩⟩
  · have hends' : (perform jmespath (.start opts)).Ends (fun e => s.Unused e.uuid) s r t :=
      ⟨inputs, rest, hfresh, hrun⟩
    obtain ⟨_, hends', _⟩ := ends_map.1 hends'
    rcases Ends.start hends' with rfl | ⟨record, hnew, hstarted, hunused, rfl⟩
    · exact ⟨hs.templates, .of_eq rfl, hsame rfl (.of_eq rfl)⟩
    refine ⟨hs.templates.of_eq rfl, .of_eq rfl, fun id record' hrecord' hname hversion => ?_⟩
    have hnone : s.instances.lookup record.id = none := by
      cases hold : s.instances.lookup record.id with
      | none => rfl
      | some old => exact absurd rfl (hnew.fresh hunused hold).1
    rw [show (_ : FMap _ _).lookup id = _ from FMap.lookup_insert_ite ..] at hrecord'
    split at hrecord'
    · next heq =>
      cases hrecord'
      subst heq
      obtain ⟨id₀, found, startState, hfound, hstart, hid, hv, hstate, hstatus, hhistory⟩ :=
        hstarted
      obtain ⟨hf, hf'⟩ := hs.templates.fields id₀ found hfound
      exact ⟨found, ⟨⟨id₀, hfound⟩, hf.symm.trans hid.symm, hf'.symm.trans hv.symm⟩,
        .inl ⟨hnone, hhistory, hstatus, startState, hstart, hstate⟩⟩
    · obtain ⟨found, hfound, hfound', hmoves⟩ :=
        @Historic.follow_same jmespath _ _ _ s hs (.of_eq rfl) _ _ hrecord' hname hversion
      exact ⟨found, hfound, .inr ⟨record', hrecord', hfound', hmoves⟩⟩
  · obtain ⟨_, hends, _⟩ := ends_map.1 hends
    rw [Ends.complete hends] at hsame ⊢
    exact ⟨hs.templates, .of_eq rfl, hsame rfl (.of_eq rfl)⟩
  · obtain ⟨_, hends, _⟩ := ends_map.1 hends
    obtain ⟨hcatalog, hkeeps⟩ := catalog_publishTemplate hs.templates hleaves hends
    exact ⟨hcatalog, hkeeps, hsame (Ends.publishTemplate hends) hkeeps⟩
  · obtain ⟨_, hends, _⟩ := ends_map.1 hends
    obtain ⟨hcatalog, hkeeps⟩ := catalog_deleteTemplate hs.templates hleaves hends
    exact ⟨hcatalog, hkeeps, hsame (Ends.deleteTemplate hends) hkeeps⟩

theorem Store.Historic.step {action : WorkflowOp × List Input} (hs : s.Historic templateId version)
    (hleaves : LeavesTemplate templateId version s action)
    (h : Workflow.step jmespath s action = some t) : t.Historic templateId version := by
  obtain ⟨hcatalog, _, hfollows⟩ := hs.follows hleaves h
  refine ⟨(step_keeps hs.instances h).1, hcatalog, fun id record' hrecord' hname hversion => ?_⟩
  obtain ⟨found, hfound, ⟨_, hhistory, _, start, hstart, hstate⟩ | ⟨record, hrecord, hfound',
    hmoves⟩⟩ :=
    hfollows id record' hrecord' hname hversion
  · refine ⟨found, hfound, start, hstart, ?_⟩
    rw [hhistory, hstate]
    rfl
  · refine ⟨found, hfound, ?_⟩
    obtain ⟨found₁, hfound₁, hpath⟩ := hs.paths id record hrecord
      (hfound'.2.1.symm.trans (hfound.2.1.trans hname))
      (hfound'.2.2.symm.trans (hfound.2.2.trans hversion))
    obtain rfl := hs.templates.hasTemplate_unique hfound' hfound₁
    exact hpath.moves hmoves

end

/-! ## Runs -/

/-- A step of the run appended the entry to the history: it was the step of an advance, and it
completed the instance exactly if it entered a final state. -/
def TakenIn (jmespath : JmesPath) (l : List (WorkflowOp × List Input))
    (template : WorkflowTemplate) (id : String) (before : List InstanceHistoryItem)
    (item : InstanceHistoryItem) : Prop :=
  ∃ l₁ a l₂ s t old new, l = l₁ ++ a :: l₂ ∧ exec (step jmespath) .empty l₁ = some s ∧
    step jmespath s a = some t ∧ s.instances.lookup id = some old ∧
    t.instances.lookup id = some new ∧ old.data.history = before ∧
    new.data.history = before ++ [item] ∧ Takes jmespath template old.data item ∧
    (new.data.status = .completed ↔ template.isFinal new.data.state = true)

variable {l : List (WorkflowOp × List Input)}

theorem TakenIn.append {jmespath : JmesPath} {template : WorkflowTemplate} {id : String}
    {before : List InstanceHistoryItem} {item : InstanceHistoryItem}
    (h : TakenIn jmespath l template id before item) (l' : List (WorkflowOp × List Input)) :
    TakenIn jmespath (l ++ l') template id before item := by
  obtain ⟨l₁, a, l₂, s, t, old, new, rfl, h⟩ := h
  exact ⟨l₁, a, l₂ ++ l', s, t, old, new, by rw [append_assoc]; rfl, h⟩

/-- Every entry of every history was the step of an advance. -/
def AllTaken (jmespath : JmesPath) (templateId version : String)
    (l : List (WorkflowOp × List Input)) (t : Store) : Prop :=
  ∀ id record, t.instances.lookup id = some record → record.data.templateId = templateId →
    record.data.templateVersion = version →
    ∃ found, HasTemplate t.templates record.data found ∧
      ∀ before item after, record.data.history = before ++ item :: after →
        TakenIn jmespath l found.template id before item

section

variable {jmespath : JmesPath} {templateId version : String}

theorem historic_exec {t : Store}
    (hleaves : Along (step jmespath) (LeavesTemplate templateId version) .empty l)
    (h : exec (step jmespath) .empty l = some t) : t.Historic templateId version :=
  exec_invariant_along (fun _ _ _ hs hG ha => hs.step hG ha) historic_empty hleaves h

theorem allTaken_exec {t : Store}
    (hleaves : Along (step jmespath) (LeavesTemplate templateId version) .empty l)
    (h : exec (step jmespath) .empty l = some t) : AllTaken jmespath templateId version l t := by
  refine (exec_history_along (P := fun l t => t.Historic templateId version ∧
    AllTaken jmespath templateId version l t) ⟨historic_empty, fun id record h => ?_⟩ ?_ hleaves
      h).2
  · simp [empty] at h
  rintro l a s u hl ⟨hs, htaken⟩ hG ha
  refine ⟨hs.step hG ha, fun id record' hrecord' hname hversion => ?_⟩
  obtain ⟨_, _, hfollows⟩ := hs.follows hG ha
  obtain ⟨found, hfound, ⟨_, hhistory, _⟩ | ⟨record, hrecord, hfound', hmoves⟩⟩ :=
    hfollows id record' hrecord' hname hversion
  · refine ⟨found, hfound, fun before item after heq => ?_⟩
    rw [hhistory] at heq
    simp at heq
  · refine ⟨found, hfound, fun before item after heq => ?_⟩
    obtain ⟨found₁, hfound₁, hbefore⟩ := htaken id record hrecord
      (hfound'.2.1.symm.trans (hfound.2.1.trans hname))
      (hfound'.2.2.symm.trans (hfound.2.2.trans hversion))
    obtain rfl := hs.templates.hasTemplate_unique hfound' hfound₁
    rcases hmoves with ⟨new, hhistory, _, htakes, _, hfinal⟩ | ⟨hhistory, _⟩
    · rw [hhistory] at heq
      rcases snoc_eq_append_cons heq with ⟨rfl, rfl, _⟩ | ⟨rest, hrest, _⟩
      · exact ⟨l, a, [], s, u, record, record', rfl, hl, ha, hrecord, hrecord', rfl, hhistory,
          htakes, hfinal⟩
      · exact (hbefore before item rest hrest).append [a]
    · rw [hhistory] at heq
      exact (hbefore before item after heq).append [a]

/-- **A history is a run of the template.**  In every run that neither republishes nor deletes the
template, the history of each of its instances is a path of it from the start state to the current
state, every entry is the first transition whose guard held when it was made, and every step makes
an instance in the start state, or moves one by such a transition, completing it exactly if the
state it enters is final, or leaves its history and its state alone and completes nothing. -/
theorem history_isPath (jmespath : JmesPath) (templateId version : String)
    (l : List (WorkflowOp × List Input)) (t : Store) (h : exec (step jmespath) .empty l = some t)
    (hleaves : Along (step jmespath) (LeavesTemplate templateId version) .empty l) :
    (∀ id record, t.instances.lookup id = some record → record.data.templateId = templateId →
      record.data.templateVersion = version →
      ∃ found, HasTemplate t.templates record.data found ∧ HasPath found.template record.data) ∧
    AllTaken jmespath templateId version l t ∧
    ∀ l₁ a l₂ s u, l = l₁ ++ a :: l₂ → exec (step jmespath) .empty l₁ = some s →
      step jmespath s a = some u → Follows jmespath templateId version s u := by
  refine ⟨(historic_exec hleaves h).paths, allTaken_exec hleaves h, ?_⟩
  rintro l₁ a l₂ s u rfl hl₁ ha
  exact ((historic_exec hleaves.left hl₁).follows (hleaves.right hl₁).1 ha).2.2

end

/-! ## A run -/

namespace Sample

theorem step_advance_oneStep :
    step jmespath ⟨singleton "t1" oneStepRecord, singleton "r1" (record .active), fun _ => false⟩
      (.advance finish, [input "u", input "u", input "u", input "u", input "u", input "u"]) =
        some ⟨singleton "t1" oneStepRecord, singleton "r1" finished, fun _ => false⟩ := by
  unfold step
  rw [if_pos (by simp [Store.Unused, record, input])]
  simp [perform, advance, advanceInner, withInstanceLock, finish,
    Prog.map_eq, Prog.modify, requireInstance, findByInstanceId, Store.findByInstanceId,
    Store.instanceList, IterOrder.list_singleton, orFail, record, Prog.attempt,
    checkAdvance, Prog.ofExcept, isRetry,
    advanceRecord, findByTemplateIdAndVersion, Store.findByTemplateIdAndVersion,
    Store.templateList, oneStepRecord, oneStep, enabledTransition,
    WorkflowTemplate.transitionsFrom, GuardEvaluator.eval, executeAction, Prog.ask, updateInstance]
  rfl

/-- The template is published, and an instance of it is started and advanced. -/
noncomputable def finishRun : List (WorkflowOp × List Input) :=
  [(.publishTemplate oneStep, [input "t1", input "t1", input "t1"]),
    (.start startOptions, [input "r1", input "r1", input "r1", input "r1"]),
    (.advance finish, [input "u", input "u", input "u", input "u", input "u", input "u"])]

theorem exec_finishRun : exec (step jmespath) .empty finishRun =
    some ⟨singleton "t1" oneStepRecord, singleton "r1" finished, fun _ => false⟩ := by
  rw [finishRun, exec_cons, step_publish rfl, bind_some, exec_cons, step_start rfl rfl rfl]
  exact exec_cons_eq_some.2 ⟨_, step_advance_oneStep, rfl⟩

theorem leavesTemplate_finishRun :
    Along (step jmespath) (LeavesTemplate "onboarding" "1.0.0") .empty finishRun := by
  refine along_cons ⟨fun e _ => ?_, fun _ _ id record h => ?_⟩ (step_publish rfl)
    (along_cons trivial (step_start rfl rfl rfl) (along_cons trivial step_advance_oneStep trivial))
  · exact notMem_empty
  · simp [empty] at h

end Sample

open Sample in
theorem history_isPath_finished :
    (∃ found, HasTemplate (singleton "t1" oneStepRecord) finished.data found ∧
      HasPath found.template finished.data) ∧ finished.data.history.length = 1 :=
  ⟨(history_isPath jmespath "onboarding" "1.0.0" finishRun _ exec_finishRun
    leavesTemplate_finishRun).1 "r1" finished (by simp) rfl rfl, rfl⟩

end Idiom.Workflow
