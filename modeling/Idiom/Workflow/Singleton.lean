import Idiom.Lib.Rely
import Idiom.Workflow.History
import Idiom.Workflow.Interleaved

/-!
# One instance on a connection

`start` looks for a live instance of a singleton template on the connection, and for an instance
with the explicit id, and saves the new instance in a later repository call. `pause` and `resume`
write a live status without a look at the policy.

* `Checked` — nothing was written between a check and the save that relies on it, and no finished
  instance comes back to life beside another one.
* `singletonRely` — what a call relies on: its records stay, its UUIDs stay its own, and what it
  has checked holds until somebody writes it.
-/

namespace Idiom.Workflow

open Run WorkflowService List Tasks Store FMap Rely

variable {ι : Type} [DecidableEq ι]

/-! ## The policy -/

def InstanceStatus.isLive : InstanceStatus → Bool
  | .active => true
  | .paused => true
  | _ => false

/-- What no operation changes of an instance. -/
structure Origin where
  instanceId : String
  templateId : String
  templateVersion : String
  connectionId : Option String

def WorkflowInstanceData.origin (data : WorkflowInstanceData) : Origin :=
  ⟨data.instanceId, data.templateId, data.templateVersion, data.connectionId⟩

def WorkflowInstanceData.IsLiveOn (data : WorkflowInstanceData)
    (templateId connectionId : String) : Prop :=
  data.status.isLive = true ∧ data.templateId = templateId ∧ data.connectionId = some connectionId

def Store.HasLive (s : Store) (templateId connectionId : String) : Prop :=
  ∃ id record, s.instances.lookup id = some record ∧ record.data.IsLiveOn templateId connectionId

def Store.HasInstance (s : Store) (instanceId : String) : Prop :=
  ∃ id record, s.instances.lookup id = some record ∧ record.data.instanceId = instanceId

def IsSingleton (templates : FMap String WorkflowTemplateRecord) (data : WorkflowInstanceData) :
    Prop :=
  ∃ found, HasTemplate templates data found ∧ found.template.policyMode = .singletonPerConnection

/-- At most one live instance of a singleton template on a connection. -/
def Store.OnePerConnection (s : Store) : Prop :=
  ∀ id id' record record' templateId connectionId, s.instances.lookup id = some record →
    s.instances.lookup id' = some record' → IsSingleton s.templates record.data →
    IsSingleton s.templates record'.data → record.data.IsLiveOn templateId connectionId →
    record'.data.IsLiveOn templateId connectionId → id = id'

/-- A start with an explicit id that ended well has given the stored instance with the id, the only
one. -/
def StartsOnce (ops : ι → WorkflowOp) (x : Calls ι) : Prop :=
  ∀ t opts instanceId reply, ops t = .start opts → opts.instanceId = some instanceId →
    x.tasks t = some (.done reply) → ∃ record, reply = .instance_ record ∧
      ∀ id, (∃ stored, x.shared.instances.lookup id = some stored ∧
        stored.data.instanceId = instanceId) ↔ id = record.id

/-! ## The condition -/

/-- What a start looks for before it saves. -/
inductive Check where
  | noInstance (instanceId : String)
  | noneLive (templateId connectionId : String)

namespace Check

def call : Check → RepoCall
  | .noInstance _ => .findInstance
  | .noneLive _ _ => .findByTemplateAndConnection

def Holds (s : Store) : Check → Prop
  | .noInstance instanceId => ¬ s.HasInstance instanceId
  | .noneLive templateId connectionId => ¬ s.HasLive templateId connectionId

/-- The access writes what the check looks for. -/
def BrokenBy : Check → RepoCall → Prop
  | .noInstance instanceId, .saveInstance record => record.data.instanceId = instanceId
  | .noneLive templateId connectionId, .saveInstance record =>
    record.data.IsLiveOn templateId connectionId
  | .noneLive templateId connectionId, .updateInstance record =>
    record.data.IsLiveOn templateId connectionId
  | _, _ => False

def IsFor (data : WorkflowInstanceData) : Check → Prop
  | .noInstance instanceId => data.instanceId = instanceId
  | .noneLive templateId connectionId =>
    data.templateId = templateId ∧ data.connectionId = some connectionId

end Check

/-- Since the call made the check, nobody has written what it looks for. -/
def Lasts (trace : List (ι × RepoCall × Input)) (t : ι) (check : Check) : Prop :=
  ∀ before e after, trace = before ++ (t, check.call, e) :: after →
    ∀ b ∈ after, ¬ check.BrokenBy b.2.1

/-- A record is saved while its checks last, and a finished instance of a singleton template comes
back to life only where a start would be let through. -/
def CheckedAccess (s : Store) (trace : List (ι × RepoCall × Input)) (t : ι) : RepoCall → Prop
  | .saveInstance record => ∀ check : Check, check.IsFor record.data → Lasts trace t check
  | .updateInstance record =>
    record.data.status.isLive = true → IsSingleton s.templates record.data →
      ∀ connectionId ∈ record.data.connectionId,
        (∃ stored ∈ s.instances.lookup record.id, stored.data.status.isLive = true) ∨
          ¬ s.HasLive record.data.templateId connectionId
  | _ => True

def Checked (x : Calls ι) : TaskStep ι Input → Prop
  | .start _ => True
  | .go t _ => ∀ p ∈ x.tasks t, ∀ label ∈ p.label, CheckedAccess x.shared x.trace t label

/-- A new UUID is nowhere stored, was not drawn before and is no explicit id. -/
def FreshAccess (ops : ι → WorkflowOp) (s : Store) (trace : List (ι × RepoCall × Input))
    (e : Input) : RepoCall → Prop
  | .uuid => s.Unused e.uuid ∧ (∀ b ∈ trace, b.2.1 = .uuid → b.2.2.uuid ≠ e.uuid) ∧
      ∀ u opts, ops u = .start opts → opts.instanceId ≠ some e.uuid
  | _ => True

def DrawsFresh (ops : ι → WorkflowOp) (x : Calls ι) : TaskStep ι Input → Prop
  | .start _ => True
  | .go t e => ∀ p ∈ x.tasks t, ∀ label ∈ p.label, FreshAccess ops x.shared x.trace e label

/-! ## What a call relies on -/

section

variable {jmespath : JmesPath} {templates : FMap String WorkflowTemplateRecord}
  {ops : ι → WorkflowOp} {t u : ι} {w w' w'' : World ι Store Input RepoCall}

omit [DecidableEq ι]

/-- The store, and the UUIDs drawn so far. -/
structure SingletonInv (templates : FMap String WorkflowTemplateRecord) (ops : ι → WorkflowOp)
    (w : World ι Store Input RepoCall) : Prop where
  same : w.1.templates = templates
  stored : w.1.Invariant
  one : w.1.OnePerConnection
  drawn : ∀ b ∈ w.2, ∀ b' ∈ w.2, b.2.1 = .uuid → b'.2.1 = .uuid → b.2.2.uuid = b'.2.2.uuid →
    b.1 = b'.1
  explicit : ∀ b ∈ w.2, b.2.1 = .uuid → ∀ u opts, ops u = .start opts →
    opts.instanceId ≠ some b.2.2.uuid

/-- What stays while others run. -/
structure Stays (t : ι) (w w' : World ι Store Input RepoCall) : Prop where
  records : ∀ id record, w.1.instances.lookup id = some record →
    ∃ record', w'.1.instances.lookup id = some record' ∧ record'.data.origin = record.data.origin
  drawn : ∀ b ∈ w.2, b.1 = t → b.2.1 = .uuid → w.1.Unused b.2.2.uuid → w'.1.Unused b.2.2.uuid
  checks : ∃ after, w'.2 = w.2 ++ after ∧ ∀ check : Check,
    (∀ b ∈ after, ¬ check.BrokenBy b.2.1) → check.Holds w.1 → check.Holds w'.1

open Stays

theorem Stays.refl (t : ι) (w : World ι Store Input RepoCall) : Stays t w w where
  records _ record h := ⟨record, h, rfl⟩
  drawn _ _ _ _ h := h
  checks := ⟨[], (append_nil _).symm, fun _ _ h => h⟩

theorem Stays.trans (h : Stays t w w') (h' : Stays t w' w'') : Stays t w w'' := by
  obtain ⟨after, hw', hcheck⟩ := h.checks
  obtain ⟨after', hw'', hcheck'⟩ := h'.checks
  refine ⟨fun id record hlookup => ?_, fun b hb ht hlabel hunused => ?_, after ++ after', ?_,
    fun check hnone hholds => ?_⟩
  · obtain ⟨record', hlookup', horigin⟩ := h.records id record hlookup
    obtain ⟨record'', hlookup'', horigin'⟩ := h'.records id record' hlookup'
    exact ⟨record'', hlookup'', horigin'.trans horigin⟩
  · exact h'.drawn b (by rw [hw']; exact mem_append_left _ hb) ht hlabel
      (h.drawn b hb ht hlabel hunused)
  · rw [hw'', hw', append_assoc]
  · exact hcheck' check (fun b hb => hnone b (mem_append_right _ hb))
      (hcheck check (fun b hb => hnone b (mem_append_left _ hb)) hholds)

def singletonRely (templates : FMap String WorkflowTemplateRecord) (ops : ι → WorkflowOp) :
    Rely ι Store Input RepoCall where
  inv := SingletonInv templates ops
  evolves := Stays
  guard w t label e := CheckedAccess w.1 w.2 t label ∧ FreshAccess ops w.1 w.2 e label
  refl := refl
  trans _ _ _ _ := trans

theorem stays_of_eq {s : Store} {b : ι × RepoCall × Input}
    (hs : s.instances = w.1.instances) : Stays t w (s, w.2 ++ [b]) := by
  refine ⟨fun id record h => ⟨record, ?_, rfl⟩, fun b _ _ _ h => ?_, [b], rfl, fun check _ h => ?_⟩
  · show s.instances.lookup id = _
    rw [hs]
    exact h
  · unfold Unused at h ⊢
    rw [hs]
    exact h
  · cases check with
    | noInstance instanceId =>
      unfold Check.Holds HasInstance at h ⊢
      rw [hs]
      exact h
    | noneLive templateId connectionId =>
      unfold Check.Holds HasLive at h ⊢
      rw [hs]
      exact h

theorem kept_of_eq {s : Store} {label : RepoCall} {e : Input}
    (hinv : SingletonInv templates ops w) (hfresh : FreshAccess ops w.1 w.2 e label)
    (hs : s.instances = w.1.instances) (htemplates : s.templates = w.1.templates) :
    (singletonRely templates ops).Kept t w (s, w.2 ++ [(t, label, e)]) := by
  have hnew : ∀ b ∈ w.2, b.2.1 = .uuid → label = .uuid → b.2.2.uuid ≠ e.uuid := by
    rintro b hb hlabel rfl
    exact hfresh.2.1 b hb hlabel
  refine ⟨⟨htemplates.trans hinv.same, ⟨?_, ?_⟩, ?_, fun b hb b' hb' h h' heq => ?_,
    fun b hb h u opts hu => ?_⟩, fun u _ => stays_of_eq hs⟩
  · simpa only [hs] using hinv.stored.ids
  · simpa only [hs] using hinv.stored.unique
  · simpa only [OnePerConnection, hs, htemplates] using hinv.one
  · rcases mem_append.1 hb with hb | hb
    · rcases mem_append.1 hb' with hb' | hb'
      · exact hinv.drawn b hb b' hb' h h' heq
      · rw [mem_singleton.1 hb'] at h' heq
        exact absurd heq (hnew b hb h h')
    · rw [mem_singleton.1 hb] at h heq ⊢
      rcases mem_append.1 hb' with hb' | hb'
      · exact absurd heq.symm (hnew b' hb' h' h)
      · rw [mem_singleton.1 hb']
  · rcases mem_append.1 hb with hb | hb
    · exact hinv.explicit b hb h u opts hu
    · rw [mem_singleton.1 hb] at h ⊢
      subst h
      exact hfresh.2.2 u opts hu

/-- The call has made the check, and what it looks for is not there, unless it was written since. -/
def Made (t : ι) (check : Check) (w : World ι Store Input RepoCall) : Prop :=
  ∃ before e after, w.2 = before ++ (t, check.call, e) :: after ∧
    ((∀ b ∈ after, ¬ check.BrokenBy b.2.1) → check.Holds w.1)

theorem Made.stays {check : Check} (h : Made t check w) (hw : Stays u w w') : Made t check w' := by
  obtain ⟨before, e, after, htrace, hholds⟩ := h
  obtain ⟨after', hw', hcheck⟩ := hw.checks
  refine ⟨before, e, after ++ after', ?_, fun hnone => ?_⟩
  · rw [hw', htrace, append_assoc, cons_append]
  · exact hcheck check (fun b hb => hnone b (mem_append_right _ hb))
      (hholds fun b hb => hnone b (mem_append_left _ hb))

theorem Made.holds {check : Check} (h : Made t check w) (hlasts : Lasts w.2 t check) :
    check.Holds w.1 := by
  obtain ⟨before, e, after, htrace, hholds⟩ := h
  exact hholds (hlasts before e after htrace)

/-- The call has drawn the UUID, and nobody has used it. -/
def Drawn (t : ι) (uuid : String) (w : World ι Store Input RepoCall) : Prop :=
  (∃ e, (t, .uuid, e) ∈ w.2 ∧ e.uuid = uuid) ∧ w.1.Unused uuid

theorem Drawn.stays {uuid : String} (h : Drawn t uuid w) (hw : Stays t w w') : Drawn t uuid w' := by
  obtain ⟨⟨e, he, rfl⟩, hunused⟩ := h
  obtain ⟨after, hw', _⟩ := hw.checks
  refine ⟨⟨e, ?_, rfl⟩, hw.drawn _ he rfl rfl hunused⟩
  rw [hw']
  exact mem_append_left _ he

/-- What a start knows about the instance it is about to save. -/
structure Ready (t : ι) (opts : StartOptions) (record : WorkflowInstanceRecord)
    (templates : FMap String WorkflowTemplateRecord) (w : World ι Store Input RepoCall) :
    Prop where
  id : Drawn t record.id w
  instanceId : (opts.instanceId = some record.data.instanceId ∧
    Made t (.noInstance record.data.instanceId) w) ∨
      (opts.instanceId = none ∧ Drawn t record.data.instanceId w)
  policy : IsSingleton templates record.data → ∀ connectionId ∈ record.data.connectionId,
    Made t (.noneLive record.data.templateId connectionId) w

variable {opts : StartOptions} {record : WorkflowInstanceRecord}

theorem Ready.stays (h : Ready t opts record templates w) (hw : Stays t w w') :
    Ready t opts record templates w' where
  id := h.id.stays hw
  instanceId := h.instanceId.imp (fun ⟨hopts, hmade⟩ => ⟨hopts, hmade.stays hw⟩)
    fun ⟨hopts, hdrawn⟩ => ⟨hopts, hdrawn.stays hw⟩
  policy hsingleton connectionId hconnection := (h.policy hsingleton connectionId hconnection).stays
    hw

/-- A start that ended well has given a stored instance, with the explicit id if there is one. -/
def StartEnds (opts : StartOptions) (r : Except WorkflowError WorkflowInstanceRecord)
    (w : World ι Store Input RepoCall) : Prop :=
  ∀ record, r = .ok record →
    (∃ stored, w.1.instances.lookup record.id = some stored ∧
      stored.data.origin = record.data.origin) ∧
    ∀ instanceId, opts.instanceId = some instanceId → record.data.instanceId = instanceId

theorem safe_return
    (hstored : ∃ stored, w.1.instances.lookup record.id = some stored ∧ stored.data.origin =
      record.data.origin)
    (hid : ∀ instanceId, opts.instanceId = some instanceId → record.data.instanceId = instanceId) :
    (singletonRely templates ops).Safe t (StartEnds opts) (.done record) w := by
  rintro w' hw - _ ⟨⟩
  obtain ⟨stored, hlookup, horigin⟩ := hstored
  obtain ⟨stored', hlookup', horigin'⟩ := records hw _ _ hlookup
  exact ⟨⟨stored', hlookup', horigin'.trans horigin⟩, hid⟩

theorem safe_fail {error : WorkflowError} :
    (singletonRely templates ops).Safe t (StartEnds opts) (.fail error) w := by
  rintro w' - - _ ⟨⟩

theorem kept_insert {label : RepoCall} {e : Input} (hinv : SingletonInv templates ops w)
    (hlabel : label ≠ .uuid)
    (horigin : ∀ stored, w.1.instances.lookup record.id = some stored → record.data.origin =
      stored.data.origin)
    (hnew : ∀ id stored, w.1.instances.lookup id = some stored → stored.data.instanceId =
      record.data.instanceId → id = record.id)
    (halone : ∀ id other templateId connectionId, w.1.instances.lookup id = some other →
      IsSingleton templates record.data → IsSingleton templates other.data →
      record.data.IsLiveOn templateId connectionId → other.data.IsLiveOn templateId connectionId →
      id = record.id)
    (hunused : ∀ b ∈ w.2, b.1 ≠ t → b.2.1 = .uuid → w.1.Unused b.2.2.uuid → b.2.2.uuid ≠ record.id ∧
      b.2.2.uuid ≠ record.data.instanceId)
    (hname : ∀ instanceId, ¬ (Check.noInstance instanceId).BrokenBy label →
      ¬ w.1.HasInstance instanceId → record.data.instanceId ≠ instanceId)
    (hlive : ∀ templateId connectionId, ¬ (Check.noneLive templateId connectionId).BrokenBy label →
      ¬ record.data.IsLiveOn templateId connectionId)
    :
    (singletonRely templates ops).Kept t w
      ({ w.1 with instances := w.1.instances.insert record.id record },
        w.2 ++ [(t, label, e)]) := by
  have hdrawn : ∀ b ∈ w.2 ++ [(t, label, e)], b.2.1 = .uuid → b ∈ w.2 := by
    intro b hb h
    rcases mem_append.1 hb with hb | hb
    · exact hb
    · rw [mem_singleton.1 hb] at h
      exact absurd h hlabel
  refine ⟨⟨hinv.same, ⟨fun id stored h => ?_, fun id id' r r' h h' heq => ?_⟩,
    fun id id' r r' templateId connectionId h h' hs hs' hlive hlive' => ?_,
    fun b hb b' hb' h h' => hinv.drawn b (hdrawn b hb h) b' (hdrawn b' hb' h') h h',
    fun b hb h => hinv.explicit b (hdrawn b hb h) h⟩, fun u hu =>
      ⟨fun id r h => ?_, fun b hb hbu h hfree => ?_, [_], rfl, fun check hnone hholds => ?_⟩⟩
  · rw [lookup_insert_ite] at h
    split at h
    · next heq =>
      cases h
      exact heq.symm
    · exact hinv.stored.ids id stored h
  · rw [lookup_insert_ite] at h h'
    split at h <;> split at h'
    · next hid hid' => exact hid.trans hid'.symm
    · next hid _ =>
      cases h
      exact hid.trans (hnew id' r' h' heq.symm).symm
    · next _ hid' =>
      cases h'
      exact (hnew id r h heq).trans hid'.symm
    · exact hinv.stored.unique id id' r r' h h' heq
  · rw [lookup_insert_ite] at h h'
    have hs₁ : IsSingleton templates r.data := hinv.same ▸ hs
    have hs₂ : IsSingleton templates r'.data := hinv.same ▸ hs'
    split at h <;> split at h'
    · next hid hid' => exact hid.trans hid'.symm
    · next hid _ =>
      cases h
      exact hid.trans (halone id' r' _ _ h' hs₁ hs₂ hlive hlive').symm
    · next _ hid' =>
      cases h'
      exact (halone id r _ _ h hs₂ hs₁ hlive' hlive).trans hid'.symm
    · exact hinv.one id id' r r' templateId connectionId h h' hs hs' hlive hlive'
  · show ∃ r', (w.1.instances.insert record.id record).lookup id = some r' ∧ _
    rw [lookup_insert_ite]
    split
    · next heq => exact ⟨record, rfl, horigin r (heq ▸ h)⟩
    · exact ⟨r, h, rfl⟩
  · refine unused_iff.2 fun id r hlookup => ?_
    rw [lookup_insert_ite] at hlookup
    split at hlookup
    · next heq =>
      cases hlookup
      rw [heq]
      exact hunused b hb (hbu ▸ hu) h hfree
    · exact unused_iff.1 hfree id r hlookup
  · have hbroken := hnone _ (mem_singleton_self _)
    cases check with
    | noInstance instanceId =>
      rintro ⟨id, r, hlookup, hid⟩
      rw [lookup_insert_ite] at hlookup
      split at hlookup
      · cases hlookup
        exact hname instanceId hbroken hholds hid
      · exact hholds ⟨id, r, hlookup, hid⟩
    | noneLive templateId connectionId =>
      rintro ⟨id, r, hlookup, hr⟩
      rw [lookup_insert_ite] at hlookup
      split at hlookup
      · cases hlookup
        exact hlive templateId connectionId hbroken hr
      · exact hholds ⟨id, r, hlookup, hr⟩

theorem kept_save {e : Input} (hops : ops t = .start opts) (hinv : SingletonInv templates ops w)
    (hready : Ready t opts record templates w)
    (hchecked : CheckedAccess w.1 w.2 t (.saveInstance record)) :
    (singletonRely templates ops).Kept t w
      ({ w.1 with instances := w.1.instances.insert record.id record },
        w.2 ++ [(t, .saveInstance record, e)]) := by
  have hunused := unused_iff.1 hready.id.2
  refine kept_insert hinv (fun h => (nomatch h))
    (fun stored h => absurd rfl (hunused record.id stored h).1.symm)
    (fun id stored hlookup heq => ?_) (fun id stored _ connectionId hlookup hs _ hlive hother => ?_)
    (fun b hb hu h _ => ?_) (fun _ hbroken _ => hbroken) fun _ _ hbroken => hbroken
  · rcases hready.instanceId with ⟨_, hmade⟩ | ⟨_, hdrawn⟩
    · exact absurd ⟨id, stored, hlookup, heq⟩ (hmade.holds (hchecked _ rfl))
    · exact absurd heq.symm (unused_iff.1 hdrawn.2 id stored hlookup).2
  · obtain ⟨_, rfl, hconnection⟩ := hlive
    exact absurd ⟨id, stored, hlookup, hother⟩
      ((hready.policy hs connectionId hconnection).holds (hchecked _ ⟨rfl, hconnection⟩))
  · -- a UUID of another call is neither the record id nor the instance id
    have hother : ∀ uuid, Drawn t uuid w → b.2.2.uuid ≠ uuid := by
      rintro uuid ⟨⟨e', he', rfl⟩, _⟩ heq
      exact hu (hinv.drawn b hb _ he' h rfl heq)
    refine ⟨hother _ hready.id, fun heq => ?_⟩
    rcases hready.instanceId with ⟨hopts, _⟩ | ⟨_, hdrawn⟩
    · exact hinv.explicit b hb h t opts hops (by rw [hopts, heq])
    · exact hother _ hdrawn heq

theorem safe_new {data : WorkflowInstanceData} (hops : ops t = .start opts)
    (hid : (opts.instanceId = some data.instanceId ∧ Made t (.noInstance data.instanceId) w) ∨
      (opts.instanceId = none ∧ Drawn t data.instanceId w))
    (hpolicy : IsSingleton templates data → ∀ connectionId ∈ data.connectionId,
      Made t (.noneLive data.templateId connectionId) w)
    :
    (singletonRely templates ops).Safe t (StartEnds opts)
      (Prog.ask .uuid Input.uuid >>= fun id =>
        saveInstance ⟨id, data⟩ >>= fun _ => .done ⟨id, data⟩) w := by
  rintro w₁ e₁ hw₁ hinv₁ ⟨_, hfresh⟩
  refine ⟨kept_of_eq hinv₁ hfresh rfl rfl, ?_⟩
  have hstays : Stays t w (w₁.1, w₁.2 ++ [(t, .uuid, e₁)]) := trans hw₁ (stays_of_eq rfl)
  have hready : Ready t opts ⟨e₁.uuid, data⟩ templates (w₁.1, w₁.2 ++ [(t, .uuid, e₁)]) :=
    ⟨⟨⟨e₁, by simp, rfl⟩, hfresh.1⟩,
      hid.imp (fun h => ⟨h.1, h.2.stays hstays⟩) fun h => ⟨h.1, h.2.stays hstays⟩,
      fun hs connectionId hc => (hpolicy hs connectionId hc).stays hstays⟩
  rintro w₂ e₂ hw₂ hinv₂ ⟨hchecked, _⟩
  refine ⟨kept_save hops hinv₂ (hready.stays hw₂) hchecked, safe_return ⟨⟨e₁.uuid, data⟩, ?_, rfl⟩
    fun instanceId hopts => ?_⟩
  · show (w₂.1.instances.insert e₁.uuid _).lookup e₁.uuid = _
    rw [lookup_insert_ite, if_pos rfl]
  · rcases hid with ⟨h, _⟩ | ⟨h, _⟩
    · exact Option.some.inj (h.symm.trans hopts)
    · rw [h] at hopts
      cases hopts

/-- **The policy** of a singleton template is checked where there is a connection. -/
theorem safe_policy {template : WorkflowTemplate} {k : Unit → Op WorkflowInstanceRecord}
    (hk : ∀ w', Stays t w w' → (template.policyMode = .singletonPerConnection →
      ∀ connectionId ∈ opts.connectionId, Made t (.noneLive template.templateId connectionId) w') →
      (singletonRely templates ops).Safe t (StartEnds opts) (k ()) w')
    :
    (singletonRely templates ops).Safe t (StartEnds opts)
      (checkInstancePolicy template opts.connectionId >>= k) w := by
  unfold checkInstancePolicy
  split
  · next hconnection =>
    rintro w₁ e₁ hw₁ hinv₁ ⟨_, hfresh⟩
    refine ⟨kept_of_eq hinv₁ hfresh rfl rfl, ?_⟩
    simp only [Prog.bind]
    split
    · exact safe_fail
    · next hnone =>
      refine hk _ (trans hw₁ (stays_of_eq rfl)) fun _ connectionId hc => ?_
      rw [hconnection] at hc
      cases hc
      refine ⟨w₁.2, e₁, [], rfl, ?_⟩
      rintro - ⟨id, record, hlookup, hlive, htemplate, hconn⟩
      refine hnone (any_eq_true.2 ⟨record, ?_, ?_⟩)
      · exact mem_filter.2 ⟨mem_instanceList.2 ⟨id, hlookup⟩, by simp [htemplate, hconn]⟩
      · cases hstatus : record.data.status with
        | active | paused => simp
        | _ =>
          rw [hstatus] at hlive
          cases hlive
  · next hnot =>
    refine hk w (refl t w) fun hmode connectionId hc => ?_
    exact absurd hc (by
      intro h
      exact hnot connectionId hmode h)

variable {s : Store}

theorem safe_startNew (hcatalog : s.Catalog) (hops : ops t = .start opts)
    (hmade : ∀ instanceId, opts.instanceId = some instanceId → Made t (.noInstance instanceId) w) :
    (singletonRely s.templates ops).Safe t (StartEnds opts) (startNew opts) w := by
  rintro w₁ e₁ hw₁ hinv₁ ⟨_, hfresh₁⟩
  refine ⟨kept_of_eq hinv₁ hfresh₁ rfl rfl, ?_⟩
  have hstays₁ : Stays t w (w₁.1, w₁.2 ++ [(t, .findTemplate, e₁)]) :=
    trans hw₁ (stays_of_eq rfl)
  show (singletonRely s.templates ops).Safe t _ (orFail _
    (w₁.1.findByTemplateIdAndVersion e₁.order opts.templateId opts.templateVersion) >>= _) _
  cases hfound : w₁.1.findByTemplateIdAndVersion e₁.order opts.templateId opts.templateVersion with
  | none => exact safe_fail
  | some found =>
    obtain ⟨id, hlookup⟩ := lookup_of_findByTemplateIdAndVersion hfound
    rw [hinv₁.same] at hlookup
    obtain ⟨hid, hversion⟩ := hcatalog.fields id found hlookup
    refine safe_policy fun w₂ hw₂ hpolicy => ?_
    cases hstart : found.template.startState with
    | none => exact safe_fail
    | some startState =>
      -- the template of the new instance is the one that was found
      have hsingleton : ∀ data : WorkflowInstanceData, data.templateId = found.template.templateId →
          data.templateVersion = found.template.version → data.connectionId = opts.connectionId →
          IsSingleton s.templates data → ∀ connectionId ∈ data.connectionId,
            Made t (.noneLive data.templateId connectionId) w₂ := by
        rintro data hname hversion' hconnection ⟨found', hfound', hmode⟩ connectionId hc
        obtain rfl := hcatalog.hasTemplate_unique hfound'
          ⟨⟨id, hlookup⟩, hid.symm.trans hname.symm, hversion.symm.trans hversion'.symm⟩
        rw [hname]
        exact hpolicy hmode connectionId (hconnection ▸ hc)
      show (singletonRely s.templates ops).Safe t _ (orUuid opts.instanceId >>= _) w₂
      cases hopts : opts.instanceId with
      | some instanceId =>
        exact safe_new hops (.inl ⟨hopts, (hmade instanceId hopts).stays
          (trans hstays₁ hw₂)⟩) (hsingleton _ rfl rfl rfl)
      | none =>
        rintro w₃ e₃ hw₃ hinv₃ ⟨_, hfresh₃⟩
        refine ⟨kept_of_eq hinv₃ hfresh₃ rfl rfl, ?_⟩
        have hstays₃ : Stays t w₂ (w₃.1, w₃.2 ++ [(t, .uuid, e₃)]) :=
          trans hw₃ (stays_of_eq rfl)
        exact safe_new hops (.inr ⟨hopts, ⟨e₃, by simp, rfl⟩, hfresh₃.1⟩)
          fun h connectionId hc => (hsingleton _ rfl rfl rfl h connectionId hc).stays hstays₃

theorem safe_start (hcatalog : s.Catalog) (hops : ops t = .start opts) :
    (singletonRely s.templates ops).Safe t (StartEnds opts) (start opts) w := by
  unfold start
  cases hopts : opts.instanceId with
  | none =>
    refine safe_startNew hcatalog hops fun instanceId h => ?_
    rw [hopts] at h
    cases h
  | some instanceId =>
    rintro w₁ e₁ hw₁ hinv₁ ⟨_, hfresh₁⟩
    refine ⟨kept_of_eq hinv₁ hfresh₁ rfl rfl, ?_⟩
    simp only [Prog.bind]
    cases hfound : w₁.1.findByInstanceId e₁.order instanceId with
    | some existing =>
      obtain ⟨⟨id, hlookup⟩, hname⟩ := findByInstanceId_eq_some hfound
      have hid := hinv₁.stored.ids id existing hlookup
      refine safe_return ⟨existing, hid ▸ hlookup, rfl⟩ fun instanceId' h => ?_
      rw [hopts] at h
      cases h
      exact hname
    | none =>
      refine safe_startNew hcatalog hops fun instanceId' h => ⟨w₁.2, e₁, [], rfl, ?_⟩
      rw [hopts] at h
      cases h
      rintro - ⟨id, record, hlookup, hname⟩
      exact findByInstanceId_eq_none.1 hfound id record hlookup hname

/-! ## Calls on an instance -/

theorem Change.origin_apply (change : Change) (data : WorkflowInstanceData) :
    (change.apply data).origin = data.origin := by
  cases change <;> rfl

theorem isSingleton_congr {data data' : WorkflowInstanceData} (h : data'.origin = data.origin) :
    IsSingleton templates data' ↔ IsSingleton templates data := by
  obtain ⟨_, hid, hversion, _⟩ := Origin.mk.inj h
  unfold IsSingleton HasTemplate
  rw [hid, hversion]

theorem isLiveOn_congr {data data' : WorkflowInstanceData} (h : data'.origin = data.origin)
    (hlive : data'.status.isLive = true → data.status.isLive = true)
    {templateId connectionId : String} (h' : data'.IsLiveOn templateId connectionId) :
    data.IsLiveOn templateId connectionId := by
  obtain ⟨_, hid, _, hconnection⟩ := Origin.mk.inj h
  exact ⟨hlive h'.1, hid ▸ h'.2.1, hconnection ▸ h'.2.2⟩

theorem kept_update {record stored : WorkflowInstanceRecord} {e : Input}
    (hinv : SingletonInv templates ops w) (hstored : w.1.instances.lookup record.id = some stored)
    (horigin : record.data.origin = stored.data.origin)
    (hchecked : CheckedAccess w.1 w.2 t (.updateInstance record)) :
    (singletonRely templates ops).Kept t w
      ({ w.1 with instances := w.1.instances.insert record.id record },
        w.2 ++ [(t, .updateInstance record, e)]) := by
  have hname := (Origin.mk.inj horigin).1
  refine kept_insert hinv (fun h => (nomatch h)) (fun stored' h => ?_) (fun id r h heq => ?_)
    (fun id other _ connectionId hlookup hs hs' hlive hother => ?_) (fun b hb _ _ hfree => ?_)
    (fun instanceId _ hnone hid => ?_) fun _ _ hbroken => hbroken
  · cases hstored.symm.trans h
    exact horigin
  · exact hinv.stored.unique id record.id r stored h hstored (heq.trans hname)
  · -- a live instance that is written is the only one, as it was before or because it was checked
    obtain ⟨hlive, rfl, hconnection⟩ := hlive
    rcases hchecked hlive (hinv.same ▸ hs) connectionId hconnection with
      ⟨stored', hstored', hlive'⟩ | hnone
    · cases hstored.symm.trans hstored'
      exact hinv.one id record.id other stored _ connectionId hlookup hstored (hinv.same ▸ hs')
        (hinv.same ▸ (isSingleton_congr horigin).1 hs) hother
        (isLiveOn_congr horigin (fun _ => hlive') ⟨hlive, rfl, hconnection⟩)
    · exact absurd ⟨id, other, hlookup, hother⟩ hnone
  · rw [hname]
    exact unused_iff.1 hfree _ _ hstored
  · exact hnone ⟨record.id, stored, hstored, hname ▸ hid⟩

/-- Nothing is asked of the result of a call. -/
def AnyEnd {α : Type} (_ : Except WorkflowError α) (_ : World ι Store Input RepoCall) : Prop := True

variable {op : WorkflowOp}

/-- What follows the load: accesses to other things, and one write of the instance. -/
theorem safe_pending {q : Op WorkflowInstanceRecord}
    (hq : Pending templates (Keeps op record) (Writes jmespath templates op record) q)
    (hstored : ∃ stored, w.1.instances.lookup record.id = some stored ∧ stored.data.origin =
      record.data.origin)
    :
    (singletonRely templates ops).Safe t AnyEnd q w := by
  induction q generalizing w with
  | done record' | fail error => exact fun _ _ _ => trivial
  | access label effect next ih =>
    rintro w₁ e₁ hw₁ hinv₁ ⟨hchecked, hfresh⟩
    obtain ⟨stored, hlookup, horigin⟩ := hstored
    obtain ⟨stored₁, hlookup₁, horigin₁⟩ := records hw₁ _ _ hlookup
    rcases hq with ⟨_, hq⟩ | ⟨record', ⟨change, _, rfl⟩, heq⟩
    · obtain ⟨hsame, hnext⟩ := hq e₁ w₁.1 hinv₁.same
      rw [hsame]
      exact ⟨kept_of_eq hinv₁ hfresh rfl rfl,
        ih e₁ w₁.1 hnext ⟨stored₁, hlookup₁, horigin₁.trans horigin⟩⟩
    · cases heq
      have hmem : record.id ∈ w₁.1.instances := Finmap.mem_of_lookup_eq_some hlookup₁
      have hkept := @kept_update _ _ _ t _
        { record with data := change.apply record.data } _ e₁ hinv₁ hlookup₁
        ((change.origin_apply record.data).trans (horigin₁.trans horigin).symm) hchecked
      simp only [hmem]
      exact ⟨hkept, fun _ _ _ => trivial⟩

variable {instanceId : String}

theorem safe_close {q : Op WorkflowInstanceRecord}
    (h : (singletonRely templates ops).Safe t AnyEnd q w) :
    (singletonRely templates ops).Safe t AnyEnd (op.close instanceId q) w := by
  apply Safe.map
  cases op.isAdvance with
  | false => exact h
  | true =>
    apply Safe.bind
    apply Safe.attempt
    refine h.imp fun result w₁ _ _ => ?_
    rintro w₂ e₂ hw₂ hinv₂ ⟨_, hfresh⟩
    refine ⟨kept_of_eq hinv₂ hfresh rfl rfl, ?_⟩
    cases result with
    | ok record | error error => exact fun _ _ _ => trivial

theorem safe_load (hon : op.On instanceId) :
    (singletonRely templates ops).Safe t AnyEnd
      (requireInstance instanceId >>= op.rest jmespath) w := by
  rintro w₁ e₁ hw₁ hinv₁ ⟨_, hfresh⟩
  refine ⟨kept_of_eq hinv₁ hfresh rfl rfl, ?_⟩
  show (singletonRely templates ops).Safe t _
    (orFail _ (w₁.1.findByInstanceId e₁.order instanceId) >>= _) _
  cases hfound : w₁.1.findByInstanceId e₁.order instanceId with
  | none => exact fun _ _ _ => trivial
  | some record =>
    obtain ⟨⟨id, hlookup⟩, _⟩ := findByInstanceId_eq_some hfound
    have hid := hinv₁.stored.ids id record hlookup
    exact safe_pending (pending_rest hon) ⟨record, hid ▸ hlookup, rfl⟩

theorem safe_call (hon : op.On instanceId) :
    (singletonRely templates ops).Safe t AnyEnd (perform jmespath op) w := by
  rw [perform_eq hon]
  split
  · rintro w₁ e₁ hw₁ hinv₁ ⟨_, hfresh⟩
    exact ⟨kept_of_eq hinv₁ hfresh rfl rfl, safe_close (safe_load hon)⟩
  · exact safe_close (safe_load hon)

/-! ## Runs -/

def SingletonEnds (ops : ι → WorkflowOp) (t : ι) (r : Except WorkflowError Reply)
    (w : World ι Store Input RepoCall) : Prop :=
  ∀ opts reply, ops t = .start opts → r = .ok reply →
    ∃ record, reply = .instance_ record ∧ StartEnds opts (.ok record) w

theorem safe_perform (hcatalog : s.Catalog)
    (hops : (∃ opts, ops t = .start opts) ∨ ∃ instanceId, (ops t).On instanceId) :
    (singletonRely s.templates ops).Safe t (SingletonEnds ops t) (perform jmespath (ops t)) w := by
  rcases hops with ⟨opts, hops⟩ | ⟨instanceId, hon⟩
  · rw [hops]
    refine Safe.map ((safe_start hcatalog hops).imp fun r w₁ _ h opts' reply hops' hr => ?_)
    cases hops.symm.trans hops'
    cases r with
    | error error => cases hr
    | ok record =>
      cases hr
      exact ⟨record, rfl, h⟩
  · refine (safe_call hon).imp fun r w₁ _ _ opts reply hops' hr => ?_
    rw [hops'] at hon
    exact hon.elim

end

/-- **The singleton policy** holds at every moment of a run in which a record is saved while its
checks last and no finished instance comes back to life beside another one, and starts with one
explicit id give one stored instance. -/
theorem singleton_kept (jmespath : JmesPath) (ops : ι → WorkflowOp) (s : Store)
    (l : List (TaskStep ι Input)) (x : Calls ι)
    (hops : ∀ t, (∃ opts, ops t = .start opts) ∨ ∃ instanceId, (ops t).On instanceId)
    (hs : s.Invariant) (hcatalog : s.Catalog) (hone : s.OnePerConnection)
    (hfresh : Along (concurrent jmespath ops) (DrawsFresh ops) (fresh s) l)
    (hchecked : Along (concurrent jmespath ops) Checked (fresh s) l)
    (h : exec (concurrent jmespath ops) (fresh s) l = some x) :
    x.shared.OnePerConnection ∧ StartsOnce ops x := by
  have hsound : (singletonRely s.templates ops).Sound (SingletonEnds ops) x := by
    refine @sound_of_exec _ _ _ _ _ _ _ _ _ (fun t => perform jmespath (ops t)) _ _ _
      (fun x a y hstep => ?_) (fun t w _ _ => safe_perform hcatalog (hops t))
      _ (sound_fresh ⟨rfl, hs, hone, fun b hb => absurd hb not_mem_nil,
        fun b hb => absurd hb not_mem_nil⟩) ((hchecked.and hfresh).imp ?_) h
    · cases a with
      | start t => exact hstep
      | go t e =>
        simp only [concurrent] at hstep
        split_ifs at hstep
        exact hstep
    · rintro x a ⟨hG, hF⟩
      cases a with
      | start t => trivial
      | go t e => exact fun p hp label hlabel => ⟨hG p hp label hlabel, hF p hp label hlabel⟩
  refine ⟨hsound.inv.one, fun t opts instanceId reply hstart hopts hdone => ?_⟩
  obtain ⟨record, rfl, hends⟩ := hsound.of_done hdone opts reply hstart rfl
  obtain ⟨⟨stored, hlookup, horigin⟩, hexplicit⟩ := hends record rfl
  have hname : stored.data.instanceId = instanceId :=
    (Origin.mk.inj horigin).1.trans (hexplicit instanceId hopts)
  refine ⟨record, rfl, fun id => ⟨?_, ?_⟩⟩
  · rintro ⟨other, hother, hname'⟩
    exact hsound.inv.stored.unique id record.id other stored hother hlookup
      (hname'.trans hname.symm)
  · rintro rfl
    exact ⟨stored, hlookup, hname⟩

/-! ## Two runs -/

namespace Sample

def singleton : WorkflowTemplate := { oneStep with policyMode := .singletonPerConnection }

def singletonStore : Store :=
  ⟨Finmap.singleton "t1" ⟨"t1", "onboarding", "1.0.0", singleton⟩, ∅, fun _ => false⟩

def singletonOptions : StartOptions :=
  ⟨"onboarding", some "1.0.0", some "i1", some "c1", none, none⟩

def startedRecord (id : String) : WorkflowInstanceRecord :=
  ⟨id, ⟨"i1", "onboarding", "1.0.0", some "c1", [], "new", none, .object [], .object [], .active,
    [], []⟩⟩

/-- What is left of a start that has made its checks. -/
def saveStarted : Op Reply :=
  Reply.instance_ <$> (Prog.ask .uuid Input.uuid >>= fun id =>
    saveInstance (startedRecord id) >>= fun _ => .done (startedRecord id))

theorem singleton_policyMode : singleton.policyMode = .singletonPerConnection := rfl

theorem singleton_startState : singleton.startState = some ⟨"new", .start, none⟩ := rfl

theorem singleton_templateId : singleton.templateId = "onboarding" := rfl

theorem singleton_version : singleton.version = "1.0.0" := rfl

theorem findByInstanceId_singletonStore (order : IterOrder String) (instanceId : String) :
    singletonStore.findByInstanceId order instanceId = none := by
  simp [Store.findByInstanceId, Store.instanceList, singletonStore]

theorem findByTemplateIdAndVersion_singletonStore (order : IterOrder String) :
    singletonStore.findByTemplateIdAndVersion order "onboarding" (some "1.0.0") =
      some ⟨"t1", "onboarding", "1.0.0", singleton⟩ := by
  simp [Store.findByTemplateIdAndVersion, Store.templateList, singletonStore,
    IterOrder.list_singleton]

theorem findByTemplateAndConnection_singletonStore (order : IterOrder String)
    (templateId : String) (connectionId : Option String) :
    singletonStore.findByTemplateAndConnection order templateId connectionId = [] := by
  simp [Store.findByTemplateAndConnection, Store.instanceList, singletonStore]

theorem lookup_singletonStore {id : String} {found : WorkflowTemplateRecord}
    (h : singletonStore.templates.lookup id = some found) :
    id = "t1" ∧ found = ⟨"t1", "onboarding", "1.0.0", singleton⟩ := by
  have hmem := Finmap.mem_of_lookup_eq_some h
  rw [singletonStore, Finmap.mem_singleton] at hmem
  subst hmem
  exact ⟨rfl, by simpa [singletonStore] using h.symm⟩

theorem catalog_singletonStore : singletonStore.Catalog := by
  refine ⟨fun id found h => ?_, fun id found h => ?_, fun id id' found found' h h' _ _ => ?_⟩
  · obtain ⟨rfl, rfl⟩ := lookup_singletonStore h
    rfl
  · obtain ⟨rfl, rfl⟩ := lookup_singletonStore h
    exact ⟨rfl, rfl⟩
  · rw [(lookup_singletonStore h).1, (lookup_singletonStore h').1]

variable {ops : ι → WorkflowOp} {x : Calls ι} {t : ι}

attribute [local simp] concurrent Tasks.step perform start startNew singletonOptions Prog.map_eq
  findByInstanceId orFail findByInstanceId_singletonStore findByTemplateIdAndVersion
  findByTemplateIdAndVersion_singletonStore findByTemplateAndConnection
  findByTemplateAndConnection_singletonStore checkInstancePolicy orUuid blocked Prog.label
  singleton_policyMode singleton_startState

theorem exec_checks (hops : ops t = .start singletonOptions) (hidle : x.tasks t = none)
    (hshared : x.shared = singletonStore) :
    exec (concurrent jmespath ops) x
        [.start t, .go t (input "u"), .go t (input "u"), .go t (input "u")] =
      some ⟨singletonStore, Function.update x.tasks t (some saveStarted),
        x.trace ++ [(t, .findInstance, input "u"), (t, .findTemplate, input "u"),
          (t, .findByTemplateAndConnection, input "u")]⟩ := by
  simp [exec, hops, hidle, hshared, singleton_templateId, singleton_version, saveStarted,
    startedRecord]

theorem exec_save (id : String) (ht : x.tasks t = some saveStarted) :
    exec (concurrent jmespath ops) x [.go t (input id), .go t (input "u")] =
      some ⟨{ x.shared with instances := x.shared.instances.insert id (startedRecord id) },
        Function.update x.tasks t (some (.done (.instance_ (startedRecord id)))),
        x.trace ++ [(t, .uuid, input id), (t, .saveInstance (startedRecord id), input "u")]⟩ := by
  simp [exec, concurrent, Tasks.step, ht, saveStarted, Prog.map_eq, Prog.ask, saveInstance,
    Prog.modify, blocked, Prog.label, input, startedRecord]

theorem exec_found (hops : ops t = .start singletonOptions) (hidle : x.tasks t = none)
    (hinstances : x.shared.instances = Finmap.singleton "r1" (startedRecord "r1")) :
    exec (concurrent jmespath ops) x [.start t, .go t (input "u")] =
      some ⟨x.shared, Function.update x.tasks t (some (.done (.instance_ (startedRecord "r1")))),
        x.trace ++ [(t, .findInstance, input "u")]⟩ := by
  simp [exec, hops, hidle, Store.findByInstanceId, Store.instanceList, hinstances,
    IterOrder.list_singleton, startedRecord]

def twoStarts (_ : Bool) : WorkflowOp := .start singletonOptions

noncomputable def checks (t : Bool) : List (TaskStep Bool Input) :=
  [.start t, .go t (input "u"), .go t (input "u"), .go t (input "u")]

noncomputable def save (t : Bool) (id : String) : List (TaskStep Bool Input) :=
  [.go t (input id), .go t (input "u")]

/-- The second start comes when the first has returned. -/
noncomputable def inTurn : List (TaskStep Bool Input) :=
  checks false ++ save false "r1" ++ [.start true, .go true (input "u")]

theorem exec_inTurn : ∃ x,
    exec (concurrent jmespath twoStarts) (fresh singletonStore) inTurn = some x ∧
    (∀ t, x.tasks t = some (.done (.instance_ (startedRecord "r1")))) ∧
    x.shared.instances = Finmap.singleton "r1" (startedRecord "r1") := by
  have hchecks := @exec_checks _ _ twoStarts (fresh singletonStore) false rfl rfl rfl
  have hsaved := exec_append_eq_some.2 ⟨_, hchecks, exec_save (t := false) "r1" (by rfl)⟩
  refine ⟨_, exec_append_eq_some.2 ⟨_, hsaved, exec_found (t := true) rfl (by rfl) (by rfl)⟩, ?_,
    (by rfl)⟩
  rintro (_ | _) <;> rfl

theorem drawsFresh_inTurn :
    Along (concurrent jmespath twoStarts) (DrawsFresh twoStarts) (Tasks.fresh singletonStore)
      inTurn := by
  simp [inTurn, checks, save, Along, Tasks.fresh, twoStarts, DrawsFresh, FreshAccess, Prog.ask,
    saveInstance, Prog.modify, input]
  refine ⟨by simp [Unused, singletonStore], ?_⟩
  rintro label e (⟨rfl, _⟩ | ⟨rfl, _⟩ | ⟨rfl, _⟩) ⟨⟩

theorem checked_inTurn :
    Along (concurrent jmespath twoStarts) Checked (Tasks.fresh singletonStore) inTurn := by
  simp [inTurn, checks, save, Along, Tasks.fresh, twoStarts, Checked, CheckedAccess, Prog.ask,
    saveInstance, Prog.modify]
  intro check _ before e after htrace b hb
  -- nothing has been written yet
  have hmem : b ∈ before ++ (false, check.call, e) :: after := by simp [hb]
  rw [← htrace] at hmem
  simp only [mem_cons, not_mem_nil, or_false] at hmem
  rcases hmem with rfl | rfl | rfl | rfl <;> cases check <;> exact fun h => h

end Sample

open Sample in
theorem singleton_kept_inTurn : ∃ x : Calls Bool,
    exec (concurrent jmespath twoStarts) (fresh singletonStore) inTurn = some x ∧
    (x.shared.OnePerConnection ∧ StartsOnce twoStarts x) ∧
      (∀ t, x.tasks t = some (.done (.instance_ (startedRecord "r1")))) ∧
      x.shared.instances = Finmap.singleton "r1" (startedRecord "r1") := by
  obtain ⟨x, h, hdone, hinstances⟩ := exec_inTurn
  refine ⟨x, h, singleton_kept jmespath twoStarts singletonStore _ x (fun t => .inl ⟨_, rfl⟩)
    ⟨fun id r hr => ?_, fun id id' r r' hr => ?_⟩ catalog_singletonStore
    (fun id id' r r' _ _ hr => ?_) drawsFresh_inTurn checked_inTurn h, hdone, hinstances⟩
  all_goals simp [singletonStore] at hr

open Sample in
/-- Two starts with one explicit id make their checks before either saves: two instances have the
id, and both are active. -/
theorem singleton_kept_fails : ∃ x : Calls Bool,
    exec (concurrent jmespath twoStarts) (fresh singletonStore)
        (checks false ++ checks true ++ save false "r1" ++ save true "r2") = some x ∧
      ¬ x.shared.OnePerConnection ∧ ¬ StartsOnce twoStarts x := by
  have hchecks := @exec_checks _ _ twoStarts (fresh singletonStore) false
    rfl rfl rfl
  have hchecks' := exec_append_eq_some.2 ⟨_, hchecks,
    @exec_checks _ _ twoStarts _ true rfl (by rfl) rfl⟩
  have hsave := exec_append_eq_some.2 ⟨_, hchecks', exec_save (t := false) "r1" (by rfl)⟩
  refine ⟨_, exec_append_eq_some.2 ⟨_, hsave, exec_save (t := true) "r2" (by rfl)⟩, ?_, ?_⟩
  · intro hone
    have hsingleton : ∀ id, IsSingleton singletonStore.templates (startedRecord id).data :=
      fun id =>
      ⟨⟨"t1", "onboarding", "1.0.0", singleton⟩, ⟨⟨"t1", by simp [singletonStore]⟩, rfl, rfl⟩, rfl⟩
    have heq := hone "r1" "r2" (startedRecord "r1") (startedRecord "r2") "onboarding" "c1"
      (by simp) (by simp) (hsingleton "r1")
      (hsingleton "r2") ⟨rfl, rfl, rfl⟩ ⟨rfl, rfl, rfl⟩
    simp at heq
  · intro honce
    obtain ⟨record, _, hiff⟩ := honce false singletonOptions "i1" _ rfl rfl (by rfl)
    have h₁ := (hiff "r1").1 ⟨startedRecord "r1", by simp, rfl⟩
    have h₂ := (hiff "r2").1 ⟨startedRecord "r2", by simp, rfl⟩
    rw [← h₁] at h₂
    simp at h₂

end Idiom.Workflow
