import Idiom.Lib.Tasks
import Idiom.Workflow.Change

/-!
# Concurrent calls on an instance

The calls on one instance run at once and are interleaved at their repository calls. An advance
waits for the advance lock of the instance; the other calls do not take it.
-/

namespace Idiom.Workflow

open Run Function WorkflowService List Tasks Option
open Ajna (Json)

variable {ι : Type} [DecidableEq ι]

abbrev Calls (ι : Type) := Tasks ι Store Input RepoCall WorkflowError Reply

/-- The next access of the call is to take a lock that is held. -/
def blocked (s : Store) (p : Op Reply) : Bool :=
  match p.label with
  | some (.lock instanceId) => s.locked instanceId
  | _ => false

/-- A call starts, or makes its next access unless it waits for a lock. -/
def concurrent (jmespath : JmesPath) (ops : ι → WorkflowOp) (x : Calls ι) :
    TaskStep ι Input → Option (Calls ι)
  | .start t => Tasks.step (fun t => perform jmespath (ops t)) x (.start t)
  | .go t e =>
    if (x.tasks t).any (blocked x.shared) then none
    else Tasks.step (fun t => perform jmespath (ops t)) x (.go t e)

def RepoCall.isUpdate : RepoCall → Bool
  | .updateInstance _ => true
  | _ => false

/-- The calls that have written, in the order of their writes. -/
def updaters (trace : List (ι × RepoCall × Input)) : List ι :=
  (trace.filter fun b => b.2.1.isUpdate).map Prod.fst

/-- When a call writes, nothing was written since it loaded the instance, except by an advance if
the call is one. -/
def UpToDate (ops : ι → WorkflowOp) (x : Calls ι) : TaskStep ι Input → Prop
  | .start _ => True
  | .go t _ => (∃ p ∈ x.tasks t, ∃ record, p.label = some (.updateInstance record)) →
      ∀ before e after, x.trace = before ++ (t, .findInstance, e) :: after →
        ∀ b ∈ after, b.2.1.isUpdate = true → (ops t).isAdvance = true ∧ (ops b.1).isAdvance = true

/-! ## How far a call has come -/

inductive Position where
  | idle
  /-- An advance before its lock. -/
  | waiting
  | ready
  | loaded (record : WorkflowInstanceRecord)
  /-- An advance before it gives the lock back. -/
  | closing (result : Except WorkflowError WorkflowInstanceRecord)
  | ended (result : Except WorkflowError WorkflowInstanceRecord)

open Position

/-- The call is at the position. -/
def At (jmespath : JmesPath) (templates : FMap String WorkflowTemplateRecord)
    (instanceId : String) (op : WorkflowOp) : Position → Option (Op Reply) → Prop
  | .idle, p => p = none
  | .waiting, p => op.isAdvance = true ∧
      p = some (.access (.lock instanceId) (fun _ s => lockInstance instanceId s)
        fun _ _ => op.close instanceId (requireInstance instanceId >>= op.rest jmespath))
  | .ready, p => p = some (op.close instanceId (requireInstance instanceId >>= op.rest jmespath))
  | .loaded record, p => ∃ label effect next,
      p = some (op.close instanceId (.access label effect next)) ∧
        Pending templates (Keeps op record) (Writes jmespath templates op record)
          (.access label effect next)
  | .closing result, p => op.isAdvance = true ∧
      p = some (op.close instanceId (.ofExcept result))
  | .ended result, p => p = some (Reply.instance_ <$> .ofExcept result)

/-- An advance has the lock. -/
def Position.Holds (op : WorkflowOp) : Position → Prop
  | .ready => op.isAdvance = true
  | .loaded _ => op.isAdvance = true
  | .closing _ => op.isAdvance = true
  | _ => False

/-- The position of a call that has its result. -/
def Position.after (op : WorkflowOp) (result : Except WorkflowError WorkflowInstanceRecord) :
    Position :=
  if op.isAdvance then .closing result else .ended result

/-- The call has not written. -/
def Position.IsBefore : Position → Prop
  | .closing _ => False
  | .ended _ => False
  | _ => True

/-- The record a call has. -/
def Position.record : Position → Option WorkflowInstanceRecord
  | .loaded record => some record
  | .closing (.ok record) => some record
  | .ended (.ok record) => some record
  | _ => none

/-- The result of a call that has one. -/
def Position.result : Position → Option (Except WorkflowError WorkflowInstanceRecord)
  | .closing result => some result
  | .ended result => some result
  | _ => none

section

variable {jmespath : JmesPath} {templates : FMap String WorkflowTemplateRecord}
  {instanceId : String} {op : WorkflowOp} {result : Except WorkflowError WorkflowInstanceRecord}

@[simp] theorem Position.result_after : (after op result).result = some result := by
  unfold after
  cases op.isAdvance <;> rfl

variable {record : WorkflowInstanceRecord}

@[simp] theorem Position.record_after : (after op (.ok record)).record = some record := by
  unfold after
  cases op.isAdvance <;> rfl

theorem Position.record_eq_some {position : Position} (h : position.record = some record) :
    position = .loaded record ∨ position.result = some (.ok record) := by
  cases position with
  | loaded record' =>
    cases h
    exact .inl rfl
  | closing result | ended result =>
    cases result with
    | ok record' => cases h; exact .inr rfl
    | error e => cases h
  | _ => cases h

theorem Position.record_of_result {position : Position} (h : position.result = some (.ok record)) :
    position.record = some record := by
  cases position with
  | closing result | ended result =>
    cases h
    rfl
  | _ => cases h

@[simp] theorem Position.not_isBefore_after : ¬ (after op result).IsBefore := by
  unfold after
  cases op.isAdvance <;> exact fun h => h

theorem at_after :
    At jmespath templates instanceId op (.after op result)
      (some (op.close instanceId (.ofExcept result))) := by
  unfold Position.after
  cases hop : op.isAdvance with
  | true => exact ⟨hop, rfl⟩
  | false =>
    show some _ = some _
    rw [close_ofExcept, hop]
    rfl

theorem at_perform (hon : op.On instanceId) :
    ∃ position, At jmespath templates instanceId op position (some (perform jmespath op)) ∧
      position.IsBefore ∧ ¬ position.Holds op ∧ (∀ record, position ≠ .loaded record) ∧
      position.result = none := by
  rw [perform_eq hon]
  cases hop : op.isAdvance with
  | true => exact ⟨.waiting, ⟨hop, rfl⟩, trivial, fun h => h, (fun _ h => by cases h), rfl⟩
  | false => exact ⟨.ready, rfl, trivial, by simp [Holds, hop], (fun _ h => by cases h), rfl⟩

theorem at_pending {q : Op WorkflowInstanceRecord}
    (hq : Pending templates (Keeps op record) (Writes jmespath templates op record) q) :
    ∃ position, At jmespath templates instanceId op position (some (op.close instanceId q)) ∧
      (position = .loaded record ∨ ∃ result, position = .after op result ∧
        ∀ record', result = .ok record' → Keeps op record record') := by
  cases q with
  | done record' =>
    refine ⟨.after op (.ok record'), at_after, .inr ⟨_, rfl, fun record'' h => ?_⟩⟩
    cases h
    exact hq
  | fail e => exact ⟨.after op (.error e), at_after, .inr ⟨_, rfl, fun _ h => by cases h⟩⟩
  | access label effect next => exact ⟨.loaded record, ⟨label, effect, next, rfl, hq⟩, .inl rfl⟩

end

/-! ## The changes so far -/

/-- The changes, one after another, lead to the instance. -/
inductive Replay (jmespath : JmesPath) (templates : FMap String WorkflowTemplateRecord)
    (ops : ι → WorkflowOp) (start : WorkflowInstanceData) :
    List (ι × Change) → WorkflowInstanceData → Prop where
  | nil : Replay jmespath templates ops start [] start
  | snoc {log : List (ι × Change)} {data : WorkflowInstanceData} {t : ι} {change : Change} :
      Replay jmespath templates ops start log data →
      change.Of jmespath templates (ops t) data →
      Replay jmespath templates ops start (log ++ [(t, change)]) (change.apply data)

/-- Only one instance has the id, and the changes so far lead to it. -/
structure Ledger (jmespath : JmesPath) (templates : FMap String WorkflowTemplateRecord)
    (ops : ι → WorkflowOp) (instanceId id : String) (start : WorkflowInstanceData) (x : Calls ι)
    (position : ι → Position) (log : List (ι × Change)) (data : WorkflowInstanceData) : Prop where
  same : x.shared.templates = templates
  unique : ∀ id' record, x.shared.instances.lookup id' = some record →
    record.data.instanceId = instanceId → id' = id
  stored : x.shared.instances.lookup id = some ⟨id, data⟩
  named : data.instanceId = instanceId
  replay : Replay jmespath templates ops start log data
  updates : log.map Prod.fst = updaters x.trace
  at_ : ∀ t, At jmespath templates instanceId (ops t) (position t) (x.tasks t)
  locked : ∀ t, (position t).Holds (ops t) → x.shared.locked instanceId = true
  one : ∀ t u, (position t).Holds (ops t) → (position u).Holds (ops u) → t = u
  /-- A record that was loaded is the stored one, until there is another write. -/
  loaded : ∀ t record, position t = .loaded record → ∃ before e after,
    x.trace = before ++ (t, .findInstance, e) :: after ∧
      ((∀ b ∈ after, b.2.1.isUpdate = false) → record = ⟨id, data⟩) ∧
      ∀ b ∈ after, b.2.1.isUpdate = true → (ops t).isAdvance = true → (ops b.1).isAdvance = false
  before : ∀ t, (position t).IsBefore → t ∉ updaters x.trace
  once : (updaters x.trace).Nodup
  result : ∀ t record, (position t).result = some (.ok record) →
    t ∈ updaters x.trace ∨ Keeps (ops t) record record
  /-- A record that a call has was the stored one after some of the changes. -/
  known : ∀ t record, (position t).record = some record → ∃ log', log' <+: log ∧
    Replay jmespath templates ops start log' record.data

section

variable {jmespath : JmesPath} {templates : FMap String WorkflowTemplateRecord}
  {ops : ι → WorkflowOp} {instanceId id : String} {first : WorkflowInstanceData}
  {x y : Calls ι} {position : ι → Position} {log : List (ι × Change)}
  {data : WorkflowInstanceData}

omit [DecidableEq ι] in
@[simp] theorem updaters_append (trace : List (ι × RepoCall × Input)) (t : ι) (label : RepoCall)
    (e : Input) : updaters (trace ++ [(t, label, e)]) =
      updaters trace ++ if label.isUpdate then [t] else [] := by
  unfold updaters
  rw [filter_append, map_append]
  cases h : label.isUpdate <;> simp [h]

theorem at_update {tasks : ι → Option (Op Reply)} {t : ι} {p : Op Reply} {pos : Position}
    (h : ∀ u, At jmespath templates instanceId (ops u) (position u) (tasks u))
    (hat : At jmespath templates instanceId (ops t) pos (some p)) (u : ι) :
    At jmespath templates instanceId (ops u) (update position t pos u)
      (update tasks t (some p) u) := by
  by_cases hu : u = t
  · subst hu
    rw [update_self, update_self]
    exact hat
  · rw [update_of_ne hu, update_of_ne hu]
    exact h u

omit [DecidableEq ι] in
theorem Ledger.findByInstanceId
    (h : Ledger jmespath templates ops instanceId id first x position log data)
    (order : IterOrder String) : x.shared.findByInstanceId order instanceId = some ⟨id, data⟩ := by
  cases hfound : x.shared.findByInstanceId order instanceId with
  | none => exact absurd h.named (findByInstanceId_eq_none.1 hfound id _ h.stored)
  | some record =>
    obtain ⟨⟨id', hlookup⟩, hname⟩ := findByInstanceId_eq_some hfound
    obtain rfl := h.unique id' record hlookup hname
    exact hlookup.symm.trans h.stored

theorem Ledger.move (h : Ledger jmespath templates ops instanceId id first x position log data)
    {t : ι} {label : RepoCall} {e : Input} {shared : Store} {p : Op Reply} {pos : Position}
    (hlabel : label.isUpdate = false) (htemplates : shared.templates = x.shared.templates)
    (hinstances : shared.instances = x.shared.instances)
    (hat : At jmespath templates instanceId (ops t) pos (some p))
    (hlocked : ∀ u, (update position t pos u).Holds (ops u) → shared.locked instanceId = true)
    (hone : ∀ u v, (update position t pos u).Holds (ops u) →
      (update position t pos v).Holds (ops v) → u = v)
    (hloaded : ∀ record, pos = .loaded record →
      (position t = .loaded record ∨ label = .findInstance ∧ record = ⟨id, data⟩))
    (hbefore : pos.IsBefore → (position t).IsBefore)
    (hresult : ∀ record, pos.result = some (.ok record) →
      (position t).result = some (.ok record) ∨
        Keeps (ops t) record record ∧ (record = ⟨id, data⟩ ∨ position t = .loaded record)) :
    Ledger jmespath templates ops instanceId id first
      ⟨shared, update x.tasks t (some p), x.trace ++ [(t, label, e)]⟩
      (update position t pos) log data := by
  have hupdaters : updaters (x.trace ++ [(t, label, e)]) = updaters x.trace := by
    simp [hlabel]
  -- one more access after the load of another call
  have hlonger : ∀ u record, position u = .loaded record → ∃ before e' after,
      x.trace ++ [(t, label, e)] = before ++ (u, .findInstance, e') :: after ∧
        ((∀ b ∈ after, b.2.1.isUpdate = false) → record = ⟨id, data⟩) ∧
        ∀ b ∈ after, b.2.1.isUpdate = true → (ops u).isAdvance = true →
          (ops b.1).isAdvance = false := by
    intro u record hu
    obtain ⟨before, e', after, htrace, hsame, hadvance⟩ := h.loaded u record hu
    refine ⟨before, e', after ++ [(t, label, e)], ?_, fun hnone => hsame fun b hb =>
      hnone b (mem_append_left _ hb), fun b hb hupdate hop => ?_⟩
    · rw [htrace, append_assoc]
      rfl
    · rcases mem_append.1 hb with hb | hb
      · exact hadvance b hb hupdate hop
      · rw [mem_singleton.1 hb, hlabel] at hupdate
        cases hupdate
  refine ⟨htemplates.trans h.same, ?_, ?_, h.named, h.replay, ?_, at_update h.at_ hat,
    hlocked, hone,
    fun u record hu => ?_, fun u hu => ?_, ?_, fun u record hu => ?_, fun u record hu => ?_⟩
  · show ∀ id' record, shared.instances.lookup id' = some record → _
    rw [hinstances]
    exact h.unique
  · show shared.instances.lookup id = _
    rw [hinstances]
    exact h.stored
  · exact h.updates.trans hupdaters.symm
  · by_cases hut : u = t
    · subst hut
      rw [update_self] at hu
      rcases hloaded record hu with hold | ⟨rfl, rfl⟩
      · exact hlonger u record hold
      · exact ⟨x.trace, e, [], rfl, fun _ => rfl, fun b hb => by cases hb⟩
    · rw [update_of_ne hut] at hu
      exact hlonger u record hu
  · rw [hupdaters]
    by_cases hut : u = t
    · subst hut
      rw [update_self] at hu
      exact h.before u (hbefore hu)
    · rw [update_of_ne hut] at hu
      exact h.before u hu
  · rw [hupdaters]
    exact h.once
  · rw [hupdaters]
    by_cases hut : u = t
    · subst hut
      rw [update_self] at hu
      rcases hresult record hu with hold | ⟨hkeeps, _⟩
      · exact h.result u record hold
      · exact .inr hkeeps
    · rw [update_of_ne hut] at hu
      exact h.result u record hu
  · have hstored : ∃ log', log' <+: log ∧
        Replay jmespath templates ops first log' (⟨id, data⟩ : WorkflowInstanceRecord).data :=
      ⟨log, prefix_refl log, h.replay⟩
    by_cases hut : u = t
    · subst hut
      rw [update_self] at hu
      rcases record_eq_some hu with hpos | hpos
      · rcases hloaded record hpos with hold | ⟨_, rfl⟩
        · exact h.known u record (by rw [hold]; rfl)
        · exact hstored
      · rcases hresult record hpos with hold | ⟨_, rfl | hold⟩
        · exact h.known u record (record_of_result hold)
        · exact hstored
        · exact h.known u record (by rw [hold]; rfl)
    · rw [update_of_ne hut] at hu
      exact h.known u record hu

theorem holds_of_update {t : ι} {pos : Position}
    (hholds : pos.Holds (ops t) → (position t).Holds (ops t)) (u : ι)
    (hu : (update position t pos u).Holds (ops u)) : (position u).Holds (ops u) := by
  by_cases hut : u = t
  · subst hut
    rw [update_self] at hu
    exact hholds hu
  · rwa [update_of_ne hut] at hu

theorem Ledger.write (h : Ledger jmespath templates ops instanceId id first x position log data)
    {t : ι} {e : Input} {record : WorkflowInstanceRecord} {change : Change}
    (ht : position t = .loaded ⟨id, data⟩) (hchange : change.Of jmespath templates (ops t) data)
    (hrecord : record = ⟨id, change.apply data⟩) :
    Ledger jmespath templates ops instanceId id first
      ⟨{ x.shared with instances := x.shared.instances.insert id record },
        update x.tasks t (some ((ops t).close instanceId (.ofExcept (.ok record)))),
        x.trace ++ [(t, .updateInstance record, e)]⟩
      (update position t (.after (ops t) (.ok record))) (log ++ [(t, change)])
      (change.apply data) := by
  subst hrecord
  have hholds := @holds_of_update _ _ ops position t
      (.after (ops t) (.ok ⟨id, change.apply data⟩)) (by
    rw [ht]
    unfold Position.after
    cases hop : (ops t).isAdvance with
    | true => exact fun _ => hop
    | false => exact fun h => h.elim)
  have hnew : t ∉ updaters x.trace := h.before t (by rw [ht]; trivial)
  have hupdaters : updaters (x.trace ++ [(t, .updateInstance ⟨id, change.apply data⟩, e)]) =
      updaters x.trace ++ [t] := by simp [RepoCall.isUpdate]
  refine ⟨h.same, fun id' record hlookup hname => ?_, ?_, by simpa using h.named,
    .snoc h.replay hchange, ?_, at_update h.at_ at_after, fun u hu => h.locked u (hholds u hu),
    fun u v hu hv => h.one u v (hholds u hu) (hholds v hv), fun u record hu => ?_,
    fun u hu => ?_, ?_, fun u record hu => ?_, fun u record hu => ?_⟩
  · rw [FMap.lookup_insert_ite] at hlookup
    split at hlookup
    · next heq => exact heq
    · exact h.unique id' record hlookup hname
  · rw [FMap.lookup_insert_ite, if_pos rfl]
  · simp [h.updates, RepoCall.isUpdate]
  · -- for the other calls that have loaded the instance, this is another write
    by_cases hut : u = t
    · subst hut
      rw [update_self] at hu
      unfold Position.after at hu
      split at hu <;> cases hu
    rw [update_of_ne hut] at hu
    obtain ⟨before, e', after, htrace, _, hadvance⟩ := h.loaded u record hu
    refine ⟨before, e', after ++ [(t, .updateInstance ⟨id, change.apply data⟩, e)], ?_,
      fun hnone => ?_, fun b hb hupdate hop => ?_⟩
    · show x.trace ++ _ = _
      rw [htrace, append_assoc]
      rfl
    · have := hnone _ (mem_append_right _ (mem_singleton_self _))
      cases this
    · rcases mem_append.1 hb with hb | hb
      · exact hadvance b hb hupdate hop
      · rw [mem_singleton.1 hb]
        by_contra hboth
        have htop := eq_true_of_ne_false hboth
        exact hut (h.one u t (by rw [hu]; exact hop) (by rw [ht]; exact htop))
  · rw [hupdaters]
    by_cases hut : u = t
    · subst hut
      rw [update_self] at hu
      exact absurd hu not_isBefore_after
    · rw [update_of_ne hut] at hu
      intro hmem
      rcases mem_append.1 hmem with hmem | hmem
      · exact h.before u hu hmem
      · exact hut (mem_singleton.1 hmem)
  · rw [hupdaters]
    exact nodup_append.2 ⟨h.once, nodup_singleton t, fun a ha b hb hab => hnew (by
      rw [mem_singleton.1 hb] at hab
      rwa [hab] at ha)⟩
  · rw [hupdaters]
    by_cases hut : u = t
    · exact .inl (by rw [hut]; simp)
    · rw [update_of_ne hut] at hu
      exact (h.result u record hu).imp (fun hmem => mem_append_left _ hmem) fun h => h
  · by_cases hut : u = t
    · subst hut
      rw [update_self, record_after] at hu
      cases hu
      exact ⟨_, prefix_refl _, .snoc h.replay hchange⟩
    · rw [update_of_ne hut] at hu
      obtain ⟨log', hlog, hreplay⟩ := h.known u record hu
      exact ⟨log', hlog.trans (prefix_append _ _), hreplay⟩

theorem concurrent_cases {a : TaskStep ι Input} (h : concurrent jmespath ops x a = some y) :
    (∃ t, a = .start t ∧ x.tasks t = none ∧
      y = { x with tasks := update x.tasks t (some (perform jmespath (ops t))) }) ∨
    ∃ t e label effect next, a = .go t e ∧ x.tasks t = some (.access label effect next) ∧
      blocked x.shared (.access label effect next) = false ∧
      y = ⟨effect e x.shared, update x.tasks t (some (next e x.shared)),
        x.trace ++ [(t, label, e)]⟩ := by
  cases a with
  | start t =>
    have hstep : Tasks.step (fun t => perform jmespath (ops t)) x (.start t) = some y := h
    rcases Tasks.step_cases hstep with ⟨t', heq, hnone, rfl⟩ | ⟨_, _, _, _, _, heq, _⟩
    · cases heq
      exact .inl ⟨t, rfl, hnone, rfl⟩
    · cases heq
  | go t e =>
    simp only [concurrent] at h
    split_ifs at h with hblocked
    rcases Tasks.step_cases h with ⟨_, heq, _⟩ | ⟨_, _, label, effect, next, heq, ht, rfl⟩
    · cases heq
    · cases heq
      refine .inr ⟨t, e, label, effect, next, rfl, ht, ?_, rfl⟩
      rw [ht] at hblocked
      simpa using hblocked

omit [DecidableEq ι] in
theorem Ledger.loaded_eq
    (h : Ledger jmespath templates ops instanceId id first x position log data) {t : ι} {e : Input}
    {record record' : WorkflowInstanceRecord} {p : Op Reply} (ht : position t = .loaded record)
    (hp : x.tasks t = some p) (hlabel : p.label = some (.updateInstance record'))
    (hG : UpToDate ops x (.go t e)) : record = ⟨id, data⟩ := by
  obtain ⟨before, e', after, htrace, hsame, hadvance⟩ := h.loaded t record ht
  refine hsame fun b hb => ?_
  by_contra hupdate
  obtain ⟨htop, hbop⟩ := hG ⟨p, hp, record', hlabel⟩ before e' after htrace b hb
    (eq_true_of_ne_false hupdate)
  rw [hadvance b hb (eq_true_of_ne_false hupdate) htop] at hbop
  cases hbop

theorem Ledger.start (h : Ledger jmespath templates ops instanceId id first x position log data)
    {t : ι} (hon : (ops t).On instanceId) (hnone : x.tasks t = none) :
    ∃ pos, Ledger jmespath templates ops instanceId id first
      { x with tasks := update x.tasks t (some (perform jmespath (ops t))) }
      (update position t pos) log data := by
  obtain ⟨pos, hat, _, hnotHolds, hnotLoaded, hnoResult⟩ :=
    @at_perform jmespath templates _ _ hon
  have hholds := @holds_of_update _ _ ops position t pos fun hpos => absurd hpos hnotHolds
  have hidle : (position t).IsBefore := by
    have hold := h.at_ t
    rw [hnone] at hold
    cases hpos : position t with
    | closing result =>
      rw [hpos] at hold
      cases hold.2
    | ended result =>
      rw [hpos] at hold
      cases hold
    | _ => trivial
  refine ⟨pos, h.same, h.unique, h.stored, h.named, h.replay, h.updates, at_update h.at_ hat,
    fun u hu => h.locked u (hholds u hu), fun u v hu hv => h.one u v (hholds u hu) (hholds v hv),
    fun u record hu => ?_, fun u hu => ?_, h.once, fun u record hu => ?_, fun u record hu => ?_⟩
  · by_cases hut : u = t
    · subst hut
      rw [update_self] at hu
      exact absurd hu (hnotLoaded record)
    · rw [update_of_ne hut] at hu
      exact h.loaded u record hu
  · by_cases hut : u = t
    · subst hut
      exact h.before u hidle
    · rw [update_of_ne hut] at hu
      exact h.before u hu
  · by_cases hut : u = t
    · subst hut
      rw [update_self, hnoResult] at hu
      cases hu
    · rw [update_of_ne hut] at hu
      exact h.result u record hu
  · by_cases hut : u = t
    · subst hut
      rw [update_self] at hu
      rcases record_eq_some hu with hpos | hpos
      · exact absurd hpos (hnotLoaded record)
      · rw [hnoResult] at hpos
        cases hpos
    · rw [update_of_ne hut] at hu
      exact h.known u record hu

section

variable {record : WorkflowInstanceRecord} {pos : Position} {op : WorkflowOp}
  (hpos : pos = .loaded record ∨ ∃ result, pos = .after op result ∧
    ∀ record', result = .ok record' → Keeps op record record')
include hpos

theorem holds_after (hholds : pos.Holds op) : op.isAdvance = true := by
  rcases hpos with rfl | ⟨result, rfl, _⟩
  · exact hholds
  · unfold Position.after at hholds
    split at hholds
    · exact hholds
    · exact hholds.elim

theorem isBefore_after :
    (∀ record', pos = .loaded record' → record' = record) ∧
      ∀ record', pos.result = some (.ok record') → Keeps op record' record' ∧ record' = record := by
  rcases hpos with rfl | ⟨result, rfl, hkeeps⟩
  · exact ⟨fun record' h => by cases h; rfl, fun record' h => by cases h⟩
  · refine ⟨fun record' h => ?_, fun record' h => ?_⟩
    · unfold Position.after at h
      split at h <;> cases h
    · rw [result_after] at h
      cases h
      obtain ⟨rfl, hretry⟩ := hkeeps record' rfl
      exact ⟨⟨rfl, hretry⟩, rfl⟩

end

theorem Ledger.step (h : Ledger jmespath templates ops instanceId id first x position log data)
    (hon : ∀ t, (ops t).On instanceId) {a : TaskStep ι Input} (hG : UpToDate ops x a)
    (ha : concurrent jmespath ops x a = some y) :
    ∃ position' log' data',
      Ledger jmespath templates ops instanceId id first y position' log' data' := by
  obtain ⟨t, rfl, hnone, rfl⟩ | ⟨t, e, label, effect, next, rfl, ht, hblocked, rfl⟩ :=
    concurrent_cases ha
  · obtain ⟨pos, h'⟩ := h.start (hon t) hnone
    exact ⟨_, log, data, h'⟩
  have hat := h.at_ t
  rw [ht] at hat
  cases hpos : position t with
  | idle =>
    rw [hpos] at hat
    cases hat
  | waiting =>
    rw [hpos] at hat
    obtain ⟨hop, hat⟩ := hat
    cases hat
    have hfree : ∀ u, ¬ (position u).Holds (ops u) := by
      intro u hu
      have hlocked : x.shared.locked instanceId = false := hblocked
      rw [h.locked u hu] at hlocked
      cases hlocked
    have honly : ∀ u, (update position t .ready u).Holds (ops u) → u = t := by
      intro u hu
      by_contra hut
      rw [update_of_ne hut] at hu
      exact hfree u hu
    refine ⟨update position t .ready, log, data, h.move rfl rfl rfl rfl
      (fun u _ => update_self ..) (fun u v hu hv => (honly u hu).trans (honly v hv).symm)
      (fun record hr => by cases hr) (fun _ => by rw [hpos]; trivial) fun record hr => by cases hr⟩
  | ready =>
    rw [hpos] at hat
    have hat' := some.inj (hat.trans (congrArg some close_load))
    cases hat'
    obtain ⟨pos, hpos', hcases⟩ := @at_pending _ _ instanceId _ _ _
      (@pending_rest jmespath templates _ _ ⟨id, data⟩ (hon t))
    obtain ⟨hloaded, hresult⟩ := isBefore_after hcases
    have hholds := @holds_of_update _ _ ops position t pos
      fun hpos' => by rw [hpos]; exact holds_after hcases hpos'
    refine ⟨update position t pos, log, data, ?_⟩
    have hmove := @Ledger.move _ _ _ _ _ _ _ _ _ _ _ _ h t .findInstance e x.shared _
      pos rfl rfl rfl hpos' (fun u hu => h.locked u (hholds u hu))
      (fun u v hu hv => h.one u v (hholds u hu) (hholds v hv))
      (fun record hr => .inr ⟨rfl, hloaded record hr⟩) (fun _ => by rw [hpos]; trivial)
      fun record hr => .inr ⟨(hresult record hr).1, .inl (hresult record hr).2⟩
    simp only [h.findByInstanceId e.order]
    exact hmove
  | loaded record =>
    rw [hpos] at hat
    obtain ⟨label', effect', next', hat, hq⟩ := hat
    rw [close_access] at hat
    cases hat
    rcases hq with ⟨hquiet, hq⟩ | ⟨record', ⟨change, hchange, hrecord'⟩, heq⟩
    · obtain ⟨hsame, hnext⟩ := hq e x.shared h.same
      obtain ⟨pos, hpos', hcases⟩ :=
        @at_pending jmespath _ instanceId _ _ _ hnext
      obtain ⟨hloaded, hresult⟩ := isBefore_after hcases
      have hholds := @holds_of_update _ _ ops position t pos
        fun hpos' => by rw [hpos]; exact holds_after hcases hpos'
      have hlabel : label.isUpdate = false := by
        cases label with
        | updateInstance record => cases hquiet
        | _ => rfl
      rw [hsame]
      exact ⟨update position t pos, log, data, h.move hlabel rfl rfl hpos'
        (fun u hu => h.locked u (hholds u hu)) (fun u v hu hv => h.one u v (hholds u hu)
          (hholds v hv))
        (fun record' hr => .inl (by rw [hpos, hloaded record' hr]))
        (fun _ => by rw [hpos]; trivial) fun record' hr =>
          .inr ⟨(hresult record' hr).1, .inr (by rw [hpos, (hresult record' hr).2])⟩⟩
    · cases heq
      obtain rfl := h.loaded_eq hpos ht rfl hG
      have hmem : id ∈ x.shared.instances := Finmap.mem_of_lookup_eq_some h.stored
      have hwrite := h.write (e := e) hpos hchange hrecord'
      refine ⟨update position t (.after (ops t) (.ok record')), log ++ [(t, change)],
        change.apply data, ?_⟩
      subst hrecord'
      simp only [hmem]
      exact hwrite
  | closing result =>
    rw [hpos] at hat
    obtain ⟨hop, hat⟩ := hat
    rw [close_ofExcept, hop] at hat
    cases hat
    have hnone : ∀ u, ¬ (update position t (.ended result) u).Holds (ops u) := by
      intro u hu
      by_cases hut : u = t
      · subst hut
        rw [update_self] at hu
        exact hu
      · rw [update_of_ne hut] at hu
        exact hut (h.one u t hu (by rw [hpos]; exact hop))
    exact ⟨update position t (.ended result), log, data, h.move rfl rfl rfl rfl
      (fun u hu => absurd hu (hnone u)) (fun u _ hu _ => absurd hu (hnone u))
      (fun record hr => by cases hr) (fun hr => hr.elim) fun record hr => .inl
        (by rw [hpos]; exact hr)⟩
  | ended result =>
    rw [hpos] at hat
    cases result <;> cases hat

end

/-! ## What the changes leave -/

/-- The value of a field. -/
def jsonField (json : Json) (key : String) : Option Json :=
  match json with
  | .object fields => lookupField fields key
  | _ => none

/-- The value a merge writes under a key. -/
def patchField (patch : Json) (key : String) : Option Json :=
  match patch with
  | .object fields => (fields.reverse.find? fun p => p.1 = key).map Prod.snd
  | _ => none

namespace Change

/-- The entry an advance appends to the history. -/
def item : Change → Option InstanceHistoryItem
  | .transition _ opts found result now =>
    some ⟨now, opts.event, found.source, found.target, found.action, result.messageId⟩
  | _ => none

/-- What is merged into the context. -/
def contextPatch : Change → Option Json
  | .context patch => some patch
  | .transition _ _ _ result _ => result.contextMerge
  | _ => none

/-- What is merged into the artifacts. -/
def artifactsPatch : Change → Option Json
  | .artifacts patch => some patch
  | .transition _ _ _ result _ => result.artifacts
  | _ => none

/-- The status that is written. -/
def newStatus : Change → Option InstanceStatus
  | .status new => some new
  | .transition template _ found _ _ =>
    if template.isFinal found.target then some .completed else none
  | _ => none

end Change

open Change

/-- The value of the last change that has one. -/
def lastOf {α : Type} (f : Change → Option α) (log : List (ι × Change)) : Option α :=
  log.reverse.findSome? fun c => f c.2

/-- The instance reflects the changes: every transition is in the history, every merged key has the
value of its last merge, the status is the one written last, and what has paused or canceled the
instance was followed by no transition until the status was written again. -/
structure Reflects (first data : WorkflowInstanceData) (log : List (ι × Change)) : Prop where
  history : data.history = first.history ++ log.filterMap fun c => c.2.item
  context : ∀ key, jsonField data.context key =
    (lastOf (fun c => c.contextPatch.bind (patchField · key)) log).or (jsonField first.context key)
  artifacts : ∀ key, jsonField data.artifacts key =
    (lastOf (fun c => c.artifactsPatch.bind (patchField · key)) log).or
      (jsonField first.artifacts key)
  status : data.status = (lastOf newStatus log).getD first.status
  halted : ∀ l₁ t status l₂, log = l₁ ++ (t, .status status) :: l₂ → status ≠ .active →
    (∀ c ∈ l₂, ∀ status', c.2 ≠ .status status') →
    (∀ c ∈ l₂, c.2.item = none) ∧ data.status = status

section

omit [DecidableEq ι]

theorem lookupField_map (fields : List (String × Json)) (key : String) (value : Json)
    (key' : String) :
    lookupField (fields.map fun p => if p.1 = key then (key, value) else p) key' =
      if key' = key then (lookupField fields key).map fun _ => value
      else lookupField fields key' := by
  unfold lookupField
  induction fields with
  | nil => simp
  | cons p rest ih =>
    rw [find?_cons]
    by_cases hp : p.1 = key
    · by_cases hk : key' = key
      · simp [hp, hk]
      · have hk' : ¬ key = key' := fun h => hk h.symm
        simpa [hp, hk, hk'] using ih
    · by_cases hk : key' = key
      · subst hk
        simpa [hp] using ih
      · by_cases hpk : p.1 = key'
        · simp [hk, hpk]
        · simpa [hp, hpk] using ih

@[simp] theorem lookupField_insertField (fields : List (String × Json)) (key : String)
    (value : Json) (key' : String) : lookupField (insertField fields key value) key' =
      if key' = key then some value else lookupField fields key' := by
  unfold insertField
  cases hfound : lookupField fields key with
  | some old =>
    simp only [isSome_some, if_true]
    rw [lookupField_map, hfound]
    rfl
  | none =>
    simp only [isSome_none, Bool.false_eq_true, if_false]
    unfold lookupField at hfound ⊢
    rw [find?_append]
    by_cases hk : key' = key
    · subst hk
      rw [map_eq_none_iff.1 hfound]
      simp
    · have hk' : ¬ key = key' := fun h => hk h.symm
      simp [hk, hk']

theorem lookupField_insertFields (fields source : List (String × Json)) (key : String) :
    lookupField (insertFields fields source) key =
      ((source.reverse.find? fun p => p.1 = key).map Prod.snd).or (lookupField fields key) := by
  induction source using reverseRecOn with
  | nil => rfl
  | append_singleton source p ih =>
    unfold insertFields at ih ⊢
    rw [foldl_append, reverse_append]
    show lookupField (insertField _ p.1 p.2) key = _
    rw [lookupField_insertField, ih, reverse_singleton, singleton_append]
    by_cases hp : key = p.1
    · subst hp
      simp
    · have hp' : ¬ p.1 = key := fun h => hp h.symm
      simp [hp, hp']

theorem jsonField_mergeJson {fields : List (String × Json)} (patch : Json) (key : String) :
    jsonField (mergeJson (.object fields) patch) key =
      (patchField patch key).or (jsonField (.object fields) key) := by
  cases patch with
  | object new => exact lookupField_insertFields fields new key
  | _ => rfl

theorem exists_mergeJson (fields : List (String × Json)) (patch : Json) :
    ∃ fields', mergeJson (.object fields) patch = .object fields' := by
  cases patch with
  | object new => exact ⟨_, rfl⟩
  | _ => exact ⟨fields, rfl⟩

@[simp] theorem lastOf_nil {α : Type} (f : Change → Option α) :
    lastOf f ([] : List (ι × Change)) = none := rfl

@[simp] theorem lastOf_snoc {α : Type} (f : Change → Option α) (log : List (ι × Change))
    (c : ι × Change) : lastOf f (log ++ [c]) = (f c.2).or (lastOf f log) := by
  unfold lastOf
  rw [reverse_append, reverse_singleton, singleton_append, findSome?_cons]
  cases f c.2 <;> rfl

end

section

variable {jmespath : JmesPath} {templates : FMap String WorkflowTemplateRecord}
  {ops : ι → WorkflowOp} {first data : WorkflowInstanceData} {log : List (ι × Change)}

omit [DecidableEq ι] in
theorem Replay.of_mem (h : Replay jmespath templates ops first log data) {c : ι × Change}
    (hc : c ∈ log) : ∃ data, c.2.Of jmespath templates (ops c.1) data := by
  induction h with
  | nil => cases hc
  | snoc _ hchange ih =>
    rcases mem_append.1 hc with hc | hc
    · exact ih hc
    · rw [mem_singleton.1 hc]
      exact ⟨_, hchange⟩

theorem Advances.eq_transition {opts : AdvanceOptions} {change : Change}
    (h : Advances jmespath templates opts data change) :
    data.status ≠ .paused ∧ data.status ≠ .canceled ∧ ∃ template found result now,
      change = .transition template opts found result now ∧ found.source = data.state := by
  obtain ⟨hcheck, _, record, found, result, now, _, henabled, rfl⟩ := h
  refine ⟨?_, ?_, record.template, found, result, now, rfl, ?_⟩
  · intro h
    rw [h] at hcheck
    cases hcheck
  · intro h
    rw [h] at hcheck
    cases hcheck
  have hmem := (mem_filter.1 (mem_of_find?_eq_some henabled)).2
  exact (of_decide_eq_true hmem).1

theorem Change.Of.cases {op : WorkflowOp} {change : Change}
    (h : change.Of jmespath templates op data) :
    (∃ status, change = .status status ∧
        (status = .paused ∨ status = .active ∨ status = .canceled)) ∨
      (∃ patch, change = .context patch) ∨ (∃ patch, change = .artifacts patch) ∨
      data.status ≠ .paused ∧ data.status ≠ .canceled ∧ ∃ template opts found result now,
        change = .transition template opts found result now ∧ found.source = data.state := by
  have hadvance : ∀ opts, Advances jmespath templates opts data change →
      data.status ≠ .paused ∧ data.status ≠ .canceled ∧ ∃ template opts found result now,
        change = .transition template opts found result now ∧ found.source = data.state := by
    intro opts h
    obtain ⟨hp, hc, template, found, result, now, heq, hsource⟩ := h.eq_transition
    exact ⟨hp, hc, template, opts, found, result, now, heq, hsource⟩
  cases op with
  | pause id => exact .inl ⟨_, h, .inl rfl⟩
  | resume id => exact .inl ⟨_, h, .inr (.inl rfl)⟩
  | cancel id => exact .inl ⟨_, h, .inr (.inr rfl)⟩
  | updateContext id patch => exact .inr (.inl ⟨_, h⟩)
  | appendArtifacts id patch => exact .inr (.inr (.inl ⟨_, h⟩))
  | advance opts | advanceMirror opts => exact .inr (.inr (.inr (hadvance opts h)))
  | _ => exact h.elim

theorem Change.apply_context (change : Change) {fields : List (String × Json)}
    (hcontext : data.context = .object fields) :
    (∃ fields', (change.apply data).context = .object fields') ∧
      ∀ key, jsonField (change.apply data).context key =
        (change.contextPatch.bind (patchField · key)).or (jsonField data.context key) := by
  have hmerge : ∀ patch : Json,
      (∃ fields', mergeJson data.context patch = .object fields') ∧
        ∀ key, jsonField (mergeJson data.context patch) key =
          (patchField patch key).or (jsonField data.context key) := by
    intro patch
    rw [hcontext]
    exact ⟨exists_mergeJson fields patch, jsonField_mergeJson patch⟩
  cases change with
  | context patch => exact hmerge patch
  | transition template opts found result now =>
    cases hresult : result.contextMerge with
    | none => simp [apply, applyTransition, contextPatch, hresult, hcontext]
    | some patch =>
      simpa [apply, applyTransition, contextPatch, hresult] using hmerge patch
  | _ => exact ⟨⟨fields, hcontext⟩, fun key => rfl⟩

theorem Change.apply_artifacts (change : Change) {fields : List (String × Json)}
    (hartifacts : data.artifacts = .object fields) :
    (∃ fields', (change.apply data).artifacts = .object fields') ∧
      ∀ key, jsonField (change.apply data).artifacts key =
        (change.artifactsPatch.bind (patchField · key)).or (jsonField data.artifacts key) := by
  have hmerge : ∀ patch : Json,
      (∃ fields', mergeJson data.artifacts patch = .object fields') ∧
        ∀ key, jsonField (mergeJson data.artifacts patch) key =
          (patchField patch key).or (jsonField data.artifacts key) := by
    intro patch
    rw [hartifacts]
    exact ⟨exists_mergeJson fields patch, jsonField_mergeJson patch⟩
  cases change with
  | artifacts patch => exact hmerge patch
  | transition template opts found result now =>
    cases hresult : result.artifacts with
    | none => simp [apply, applyTransition, artifactsPatch, hresult, hartifacts]
    | some patch =>
      simpa [apply, applyTransition, artifactsPatch, hresult] using hmerge patch
  | _ => exact ⟨⟨fields, hartifacts⟩, fun key => rfl⟩

theorem Change.apply_status (change : Change) :
    (change.apply data).status = (change.newStatus).getD data.status := by
  cases change with
  | transition template opts found result now =>
    show (if _ then _ else _) = Option.getD (if _ then _ else _) _
    cases template.isFinal found.target <;> rfl
  | _ => rfl

omit [DecidableEq ι] in
theorem Replay.reflects (h : Replay jmespath templates ops first log data)
    (hcontext : ∃ fields, first.context = .object fields)
    (hartifacts : ∃ fields, first.artifacts = .object fields) :
    Reflects first data log ∧ (∃ fields, data.context = .object fields) ∧
      ∃ fields, data.artifacts = .object fields := by
  induction h with
  | nil =>
    refine ⟨⟨by simp, by simp, by simp, rfl, fun l₁ t status l₂ h => ?_⟩, hcontext, hartifacts⟩
    exact absurd h (by simp)
  | @snoc log data t change hreplay hchange ih =>
    obtain ⟨hr, ⟨fields, hc⟩, ⟨fields', ha⟩⟩ := ih
    obtain ⟨hobject, hfield⟩ := change.apply_context hc
    obtain ⟨hobject', hfield'⟩ := change.apply_artifacts ha
    refine ⟨⟨?_, fun key => ?_, fun key => ?_, ?_, fun l₁ t' status l₂ heq hne hlast => ?_⟩,
      hobject, hobject'⟩
    · rw [filterMap_append, ← append_assoc, ← hr.history]
      rcases hchange.cases with ⟨status, rfl, _⟩ | ⟨patch, rfl⟩ | ⟨patch, rfl⟩ |
        ⟨_, _, template, opts, found, result, now, rfl, hsource⟩
      iterate 3 exact (append_nil _).symm
      · show data.history ++ [_] = data.history ++ [_]
        rw [hsource]
    · rw [hfield, lastOf_snoc, hr.context, Option.or_assoc]
    · rw [hfield', lastOf_snoc, hr.artifacts, Option.or_assoc]
    · rw [change.apply_status, lastOf_snoc, hr.status]
      cases change.newStatus <;> rfl
    · rcases snoc_eq_append_cons heq with ⟨_, hc, rfl⟩ | ⟨rest, rfl, rfl⟩
      · cases hc
        exact ⟨fun c hc => absurd hc not_mem_nil, rfl⟩
      · obtain ⟨hitems, hstatus⟩ := hr.halted l₁ t' status rest rfl hne fun c hc =>
          hlast c (mem_append_left _ hc)
        -- a halted instance is not advanced
        obtain ⟨data', hof⟩ := hreplay.of_mem (c := (t', .status status)) (by simp)
        have hhalt : status = .paused ∨ status = .canceled := by
          rcases hof.cases with ⟨status', heq, hcases⟩ | ⟨_, heq⟩ | ⟨_, heq⟩ |
            ⟨_, _, _, _, _, _, _, heq, _⟩
          · cases heq
            rcases hcases with rfl | rfl | rfl
            · exact .inl rfl
            · exact absurd rfl hne
            · exact .inr rfl
          all_goals cases heq
        rcases hchange.cases with ⟨status', rfl, _⟩ | ⟨patch, rfl⟩ | ⟨patch, rfl⟩ | ⟨hp, hc, _⟩
        · exact absurd rfl (hlast (t, .status status') (by simp) status')
        iterate 2
          refine ⟨fun c hc => ?_, hstatus⟩
          rcases mem_append.1 hc with hc | hc
          · exact hitems c hc
          · rw [mem_singleton.1 hc]
            rfl
        · rw [hstatus] at hp hc
          exact absurd hhalt (by simp [hp, hc])

end

/-! ## Runs -/

/-- A call that ended well and wrote nothing: a retry of an advance. -/
def IsRetried (op : WorkflowOp) (reply : Reply) : Prop :=
  ∃ record, reply = .instance_ record ∧ Keeps op record record

/-- The stored instance is what the calls that have written, one after another and each once, have
made of the first one, it reflects what they did, and every call that has ended well is one of
them or a retry. -/
def NoLostUpdate (jmespath : JmesPath) (ops : ι → WorkflowOp) (id : String)
    (first : WorkflowInstanceData) (x : Calls ι) : Prop :=
  ∃ log data, x.shared.instances.lookup id = some ⟨id, data⟩ ∧
    Replay jmespath x.shared.templates ops first log data ∧ (log.map Prod.fst).Nodup ∧
    Reflects first data log ∧
    ∀ t reply, x.tasks t = some (.done reply) →
      (∃ change, (t, change) ∈ log) ∨ IsRetried (ops t) reply

section

variable {jmespath : JmesPath} {ops : ι → WorkflowOp} {id : String} {s : Store}
  {first : WorkflowInstanceData} {x : Calls ι} {position : ι → Position}
  {log : List (ι × Change)} {data : WorkflowInstanceData}

omit [DecidableEq ι] in
theorem ledger_fresh (hs : s.Invariant) (hstored : s.instances.lookup id = some ⟨id, first⟩) :
    Ledger jmespath s.templates ops first.instanceId id first (fresh s) (fun _ => .idle) []
      first where
  same := rfl
  unique id' record hlookup hname := hs.unique id' id record _ hlookup hstored hname
  stored := hstored
  named := rfl
  replay := .nil
  updates := rfl
  at_ _ := rfl
  locked t h := h.elim
  one t u h := h.elim
  loaded t record h := by cases h
  before t _ h := by cases h
  once := nodup_nil
  result t record h := by cases h
  known t record h := by cases h

omit [DecidableEq ι] in
theorem Ledger.of_done {templates : FMap String WorkflowTemplateRecord} {instanceId : String}
    (h : Ledger jmespath templates ops instanceId id first x position log data) {t : ι}
    {reply : Reply} (ht : x.tasks t = some (.done reply)) :
    ∃ record, reply = .instance_ record ∧ position t = .ended (.ok record) := by
  have hat := h.at_ t
  rw [ht] at hat
  cases hpos : position t with
  | idle =>
    rw [hpos] at hat
    cases hat
  | waiting =>
    rw [hpos] at hat
    cases hat.2
  | ready =>
    rw [hpos] at hat
    cases hat.trans (congrArg some close_load)
  | loaded record =>
    rw [hpos] at hat
    obtain ⟨label, effect, next, hat, _⟩ := hat
    rw [close_access] at hat
    cases hat
  | closing result =>
    rw [hpos] at hat
    obtain ⟨hop, hat⟩ := hat
    rw [close_ofExcept, hop] at hat
    cases hat
  | ended result =>
    rw [hpos] at hat
    cases result with
    | error e => cases hat
    | ok record =>
      cases hat
      exact ⟨record, rfl, rfl⟩

theorem ledger_exec (hon : ∀ t, (ops t).On first.instanceId) (hs : s.Invariant)
    (hstored : s.instances.lookup id = some ⟨id, first⟩) {l : List (TaskStep ι Input)}
    (hG : Along (concurrent jmespath ops) (UpToDate ops) (fresh s) l)
    (h : exec (concurrent jmespath ops) (fresh s) l = some x) :
    ∃ position log data,
      Ledger jmespath s.templates ops first.instanceId id first x position log data :=
  exec_invariant_along
    (P := fun x => ∃ position log data,
      Ledger jmespath s.templates ops first.instanceId id first x position log data)
    (fun _ _ _ ⟨_, _, _, hledger⟩ hG ha => hledger.step hon hG ha)
    ⟨_, _, _, ledger_fresh hs hstored⟩ hG h

/-- **No update is lost** in a run in which no call writes between the load and the write of
another, unless both are advances: the lock does not let that happen. -/
theorem no_lost_update (jmespath : JmesPath) (ops : ι → WorkflowOp) (s : Store) (id : String)
    (first : WorkflowInstanceData) (l : List (TaskStep ι Input)) (x : Calls ι)
    (hon : ∀ t, (ops t).On first.instanceId) (hs : s.Invariant)
    (hstored : s.instances.lookup id = some ⟨id, first⟩)
    (hcontext : ∃ fields, first.context = .object fields)
    (hartifacts : ∃ fields, first.artifacts = .object fields)
    (hG : Along (concurrent jmespath ops) (UpToDate ops) (fresh s) l)
    (h : exec (concurrent jmespath ops) (fresh s) l = some x) :
    NoLostUpdate jmespath ops id first x := by
  obtain ⟨position, log, data, hledger⟩ := ledger_exec hon hs hstored hG h
  refine ⟨log, data, hledger.stored, ?_, ?_, ?_, fun t reply ht => ?_⟩
  · rw [hledger.same]
    exact hledger.replay
  · rw [hledger.updates]
    exact hledger.once
  · exact (hledger.replay.reflects hcontext hartifacts).1
  · obtain ⟨record, rfl, hpos⟩ := hledger.of_done ht
    rcases hledger.result t record (by rw [hpos]; rfl) with hmem | hkeeps
    · rw [← hledger.updates] at hmem
      obtain ⟨⟨t', change⟩, hc, rfl⟩ := mem_map.1 hmem
      exact .inl ⟨change, hc⟩
    · exact .inr ⟨record, rfl, hkeeps⟩

end

/-! ## Two runs -/

namespace Sample

def oneStepStore : Store :=
  ⟨Finmap.singleton "t1" oneStepRecord, Finmap.singleton "r1" (record .active), fun _ => false⟩

theorem lookup_oneStepStore {id : String} {r : WorkflowInstanceRecord}
    (h : oneStepStore.instances.lookup id = some r) : id = "r1" ∧ r = record .active := by
  have hmem := Finmap.mem_of_lookup_eq_some h
  rw [oneStepStore, Finmap.mem_singleton] at hmem
  subst hmem
  exact ⟨rfl, by simpa [oneStepStore] using h.symm⟩

/-- An advance and a cancel of the same instance. -/
def advanceAndCancel : Bool → WorkflowOp
  | false => .advance finish
  | true => .cancel "i1"

/-- The cancel runs while the advance is between its load and its write. -/
noncomputable def overwriteRun : List (TaskStep Bool Input) :=
  [.start false, .go false (input "u"), .go false (input "u"), .go false (input "u"), .start true,
    .go true (input "u"), .go true (input "u"), .go false (input "u"), .go false (input "u"),
    .go false (input "u")]

attribute [local simp] concurrent Tasks.step Tasks.fresh advanceAndCancel perform advance
  advanceInner withInstanceLock Prog.map_eq Prog.modify requireInstance findByInstanceId
  Store.findByInstanceId Store.instanceList IterOrder.list_singleton orFail record updateInstance
  blocked Prog.label oneStepStore cancel modifyInstance

theorem exec_overwriteRun : ∃ x reply,
    exec (concurrent jmespath advanceAndCancel) (Tasks.fresh oneStepStore) overwriteRun = some x ∧
      x.tasks true = some (.done reply) ∧
      x.shared.instances.lookup "r1" = some finished := by
  simp [overwriteRun, exec, finish, Prog.attempt, checkAdvance, Prog.ofExcept, isRetry,
    advanceRecord, findByTemplateIdAndVersion, Store.findByTemplateIdAndVersion, Store.templateList,
    oneStepRecord, oneStep, enabledTransition, WorkflowTemplate.transitionsFrom,
    GuardEvaluator.eval, executeAction, Prog.ask]
  rfl

/-- The cancel runs while the advance waits to load the instance. -/
noncomputable def cancelFirst : List (TaskStep Bool Input) :=
  [.start false, .go false (input "u"), .start true, .go true (input "u"), .go true (input "u")]

theorem exec_cancelFirst : ∃ x,
    exec (concurrent jmespath advanceAndCancel) (Tasks.fresh oneStepStore) cancelFirst = some x ∧
      x.shared.instances.lookup "r1" = some (record .canceled) := by
  simp [cancelFirst, exec]

theorem upToDate_cancelFirst :
    Along (concurrent jmespath advanceAndCancel) (UpToDate advanceAndCancel)
      (Tasks.fresh oneStepStore) cancelFirst := by
  simp [cancelFirst, Along, UpToDate]
  intro before e after htrace
  rcases snoc_eq_append_cons (l := [(false, RepoCall.lock "i1", input "u")])
    (y := (true, .findInstance, input "u")) htrace with
    ⟨_, _, rfl⟩ | ⟨rest, hrest, _⟩
  · simp
  · have hmem : (true, RepoCall.findInstance, e) ∈ [(false, RepoCall.lock "i1", input "u")] := by
      rw [hrest]
      simp
    simp at hmem

end Sample

open Sample in
theorem no_lost_update_cancel : ∃ x : Calls Bool,
    NoLostUpdate jmespath advanceAndCancel "r1" (record .active).data x ∧
      x.shared.instances.lookup "r1" = some (record .canceled) := by
  obtain ⟨x, h, hlookup⟩ := exec_cancelFirst
  refine ⟨x, no_lost_update jmespath advanceAndCancel oneStepStore "r1" (record .active).data
    cancelFirst x (fun t => ?_) ⟨fun id r hr => ?_, fun id id' r r' hr hr' _ => ?_⟩ rfl ⟨[], rfl⟩
    ⟨[], rfl⟩ upToDate_cancelFirst h, hlookup⟩
  · cases t <;> rfl
  · obtain ⟨rfl, rfl⟩ := lookup_oneStepStore hr
    rfl
  · rw [(lookup_oneStepStore hr).1, (lookup_oneStepStore hr').1]

open Sample in
/-- A cancel that ended well is undone by an advance that has read the instance before it. -/
theorem no_lost_update_fails : ∃ x : Calls Bool,
    exec (concurrent jmespath advanceAndCancel) (fresh oneStepStore) overwriteRun = some x ∧
      ¬ NoLostUpdate jmespath advanceAndCancel "r1" (record .active).data x := by
  obtain ⟨x, reply, h, hdone, hlookup⟩ := exec_overwriteRun
  refine ⟨x, h, ?_⟩
  rintro ⟨log, data, hstored, hreplay, hnodup, hreflects, hended⟩
  obtain rfl : data = finished.data := by
    have := some.inj (hstored.symm.trans hlookup)
    exact congrArg WorkflowInstanceRecord.data this
  rcases hended true reply hdone with ⟨change, hmem⟩ | ⟨_, _, _, _, hopts, _⟩
  · obtain ⟨_, hchange⟩ := hreplay.of_mem hmem
    obtain rfl : change = .status .canceled := hchange
    obtain ⟨l₁, l₂, rfl⟩ := append_of_mem hmem
    have hstatus := (hreflects.halted l₁ true .canceled l₂ rfl (by decide) fun c hc => ?_).2
    · cases hstatus
    -- what was written after the cancel was written by the advance
    obtain ⟨t, change⟩ := c
    cases t with
    | true =>
      rw [map_append, map_cons] at hnodup
      have hnotMem := (nodup_cons.1 (nodup_append.1 hnodup).2.1).1
      exact absurd (mem_map.2 ⟨(true, change), hc, rfl⟩) hnotMem
    | false =>
      obtain ⟨_, hchange⟩ := hreplay.of_mem (c := (false, change)) (by simp [hc])
      obtain ⟨_, _, _, _, _, _, rfl, _⟩ := Advances.eq_transition hchange
      intro status' heq
      cases heq
  · cases hopts

end Idiom.Workflow
