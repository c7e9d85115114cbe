import Idiom.Workflow.Interleaved

/-!
# Retries of an advance

An advance that carries an idempotency key leaves it with the instance, which remembers the newest
hundred. An advance whose key is remembered returns the instance as it is, but only after the check
of the status.
-/

namespace Idiom.Workflow

open Run List WorkflowTemplate WorkflowOp Tasks Function WorkflowService
open WorkflowService (pushIdempotencyKey)

/-! ## Remembered keys -/

/-- What is kept of the keys. -/
def newest (keys : List String) : List String :=
  keys.drop (keys.length - idempotencyHistoryLimit)

theorem newest_of_length_le {keys : List String} (h : keys.length ≤ idempotencyHistoryLimit) :
    newest keys = keys := by
  unfold newest
  rw [Nat.sub_eq_zero_of_le h, drop_zero]

theorem mem_of_mem_newest {keys : List String} {key : String} (h : key ∈ newest keys) :
    key ∈ keys := mem_of_mem_drop h

theorem mem_newest {before after : List String} {key : String}
    (h : after.length < idempotencyHistoryLimit) : key ∈ newest (before ++ key :: after) := by
  unfold newest
  rw [drop_append_of_le_length]
  · exact mem_append_right _ mem_cons_self
  · rw [length_append, length_cons]
    omega

theorem newest_snoc (keys : List String) (key : String) :
    newest (newest keys ++ [key]) = newest (keys ++ [key]) := by
  by_cases h : keys.length ≤ idempotencyHistoryLimit
  · rw [newest_of_length_le h]
  · have hlength : (newest keys).length = idempotencyHistoryLimit := by
      unfold newest
      rw [length_drop]
      omega
    have hone : (newest keys ++ [key]).length - idempotencyHistoryLimit = 1 := by
      rw [length_append, length_singleton]
      omega
    have hmore : (keys ++ [key]).length - idempotencyHistoryLimit =
        (keys.length - idempotencyHistoryLimit) + 1 := by
      rw [length_append, length_singleton]
      omega
    have hle : 1 ≤ (newest keys).length := by
      rw [hlength]
      decide
    show (newest keys ++ [key]).drop _ = (keys ++ [key]).drop _
    rw [hone, hmore, drop_append_of_le_length hle,
      drop_append_of_le_length (by omega), newest, drop_drop]

theorem pushIdempotencyKey_newest (keys : List String) (key : Option String) :
    pushIdempotencyKey (newest keys) key = newest (keys ++ key.toList) := by
  cases key with
  | none => simp [pushIdempotencyKey]
  | some key => exact newest_snoc keys key

/-! ## The keys of a run -/

def WorkflowOp.key (op : WorkflowOp) : Option String :=
  op.advanceOptions.bind AdvanceOptions.idempotencyKey

variable {ι : Type}

/-- The keys of the calls that have written, in the order of their writes. -/
def keysOf (ops : ι → WorkflowOp) (trace : List (ι × RepoCall × Input)) : List String :=
  (updaters trace).filterMap fun t => (ops t).key

section

variable {jmespath : JmesPath} {templates : FMap String WorkflowTemplateRecord}
  {ops : ι → WorkflowOp} {first data : WorkflowInstanceData} {log : List (ι × Change)}

theorem Change.Of.keys {op : WorkflowOp} {change : Change}
    (h : change.Of jmespath templates op data) :
    (change.apply data).idempotencyKeys = pushIdempotencyKey data.idempotencyKeys op.key := by
  cases op with
  | advance opts | advanceMirror opts =>
    obtain ⟨_, _, _, found, result, now, rfl, _⟩ := Advances.eq_transition h
    rfl
  | pause id | resume id | cancel id | updateContext id patch
  | appendArtifacts id patch => cases h; rfl
  | _ => exact h.elim

/-- **What an instance remembers**: the newest keys of its transitions. -/
theorem Replay.keys (h : Replay jmespath templates ops first log data)
    (hfirst : first.idempotencyKeys.length ≤ idempotencyHistoryLimit) :
    data.idempotencyKeys =
      newest (first.idempotencyKeys ++ (log.map Prod.fst).filterMap fun t => (ops t).key) := by
  induction h with
  | nil => simp [newest_of_length_le hfirst]
  | @snoc log data t change _ hchange ih =>
    rw [hchange.keys, ih, pushIdempotencyKey_newest, map_append, filterMap_append]
    cases hkey : (ops t).key <;> simp [hkey]

theorem keysOf_append (trace : List (ι × RepoCall × Input)) (t : ι) (label : RepoCall)
    (e : Input) : ∃ more, keysOf ops (trace ++ [(t, label, e)]) = keysOf ops trace ++ more := by
  unfold keysOf
  rw [updaters_append, filterMap_append]
  exact ⟨_, rfl⟩

end

/-! ## A retry -/

variable [DecidableEq ι]

/-- The accesses of a call. -/
def labelsOf (u : ι) (trace : List (ι × RepoCall × Input)) : List RepoCall :=
  (trace.filter fun b => b.1 = u).map fun b => b.2.1

/-- When the call loads the instance, the instance is neither paused nor finished, and fewer than a
hundred keyed transitions came after the last one with the key. -/
def RetryInTime (ops : ι → WorkflowOp) (id : String) (first : WorkflowInstanceData) (u : ι)
    (key : String) (x : Calls ι) : TaskStep ι Input → Prop
  | .start _ => True
  | .go t _ => t = u → (∃ p ∈ x.tasks t, p.label = some .findInstance) →
      (∀ record ∈ x.shared.instances.lookup id, record.data.status ≠ .paused ∧
        record.data.status ≠ .canceled ∧ record.data.status ≠ .completed) ∧
      ∀ before after, first.idempotencyKeys ++ keysOf ops x.trace = before ++ key :: after →
        key ∉ after → after.length < idempotencyHistoryLimit

/-- The call takes the lock, loads the instance, gives the lock back and returns it; it runs no
action and writes nothing. -/
def RetriedSafely (instanceId : String) (u : ι) (x : Calls ι) : Prop :=
  labelsOf u x.trace <+: [.lock instanceId, .findInstance, .unlock instanceId] ∧
    (∀ error, x.tasks u ≠ some (.fail error)) ∧
    (labelsOf u x.trace = [.lock instanceId, .findInstance, .unlock instanceId] →
      ∃ record, x.tasks u = some (.done (.instance_ record)))

/-- How far a retry has come. -/
def RetryAt (jmespath : JmesPath) (ops : ι → WorkflowOp) (instanceId : String) (u : ι)
    (x : Calls ι) : Prop :=
  (x.tasks u = none ∧ labelsOf u x.trace = []) ∨
  (x.tasks u = some (perform jmespath (ops u)) ∧ labelsOf u x.trace = []) ∨
  (x.tasks u = some ((ops u).close instanceId
      (requireInstance instanceId >>= (ops u).rest jmespath)) ∧
    labelsOf u x.trace = [.lock instanceId]) ∨
  (∃ record, x.tasks u = some ((ops u).close instanceId (.ofExcept (.ok record))) ∧
    labelsOf u x.trace = [.lock instanceId, .findInstance]) ∨
  ∃ record, x.tasks u = some (.done (.instance_ record)) ∧
    labelsOf u x.trace = [.lock instanceId, .findInstance, .unlock instanceId]

section

variable {jmespath : JmesPath} {ops : ι → WorkflowOp} {id : String} {s : Store}
  {first : WorkflowInstanceData} {x y : Calls ι} {position : ι → Position}
  {log : List (ι × Change)} {data : WorkflowInstanceData}

@[simp] theorem labelsOf_append (u : ι) (trace : List (ι × RepoCall × Input)) (t : ι)
    (label : RepoCall) (e : Input) : labelsOf u (trace ++ [(t, label, e)]) =
      labelsOf u trace ++ if t = u then [label] else [] := by
  unfold labelsOf
  rw [filter_append]
  by_cases h : t = u <;> simp [h]

theorem labelsOf_of_none {l : List (TaskStep ι Input)}
    (h : exec (concurrent jmespath ops) (fresh s) l = some x) {u : ι}
    (hu : x.tasks u = none) : labelsOf u x.trace = [] := by
  refine exec_invariant (P := fun x : Calls ι => ∀ u, x.tasks u = none → labelsOf u x.trace = [])
    (fun x a y hx ha u hu => ?_) (fun u _ => rfl) h u hu
  obtain ⟨t, _, _, rfl⟩ | ⟨t, e, label, effect, next, _, ht, _, rfl⟩ := concurrent_cases ha
  · exact hx u (update_eq_none hu).2
  · obtain ⟨hne, hnone⟩ := update_eq_none hu
    rw [labelsOf_append, hx u hnone, if_neg fun h => hne h.symm]
    rfl

variable {templates : FMap String WorkflowTemplateRecord} {instanceId : String}

omit [DecidableEq ι] in
theorem Ledger.mem_keys (h : Ledger jmespath templates ops instanceId id first x position log data)
    (hfirst : first.idempotencyKeys.length ≤ idempotencyHistoryLimit) {t : ι} {reply : Reply}
    {key : String} (ht : x.tasks t = some (.done reply)) (hkey : (ops t).key = some key) :
    key ∈ first.idempotencyKeys ++ keysOf ops x.trace := by
  obtain ⟨record, rfl, hpos⟩ := h.of_done ht
  rcases h.result t record (by rw [hpos]; rfl) with hmem | ⟨_, opts, hopts, _, hretry⟩
  · exact mem_append_right _ (mem_filterMap.2 ⟨t, hmem, hkey⟩)
  · -- it was a retry itself, and the record it found had the key
    obtain ⟨log', hlog, hreplay⟩ := h.known t record (by rw [hpos]; rfl)
    have hopts' : opts.idempotencyKey = some key := by
      rw [WorkflowOp.key, hopts] at hkey
      exact hkey
    have hmem : key ∈ record.data.idempotencyKeys := by
      rw [isRetry, hopts'] at hretry
      simpa using hretry
    rw [hreplay.keys hfirst] at hmem
    have hsub : (log'.map Prod.fst).filterMap (fun t => (ops t).key) <+: keysOf ops x.trace := by
      rw [keysOf, ← h.updates]
      exact (hlog.map Prod.fst).filterMap _
    rcases mem_append.1 (mem_of_mem_newest hmem) with hmem | hmem
    · exact mem_append_left _ hmem
    · exact mem_append_right _ (hsub.subset hmem)

theorem exists_last {α : Type} {a : α} {l : List α} (h : a ∈ l) :
    ∃ before after, l = before ++ a :: after ∧ a ∉ after := by
  induction l using reverseRecOn with
  | nil => cases h
  | append_singleton l b ih =>
    by_cases hb : a = b
    · exact ⟨l, [], by rw [hb], not_mem_nil⟩
    · rcases mem_append.1 h with h | h
      · obtain ⟨before, after, rfl, hlast⟩ := ih h
        refine ⟨before, after ++ [b], by simp, fun hmem => ?_⟩
        rcases mem_append.1 hmem with hmem | hmem
        · exact hlast hmem
        · exact hb (mem_singleton.1 hmem)
      · exact absurd (mem_singleton.1 h) hb

theorem rest_of_retry {op : WorkflowOp} {opts : AdvanceOptions} {record : WorkflowInstanceRecord}
    (hop : op.advanceOptions = some opts) (hcheck : checkAdvance record.data.status = .ok ())
    (hretry : isRetry opts record.data = true) :
    op.rest jmespath record = .ofExcept (.ok record) := by
  have hrest : ∀ lenient,
      advanceRest jmespath opts lenient record = .ofExcept (.ok record) := by
    intro lenient
    unfold advanceRest
    rw [hcheck, hretry]
    rfl
  cases op with
  | advance opts' => cases hop; exact hrest false
  | advanceMirror opts' => cases hop; exact hrest true
  | _ => cases hop

theorem checkAdvance_eq_ok {status : InstanceStatus} (hpaused : status ≠ .paused)
    (hcanceled : status ≠ .canceled) (hcompleted : status ≠ .completed) :
    checkAdvance status = .ok () := by
  cases status with
  | paused => exact absurd rfl hpaused
  | canceled => exact absurd rfl hcanceled
  | completed => exact absurd rfl hcompleted
  | _ => rfl

theorem RetryAt.other {u : ι} (h : RetryAt jmespath ops instanceId u x)
    (htasks : y.tasks u = x.tasks u) (htrace : labelsOf u y.trace = labelsOf u x.trace) :
    RetryAt jmespath ops instanceId u y := by
  unfold RetryAt at h ⊢
  rw [htasks, htrace]
  exact h

/-- **One step** of a run in which a retry comes in time. -/
theorem RetryAt.step {u : ι} {opts : AdvanceOptions} {key : String} {a : TaskStep ι Input}
    (h : RetryAt jmespath ops first.instanceId u x)
    (hledger : Ledger jmespath templates ops first.instanceId id first x position log data)
    (hon : (ops u).On first.instanceId)
    (hfirst : first.idempotencyKeys.length ≤ idempotencyHistoryLimit)
    (hop : (ops u).advanceOptions = some opts) (hkey : opts.idempotencyKey = some key)
    (hmem : key ∈ first.idempotencyKeys ++ keysOf ops x.trace)
    (hG : RetryInTime ops id first u key x a) (ha : concurrent jmespath ops x a = some y) :
    RetryAt jmespath ops first.instanceId u y := by
  have hadvance : (ops u).isAdvance = true := by
    unfold isAdvance
    rw [hop]
    rfl
  obtain ⟨t, rfl, hnone, rfl⟩ | ⟨t, e, label, effect, next, rfl, ht, _, rfl⟩ := concurrent_cases ha
  · by_cases hut : u = t
    · subst hut
      rcases h with ⟨_, hlabels⟩ | ⟨hu, _⟩ | ⟨hu, _⟩ | ⟨_, hu, _⟩ | ⟨_, hu, _⟩
      · exact .inr (.inl ⟨update_self .., hlabels⟩)
      all_goals
        rw [hnone] at hu
        cases hu
    · exact h.other (update_of_ne hut ..) rfl
  by_cases hut : u = t
  swap
  · exact h.other (update_of_ne hut ..)
      (by rw [labelsOf_append, if_neg fun h => hut h.symm, append_nil])
  subst hut
  have hlabel : labelsOf u (x.trace ++ [(u, label, e)]) = labelsOf u x.trace ++ [label] := by
    simp
  rcases h with ⟨hu, _⟩ | ⟨hu, hlabels⟩ | ⟨hu, hlabels⟩ | ⟨record, hu, hlabels⟩ | ⟨record, hu, _⟩
  · rw [ht] at hu
    cases hu
  · rw [perform_eq hon, hadvance, ht] at hu
    cases hu
    exact .inr (.inr (.inl ⟨update_self .., hlabel.trans (by rw [hlabels]; rfl)⟩))
  · rw [close_load, ht] at hu
    cases hu
    -- the key is remembered, and nothing stands in the way of the retry
    obtain ⟨hstatus, hfew⟩ := hG rfl ⟨_, ht, rfl⟩
    obtain ⟨hpaused, hcanceled, hcompleted⟩ := hstatus ⟨id, data⟩ hledger.stored
    obtain ⟨before, after, hkeys, hlast⟩ := exists_last hmem
    have hremembered : key ∈ data.idempotencyKeys := by
      rw [hledger.replay.keys hfirst, hledger.updates]
      show key ∈ newest (first.idempotencyKeys ++ keysOf ops x.trace)
      rw [hkeys]
      exact mem_newest (hfew before after hkeys hlast)
    have hretry : isRetry opts data = true := by
      rw [isRetry, hkey]
      simpa using hremembered
    have hrest := @rest_of_retry jmespath _ _ ⟨id, data⟩ hop
      (checkAdvance_eq_ok hpaused hcanceled hcompleted) hretry
    refine .inr (.inr (.inr (.inl ⟨⟨id, data⟩, ?_, hlabel.trans (by rw [hlabels]; rfl)⟩)))
    show update x.tasks u (some _) u = _
    rw [update_self]
    simp only [hledger.findByInstanceId e.order, hrest]
  · rw [close_ofExcept, hadvance, ht] at hu
    cases hu
    exact .inr (.inr (.inr (.inr ⟨record, update_self .., hlabel.trans (by rw [hlabels]; rfl)⟩)))
  · rw [ht] at hu
    cases hu

theorem RetryAt.retriedSafely {u : ι} (h : RetryAt jmespath ops instanceId u x)
    (hon : (ops u).On instanceId) (hadvance : (ops u).isAdvance = true) :
    RetriedSafely instanceId u x := by
  rcases h with ⟨hu, hlabels⟩ | ⟨hu, hlabels⟩ | ⟨hu, hlabels⟩ | ⟨record, hu, hlabels⟩ |
    ⟨record, hu, hlabels⟩
  · refine ⟨by rw [hlabels]; exact nil_prefix, fun e he => ?_, fun h => ?_⟩
    · rw [hu] at he
      cases he
    · rw [hlabels] at h
      cases h
  · rw [perform_eq hon, hadvance] at hu
    refine ⟨by rw [hlabels]; exact nil_prefix, fun e he => ?_, fun h => ?_⟩
    · rw [hu] at he
      cases he
    · rw [hlabels] at h
      cases h
  · rw [close_load] at hu
    refine ⟨by rw [hlabels]; exact ⟨_, rfl⟩, fun e he => ?_, fun h => ?_⟩
    · rw [hu] at he
      cases he
    · rw [hlabels] at h
      cases h
  · rw [close_ofExcept, hadvance] at hu
    refine ⟨by rw [hlabels]; exact ⟨_, rfl⟩, fun e he => ?_, fun h => ?_⟩
    · rw [hu] at he
      cases he
    · rw [hlabels] at h
      cases h
  · refine ⟨by rw [hlabels], fun e he => ?_, fun _ => ⟨record, hu⟩⟩
    rw [hu] at he
    cases he

/-- **Retrying an advance is safe** in a run without lost updates, if the retry finds the instance
neither paused nor finished, and fewer than a hundred keyed transitions after the last one with its
key. -/
theorem retry_isSafe (jmespath : JmesPath) (ops : ι → WorkflowOp) (s : Store) (id : String)
    (first : WorkflowInstanceData) (l₁ l₂ : List (TaskStep ι Input)) (x y : Calls ι) (t u : ι)
    (opts : AdvanceOptions) (key : String) (reply : Reply)
    (hon : ∀ t, (ops t).On first.instanceId) (hs : s.Invariant)
    (hstored : s.instances.lookup id = some ⟨id, first⟩)
    (hfirst : first.idempotencyKeys.length ≤ idempotencyHistoryLimit)
    (hG : Along (concurrent jmespath ops) (UpToDate ops) (fresh s) (l₁ ++ l₂))
    (hx : exec (concurrent jmespath ops) (fresh s) l₁ = some x)
    (hy : exec (concurrent jmespath ops) x l₂ = some y) (ht : (ops t).key = some key)
    (hdone : x.tasks t = some (.done reply)) (hu : (ops u).advanceOptions = some opts)
    (hkey : opts.idempotencyKey = some key) (hnone : x.tasks u = none)
    (hretry : Along (concurrent jmespath ops) (RetryInTime ops id first u key) x l₂) :
    RetriedSafely first.instanceId u y := by
  obtain ⟨position, log, data, hledger⟩ := ledger_exec hon hs hstored hG.left hx
  have hrun := exec_invariant_along
    (P := fun y : Calls ι => (∃ position log data,
        Ledger jmespath s.templates ops first.instanceId id first y position log data) ∧
      key ∈ first.idempotencyKeys ++ keysOf ops y.trace ∧
      RetryAt jmespath ops first.instanceId u y)
    (fun y a z ⟨⟨_, _, _, hledger⟩, hmem, hat⟩ hG ha => ⟨hledger.step hon hG.1 ha, ?_,
      hat.step hledger (hon u) hfirst hu hkey hmem hG.2 ha⟩)
    ⟨⟨position, log, data, hledger⟩, hledger.mem_keys hfirst hdone ht,
      .inl ⟨hnone, labelsOf_of_none hx hnone⟩⟩ ((hG.right hx).and hretry) hy
  · refine hrun.2.2.retriedSafely (hon u) ?_
    unfold isAdvance
    rw [hu]
    rfl
  · -- keys are only added
    obtain ⟨t, _, _, rfl⟩ | ⟨t, e, label, _, _, _, _, _, rfl⟩ := concurrent_cases ha
    · exact hmem
    · obtain ⟨more, hmore⟩ := @keysOf_append _ ops y.trace t label e
      show key ∈ first.idempotencyKeys ++ keysOf ops (y.trace ++ [(t, label, e)])
      rw [hmore, ← append_assoc]
      exact mem_append_left _ hmem

end

/-! ## Two runs -/

namespace Sample

def keyed : AdvanceOptions := ⟨"i1", "finish", some "k1", none⟩

/-- An advance and its retry. -/
def retried : Bool → WorkflowOp
  | _ => .advance keyed

noncomputable def advanceOnce (t : Bool) : List (TaskStep Bool Input) :=
  [.start t, .go t (input "u"), .go t (input "u"), .go t (input "u"), .go t (input "u"),
    .go t (input "u"), .go t (input "u")]

noncomputable def retryOnce (t : Bool) : List (TaskStep Bool Input) :=
  [.start t, .go t (input "u"), .go t (input "u"), .go t (input "u")]

/-- The event leads back to the start state. -/
def loop : WorkflowTemplate where
  templateId := "onboarding"
  version := "1.0.0"
  policyMode := .multiPerConnection
  states := [⟨"new", .start, none⟩]
  transitions := [⟨"new", "new", "finish", none, none⟩]
  actions := []

def loopStore : Store :=
  ⟨Finmap.singleton "t1" ⟨"t1", "onboarding", "1.0.0", loop⟩,
    Finmap.singleton "r1" (record .active), fun _ => false⟩

attribute [local simp] advanceOnce retryOnce exec concurrent Tasks.step Tasks.fresh retried perform
  WorkflowService.advance WorkflowService.advanceInner withInstanceLock keyed Prog.map_eq
  Prog.modify requireInstance findByInstanceId Store.findByInstanceId Store.instanceList
  IterOrder.list_singleton orFail record Prog.attempt WorkflowService.checkAdvance Prog.ofExcept
  WorkflowService.isRetry WorkflowService.advanceRecord findByTemplateIdAndVersion
  Store.findByTemplateIdAndVersion Store.templateList WorkflowService.enabledTransition
  transitionsFrom GuardEvaluator.eval WorkflowService.executeAction Prog.ask updateInstance blocked
  Prog.label WorkflowService.applyTransition isFinal findState WorkflowService.pushIdempotencyKey
  idempotencyHistoryLimit

theorem exec_completedRetry : ∃ x y reply error,
    exec (concurrent jmespath retried) (Tasks.fresh oneStepStore) (advanceOnce false) = some x ∧
      exec (concurrent jmespath retried) x (retryOnce true) = some y ∧
      x.tasks false = some (.done reply) ∧ x.tasks true = none ∧
      y.tasks true = some (.fail error) := by
  simp [oneStepRecord, oneStep, oneStepStore]

theorem exec_loopOnce : ∃ x y reply again,
    exec (concurrent jmespath retried) (Tasks.fresh loopStore) (advanceOnce false) = some x ∧
      exec (concurrent jmespath retried) x (retryOnce true) = some y ∧
      x.tasks false = some (.done reply) ∧ x.tasks true = none ∧
      y.tasks true = some (.done again) ∧
      Along (concurrent jmespath retried) (UpToDate retried) (Tasks.fresh loopStore)
        (advanceOnce false ++ retryOnce true) ∧
      Along (concurrent jmespath retried)
        (RetryInTime retried "r1" (record .active).data true "k1") x (retryOnce true) := by
  simp [Along, loop, loopStore, UpToDate, RetryInTime, keysOf, updaters, RepoCall.isUpdate, key,
    isAdvance, advanceOptions]
  intro before after hkeys _
  have hlength := congrArg length hkeys
  simp only [length_append, length_cons, length_nil] at hlength
  omega

end Sample

open Sample in
/-- An advance that leads back to the same state, and its retry: both end well. -/
theorem retry_isSafe_loop : ∃ x y reply again,
    exec (concurrent jmespath retried) (fresh loopStore) (advanceOnce false) = some x ∧
      exec (concurrent jmespath retried) x (retryOnce true) = some y ∧
      x.tasks false = some (.done reply) ∧ y.tasks true = some (.done again) ∧
      RetriedSafely "i1" true y := by
  obtain ⟨x, y, reply, again, hx, hy, hdone, hnone, hagain, hG, hretry⟩ := exec_loopOnce
  refine ⟨x, y, reply, again, hx, hy, hdone, hagain, retry_isSafe jmespath retried loopStore "r1"
    (record .active).data
    (advanceOnce false) (retryOnce true) x y false true keyed "k1" reply (fun _ => rfl)
    ⟨fun id r hr => ?_, fun id id' r r' hr hr' _ => ?_⟩ rfl (by decide) hG hx hy rfl hdone rfl rfl
    hnone hretry⟩
  · obtain ⟨rfl, rfl⟩ := lookup_oneStepStore hr
    rfl
  · rw [(lookup_oneStepStore hr).1, (lookup_oneStepStore hr').1]

open Sample in
/-- The retry of the advance that completes the instance is refused. -/
theorem retry_isSafe_fails_completed : ∃ x y reply,
    exec (concurrent jmespath retried) (fresh oneStepStore) (advanceOnce false) = some x ∧
      exec (concurrent jmespath retried) x (retryOnce true) = some y ∧
      x.tasks false = some (.done reply) ∧ x.tasks true = none ∧
      ¬ RetriedSafely "i1" true y := by
  obtain ⟨x, y, reply, error, hx, hy, hdone, hnone, hfail⟩ := exec_completedRetry
  exact ⟨x, y, reply, hx, hy, hdone, hnone, fun h => h.2.1 error hfail⟩

end Idiom.Workflow
