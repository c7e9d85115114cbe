import Idiom.Workflow.CommandQueue

/-!
# What the command queue keeps

`enqueue` skips a command whose type and thread are those of one that is pending or processing.
Commands of different types, also of one thread, are taken in the order of the hash map and handled
at once. A deferred command is pending again before its back-off, and can be taken before others.

* `IsOver`, `failures` — what the history says about a command.
* `Orderly` — the invariant: what the repository, the batch and the handler calls have to do with
  each other and with the history.
* `KeepsStream` — no accepted command is lost, commands of one type and thread are handled one after
  another, no two handler calls have one command, and a command fails after `max_attempts` failures.
-/

namespace Idiom.Workflow

open Run CommandRepository List CommandQueue QueueEvent Option FMap

variable {ι : Type}

/-! ## The history of a command -/

/-- The command was completed, or has failed for good. -/
def IsOver (log : List (QueueEvent ι)) (id : String) : Prop :=
  .settled id .completed ∈ log ∨ .settled id .failed ∈ log

/-- The event is a handler call of the command that ended in an error other than a missing
template, or in a timeout. -/
def QueueEvent.isFailure (id : String) : QueueEvent ι → Bool
  | .ended id' outcome => id' = id && outcome.counts
  | _ => false

def failures (log : List (QueueEvent ι)) (id : String) : ℕ := log.countP (isFailure id)

/-- The event is the start or the end of a handler call of the command. -/
def QueueEvent.Handles (id : String) : QueueEvent ι → Prop
  | .started id' => id' = id
  | .ended id' _ => id' = id
  | _ => False

/-- The same type and the same thread. -/
def Command.SameStream (c c' : Command) : Prop := c.cmd = c'.cmd ∧ c.thid = c'.thid

/-- What is so before an event. -/
def Admissible (config : CommandQueueConfig) (commands : ι → Command)
    (log : List (QueueEvent ι)) : QueueEvent ι → Prop
  | .skipped t id => ∃ u, .saved u id ∈ log ∧ (commands u).SameStream (commands t) ∧
      ¬ IsOver log id
  | .checked t => (∀ u id, .saved u id ∈ log → (commands u).SameStream (commands t) →
      IsOver log id) ∧ ∀ id, .saved t id ∉ log
  | .saved _ id => ∀ u, .saved u id ∉ log
  | .started id => (∃ t, .saved t id ∈ log) ∧ ¬ IsOver log id
  | .ended id _ => (∃ t, .saved t id ∈ log) ∧ ¬ IsOver log id
  | .settled id status => (∃ outcome, .ended id outcome ∈ log) ∧
      (status = .failed → config.maxAttempts ≤ failures log id)

def History (config : CommandQueueConfig) (commands : ι → Command)
    (log : List (QueueEvent ι)) : Prop :=
  ∀ before event after, log = before ++ event :: after → Admissible config commands before event

section

variable {config : CommandQueueConfig} {commands : ι → Command} {log : List (QueueEvent ι)}
  {event : QueueEvent ι} {id : String}

theorem isOver_mono {log' : List (QueueEvent ι)} (h : IsOver log id) (hsub : log ⊆ log') :
    IsOver log' id := h.imp (fun h => hsub h) fun h => hsub h

theorem isOver_append : IsOver (log ++ [event]) id ↔
    IsOver log id ∨ event = .settled id .completed ∨ event = .settled id .failed := by
  unfold IsOver
  simp only [mem_append, mem_singleton]
  constructor
  · rintro ((h | h) | (h | h))
    · exact .inl (.inl h)
    · exact .inr (.inl h.symm)
    · exact .inl (.inr h)
    · exact .inr (.inr h.symm)
  · rintro ((h | h) | (h | h))
    · exact .inl (.inl h)
    · exact .inr (.inl h)
    · exact .inl (.inr h.symm)
    · exact .inr (.inr h.symm)

@[simp] theorem failures_append : failures (log ++ [event]) id =
    failures log id + if event.isFailure id then 1 else 0 := by
  unfold failures
  rw [countP_append, countP_singleton]

theorem History.snoc (h : History config commands log)
    (hevent : Admissible config commands log event) : History config commands (log ++ [event]) := by
  intro before event' after heq
  rcases snoc_eq_append_cons heq with ⟨rfl, rfl, _⟩ | ⟨rest, hrest, _⟩
  · exact hevent
  · exact h before event' rest hrest

theorem History.saved_unique (h : History config commands log) {t u : ι}
    (ht : .saved t id ∈ log) (hu : .saved u id ∈ log) : t = u := by
  obtain ⟨before, after, hlog⟩ := append_of_mem ht
  have hnew := h before _ after hlog
  rw [hlog] at hu
  rcases mem_append.1 hu with hu | hu
  · exact absurd hu (hnew u)
  · rcases mem_cons.1 hu with heq | hu
    · cases heq
      rfl
    · obtain ⟨before', after', rfl⟩ := append_of_mem hu
      refine absurd ?_ (h (before ++ .saved t id :: before') (.saved u id) after' ?_ t)
      · simp
      · rw [hlog, append_assoc, cons_append]

theorem History.saved_of_ended (h : History config commands log) {outcome : Outcome}
    (hmem : .ended id outcome ∈ log) : ∃ t, .saved t id ∈ log := by
  obtain ⟨before, after, hlog⟩ := append_of_mem hmem
  obtain ⟨⟨t, ht⟩, _⟩ := h before _ after hlog
  exact ⟨t, by rw [hlog]; simp [ht]⟩

theorem History.not_handled (h : History config commands log) (hnew : ∀ t, .saved t id ∉ log) :
    ¬ IsOver log id ∧ failures log id = 0 := by
  refine ⟨?_, countP_eq_zero.2 fun event hmem hfailure => ?_⟩
  · rintro (hmem | hmem)
    all_goals
      obtain ⟨before, after, hlog⟩ := append_of_mem hmem
      obtain ⟨⟨outcome, hended⟩, _⟩ := h before _ after hlog
      obtain ⟨t, ht⟩ := @History.saved_of_ended _ _ _ _ _ h outcome
        (hlog ▸ mem_append_left _ hended)
      exact hnew t ht
  · cases event with
    | ended id' outcome =>
      simp only [isFailure, Bool.and_eq_true, decide_eq_true_eq] at hfailure
      obtain ⟨rfl, _⟩ := hfailure
      obtain ⟨t, ht⟩ := h.saved_of_ended hmem
      exact hnew t ht
    | _ => cases hfailure

/-- **One after another.**  When a command was enqueued after another one of its type and thread was
saved, the other one was over, and is not handled again; and the command itself was not handled
yet. -/
theorem History.inOrder (h : History config commands log) {t t' : ι} {id' : String}
    {before after : List (QueueEvent ι)} (hlog : log = before ++ .checked t' :: after)
    (hsaved : .saved t id ∈ before) (hsaved' : .saved t' id' ∈ log)
    (hsame : (commands t).SameStream (commands t')) :
    IsOver before id ∧ (∀ event ∈ after, ¬ event.Handles id) ∧
      ∀ event ∈ before, ¬ event.Handles id' := by
  obtain ⟨hover, hnone⟩ := h before _ after hlog
  have hdone := hover t id hsaved hsame
  refine ⟨hdone, fun event hmem hhandles => ?_, fun event hmem hhandles => ?_⟩
  · obtain ⟨l₁, l₂, rfl⟩ := append_of_mem hmem
    have hadmissible := h (before ++ .checked t' :: l₁) event l₂ (by
      rw [hlog, append_assoc, cons_append])
    have hdone' : IsOver (before ++ .checked t' :: l₁) id :=
      isOver_mono hdone (subset_append_left _ _)
    cases event with
    | started id'' | ended id'' outcome =>
      cases hhandles
      exact hadmissible.2 hdone'
    | _ => exact hhandles
  · obtain ⟨l₁, l₂, rfl⟩ := append_of_mem hmem
    have hadmissible := h l₁ event (l₂ ++ .checked t' :: after) (by
      rw [hlog, append_assoc, cons_append])
    -- it was saved before it was handled, so it was saved before the call has checked
    have hearlier : ∃ u, .saved u id' ∈ l₁ := by
      cases event with
      | started id'' | ended id'' outcome =>
        cases hhandles
        exact hadmissible.1
      | _ => exact hhandles.elim
    obtain ⟨u, hu⟩ := hearlier
    have hu' : .saved u id' ∈ l₁ ++ event :: l₂ := mem_append_left _ hu
    obtain rfl := h.saved_unique (hlog ▸ mem_append_left _ hu') hsaved'
    exact hnone id' hu'

end

/-! ## The invariant -/

/-- The command waits or is being handled. -/
def WorkflowCommandRecord.IsQueued (record : WorkflowCommandRecord) : Prop :=
  record.status = .pending ∨ record.status = .processing

/-- The attempt that is not yet counted as a failure. -/
def Job.uncounted (job : Job) : ℕ :=
  match job.outcome with
  | some outcome => if outcome.counts then 0 else 1
  | none => 1

structure Orderly (config : CommandQueueConfig) (commands : ι → Command) (q : CommandQueue ι) :
    Prop where
  history : History config commands q.log
  ids : ∀ id r, q.repository.lookup id = some r → r.id = id
  saved : ∀ id r, q.repository.lookup id = some r → ∃ t, .saved t id ∈ q.log
  command : ∀ t id r, .saved t id ∈ q.log → q.repository.lookup id = some r → r.command = commands t
  queued : ∀ id r, q.repository.lookup id = some r → r.IsQueued → ¬ IsOver q.log id
  kept : ∀ t id, .saved t id ∈ q.log → ¬ IsOver q.log id →
    ∃ r, q.repository.lookup id = some r ∧ r.IsQueued
  batch : ∀ r ∈ q.batch, q.repository.lookup r.id = some r ∧ r.status = .pending
  nodup : (q.batch.map WorkflowCommandRecord.id).Nodup
  job : ∀ i job, q.jobs i = some job →
    q.repository.lookup job.record.id = some job.record ∧ job.record.status = .processing
  one : ∀ i j job job', q.jobs i = some job → q.jobs j = some job' →
    job.record.id = job'.record.id → i = j
  processing : ∀ id r, q.repository.lookup id = some r → r.status = .processing →
    ∃ i job, q.jobs i = some job ∧ job.record = r
  spawned : ∀ i, q.spawned ≤ i → q.jobs i = none
  attempts : ∀ i job, q.jobs i = some job →
    job.record.attempts = failures q.log job.record.id + job.uncounted
  pending : ∀ id r, q.repository.lookup id = some r → r.status = .pending →
    r.attempts = failures q.log id
  ended : ∀ i job outcome, q.jobs i = some job → job.outcome = some outcome →
    .ended job.record.id outcome ∈ q.log
  idle : ∀ t, q.calls t = none → ∀ id, .saved t id ∉ q.log
  checked : ∀ t, q.calls t = some .checked → ∀ id, .saved t id ∉ q.log
  called : ∀ t, q.calls t = some .ended → (∃ id, .saved t id ∈ q.log) ∨ ∃ id, .skipped t id ∈ q.log

section

variable {config : CommandQueueConfig} {commands : ι → Command}
  {q q' : CommandQueue ι} {records : CommandRepository}

theorem mem_values {order : IterOrder String} {r : WorkflowCommandRecord} :
    r ∈ values records order ↔ ∃ id, records.lookup id = some r := by
  unfold CommandRepository.values
  rw [mem_filterMap]
  constructor
  · rintro ⟨id, _, h⟩
    exact ⟨id, h⟩
  · rintro ⟨id, h⟩
    refine ⟨id, ?_, h⟩
    rw [IterOrder.mem_list]
    exact Finmap.mem_of_lookup_eq_some h

theorem values_sublist (hids : ∀ id r, records.lookup id = some r → r.id = id)
    (order : IterOrder String) :
    ((values records order).map WorkflowCommandRecord.id).Sublist (order.list records.keys) := by
  unfold CommandRepository.values
  generalize order.list records.keys = l
  induction l with
  | nil => exact Sublist.slnil
  | cons id l ih =>
    rw [filterMap_cons]
    cases hr : records.lookup id with
    | none => exact ih.cons id
    | some r =>
      rw [map_cons, hids id r hr]
      exact ih.cons_cons id

theorem Orderly.poll (h : Orderly config commands q) (order : IterOrder String) :
    Orderly config commands { q with
      batch := (findPending q.repository order).take config.concurrency } := by
  have hids : ((findPending q.repository order).map WorkflowCommandRecord.id).Nodup := by
    exact (order.nodup_list _).sublist ((filter_sublist.map _).trans (values_sublist h.ids order))
  refine ⟨h.history, h.ids, h.saved, h.command, h.queued, h.kept, fun r hr => ?_,
    hids.sublist ((take_sublist _ _).map _), h.job, h.one, h.processing, h.spawned,
    h.attempts, h.pending, h.ended, h.idle, h.checked, h.called⟩
  obtain ⟨hmem, hstatus⟩ := mem_filter.1 (mem_of_mem_take hr)
  obtain ⟨id, hid⟩ := mem_values.1 hmem
  refine ⟨?_, of_decide_eq_true hstatus⟩
  rw [h.ids id r hid]
  exact hid

variable {r : WorkflowCommandRecord}

theorem lookup_update (id : String) :
    (update records r).lookup id =
      if id = r.id then some r else records.lookup id :=
  lookup_insert_ite _ _ _ _

variable {record : WorkflowCommandRecord}

theorem Orderly.called_append (h : Orderly config commands q) {t : ι} {log : List (QueueEvent ι)}
    (ht : q.calls t = some .ended) :
    (∃ id, .saved t id ∈ q.log ++ log) ∨ ∃ id, .skipped t id ∈ q.log ++ log :=
  (h.called t ht).imp (fun ⟨id, hid⟩ => ⟨id, mem_append_left _ hid⟩)
    fun ⟨id, hid⟩ => ⟨id, mem_append_left _ hid⟩

theorem Orderly.rewrite (h : Orderly config commands q) (record' : WorkflowCommandRecord)
    {event : QueueEvent ι} {repository : CommandRepository} {batch : List WorkflowCommandRecord}
    {i spawned : ℕ} {new : Option Job} (hstored : q.repository.lookup record.id = some record)
    (hqueued : record.IsQueued) (hid : record'.id = record.id)
    (hcommand : record'.command = record.command) (hrepository : ∀ id, repository.lookup id =
      if id = record.id then some record' else q.repository.lookup id)
    (hslot : ∀ j job, q.jobs j = some job → (job.record.id = record.id ↔ j = i))
    (hadmissible : Admissible config commands q.log event) (hsaved : ∀ t id, event ≠ .saved t id)
    (hover : ∀ id, event = .settled id .completed ∨ event = .settled id .failed ↔
      id = record.id ∧ ¬ record'.IsQueued)
    (hfailures : ∀ id, id ≠ record.id → event.isFailure id = false)
    (hbatch : batch.Sublist q.batch) (hout : ∀ r ∈ batch, r.id ≠ record.id)
    (hspawned : q.spawned ≤ spawned) (hi : i < spawned)
    (hnew : ∀ job, new = some job → job.record = record' ∧ record'.status = .processing ∧
      record'.attempts = failures (q.log ++ [event]) record.id + job.uncounted ∧
      ∀ outcome, job.outcome = some outcome → .ended record.id outcome ∈ q.log ++ [event])
    (hprocessing : record'.status = .processing → new ≠ none)
    (hpending : record'.status = .pending →
      record'.attempts = failures (q.log ++ [event]) record.id) :
    Orderly config commands ⟨repository, q.calls, batch, Function.update q.jobs i new, spawned,
      q.log ++ [event]⟩ := by
  have hback : ∀ id r, repository.lookup id = some r →
      (id = record.id ∧ r = record') ∨ (id ≠ record.id ∧ q.repository.lookup id = some r) := by
    intro id r hr
    rw [hrepository] at hr
    split at hr
    · next heq => exact .inl ⟨heq, (some.inj hr).symm⟩
    · next hne => exact .inr ⟨hne, hr⟩
  have hself : repository.lookup record.id = some record' := by rw [hrepository, if_pos rfl]
  have hkeep : ∀ id r, id ≠ record.id → q.repository.lookup id = some r →
      repository.lookup id = some r := by
    intro id r hne hr
    rw [hrepository, if_neg hne, hr]
  have hsaved : ∀ t id, .saved t id ∈ q.log ++ [event] ↔ .saved t id ∈ q.log := by
    intro t id
    simp [(hsaved t id).symm]
  have hover : ∀ id, IsOver (q.log ++ [event]) id ↔
      IsOver q.log id ∨ id = record.id ∧ ¬ record'.IsQueued := by
    intro id
    rw [isOver_append, hover]
  have hfailures : ∀ id, id ≠ record.id → failures (q.log ++ [event]) id = failures q.log id := by
    intro id hne
    simp [hfailures id hne]
  have hjobs : ∀ j job, Function.update q.jobs i new j = some job →
      (j = i ∧ new = some job ∧ job.record.id = record.id) ∨
        (j ≠ i ∧ q.jobs j = some job ∧ job.record.id ≠ record.id) := by
    intro j job hj
    by_cases heq : j = i
    · rw [heq, Function.update_self] at hj
      exact .inl ⟨heq, hj, by rw [(hnew job hj).1, hid]⟩
    · rw [Function.update_of_ne heq] at hj
      exact .inr ⟨heq, hj, fun hname => heq ((hslot j job hj).1 hname)⟩
  refine ⟨h.history.snoc hadmissible, fun id r hr => ?_, fun id r hr => ?_,
    fun t id r ht hr => ?_, fun id r hr hr' => ?_, fun t id ht hnot => ?_, fun r hr => ?_,
    h.nodup.sublist (hbatch.map _), fun j job hj => ?_, fun j k job job' hj hk heq => ?_,
    fun id r hr hs => ?_, fun j hj => ?_, fun j job hj => ?_, fun id r hr hs => ?_,
    fun j job outcome hj ho => ?_, ?_, ?_, fun t ht => h.called_append ht⟩
  · rcases hback id r hr with ⟨rfl, rfl⟩ | ⟨_, hr⟩
    · exact hid
    · exact h.ids id r hr
  · simp only [hsaved]
    rcases hback id r hr with ⟨rfl, rfl⟩ | ⟨_, hr⟩
    · exact h.saved record.id record hstored
    · exact h.saved id r hr
  · rw [hsaved] at ht
    rcases hback id r hr with ⟨rfl, rfl⟩ | ⟨_, hr⟩
    · exact hcommand.trans (h.command t record.id record ht hstored)
    · exact h.command t id r ht hr
  · rw [hover]
    rcases hback id r hr with ⟨rfl, rfl⟩ | ⟨hne, hr⟩
    · rintro (hdone | ⟨_, hdone⟩)
      · exact h.queued record.id record hstored hqueued hdone
      · exact hdone hr'
    · rintro (hdone | ⟨heq, _⟩)
      · exact h.queued id r hr hr' hdone
      · exact hne heq
  · rw [hsaved] at ht
    rw [hover, not_or] at hnot
    by_cases heq : id = record.id
    · rw [heq]
      exact ⟨record', hself, Classical.not_not.1 fun hdone => hnot.2 ⟨heq, hdone⟩⟩
    · obtain ⟨r, hr, hr'⟩ := h.kept t id ht hnot.1
      exact ⟨r, hkeep id r heq hr, hr'⟩
  · obtain ⟨hlookup, hstatus⟩ := h.batch r (hbatch.subset hr)
    exact ⟨hkeep r.id r (hout r hr) hlookup, hstatus⟩
  · rcases hjobs j job hj with ⟨rfl, hjob, hname⟩ | ⟨_, hj, hne⟩
    · obtain ⟨hrecord, hstatus, _⟩ := hnew job hjob
      rw [hname, hrecord]
      exact ⟨hself, hstatus⟩
    · obtain ⟨hlookup, hstatus⟩ := h.job j job hj
      exact ⟨hkeep _ _ hne hlookup, hstatus⟩
  · rcases hjobs j job hj with ⟨rfl, _, hname⟩ | ⟨_, hj, hne⟩
    · rcases hjobs k job' hk with ⟨rfl, _, _⟩ | ⟨_, _, hne⟩
      · rfl
      · exact absurd (heq.symm.trans hname) hne
    · rcases hjobs k job' hk with ⟨rfl, _, hname⟩ | ⟨_, hk, _⟩
      · exact absurd (heq.trans hname) hne
      · exact h.one j k job job' hj hk heq
  · rcases hback id r hr with ⟨rfl, rfl⟩ | ⟨hne, hr⟩
    · obtain ⟨job, hjob⟩ := ne_none_iff_exists'.1 (hprocessing hs)
      exact ⟨i, job, (Function.update_self ..).trans hjob, (hnew job hjob).1⟩
    · have hname := h.ids id r hr
      obtain ⟨j, job, hj, rfl⟩ := h.processing id r hr hs
      have hji : j ≠ i := fun heq => hne (hname.symm.trans ((hslot j job hj).2 heq))
      exact ⟨j, job, (Function.update_of_ne hji ..).trans hj, rfl⟩
  · have hj' : spawned ≤ j := hj
    exact (Function.update_of_ne (by omega) ..).trans (h.spawned j (hspawned.trans hj'))
  · rcases hjobs j job hj with ⟨rfl, hjob, hname⟩ | ⟨_, hj, hne⟩
    · obtain ⟨hrecord, _, hattempts, _⟩ := hnew job hjob
      rw [hname, hrecord]
      exact hattempts
    · rw [hfailures _ hne]
      exact h.attempts j job hj
  · rcases hback id r hr with ⟨rfl, rfl⟩ | ⟨hne, hr⟩
    · exact hpending hs
    · rw [hfailures id hne]
      exact h.pending id r hr hs
  · rcases hjobs j job hj with ⟨rfl, hjob, hname⟩ | ⟨_, hj, _⟩
    · rw [hname]
      exact (hnew job hjob).2.2.2 outcome ho
    · exact mem_append_left _ (h.ended j job outcome hj ho)
  · simpa only [hsaved] using h.idle
  · simpa only [hsaved] using h.checked

theorem Orderly.slot (h : Orderly config commands q) {i : ℕ} {job : Job}
    (hjob : q.jobs i = some job) :
    (∀ j job', q.jobs j = some job' → (job'.record.id = job.record.id ↔ j = i)) ∧
      (∀ r ∈ q.batch, r.id ≠ job.record.id) ∧ i < q.spawned := by
  obtain ⟨hstored, hprocessing⟩ := h.job i job hjob
  refine ⟨fun j job' hj => ⟨fun heq => h.one j i job' job hj hjob heq, ?_⟩, fun r hr heq => ?_, ?_⟩
  · rintro rfl
    rw [some.inj (hj.symm.trans hjob)]
  · obtain ⟨hlookup, hstatus⟩ := h.batch r hr
    rw [heq, hstored] at hlookup
    cases hlookup
    rw [hprocessing] at hstatus
    cases hstatus
  · by_contra hle
    rw [h.spawned i (Nat.le_of_not_lt hle)] at hjob
    cases hjob

theorem Orderly.take (h : Orderly config commands q) {rest : List WorkflowCommandRecord} {now : ℤ}
    (hbatch : q.batch = record :: rest) :
    Orderly config commands
      { q with
        repository := update q.repository (record.take now)
        batch := rest
        jobs := Function.update q.jobs q.spawned (some ⟨record.take now, none⟩)
        spawned := q.spawned + 1
        log := q.log ++ [.started record.id] } := by
  obtain ⟨hstored, hpending⟩ := h.batch record (by rw [hbatch]; exact mem_cons_self)
  have hnodup : record.id ∉ rest.map WorkflowCommandRecord.id := by
    have hcons := h.nodup
    rw [hbatch] at hcons
    exact (nodup_cons.1 hcons).1
  refine h.rewrite (record.take now) hstored (.inl hpending) rfl rfl lookup_update
    (fun j job hj => ⟨fun heq => ?_, ?_⟩)
    ⟨h.saved _ _ hstored, h.queued _ _ hstored (.inl hpending)⟩ (fun _ _ => nofun)
    (fun id => ⟨fun hover => (by cases hover <;> contradiction), fun hnot => ?_⟩) (fun _ _ => rfl)
    (hbatch ▸ sublist_cons_self ..) (fun r hr heq => hnodup (heq ▸ mem_map_of_mem hr))
    (Nat.le_succ _) (Nat.lt_succ_self _) ?_ (fun _ => nofun) (fun hs => by cases hs)
  · obtain ⟨hlookup, hstatus⟩ := h.job j job hj
    rw [heq, hstored] at hlookup
    cases hlookup
    rw [hpending] at hstatus
    cases hstatus
  · rintro rfl
    rw [h.spawned _ le_rfl] at hj
    cases hj
  · exact absurd (.inr rfl) hnot.2
  · rintro job ⟨⟩
    refine ⟨rfl, rfl, ?_, fun outcome ho => by cases ho⟩
    rw [failures_append, ← h.pending record.id record hstored hpending]
    rfl

theorem Orderly.handled (h : Orderly config commands q) {i : ℕ} {outcome : Outcome}
    (hjob : q.jobs i = some ⟨record, none⟩) :
    Orderly config commands
      { q with
        jobs := Function.update q.jobs i (some ⟨record, some outcome⟩)
        log := q.log ++ [.ended record.id outcome] } := by
  obtain ⟨hstored, hprocessing⟩ := h.job i _ hjob
  obtain ⟨hslot, hout, hi⟩ := h.slot hjob
  refine h.rewrite record hstored (.inr hprocessing) rfl rfl (fun id => ?_) hslot
    ⟨h.saved _ _ hstored, h.queued _ _ hstored (.inr hprocessing)⟩ (fun _ _ => nofun)
    (fun id => ⟨fun hover => (by cases hover <;> contradiction), fun hnot => ?_⟩)
    (fun id hne => by simp [isFailure, hne.symm]) (Sublist.refl _) hout le_rfl hi ?_
    (fun _ => nofun) fun hs => ?_
  · split
    · next heq => rw [heq, hstored]
    · rfl
  · exact absurd (.inr hprocessing) hnot.2
  · rintro job ⟨⟩
    refine ⟨rfl, hprocessing, ?_, fun o ho => by cases ho; simp⟩
    -- the attempt is counted now, unless it never is
    have hbefore : record.attempts = failures q.log record.id + 1 := h.attempts i _ hjob
    rw [failures_append]
    simp only [isFailure, Job.uncounted]
    cases outcome.counts <;> simp [hbefore]
  · rw [hprocessing] at hs
    cases hs

theorem settle_cases (record : WorkflowCommandRecord) (maxAttempts : ℕ) (outcome : Outcome) :
    (record.settle maxAttempts outcome).id = record.id ∧
      (record.settle maxAttempts outcome).command = record.command ∧
      ((record.settle maxAttempts outcome).status = .completed ∨
        ((record.settle maxAttempts outcome).status = .failed ∧ outcome.counts = true ∧
          maxAttempts ≤ record.attempts) ∨
        ((record.settle maxAttempts outcome).status = .pending ∧
          (record.settle maxAttempts outcome).attempts =
            if outcome.counts then record.attempts else record.attempts - 1)) := by
  have hfailed :
      (if maxAttempts ≤ record.attempts then CommandStatus.failed else .pending) = .failed ∧
          maxAttempts ≤ record.attempts ∨
        (if maxAttempts ≤ record.attempts then CommandStatus.failed else .pending) = .pending := by
    split
    · next h => exact .inl ⟨rfl, h⟩
    · exact .inr rfl
  cases outcome with
  | ok => exact ⟨rfl, rfl, .inl rfl⟩
  | timeout =>
    refine ⟨rfl, rfl, .inr ?_⟩
    rcases hfailed with ⟨hstatus, hmax⟩ | hstatus
    · exact .inl ⟨hstatus, rfl, hmax⟩
    · exact .inr ⟨hstatus, rfl⟩
  | error error =>
    cases error with
    | templateNotFound id =>
      refine ⟨rfl, rfl, .inr (.inr ⟨rfl, ?_⟩)⟩
      show (if 0 < record.attempts then record.attempts - 1 else record.attempts) =
        record.attempts - 1
      split <;> omega
    | other text =>
      refine ⟨rfl, rfl, .inr ?_⟩
      rcases hfailed with ⟨hstatus, hmax⟩ | hstatus
      · exact .inl ⟨hstatus, rfl, hmax⟩
      · exact .inr ⟨hstatus, rfl⟩

theorem Orderly.settle (h : Orderly config commands q) {i : ℕ} {outcome : Outcome}
    (hjob : q.jobs i = some ⟨record, some outcome⟩) :
    Orderly config commands
      { q with
        repository :=
          update q.repository (record.settle config.maxAttempts outcome)
        jobs := Function.update q.jobs i none
        log := q.log ++
          [.settled record.id (record.settle config.maxAttempts outcome).status] } := by
  obtain ⟨hstored, hprocessing⟩ := h.job i _ hjob
  obtain ⟨hslot, hout, hi⟩ := h.slot hjob
  have hattempts : record.attempts = failures q.log record.id +
      if outcome.counts then 0 else 1 := h.attempts i _ hjob
  obtain ⟨hid, hcommand, hcases⟩ := settle_cases record config.maxAttempts outcome
  generalize record.settle config.maxAttempts outcome = record' at hid hcommand hcases ⊢
  refine h.rewrite record' hstored (.inr hprocessing) hid hcommand
    (fun id => hid ▸ lookup_update id) hslot ⟨⟨outcome, h.ended i _ outcome hjob rfl⟩, fun hs => ?_⟩
    (fun _ _ => nofun) (fun id => ?_)
    (fun _ _ => rfl) (Sublist.refl _) hout le_rfl hi (fun job hnew => by cases hnew)
    (fun hs => ?_) fun hs => ?_
  · rcases hcases with hs' | ⟨_, hcounts, hmax⟩ | ⟨hs', _⟩
    · rw [hs'] at hs
      cases hs
    · rw [hcounts, if_pos rfl, Nat.add_zero] at hattempts
      exact hattempts ▸ hmax
    · rw [hs'] at hs
      cases hs
  · rcases hcases with hs | ⟨hs, _⟩ | ⟨hs, _⟩ <;>
      simp [hs, WorkflowCommandRecord.IsQueued, eq_comm]
  · rcases hcases with hs' | ⟨hs', _⟩ | ⟨hs', _⟩
    all_goals
      rw [hs'] at hs
      cases hs
  · rcases hcases with hs' | ⟨hs', _⟩ | ⟨_, hcount⟩
    · rw [hs'] at hs
      cases hs
    · rw [hs'] at hs
      cases hs
    · rw [hcount, hattempts]
      cases outcome.counts <;> simp [isFailure]

theorem Orderly.cleanup (h : Orderly config commands q) (before : ℤ) :
    Orderly config commands
      { q with repository := deleteCompletedBefore q.repository before } := by
  have hback : ∀ id r, (deleteCompletedBefore q.repository before).lookup id =
      some r → q.repository.lookup id = some r := by
    intro id r hr
    rw [deleteCompletedBefore, lookup_retain, bind_eq_some_iff] at hr
    obtain ⟨r', hr', hif⟩ := hr
    split at hif
    · cases hif
    · cases hif
      exact hr'
  have hkeep : ∀ id r, q.repository.lookup id = some r → r.IsQueued →
      (deleteCompletedBefore q.repository before).lookup id = some r := by
    intro id r hr hqueued
    rw [deleteCompletedBefore, lookup_retain, hr, bind_some, if_neg]
    rintro ⟨hs | hs, _⟩
    all_goals
      rcases hqueued with hq | hq
      all_goals
        rw [hq] at hs
        cases hs
  exact ⟨h.history, fun id r hr => h.ids id r (hback id r hr),
    fun id r hr => h.saved id r (hback id r hr),
    fun t id r ht hr => h.command t id r ht (hback id r hr),
    fun id r hr => h.queued id r (hback id r hr),
    fun t id ht hnot => (h.kept t id ht hnot).imp fun r hr => ⟨hkeep id r hr.1 hr.2, hr.2⟩,
    fun r hr => ⟨hkeep r.id r (h.batch r hr).1 (.inl (h.batch r hr).2), (h.batch r hr).2⟩,
    h.nodup,
    fun i job hi => ⟨hkeep _ _ (h.job i job hi).1 (.inr (h.job i job hi).2), (h.job i job hi).2⟩,
    h.one, fun id r hr => h.processing id r (hback id r hr), h.spawned, h.attempts,
    fun id r hr => h.pending id r (hback id r hr), h.ended, h.idle, h.checked, h.called⟩

theorem lookup_empty (id : String) (r : WorkflowCommandRecord) :
    (empty : CommandQueue ι).repository.lookup id ≠ some r := by
  simp [empty]

theorem orderly_empty : Orderly config commands .empty where
  history before event after heq := by simp [empty] at heq
  ids id r hr := absurd hr (lookup_empty id r)
  saved id r hr := absurd hr (lookup_empty id r)
  command t id r ht := absurd ht not_mem_nil
  queued id r hr := absurd hr (lookup_empty id r)
  kept t id ht := absurd ht not_mem_nil
  batch r hr := absurd hr not_mem_nil
  nodup := nodup_nil
  job i job hi := by cases hi
  one i j job job' hi := by cases hi
  processing id r hr := absurd hr (lookup_empty id r)
  spawned i hi := rfl
  attempts i job hi := by cases hi
  pending id r hr := absurd hr (lookup_empty id r)
  ended i job outcome hi := by cases hi
  idle t ht id := not_mem_nil
  checked t ht := by cases ht
  called t ht := by cases ht

variable [DecidableEq ι]

theorem Orderly.enqueue (h : Orderly config commands q) {t : ι} {event : QueueEvent ι}
    {call : EnqueueCall} (hnone : q.calls t = none)
    (hadmissible : Admissible config commands q.log event)
    (hevent : (∃ id, event = .skipped t id) ∧ call = .ended ∨
      event = .checked t ∧ call = .checked) :
    Orderly config commands
      { q with calls := Function.update q.calls t (some call), log := q.log ++ [event] } := by
  have hsaved : ∀ u id, .saved u id ∈ q.log ++ [event] ↔ .saved u id ∈ q.log := by
    rcases hevent with ⟨⟨id, rfl⟩, _⟩ | ⟨rfl, _⟩ <;> simp
  have hover : ∀ id, IsOver (q.log ++ [event]) id ↔ IsOver q.log id := by
    rcases hevent with ⟨⟨id, rfl⟩, _⟩ | ⟨rfl, _⟩ <;> simp [isOver_append]
  have hfailures : ∀ id, failures (q.log ++ [event]) id = failures q.log id := by
    rcases hevent with ⟨⟨id, rfl⟩, _⟩ | ⟨rfl, _⟩ <;> simp [isFailure]
  refine ⟨h.history.snoc hadmissible, h.ids, ?_, ?_, ?_, ?_, h.batch, h.nodup, h.job, h.one,
    h.processing, h.spawned, ?_, ?_, fun i job outcome hi ho => ?_, fun u hu => ?_,
    fun u hu => ?_, fun u hu => ?_⟩
  · simpa only [hsaved] using h.saved
  · simpa only [hsaved] using h.command
  · simpa only [hover] using h.queued
  · simpa only [hsaved, hover] using h.kept
  · simpa only [hfailures] using h.attempts
  · simpa only [hfailures] using h.pending
  · exact mem_append_left _ (h.ended i job outcome hi ho)
  · simp only [hsaved]
    exact h.idle u (update_eq_none hu).2
  · simp only [hsaved]
    rcases update_eq_some hu with ⟨rfl, _⟩ | ⟨_, hu⟩
    · exact h.idle u hnone
    · exact h.checked u hu
  · simp only [hsaved]
    rcases update_eq_some hu with ⟨rfl, hcall⟩ | ⟨_, hu⟩
    · rcases hevent with ⟨⟨id, rfl⟩, _⟩ | ⟨_, rfl⟩
      · exact .inr ⟨id, by simp⟩
      · cases hcall
    · exact (h.called u hu).imp (fun h => h) fun ⟨id, hid⟩ =>
        ⟨id, mem_append_left _ hid⟩

theorem Orderly.save (h : Orderly config commands q) {t : ι} {uuid : String} {now : ℤ}
    (hcall : q.calls t = some .checked) (hnew : ∀ event ∈ q.log, event.savedId ≠ some uuid) :
    Orderly config commands
      { q with
        repository := update q.repository (.new uuid now (commands t))
        calls := Function.update q.calls t (some .ended)
        log := q.log ++ [.saved t uuid] } := by
  have hfree : ∀ u, .saved u uuid ∉ q.log := fun u hu => hnew _ hu rfl
  have hunused : ∀ id r, q.repository.lookup id = some r → id ≠ uuid := by
    rintro id r hr rfl
    obtain ⟨u, hu⟩ := h.saved id r hr
    exact hfree u hu
  have hlookup : ∀ id, (update q.repository (.new uuid now (commands t))).lookup id =
      if id = uuid then some (.new uuid now (commands t)) else q.repository.lookup id :=
    fun id => lookup_insert_ite _ _ _ _
  have hkeep : ∀ id r, q.repository.lookup id = some r → (update q.repository
      (.new uuid now (commands t))).lookup id = some r := by
    intro id r hr
    rw [hlookup, if_neg (hunused id r hr)]
    exact hr
  have hback : ∀ id r, (update q.repository (.new uuid now (commands t))).lookup id = some r →
      (id = uuid ∧ r = .new uuid now (commands t)) ∨ q.repository.lookup id = some r := by
    intro id r hr
    rw [hlookup] at hr
    split at hr
    · next heq => exact .inl ⟨heq, (some.inj hr).symm⟩
    · exact .inr hr
  have hover : ∀ id, IsOver (q.log ++ [.saved t uuid]) id ↔ IsOver q.log id := by
    simp [isOver_append]
  have hfailures : ∀ id, failures (q.log ++ [.saved t uuid]) id = failures q.log id := by
    simp [isFailure]
  -- nothing happened to the new command yet
  obtain ⟨hnotOver, hnoFailure⟩ := h.history.not_handled hfree
  refine ⟨h.history.snoc hfree, fun id r hr => ?_, fun id r hr => ?_, fun u id r hu hr => ?_,
    fun id r hr hqueued => ?_, fun u id hu hnot => ?_, fun r hr => ?_, h.nodup,
    fun i job hi => ?_, h.one, fun id r hr hs => ?_, h.spawned, ?_, fun id r hr hs => ?_,
    fun i job outcome hi ho => ?_, fun u hu => ?_, fun u hu => ?_, fun u hu => ?_⟩
  · rcases hback id r hr with ⟨rfl, rfl⟩ | hr
    · rfl
    · exact h.ids id r hr
  · rcases hback id r hr with ⟨rfl, rfl⟩ | hr
    · exact ⟨t, by simp⟩
    · obtain ⟨u, hu⟩ := h.saved id r hr
      exact ⟨u, mem_append_left _ hu⟩
  · rcases hback id r hr with ⟨rfl, rfl⟩ | hr
    · rcases mem_append.1 hu with hu | hu
      · exact absurd hu (hfree u)
      · cases mem_singleton.1 hu
        rfl
    · rcases mem_append.1 hu with hu | hu
      · exact h.command u id r hu hr
      · cases mem_singleton.1 hu
        exact absurd rfl (hunused uuid r hr)
  · rw [hover]
    rcases hback id r hr with ⟨rfl, rfl⟩ | hr
    · exact hnotOver
    · exact h.queued id r hr hqueued
  · rw [hover] at hnot
    rcases mem_append.1 hu with hu | hu
    · obtain ⟨r, hr, hqueued⟩ := h.kept u id hu hnot
      exact ⟨r, hkeep id r hr, hqueued⟩
    · cases mem_singleton.1 hu
      exact ⟨_, by rw [hlookup, if_pos rfl], .inl rfl⟩
  · exact ⟨hkeep _ _ (h.batch r hr).1, (h.batch r hr).2⟩
  · exact ⟨hkeep _ _ (h.job i job hi).1, (h.job i job hi).2⟩
  · rcases hback id r hr with ⟨rfl, rfl⟩ | hr
    · cases hs
    · exact h.processing id r hr hs
  · simpa only [hfailures] using h.attempts
  · rw [hfailures]
    rcases hback id r hr with ⟨rfl, rfl⟩ | hr
    · exact hnoFailure.symm
    · exact h.pending id r hr hs
  · exact mem_append_left _ (h.ended i job outcome hi ho)
  · obtain ⟨hne, hu⟩ := update_eq_none hu
    intro id hmem
    rcases mem_append.1 hmem with hmem | hmem
    · exact h.idle u hu id hmem
    · cases mem_singleton.1 hmem
      exact hne rfl
  · rcases update_eq_some hu with ⟨_, hended⟩ | ⟨hne, hu⟩
    · cases hended
    · intro id hmem
      rcases mem_append.1 hmem with hmem | hmem
      · exact h.checked u hu id hmem
      · cases mem_singleton.1 hmem
        exact hne rfl
  · rcases update_eq_some hu with ⟨rfl, _⟩ | ⟨_, hu⟩
    · exact .inl ⟨uuid, by simp⟩
    · exact h.called_append hu

theorem Orderly.step (h : Orderly config commands q) {a : QueueStep ι}
    (ha : q.step config commands a = some q') : Orderly config commands q' := by
  cases a with
  | enqueue t order =>
    simp only [CommandQueue.step] at ha
    split at ha
    · next hnone =>
      split at ha
      · next existing hfound =>
        cases ha
        -- what was found is stored, and waits or is being handled
        have hmatch := find?_some hfound
        obtain ⟨id, hlookup⟩ := mem_values.1 (mem_of_find?_eq_some hfound)
        simp only [decide_eq_true_eq] at hmatch
        obtain ⟨u, hu⟩ := h.saved id existing hlookup
        have hcommand := h.command u id existing hu hlookup
        obtain rfl := h.ids id existing hlookup
        refine h.enqueue hnone ⟨u, hu, ⟨?_, ?_⟩, h.queued _ existing hlookup hmatch.2.2⟩
          (.inl ⟨⟨_, rfl⟩, rfl⟩)
        · rw [← hcommand]
          exact hmatch.1
        · rw [← hcommand]
          exact hmatch.2.1
      · next hfound =>
        cases ha
        refine h.enqueue hnone ⟨fun u id hu hsame => ?_, h.idle t hnone⟩ (.inr ⟨rfl, rfl⟩)
        by_contra hnot
        obtain ⟨r, hr, hqueued⟩ := h.kept u id hu hnot
        have hcommand := h.command u id r hu hr
        refine absurd (find?_eq_none.1 hfound r (mem_values.2 ⟨id, hr⟩)) ?_
        rw [Classical.not_not, decide_eq_true_eq, hcommand]
        exact ⟨hsame.1, hsame.2, hqueued⟩
    · cases ha
  | save t uuid now =>
    simp only [CommandQueue.step] at ha
    split_ifs at ha with hnew
    cases ha
    exact h.save hnew.1 hnew.2
  | poll order =>
    simp only [CommandQueue.step] at ha
    split at ha
    · cases ha
      exact h.poll order
    · cases ha
  | take now =>
    simp only [CommandQueue.step] at ha
    split at ha
    · cases ha
    · next record rest hbatch =>
      cases ha
      exact h.take hbatch
  | handled i outcome =>
    simp only [CommandQueue.step] at ha
    split at ha
    · next record hjob =>
      cases ha
      exact h.handled hjob
    · cases ha
  | settle i =>
    simp only [CommandQueue.step] at ha
    split at ha
    · next record outcome hjob =>
      cases ha
      exact h.settle hjob
    · cases ha
  | cleanup now =>
    simp only [CommandQueue.step] at ha
    split at ha
    · cases ha
      exact h.cleanup _
    · cases ha

/-! ## Progress -/

theorem exec_poll_take (h : Orderly config commands q) {id : String}
    (hr : q.repository.lookup id = some r) (hpending : r.status = .pending)
    (hconcurrency : 0 < config.concurrency) (hbatch : q.batch = []) :
    ∃ order q', exec (step config commands) q [.poll order, .take 0] = some q' ∧
      q'.log = q.log ++ [.started id] := by
  obtain ⟨l, hl⟩ := IterOrder.exists_list_first id
    (Finmap.mem_keys.2 (Finmap.mem_of_lookup_eq_some hr))
  obtain ⟨n, hn⟩ := Nat.exists_eq_add_of_lt hconcurrency
  have hpoll : ∃ rest, (findPending q.repository (IterOrder.first id)).take
      config.concurrency = r :: rest := by
    unfold findPending CommandRepository.values
    rw [hl, filterMap_cons, hr, filter_cons_of_pos (by simpa using hpending), hn, Nat.zero_add]
    exact ⟨_, rfl⟩
  obtain ⟨rest, hrest⟩ := hpoll
  refine ⟨IterOrder.first id, _, exec_cons_eq_some.2 ⟨{ q with batch := r :: rest }, ?_,
    exec_cons_eq_some.2 ⟨_, rfl, rfl⟩⟩, ?_⟩
  · simp only [step, hbatch, hrest]
  · show q.log ++ [.started r.id] = _
    rw [h.ids id r hr]

theorem Orderly.can_start (h : Orderly config commands q) {id : String}
    (hr : q.repository.lookup id = some r) (hpending : r.status = .pending)
    (hconcurrency : 0 < config.concurrency) :
    ∃ l q' more, exec (CommandQueue.step config commands) q l = some q' ∧
      q'.log = q.log ++ more ∧ .started id ∈ more := by
  generalize hbatch : q.batch = batch
  induction batch generalizing q with
  | nil =>
    obtain ⟨order, q', hexec, hlog⟩ := exec_poll_take h hr hpending hconcurrency hbatch
    exact ⟨_, q', _, hexec, hlog, by simp⟩
  | cons record rest ih =>
    have htake : q.step config commands (.take 0) = some
        { q with
          repository := update q.repository (record.take 0)
          batch := rest
          jobs := Function.update q.jobs q.spawned (some ⟨record.take 0, none⟩)
          spawned := q.spawned + 1
          log := q.log ++ [.started record.id] } := by
      simp only [CommandQueue.step, hbatch]
    by_cases heq : record.id = id
    · exact ⟨[.take 0], _, [.started record.id], exec_cons_eq_some.2 ⟨_, htake, rfl⟩, rfl,
        by simp [heq]⟩
    · -- the command still waits
      have hr' : (update q.repository (record.take 0)).lookup id = some r := by
        rw [lookup_update]
        exact (if_neg (Ne.symm heq)).trans hr
      obtain ⟨l, q', more, hexec, hlog, hmem⟩ := ih (h.take hbatch) hr' rfl
      refine ⟨.take 0 :: l, q', .started record.id :: more, exec_cons_eq_some.2 ⟨_, htake, hexec⟩,
        ?_, mem_cons_of_mem _ hmem⟩
      rw [hlog, append_assoc]
      rfl

end

/-! ## Runs -/

structure KeepsStream [DecidableEq ι] (config : CommandQueueConfig) (commands : ι → Command)
    (q : CommandQueue ι) : Prop where
  /-- A call stores its command, unless one of the type and thread was still in the queue. -/
  stored : ∀ t, q.calls t = some .ended → (∃ id, .saved t id ∈ q.log) ∨
    ∃ before id after u, q.log = before ++ .skipped t id :: after ∧ .saved u id ∈ before ∧
      (commands u).SameStream (commands t) ∧ ¬ IsOver before id
  /-- What was stored waits, is being handled, or has been handled. -/
  handled : ∀ t id, .saved t id ∈ q.log →
    (∃ r, q.repository.lookup id = some r ∧ r.command = commands t ∧
      (r.status = .pending ∨ ∃ i job, q.jobs i = some job ∧ job.record = r)) ∨
    (IsOver q.log id ∧ ∃ outcome, .ended id outcome ∈ q.log)
  /-- What waits can be handled. -/
  progress : ∀ id r, q.repository.lookup id = some r → r.status = .pending →
    0 < config.concurrency → ∃ l q' more, exec (step config commands) q l = some q' ∧
      q'.log = q.log ++ more ∧ .started id ∈ more
  /-- A command that was enqueued after another one of its type and thread was stored is handled
  after it. -/
  inOrder : ∀ t t' id id' before after, q.log = before ++ .checked t' :: after →
    .saved t id ∈ before → .saved t' id' ∈ q.log → (commands t).SameStream (commands t') →
    IsOver before id ∧ (∀ event ∈ after, ¬ event.Handles id) ∧ ∀ event ∈ before, ¬ event.Handles id'
  /-- No two handler calls have one command. -/
  alone : ∀ i j job job', q.jobs i = some job → q.jobs j = some job' →
    job.record.id = job'.record.id → i = j
  failed : ∀ before id after, q.log = before ++ .settled id .failed :: after →
    config.maxAttempts ≤ failures before id

/-- **The command queue** keeps the commands of every run. -/
theorem keepsStream_of_exec [DecidableEq ι] (config : CommandQueueConfig)
    (commands : ι → Command) (l : List (QueueStep ι)) (q : CommandQueue ι)
    (h : exec (CommandQueue.step config commands) .empty l = some q) :
    KeepsStream config commands q := by
  have horderly : Orderly config commands q :=
    exec_invariant (fun _ _ _ h ha => h.step ha) orderly_empty h
  refine ⟨fun t ht => ?_, fun t id ht => ?_, fun id r hr hpending hconcurrency =>
    horderly.can_start hr hpending hconcurrency,
    fun t t' id id' before after hlog hsaved hsaved' hsame =>
      horderly.history.inOrder hlog hsaved hsaved' hsame, horderly.one,
    fun before id after hlog => (horderly.history before _ after hlog).2 rfl⟩
  · refine (horderly.called t ht).imp (fun h => h) fun ⟨id, hmem⟩ => ?_
    obtain ⟨before, after, hlog⟩ := append_of_mem hmem
    obtain ⟨u, hu, hsame, hnot⟩ := horderly.history before _ after hlog
    exact ⟨before, id, after, u, hlog, hu, hsame, hnot⟩
  · by_cases hover : IsOver q.log id
    · refine .inr ⟨hover, ?_⟩
      obtain ⟨status, hmem⟩ : ∃ status, .settled id status ∈ q.log :=
        hover.elim (fun h => ⟨_, h⟩) fun h => ⟨_, h⟩
      obtain ⟨before, after, hlog⟩ := append_of_mem hmem
      obtain ⟨⟨outcome, hended⟩, _⟩ := horderly.history before _ after hlog
      exact ⟨outcome, by rw [hlog]; simp [hended]⟩
    · obtain ⟨r, hr, hqueued⟩ := horderly.kept t id ht hover
      refine .inl ⟨r, hr, horderly.command t id r ht hr, hqueued.imp (fun h => h) fun h =>
        horderly.processing id r hr h⟩

/-! ## Runs that drop and reorder commands -/

def StoresEach (commands : ι → Command) (q : CommandQueue ι) : Prop :=
  ∀ t, q.calls t = some .ended → (∃ id, .saved t id ∈ q.log) ∨
    ∃ before id after u, q.log = before ++ .skipped t id :: after ∧ .saved u id ∈ before ∧
      (commands u).SameStream (commands t) ∧ (commands u).payload = (commands t).payload ∧
      ¬ IsOver before id

/-- When a command is handled, those of its thread that were stored before it have been handled. -/
def InThreadOrder (commands : ι → Command) (log : List (QueueEvent ι)) : Prop :=
  ∀ l₁ l₂ l₃ t t' id id', log = l₁ ++ .saved t' id' :: l₂ ++ .started id' :: l₃ →
    .saved t id ∈ l₁ → (commands t).thid = (commands t').thid →
    ∃ outcome, .ended id outcome ∈ l₁ ++ .saved t' id' :: l₂

namespace Sample

def queueConfig : CommandQueueConfig := ⟨3, 3, 3600⟩

/-- Two events of one instance. -/
def twoAdvances : Bool → Command
  | false => ⟨.advance, "i1", none, none, .string "review"⟩
  | true => ⟨.advance, "i1", none, none, .string "approve"⟩

def startAndPause : Bool → Command
  | false => ⟨.start, "i1", none, none, .null⟩
  | true => ⟨.pause, "i1", none, none, .null⟩

noncomputable def dropRun : List (QueueStep Bool) :=
  [.enqueue false .some, .save false "c1" 0, .enqueue true .some]

noncomputable def servedRun : List (QueueStep Bool) :=
  dropRun ++ [.poll .some, .take 1, .handled 0 .ok, .settle 0]

noncomputable def bothRun : List (QueueStep Bool) :=
  [.enqueue false .some, .save false "c1" 0, .enqueue true .some, .save true "c2" 0]

theorem exec_dropRun : ∃ q, exec (step queueConfig twoAdvances) .empty dropRun =
    some q ∧ q.calls true = some .ended ∧
      q.log = [.checked false, .saved false "c1", .skipped true "c1"] := by
  simp [dropRun, exec, step, empty, findByCmdAndThidPending, CommandRepository.values, update,
    twoAdvances, savedId, WorkflowCommandRecord.new, keys_insert, IterOrder.list_singleton]

theorem exec_servedRun : ∃ q, exec (step queueConfig twoAdvances) .empty servedRun = some q ∧
    q.log = [.checked false, .saved false "c1", .skipped true "c1", .started "c1",
      .ended "c1" .ok, .settled "c1" .completed] := by
  simp [servedRun, dropRun, exec, step, empty, findByCmdAndThidPending, CommandRepository.values,
    update, twoAdvances, savedId, WorkflowCommandRecord.new, keys_insert, IterOrder.list_singleton,
    findPending, queueConfig, WorkflowCommandRecord.take, WorkflowCommandRecord.settle]

theorem exec_bothRun : ∃ q, exec (step queueConfig startAndPause) .empty bothRun =
    some q ∧ q.batch = [] ∧ q.repository.lookup "c2" = some (.new "c2" 0 (startAndPause true)) ∧
      q.log = [.checked false, .saved false "c1", .checked true, .saved true "c2"] := by
  simp [bothRun, exec, step, empty, findByCmdAndThidPending, CommandRepository.values, update,
    startAndPause, savedId, WorkflowCommandRecord.new, keys_insert, IterOrder.list_singleton]

end Sample

open Sample in
/-- The command that was stored is polled, handled and completed. -/
theorem keepsStream_of_exec_served : ∃ q : CommandQueue Bool,
    KeepsStream queueConfig twoAdvances q ∧
      q.log = [.checked false, .saved false "c1", .skipped true "c1", .started "c1",
        .ended "c1" .ok, .settled "c1" .completed] := by
  obtain ⟨q, h, hlog⟩ := exec_servedRun
  exact ⟨q, keepsStream_of_exec queueConfig twoAdvances servedRun q h, hlog⟩

open Sample in
/-- An advance is dropped while another one of the instance waits; a pause is handled before the
start of the instance. -/
theorem keepsStream_of_exec_weakest :
    (∃ q, exec (step queueConfig twoAdvances) .empty dropRun = some q ∧
      ¬ StoresEach twoAdvances q) ∧
    ∃ l q, exec (step queueConfig startAndPause) .empty l = some q ∧
      ¬ InThreadOrder startAndPause q.log := by
  constructor
  · obtain ⟨q, h, hcall, hlog⟩ := exec_dropRun
    refine ⟨q, h, fun hstores => ?_⟩
    rcases hstores true hcall with ⟨id, hmem⟩ | ⟨before, id, after, u, heq, hmem, _, hpayload, _⟩
    · simp [hlog] at hmem
    · have hu : .saved u id ∈ q.log := heq ▸ mem_append_left _ hmem
      obtain ⟨rfl, _⟩ : u = false ∧ id = "c1" := by simpa [hlog] using hu
      simp [twoAdvances] at hpayload
  · obtain ⟨q, h, hbatch, hlookup, hlog⟩ := exec_bothRun
    have horderly : Orderly queueConfig startAndPause q :=
      exec_invariant (fun _ _ _ h ha => h.step ha) orderly_empty h
    obtain ⟨order, q', hexec, hlog'⟩ :=
      exec_poll_take horderly hlookup rfl (by decide) hbatch
    refine ⟨_, q', exec_append_eq_some.2 ⟨q, h, hexec⟩, fun horder => ?_⟩
    obtain ⟨outcome, hmem⟩ := horder [.checked false, .saved false "c1", .checked true] [] [] false
      true "c1" "c2" (by rw [hlog', hlog]; rfl) (by simp) rfl
    simp at hmem

end Idiom.Workflow
