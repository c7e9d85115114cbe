import Idiom.Lib.Run
import Idiom.Mediation.Keylist

/-!
# Keylist updates, one repository call at a time

`MediatorService::process_keylist_updates` and `process_single_keylist_update`. An add looks
up its own mediation, scans all rows, checks and deletes the rows of other mediations for the
key one by one, looks for a row of its own, and saves one. Every repository call is a step of
its own, and any number of calls run at once.
-/

namespace Idiom.Mediation

open Function Keylist Run Finset Option

inductive KeylistAction where
  | add
  | remove
  deriving DecidableEq

structure KeylistUpdate where
  recipientKey : String
  action : KeylistAction

/-- Result of a keylist update operation, as far as the mediator gives it. -/
inductive KeylistResult where
  | success
  | serverError
  deriving DecidableEq

structure KeylistUpdated where
  recipientKey : String
  action : KeylistAction
  result : KeylistResult

/-! ## Batches of updates -/

/-- Where the update at hand stands. `deleted` are the rows it has deleted so far. -/
inductive KeylistPc where
  | start
  | scan (key : String) (newConn : Option String)
  | check (key : String) (newConn : Option String) (stale : List KeylistRecord) (deleted : Keylist)
  | delete (key : String) (newConn : Option String) (row : KeylistRecord)
    (stale : List KeylistRecord) (deleted : Keylist)
  | save (key : String) (deleted : Keylist)

/-- A call of `process_keylist_updates`. -/
structure KeylistTask where
  mediationId : String
  updates : List KeylistUpdate
  pc : KeylistPc
  results : List KeylistUpdated

/-- The key the task is adding, from the scan on. -/
def KeylistPc.addingKey : KeylistPc → Option String
  | .check key _ _ _ => some key
  | .delete key _ _ _ _ => some key
  | .save key _ => some key
  | _ => none

/-- What is done to the registrations. -/
inductive KeylistEvent where
  | none
  | registered (key : String)
  | removed (key : String)
  | rejected (deleted : Keylist)

/-- The rows and the mediation records: id and connection. -/
structure KeylistStore where
  rows : Keylist
  mediations : String → Option String

namespace KeylistTask

/-- The update at hand is done. -/
def finish (task : KeylistTask) (result : KeylistResult) : KeylistTask := { task with
  updates := task.updates.tail
  pc := .start
  results := task.results ++ task.updates.head?.toList.map fun update =>
    ⟨update.recipientKey, update.action, result⟩ }

/-- The next repository call; a new row gets the given id. -/
def next (backend : KeylistBackend) (order : IterOrder KeylistRecord) (id : String)
    (store : KeylistStore) (task : KeylistTask) :
    Option (KeylistStore × KeylistTask × KeylistEvent) :=
  match task.pc, task.updates with
  | .start, [] => none
  | .start, update :: _ =>
    let key := canonicalizeRecipientKey update.recipientKey
    match update.action with
    | .add => some (store, { task with pc := .scan key (store.mediations task.mediationId) }, .none)
    | .remove =>
      some ({ store with
        rows := store.rows.deleteByRecipientKey order task.mediationId key backend },
        task.finish .success, .removed key)
  | .scan key newConn, _ =>
    let stale := (store.rows.getAll order).filter fun r =>
      r.recipientKey = key ∧ r.mediationId ≠ task.mediationId
    some (store, { task with pc := .check key newConn stale ∅ }, .none)
  | .check key newConn (r :: stale) deleted, _ =>
    -- only a positive mismatch blocks the move
    match store.mediations r.mediationId, newConn with
    | some oc, some nc =>
      if oc = nc then some (store, { task with pc := .delete key newConn r stale deleted }, .none)
      else some (store, task.finish .serverError, .rejected deleted)
    | _, _ => some (store, { task with pc := .delete key newConn r stale deleted }, .none)
  | .check key _ [] deleted, _ =>
    match store.rows.findByRecipientKey order task.mediationId key with
    | some _ => some (store, task.finish .success, .registered key)
    | none => some (store, { task with pc := .save key deleted }, .none)
  | .delete key newConn r stale deleted, _ =>
    let rows := store.rows.deleteByRecipientKey order r.mediationId key backend
    some ({ store with rows := rows },
      { task with pc := .check key newConn stale (deleted ∪ (store.rows \ rows)) }, .none)
  | .save key _, _ =>
    some ({ store with rows := store.rows.save ⟨id, task.mediationId, key⟩ },
      task.finish .success, .registered key)

end KeylistTask

open KeylistTask

/-! ## Runs -/

/-- The store and the batches; `granted` has the connection of every mediation there ever was,
`owner` the last registration of a key by a connection that it has not removed, and
`rejections` the rows deleted by each add that was rejected. -/
structure KeylistSystem where
  store : KeylistStore
  tasks : ℕ → Option KeylistTask
  granted : String → Option String
  owner : String → String → Option String
  rejections : List Keylist

inductive KeylistStep where
  /-- A mediation is requested, under a fresh id. -/
  | request (mediationId connectionId : String)
  /-- A mediation record is deleted. -/
  | drop (mediationId : String)
  /-- A batch of updates arrives for a mediation. -/
  | update (t : ℕ) (mediationId : String) (updates : List KeylistUpdate)
  /-- A batch goes on, with a fresh id for a new row. -/
  | run (t : ℕ) (order : IterOrder KeylistRecord) (id : String)

namespace KeylistSystem

def start : KeylistSystem := ⟨⟨∅, fun _ => none⟩, fun _ => none, fun _ => none, fun _ _ => none, []⟩

/-- The registrations after an event of a batch for a mediation. -/
def record (s : KeylistSystem) (mediationId : String) : KeylistEvent → KeylistSystem
  | .none => s
  | .registered key =>
    match s.granted mediationId with
    | none => s
    | some c => { s with
        owner := update s.owner key (update (s.owner key) c (some mediationId)) }
  | .removed key => { s with
      owner := update s.owner key fun c =>
        if s.owner key c = some mediationId then none else s.owner key c }
  | .rejected deleted => { s with rejections := s.rejections ++ [deleted] }

def step (backend : KeylistBackend) (s : KeylistSystem) : KeylistStep → Option KeylistSystem
  | .request mediationId connectionId =>
    match s.granted mediationId with
    | some _ => none
    | none => some { s with
        store := { s.store with
          mediations := update s.store.mediations mediationId (some connectionId) }
        granted := update s.granted mediationId (some connectionId) }
  | .drop mediationId => some { s with
      store := { s.store with mediations := update s.store.mediations mediationId none } }
  | .update t mediationId updates =>
    match s.tasks t, s.granted mediationId with
    | none, some _ => some { s with
        tasks := update s.tasks t (some ⟨mediationId, updates, .start, []⟩) }
    | _, _ => none
  | .run t order id =>
    match s.tasks t with
    | none => none
    | some task =>
      if ∀ r ∈ s.store.rows, r.id ≠ id then
        match task.next backend order id s.store with
        | none => none
        | some (store, task', event) =>
          some (record { s with store := store, tasks := update s.tasks t (some task') }
            task.mediationId event)
      else none

/-- One row for a canonical key; a key with an owner whose mediation is there is routed to no
one else; and an add that is rejected has deleted nothing. -/
def Routed (s : KeylistSystem) : Prop :=
  (∀ r ∈ s.store.rows, ∀ r' ∈ s.store.rows,
    canonicalizeRecipientKey r.recipientKey = canonicalizeRecipientKey r'.recipientKey → r = r') ∧
  (∀ key c m, s.owner key c = some m → s.store.mediations m ≠ none →
    ∀ r ∈ s.store.rows, r.recipientKey = key → s.granted r.mediationId = some c) ∧
  ∀ deleted ∈ s.rejections, deleted = ∅

/-- No add saves its row while another add of the key is between its scan and its end; and an
add whose mediation was gone at its start finds no row of a live mediation of another
connection. -/
def Keeps (s : KeylistSystem) : KeylistStep → Prop
  | .run t _ _ => ∀ task, s.tasks t = some task →
    (∀ key deleted, task.pc = .save key deleted →
      ∀ u other, u ≠ t → s.tasks u = some other → other.pc.addingKey ≠ some key) ∧
    (∀ key r stale deleted, task.pc = .check key none (r :: stale) deleted →
      s.store.mediations r.mediationId = none ∨
        s.granted r.mediationId = s.granted task.mediationId)
  | _ => True

/-! ## The invariant -/

/-- A key in the form it is stored in. -/
def Canonical (key : String) : Prop := canonicalizeRecipientKey key = key

/-- The add of the key has no row of another mediation left to check. -/
def Moving (key : String) : KeylistPc → Prop
  | .check k _ stale _ => k = key ∧ stale = []
  | .save k _ => k = key
  | _ => False

/-- What an update knows: from its scan on, the rows of the key are those it has still to check
and those of its own mediation. -/
def PcOk (store : KeylistStore) (granted : String → Option String) (m : String) : KeylistPc → Prop
  | .start => True
  | .scan key newConn => Canonical key ∧ ∀ nc, newConn = some nc → granted m = some nc
  | .check key newConn stale deleted =>
    Canonical key ∧ (∀ nc, newConn = some nc → granted m = some nc) ∧
      (∀ r ∈ stale, r.recipientKey = key ∧ granted r.mediationId ≠ none) ∧ stale.length ≤ 1 ∧
      (stale ≠ [] → deleted = ∅) ∧
      ∀ r ∈ store.rows, r.recipientKey = key → r ∈ stale ∨ r.mediationId = m
  | .delete key newConn row stale _ =>
    Canonical key ∧ (∀ nc, newConn = some nc → granted m = some nc) ∧ row.recipientKey = key ∧
      stale = [] ∧ granted row.mediationId ≠ none ∧
      (store.mediations row.mediationId = none ∨ granted row.mediationId = granted m) ∧
      ∀ r ∈ store.rows, r.recipientKey = key → r = row ∨ r.mediationId = m
  | .save key _ => Canonical key ∧ ∀ r ∈ store.rows, r.recipientKey ≠ key

/-- The registration of a key by a live mediation has its row, or an add of the same connection
is moving it. -/
def Owned (s : KeylistSystem) : Prop :=
  ∀ key c m, s.owner key c = some m → s.granted m = some c ∧
    (s.store.mediations m ≠ none → (∃ r ∈ s.store.rows, r.Matches m key) ∨
      ∃ t task, s.tasks t = some task ∧ Moving key task.pc ∧ s.granted task.mediationId = some c)

structure Invariant (s : KeylistSystem) : Prop where
  known : ∀ m c, s.store.mediations m = some c → s.granted m = some c
  one : s.store.rows.OneRow
  rows : ∀ r ∈ s.store.rows, Canonical r.recipientKey ∧ s.granted r.mediationId ≠ none
  tasks : ∀ t task, s.tasks t = some task → s.granted task.mediationId ≠ none ∧
    PcOk s.store s.granted task.mediationId task.pc
  owned : Owned s
  rejected : ∀ deleted ∈ s.rejections, deleted = ∅

variable {backend : KeylistBackend} {s s' : KeylistSystem} {store' : KeylistStore}
  {granted granted' : String → Option String} {m : String} {pc : KeylistPc}

theorem PcOk.mono {store : KeylistStore} (h : PcOk store granted m pc) (hm : granted m ≠ none)
    (hrows : ∀ r ∈ store'.rows, pc.addingKey = some r.recipientKey → r ∈ store.rows)
    (hgranted : ∀ m, granted m ≠ none → granted' m = granted m)
    (hmediations : ∀ m, granted m ≠ none → store.mediations m = none → store'.mediations m = none) :
    PcOk store' granted' m pc := by
  have hconn : ∀ {newConn : Option String}, (∀ nc, newConn = some nc → granted m = some nc) →
      ∀ nc, newConn = some nc → granted' m = some nc := by
    intro newConn hconn nc hnc
    rw [hgranted m hm, hconn nc hnc]
  cases pc with
  | start => trivial
  | scan key newConn => exact ⟨h.1, hconn h.2⟩
  | check key newConn stale deleted =>
    obtain ⟨hkey, hnc, hstale, hlength, hdeleted, hleft⟩ := h
    refine ⟨hkey, hconn hnc, fun r hr => ?_, hlength, hdeleted, fun r hr hrk => ?_⟩
    · obtain ⟨hrk, hgr⟩ := hstale r hr
      exact ⟨hrk, by rwa [hgranted _ hgr]⟩
    · exact hleft r (hrows r hr (by rw [hrk]; rfl)) hrk
  | delete key newConn row stale deleted =>
    obtain ⟨hkey, hnc, hrow, hstale, hgr, hmove, hleft⟩ := h
    refine ⟨hkey, hconn hnc, hrow, hstale, by rwa [hgranted _ hgr], ?_, fun r hr hrk => ?_⟩
    · rcases hmove with hgone | hsame
      · exact .inl (hmediations _ hgr hgone)
      · exact .inr (by rw [hgranted _ hgr, hgranted _ hm, hsame])
    · exact hleft r (hrows r hr (by rw [hrk]; rfl)) hrk
  | save key deleted =>
    exact ⟨h.1, fun r hr hrk => h.2 r (hrows r hr (by rw [hrk]; rfl)) hrk⟩

theorem Invariant.routed (h : Invariant s) : Routed s := by
  refine ⟨fun r hr r' hr' heq => ?_, fun key c m howner hlive r hr hrk => ?_, h.rejected⟩
  · rw [(h.rows r hr).1, (h.rows r' hr').1] at heq
    exact h.one r hr r' hr' heq
  · obtain ⟨hgranted, hkept⟩ := h.owned key c m howner
    rcases hkept hlive with ⟨r', hr', hmatch⟩ | ⟨t, task, ht, hmoving, hconn⟩
    · rw [h.one r hr r' hr' (hrk.trans hmatch.2.symm), hmatch.1, hgranted]
    · have hpc := (h.tasks t task ht).2
      cases hpcs : task.pc with
      | check k newConn stale deleted =>
        rw [hpcs] at hmoving hpc
        obtain ⟨rfl, rfl⟩ := hmoving
        rcases hpc.2.2.2.2.2 r hr hrk with hmem | hown
        · simp at hmem
        · rw [hown, hconn]
      | save k deleted =>
        rw [hpcs] at hmoving hpc
        obtain rfl : k = key := hmoving
        exact absurd hrk (hpc.2 r hr)
      | _ =>
        rw [hpcs] at hmoving
        cases hmoving

theorem invariant_start : Invariant start where
  known _ _ h := by cases h
  one _ hr := by simp [start] at hr
  rows _ hr := by simp [start] at hr
  tasks _ _ h := by cases h
  owned _ _ _ h := by cases h
  rejected _ h := by cases h

/-! ## Mediations come and go, batches start -/

variable {mediationId : String}

theorem Invariant.request (h : Invariant s) {connectionId : String}
    (hstep : s.step backend (.request mediationId connectionId) = some s') : Invariant s' := by
  simp only [step] at hstep
  split at hstep
  · cases hstep
  · next hfree =>
    cases hstep
    -- a mediation there has been is another one
    have hother : ∀ m, s.granted m ≠ none → m ≠ mediationId := by
      rintro m hm rfl
      exact hm hfree
    have hsame : ∀ m, s.granted m ≠ none →
        update s.granted mediationId (some connectionId) m = s.granted m :=
      fun m hm => update_of_ne (hother m hm) _ _
    refine ⟨fun m c hmc => ?_, h.one, fun r hr => ?_, fun t task ht => ?_,
      fun key c m howner => ?_, h.rejected⟩
    · by_cases hm : m = mediationId
      · simpa [hm] using hmc
      · simpa [hm] using h.known m c (by simpa [hm] using hmc)
    · obtain ⟨hkey, hgr⟩ := h.rows r hr
      exact ⟨hkey, (hsame _ hgr).trans_ne hgr⟩
    · obtain ⟨hgr, hpc⟩ := h.tasks t task ht
      refine ⟨(hsame _ hgr).trans_ne hgr, hpc.mono hgr (fun r hr _ => hr) hsame fun m hm hgone =>
        ?_⟩
      exact (update_of_ne (hother m hm) _ _).trans hgone
    · obtain ⟨hgr, hkept⟩ := h.owned key c m howner
      have hne : m ≠ mediationId := hother m (by simp [hgr])
      refine ⟨(hsame m (by simp [hgr])).trans hgr, fun hlive => ?_⟩
      have hlive' : s.store.mediations m ≠ none :=
        fun hgone => hlive ((update_of_ne hne _ _).trans hgone)
      refine (hkept hlive').imp_right ?_
      rintro ⟨t, task, ht, hmoving, hconn⟩
      exact ⟨t, task, ht, hmoving, (hsame _ (by simp [hconn])).trans hconn⟩

theorem Invariant.drop (h : Invariant s) (hstep : s.step backend (.drop mediationId) = some s') :
    Invariant s' := by
  cases hstep
  have hless : ∀ m, s.store.mediations m = none →
      update s.store.mediations mediationId none m = none := by
    intro m hm
    by_cases heq : m = mediationId
    · rw [heq, update_self]
    · rw [update_of_ne heq, hm]
  refine ⟨fun m c hmc => ?_, h.one, h.rows, fun t task ht => ?_, fun key c m howner => ?_,
    h.rejected⟩
  · by_cases hm : m = mediationId
    · simp [hm] at hmc
    · exact h.known m c (by simpa [hm] using hmc)
  · obtain ⟨hgr, hpc⟩ := h.tasks t task ht
    exact ⟨hgr, hpc.mono hgr (fun r hr _ => hr) (fun _ _ => rfl) fun m _ hm => hless m hm⟩
  · obtain ⟨hgr, hkept⟩ := h.owned key c m howner
    exact ⟨hgr, fun hlive => hkept fun hgone => hlive (hless m hgone)⟩

theorem Invariant.update (h : Invariant s) {t : ℕ} {updates : List KeylistUpdate}
    (hstep : s.step backend (.update t mediationId updates) = some s') : Invariant s' := by
  simp only [step] at hstep
  split at hstep
  · next hfree hgranted =>
    cases hstep
    refine ⟨h.known, h.one, h.rows, fun u task hu => ?_, fun key c m howner => ?_, h.rejected⟩
    · rcases update_eq_some hu with ⟨-, rfl⟩ | ⟨-, hu⟩
      · exact ⟨by simp [hgranted], trivial⟩
      · exact h.tasks u task hu
    · obtain ⟨hgr, hkept⟩ := h.owned key c m howner
      refine ⟨hgr, fun hlive => (hkept hlive).imp_right ?_⟩
      rintro ⟨u, task, hu, hmoving, hconn⟩
      have hne : u ≠ t := by
        rintro rfl
        rw [hfree] at hu
        cases hu
      exact ⟨u, task, (update_of_ne hne _ _).trans hu, hmoving, hconn⟩
  · cases hstep

/-! ## A batch goes on -/

@[simp] theorem record_store (s : KeylistSystem) (m : String) (event : KeylistEvent) :
    (s.record m event).store = s.store := by
  cases event with
  | registered key =>
    simp only [record]
    split <;> rfl
  | _ => rfl

@[simp] theorem record_tasks (s : KeylistSystem) (m : String) (event : KeylistEvent) :
    (s.record m event).tasks = s.tasks := by
  cases event with
  | registered key =>
    simp only [record]
    split <;> rfl
  | _ => rfl

@[simp] theorem record_granted (s : KeylistSystem) (m : String) (event : KeylistEvent) :
    (s.record m event).granted = s.granted := by
  cases event with
  | registered key =>
    simp only [record]
    split <;> rfl
  | _ => rfl

theorem owner_of_registered {m m' key k c conn : String}
    (h : (s.record m (.registered key)).owner k c = some m') (hconn : s.granted m = some conn) :
    (k = key ∧ c = conn ∧ m' = m) ∨ (¬ (k = key ∧ c = conn) ∧ s.owner k c = some m') := by
  simp only [record, hconn] at h
  by_cases hk : k = key
  · by_cases hc : c = conn
    · simp [hk, hc] at h
      exact .inl ⟨hk, hc, h.symm⟩
    · simp [hk, hc] at h
      exact .inr ⟨fun hboth => hc hboth.2, hk ▸ h⟩
  · simp [hk] at h
    exact .inr ⟨fun hboth => hk hboth.1, h⟩

theorem owner_of_removed {m m' key k c : String}
    (h : (s.record m (.removed key)).owner k c = some m') :
    s.owner k c = some m' ∧ (k = key → m' ≠ m) := by
  simp only [record] at h
  by_cases hk : k = key
  · simp only [hk, update_self] at h
    split_ifs at h with hm
    refine ⟨hk ▸ h, fun _ heq => hm (by rw [h, heq])⟩
  · rw [update_of_ne hk] at h
    exact ⟨h, fun heq => absurd heq hk⟩

section

variable {t : ℕ} {task task' : KeylistTask} {rows : Keylist} {event : KeylistEvent}

theorem Invariant.advance (h : Invariant s) (ht : s.tasks t = some task)
    (hid : task'.mediationId = task.mediationId) (hone : rows.OneRow)
    (hrows : ∀ r ∈ rows, Canonical r.recipientKey ∧ s.granted r.mediationId ≠ none)
    (hothers : ∀ u other, u ≠ t → s.tasks u = some other → ∀ r ∈ rows,
      other.pc.addingKey = some r.recipientKey → r ∈ s.store.rows)
    (hpc : PcOk { s.store with rows := rows } s.granted task.mediationId task'.pc)
    (howned : Owned (record { s with
      store := { s.store with rows := rows }, tasks := Function.update s.tasks t (some task') }
      task.mediationId event))
    (hrejected : ∀ deleted, event = .rejected deleted → deleted = ∅) :
    Invariant (record { s with
      store := { s.store with rows := rows }, tasks := Function.update s.tasks t (some task') }
      task.mediationId event) := by
  refine ⟨?_, ?_, ?_, fun u other hu => ?_, howned, fun deleted hdeleted => ?_⟩
  · simpa using h.known
  · simpa using hone
  · simpa using hrows
  · rw [record_tasks] at hu
    rw [record_granted, record_store]
    rcases update_eq_some hu with ⟨-, rfl⟩ | ⟨hne, hu⟩
    · rw [hid]
      exact ⟨(h.tasks t task ht).1, hpc⟩
    · obtain ⟨hgr, hok⟩ := h.tasks u other hu
      exact ⟨hgr, hok.mono hgr (hothers u other hne hu) (fun _ _ => rfl) (fun _ _ hgone => hgone)⟩
  · cases event with
    | rejected d =>
      rcases List.mem_append.1 hdeleted with hold | hnew
      · exact h.rejected deleted hold
      · rw [List.mem_singleton.1 hnew]
        exact hrejected d rfl
    | registered key =>
      simp only [record] at hdeleted
      split at hdeleted
      · exact h.rejected deleted hdeleted
      · exact h.rejected deleted hdeleted
    | none | removed key => exact h.rejected deleted hdeleted

variable {key : String}

theorem kept_of {c m : String} (ht : s.tasks t = some task)
    (hid : task'.mediationId = task.mediationId)
    (hrow : ∀ r ∈ s.store.rows, r.Matches m key → (∃ r ∈ rows, r.Matches m key) ∨
      (Moving key task'.pc ∧ s.granted task.mediationId = some c))
    (htask : Moving key task.pc → s.granted task.mediationId = some c → Moving key task'.pc)
    (hkept : (∃ r ∈ s.store.rows, r.Matches m key) ∨
      ∃ u x, s.tasks u = some x ∧ Moving key x.pc ∧ s.granted x.mediationId = some c) :
    (∃ r ∈ rows, r.Matches m key) ∨ ∃ u x, update s.tasks t (some task') u = some x ∧
      Moving key x.pc ∧ s.granted x.mediationId = some c := by
  rcases hkept with ⟨r, hr, hmatch⟩ | ⟨u, x, hu, hmoving, hconn⟩
  · refine (hrow r hr hmatch).imp_right ?_
    rintro ⟨hmoving, hconn⟩
    exact ⟨t, task', update_self _ _ _, hmoving, by rwa [hid]⟩
  · by_cases hne : u = t
    · rw [hne, ht] at hu
      obtain rfl := some.inj hu
      exact .inr ⟨t, task', update_self _ _ _, htask hmoving hconn, by rwa [hid]⟩
    · exact .inr ⟨u, x, (update_of_ne hne _ _).trans hu, hmoving, hconn⟩

theorem Invariant.look (h : Invariant s) (ht : s.tasks t = some task)
    (hid : task'.mediationId = task.mediationId)
    (hpc : PcOk s.store s.granted task.mediationId task'.pc)
    (hmoving : ∀ key, Moving key task.pc → Moving key task'.pc)
    (hevent : event = .none ∨ event = .rejected ∅) :
    Invariant (record { s with tasks := Function.update s.tasks t (some task') }
      task.mediationId event) := by
  refine h.advance ht hid h.one h.rows (fun _ _ _ _ r hr _ => hr) hpc ?_ ?_
  · have howned : Owned { s with tasks := Function.update s.tasks t (some task') } := by
      intro key c m howner
      obtain ⟨hgr, hkept⟩ := h.owned key c m howner
      refine ⟨hgr, fun hlive => ?_⟩
      exact kept_of ht hid (fun r hr hmatch => .inl ⟨r, hr, hmatch⟩)
        (fun hold _ => hmoving key hold) (hkept hlive)
    rcases hevent with rfl | rfl
    · exact howned
    · exact howned
  · rintro deleted rfl
    simpa using hevent

variable {deleted : Keylist}

theorem Invariant.deleteRow (h : Invariant s) (ht : s.tasks t = some task) {newConn : Option String}
    {row : KeylistRecord} {stale : List KeylistRecord}
    (hpcs : task.pc = .delete key newConn row stale deleted) (order : IterOrder KeylistRecord)
    (deleted' : Keylist) :
    Invariant (record { s with
      store := { s.store with
        rows := s.store.rows.deleteByRecipientKey order row.mediationId key backend }
      tasks := Function.update s.tasks t
        (some { task with pc := .check key newConn stale deleted' }) } task.mediationId .none) := by
  have hok := (h.tasks t task ht).2
  rw [hpcs] at hok
  obtain ⟨hkey, hconn, hrow, rfl, -, hmove, hleft⟩ := hok
  have hmem : ∀ r, r ∈ s.store.rows.deleteByRecipientKey order row.mediationId key backend ↔
      r ∈ s.store.rows ∧ ¬ r.Matches row.mediationId key := h.one.mem_delete backend
  refine h.advance ht rfl (fun r hr r' hr' => ?_) (fun r hr => ?_) (fun _ _ _ _ r hr _ => ?_)
    ⟨hkey, hconn, ?_, ?_, ?_, fun r hr hrk => ?_⟩ (fun k c m howner => ?_) ?_
  · exact h.one r ((hmem r).1 hr).1 r' ((hmem r').1 hr').1
  · exact h.rows r ((hmem r).1 hr).1
  · exact ((hmem r).1 hr).1
  · simp
  · simp
  · simp
  · obtain ⟨hold, hnot⟩ := (hmem r).1 hr
    rcases hleft r hold hrk with rfl | hown
    · exact absurd ⟨rfl, hrk⟩ hnot
    · exact .inr hown
  · obtain ⟨hgr, hkept⟩ := h.owned k c m howner
    refine ⟨hgr, fun hlive => kept_of ht rfl (fun r hr hmatch => ?_) (fun hold => ?_) (hkept hlive)⟩
    · by_cases hgone : r.Matches row.mediationId key
      · -- the row of a live registration: it is one of the same connection
        have hm : m = row.mediationId := hmatch.1.symm.trans hgone.1
        have hk : key = k := hgone.2.symm.trans hmatch.2
        rcases hmove with hdead | hsame
        · exact absurd (hm ▸ hdead) hlive
        · exact .inr ⟨⟨hk, rfl⟩, by rw [← hsame, ← hm, hgr]⟩
      · exact .inl ⟨r, (hmem r).2 ⟨hr, hgone⟩, hmatch⟩
    · rw [hpcs] at hold
      cases hold
  · simp

theorem Invariant.alreadyAdded (h : Invariant s) (ht : s.tasks t = some task)
    {newConn : Option String} (hpcs : task.pc = .check key newConn [] deleted)
    {found : KeylistRecord} (hfound : found ∈ s.store.rows)
    (hmatch : found.Matches task.mediationId key) :
    Invariant (record { s with
      tasks := Function.update s.tasks t (some (task.finish .success)) } task.mediationId
      (.registered key)) := by
  obtain ⟨conn, hconn⟩ := ne_none_iff_exists'.1 (h.tasks t task ht).1
  refine h.advance ht rfl h.one h.rows (fun _ _ _ _ r hr _ => hr) trivial (fun k c m howner => ?_)
    (by simp)
  rw [record_granted, record_store, record_tasks]
  rcases owner_of_registered howner hconn with ⟨rfl, rfl, rfl⟩ | ⟨hk, howner⟩
  · exact ⟨hconn, fun _ => .inl ⟨found, hfound, hmatch⟩⟩
  · obtain ⟨hgr, hkept⟩ := h.owned k c m howner
    refine ⟨hgr, fun hlive => kept_of ht rfl (fun r hr hm => .inl ⟨r, hr, hm⟩) (fun hold hc => ?_)
      (hkept hlive)⟩
    rw [hpcs] at hold
    exact absurd ⟨hold.1.symm, some.inj (hc.symm.trans hconn)⟩ hk

theorem Invariant.saveRow (h : Invariant s) (ht : s.tasks t = some task)
    (hpcs : task.pc = .save key deleted)
    (halone : ∀ u other, u ≠ t → s.tasks u = some other → other.pc.addingKey ≠ some key)
    (id : String) :
    Invariant (record { s with
      store := { s.store with rows := s.store.rows.save ⟨id, task.mediationId, key⟩ }
      tasks := Function.update s.tasks t (some (task.finish .success)) } task.mediationId
      (.registered key)) := by
  obtain ⟨hgranted, hok⟩ := h.tasks t task ht
  obtain ⟨conn, hconn⟩ := ne_none_iff_exists'.1 hgranted
  rw [hpcs] at hok
  obtain ⟨hkey, hnone⟩ := hok
  refine h.advance ht rfl (fun r hr r' hr' heq => ?_) (fun r hr => ?_)
    (fun u other hne hu r hr hadding => ?_) trivial (fun k c m howner => ?_) (by simp)
  · rcases mem_insert.1 hr with rfl | hr <;> rcases mem_insert.1 hr' with rfl | hr'
    · rfl
    · exact absurd heq.symm (hnone r' hr')
    · exact absurd heq (hnone r hr)
    · exact h.one r hr r' hr' heq
  · rcases mem_insert.1 hr with rfl | hr
    · exact ⟨hkey, hgranted⟩
    · exact h.rows r hr
  · rcases mem_insert.1 hr with rfl | hr
    · exact absurd hadding (halone u other hne hu)
    · exact hr
  · rw [record_granted, record_store, record_tasks]
    rcases owner_of_registered howner hconn with ⟨rfl, rfl, rfl⟩ | ⟨hk, howner⟩
    · exact ⟨hconn, fun _ => .inl ⟨_, mem_insert_self _ _, rfl, rfl⟩⟩
    · obtain ⟨hgr, hkept⟩ := h.owned k c m howner
      refine ⟨hgr, fun hlive => kept_of ht rfl (fun r hr hm => ?_) (fun hold hc => ?_)
        (hkept hlive)⟩
      · exact .inl ⟨r, mem_insert_of_mem hr, hm⟩
      · rw [hpcs] at hold
        exact absurd ⟨Eq.symm hold, some.inj (hc.symm.trans hconn)⟩ hk

theorem Invariant.removeRow (h : Invariant s) (ht : s.tasks t = some task)
    (hpcs : task.pc = .start) (order : IterOrder KeylistRecord) (key : String) :
    Invariant (record { s with
      store := { s.store with
        rows := s.store.rows.deleteByRecipientKey order task.mediationId key backend }
      tasks := Function.update s.tasks t (some (task.finish .success)) } task.mediationId
      (.removed key)) := by
  have hmem : ∀ r, r ∈ s.store.rows.deleteByRecipientKey order task.mediationId key backend ↔
      r ∈ s.store.rows ∧ ¬ r.Matches task.mediationId key := h.one.mem_delete backend
  refine h.advance ht rfl (fun r hr r' hr' => ?_) (fun r hr => ?_) (fun _ _ _ _ r hr _ => ?_)
    trivial (fun k c m howner => ?_) (by simp)
  · exact h.one r ((hmem r).1 hr).1 r' ((hmem r').1 hr').1
  · exact h.rows r ((hmem r).1 hr).1
  · exact ((hmem r).1 hr).1
  · obtain ⟨howner, hne⟩ := owner_of_removed howner
    obtain ⟨hgr, hkept⟩ := h.owned k c m howner
    refine ⟨hgr, fun hlive => kept_of ht rfl (fun r hr hmatch => ?_) (fun hold => ?_) (hkept hlive)⟩
    · refine .inl ⟨r, (hmem r).2 ⟨hr, fun hgone => ?_⟩, hmatch⟩
      exact hne (hmatch.2.symm.trans hgone.2) (hmatch.1.symm.trans hgone.1)
    · rw [hpcs] at hold
      cases hold

theorem Invariant.length_stale_le (h : Invariant s) (order : IterOrder KeylistRecord)
    (key m : String) :
    ((s.store.rows.getAll order).filter fun r =>
      r.recipientKey = key ∧ r.mediationId ≠ m).length ≤ 1 := by
  have hnodup := (order.nodup_list s.store.rows).filter fun r =>
    decide (r.recipientKey = key ∧ r.mediationId ≠ m)
  have hsame : ∀ r ∈ (s.store.rows.getAll order).filter fun r =>
      r.recipientKey = key ∧ r.mediationId ≠ m, r ∈ s.store.rows ∧ r.recipientKey = key := by
    intro r hr
    have hmem := List.mem_filter.1 hr
    simp only [getAll, IterOrder.mem_list, decide_eq_true_eq] at hmem
    exact ⟨hmem.1, hmem.2.1⟩
  unfold getAll at hsame ⊢
  cases hl : (order.list s.store.rows).filter fun r =>
      decide (r.recipientKey = key ∧ r.mediationId ≠ m) with
  | nil => simp
  | cons r l =>
    cases l with
    | nil => simp
    | cons r' l =>
      rw [hl] at hnodup hsame
      obtain ⟨hr, hrk⟩ := hsame r (by simp)
      obtain ⟨hr', hrk'⟩ := hsame r' (by simp)
      have heq : r = r' := h.one r hr r' hr' (hrk.trans hrk'.symm)
      simp [heq] at hnodup

theorem Invariant.next (h : Invariant s) {order : IterOrder KeylistRecord} {id : String}
    (hk : s.Keeps (.run t order id)) (ht : s.tasks t = some task)
    (hnext : task.next backend order id s.store = some (store', task', event)) :
    Invariant (record { s with store := store', tasks := Function.update s.tasks t (some task') }
      task.mediationId event) := by
  obtain ⟨hgranted, hok⟩ := h.tasks t task ht
  obtain ⟨halone, hgone⟩ := hk task ht
  cases hpcs : task.pc with
  | start =>
    cases hupdates : task.updates with
    | nil => simp [KeylistTask.next, hpcs, hupdates] at hnext
    | cons update rest =>
      cases haction : update.action with
      | add =>
        simp only [KeylistTask.next, hpcs, hupdates, haction] at hnext
        cases hnext
        refine h.look ht rfl ⟨canonicalizeRecipientKey_idem _, fun nc hnc => h.known _ nc hnc⟩
          (fun key hmoving => ?_) (.inl rfl)
        rw [hpcs] at hmoving
        cases hmoving
      | remove =>
        simp only [KeylistTask.next, hpcs, hupdates, haction] at hnext
        cases hnext
        exact h.removeRow ht hpcs order _
  | scan key newConn =>
    simp only [KeylistTask.next, hpcs] at hnext
    cases hnext
    rw [hpcs] at hok
    refine h.look ht rfl ⟨hok.1, hok.2, fun r hr => ?_, h.length_stale_le order key _, fun _ => rfl,
      fun r hr hrk => ?_⟩ (fun key hmoving => ?_) (.inl rfl)
    · have hmem := List.mem_filter.1 hr
      simp only [getAll, IterOrder.mem_list, decide_eq_true_eq] at hmem
      exact ⟨hmem.2.1, (h.rows r hmem.1).2⟩
    · by_cases hm : r.mediationId = task.mediationId
      · exact .inr hm
      · refine .inl (List.mem_filter.2 ⟨(order.mem_list _ r).2 hr, ?_⟩)
        simp [hrk, hm]
    · rw [hpcs] at hmoving
      cases hmoving
  | check key newConn stale deleted =>
    rw [hpcs] at hok
    obtain ⟨hkey, hconn, hstale, hlength, hdeleted, hleft⟩ := hok
    cases stale with
    | nil =>
      cases hfind : s.store.rows.findByRecipientKey order task.mediationId key with
      | some found =>
        simp only [KeylistTask.next, hpcs, hfind] at hnext
        cases hnext
        obtain ⟨hmem, hmatch⟩ := of_findByRecipientKey hfind
        exact h.alreadyAdded ht hpcs hmem hmatch
      | none =>
        simp only [KeylistTask.next, hpcs, hfind] at hnext
        cases hnext
        refine h.look ht rfl ⟨hkey, fun r hr hrk => ?_⟩ (fun k hmoving => ?_) (.inl rfl)
        · rcases hleft r hr hrk with hmem | hown
          · simp at hmem
          · exact findByRecipientKey_eq_none.1 hfind r hr ⟨hown, hrk⟩
        · rw [hpcs] at hmoving
          exact hmoving.1
    | cons r stale =>
      obtain rfl : stale = [] := by
        simpa using hlength
      obtain ⟨hrk, hgr⟩ := hstale r (by simp)
      have hnot : ∀ k, ¬ Moving k task.pc := by
        intro k hmoving
        rw [hpcs] at hmoving
        simpa using hmoving.2
      -- the row may be deleted: its mediation is gone or is one of the same connection
      have hdelete : (s.store.mediations r.mediationId = none ∨
          s.granted r.mediationId = s.granted task.mediationId) →
          PcOk s.store s.granted task.mediationId (.delete key newConn r [] deleted) := by
        intro hmove
        refine ⟨hkey, hconn, hrk, rfl, hgr, hmove, fun r' hr' hrk' => ?_⟩
        exact (hleft r' hr' hrk').imp_left List.mem_singleton.1
      cases hold : s.store.mediations r.mediationId with
      | none =>
        simp only [KeylistTask.next, hpcs, hold] at hnext
        cases hnext
        exact h.look ht rfl (hdelete (.inl hold)) (fun k hk => absurd hk (hnot k)) (.inl rfl)
      | some oc =>
        cases newConn with
        | none =>
          simp only [KeylistTask.next, hpcs, hold] at hnext
          cases hnext
          exact h.look ht rfl (hdelete (hgone key r [] deleted hpcs))
            (fun k hk => absurd hk (hnot k)) (.inl rfl)
        | some nc =>
          simp only [KeylistTask.next, hpcs, hold] at hnext
          split_ifs at hnext with heq
          · cases hnext
            refine h.look ht rfl (hdelete (.inr ?_)) (fun k hk => absurd hk (hnot k)) (.inl rfl)
            rw [h.known _ oc hold, hconn nc rfl, heq]
          · cases hnext
            rw [hdeleted (by simp)]
            exact h.look ht rfl trivial (fun k hk => absurd hk (hnot k)) (.inr rfl)
  | delete key newConn row stale deleted =>
    simp only [KeylistTask.next, hpcs] at hnext
    cases hnext
    exact h.deleteRow ht hpcs order _
  | save key deleted =>
    simp only [KeylistTask.next, hpcs] at hnext
    cases hnext
    exact h.saveRow ht hpcs (halone key deleted hpcs) id

end

theorem Invariant.step (h : Invariant s) {a : KeylistStep} (hk : s.Keeps a)
    (hstep : s.step backend a = some s') : Invariant s' := by
  cases a with
  | request mediationId connectionId => exact h.request hstep
  | drop mediationId => exact h.drop hstep
  | update t mediationId updates => exact h.update hstep
  | run t order id =>
    simp only [KeylistSystem.step] at hstep
    split at hstep
    · cases hstep
    · next task ht =>
      split_ifs at hstep with hfresh
      split at hstep
      · cases hstep
      · next store' task' event hnext =>
        cases hstep
        exact h.next hk ht hnext

/-- **A recipient key routes to one identity** in every run, over both repositories, if no add
saves its row while another add of the key is between its scan and its end, and no add whose
mediation is gone finds a row of a live mediation of another connection. -/
theorem routed_of_along {steps : List KeylistStep}
    (hk : Along (KeylistSystem.step backend) Keeps start steps)
    (hexec : exec (KeylistSystem.step backend) start steps = some s) : Routed s :=
  (exec_invariant_along (fun _ _ _ h hk hstep => Invariant.step h hk hstep) invariant_start
    hk hexec).routed

end KeylistSystem

open KeylistSystem

namespace Sample

theorem canonicalize_key : canonicalizeRecipientKey "key" = "key" := by decide

/-- Two tenants add the same key, one after the other: the second is rejected. -/
noncomputable def registered : List KeylistStep :=
  [.request "m1" "alice", .request "m2" "mallory", .update 0 "m1" [⟨"key", .add⟩],
    .run 0 .some "r1", .run 0 .some "r1", .run 0 .some "r1", .run 0 .some "r1",
    .update 1 "m2" [⟨"key", .add⟩], .run 1 .some "r2", .run 1 .some "r2", .run 1 .some "r2"]

/-- Two tenants add the same key; both scan before either saves. -/
noncomputable def racing : List KeylistStep :=
  [.request "m1" "alice", .request "m2" "mallory", .update 0 "m1" [⟨"key", .add⟩],
    .update 1 "m2" [⟨"key", .add⟩], .run 0 .some "r1", .run 1 .some "r2", .run 0 .some "r1",
    .run 1 .some "r2", .run 0 .some "r1", .run 1 .some "r2", .run 0 .some "r1", .run 1 .some "r2"]

end Sample

open Sample

namespace KeylistSystem

theorem routed_of_along_registered :
    ∃ s, exec (step .memory) start registered = some s ∧
      s.store.rows = {⟨"r1", "m1", "key"⟩} ∧ Routed s := by
  have hk : Along (step .memory) Keeps start registered := by
    simp only [registered, Along, Keeps, step, next, start, getAll, findByRecipientKey, record]
    simp
    intro u other hu hother
    simp [update_of_ne hu] at hother
  have hexec : ∃ s, exec (step .memory) start registered = some s ∧
      s.store.rows = {⟨"r1", "m1", "key"⟩} := by
    simp [registered, exec, step, next, canonicalize_key, start, getAll, findByRecipientKey, save,
      IterOrder.list_singleton]
  obtain ⟨s, hs, hrows⟩ := hexec
  exact ⟨s, hs, hrows, routed_of_along hk hs⟩

/-- Both adds save: the key has two rows, of two connections. -/
theorem routed_fails_racing : ∃ s, exec (step .memory) start racing = some s ∧ ¬ Routed s := by
  have hexec : ∃ s, exec (step .memory) start racing = some s ∧
      s.store.rows = {⟨"r2", "m2", "key"⟩, ⟨"r1", "m1", "key"⟩} := by
    simp [racing, exec, step, next, canonicalize_key, start, getAll, findByRecipientKey, save]
  obtain ⟨s, hs, hrows⟩ := hexec
  refine ⟨s, hs, fun h => ?_⟩
  have hsame := h.1 ⟨"r1", "m1", "key"⟩ (by simp [hrows]) ⟨"r2", "m2", "key"⟩ (by simp [hrows]) rfl
  simp at hsame

end KeylistSystem

end Idiom.Mediation
