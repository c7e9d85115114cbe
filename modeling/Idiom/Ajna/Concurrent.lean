import Idiom.Ajna.Deactivated
import Idiom.Lib.Run

/-!
# Concurrent calls on one `AjnaMethod`

Every call is a sequence of lock scopes: read the registry, (create what is missing,)
write the registry, append to the history. Between two scopes any other call may run,
and the clone a call changes may be stale by the time it is written back.
-/

namespace Idiom.Ajna

open Sample Run Function AjnaMethod List

/-! ## Calls, one lock scope at a time -/

/-- Where a call stands between two lock scopes. -/
inductive Pc where
  /-- Before the first read of the registry. -/
  | start
  /-- Inside `create`, before its own check. -/
  | createCheck
  /-- Inside `create`, about to write the new document. -/
  | createWrite (document : AjnaDocument)
  /-- Inside `create`, about to reset the history. -/
  | createHistory (document : AjnaDocument)
  /-- About to write `document`, made from the clone `snapshot`. -/
  | write (snapshot document : AjnaDocument)
  /-- About to append to the history. -/
  | record (document : AjnaDocument)
  /-- Returned. -/
  | done (result : Result AjnaDocument)

open Pc

section

variable (host : Host) (call : Call) (env : CallAmbient)

/-- The call holds a clone: change it. -/
def Pc.changed (snapshot : AjnaDocument) : Pc :=
  match call.transform host env snapshot with
  | .error fault => .done (.error fault)
  | .ok document => .write snapshot document

/-- The next lock scope of a call. -/
def Pc.next (m : AjnaMethod) : Pc → Option (AjnaMethod × Pc)
  | .start =>
    if call.onlyCreates then
      some (m, if (m.registry.lookup call.did).isSome then
        .done (.error (.err (.invalidOperation ("DID already exists: " ++ call.did))))
        else .createWrite (call.newDocument m.nodeId env))
    else
      match m.registry.lookup call.did with
      | some document => some (m, changed host call env document)
      | none =>
        if call.createsMissing then some (m, .createCheck)
        else some (m, .done (.error (.err (.didNotFound call.did))))
  | .createCheck =>
    some (m, if (m.registry.lookup call.did).isSome then
      .done (.error (.err (.invalidOperation ("DID already exists: " ++ call.did))))
      else .createWrite (call.newDocument m.nodeId env))
  | .createWrite document => some (m.insertDocument call.did document, .createHistory document)
  | .createHistory document =>
    some (m.initHistory call.did,
      if call.onlyCreates then .done (.ok document) else changed host call env document)
  | .write _ document =>
    some (m.insertDocument call.did document,
      match call.record host m.nodeId env with
      | none => .done (.ok document)
      | some _ => .record document)
  | .record document =>
    match call.record host m.nodeId env with
    | none => none
    | some mkNode =>
      match m.pushHistory host call.did mkNode with
      | (m, .error fault) => some (m, .done (.error fault))
      | (m, .ok ()) => some (m, .done (.ok document))
  | .done _ => none

end

/-- The calls in flight, by task, and where each of them stands. -/
structure Pool (ι : Type) where
  method : AjnaMethod
  pc : ι → Pc

open Pool

section

variable {ι : Type} [DecidableEq ι] (host : Host) (calls : ι → Call × CallAmbient)

/-- Before any call has done anything. -/
def Pool.init (m : AjnaMethod) : Pool ι := ⟨m, fun _ => .start⟩

/-- The scheduler lets task `i` run one lock scope. -/
def Pool.step (s : Pool ι) (i : ι) : Option (Pool ι) :=
  ((s.pc i).next host (calls i).1 (calls i).2 s.method).map fun p =>
    ⟨p.1, update s.pc i p.2⟩

theorem Pool.step_eq_some {s s' : Pool ι} {i : ι} :
    step host calls s i = some s' ↔
      ∃ m' pc', (s.pc i).next host (calls i).1 (calls i).2 s.method = some (m', pc') ∧
        s' = ⟨m', update s.pc i pc'⟩ := by
  unfold step
  rw [Option.map_eq_some_iff]
  constructor
  · rintro ⟨⟨m', pc'⟩, hnext, rfl⟩
    exact ⟨m', pc', hnext, rfl⟩
  · rintro ⟨m', pc', hnext, rfl⟩
    exact ⟨(m', pc'), hnext, rfl⟩

end

/-! ## What one lock scope does to the registry -/

section

variable {host : Host} {call : Call} {env : CallAmbient} {m m' : AjnaMethod} {pc pc' : Pc}

/-- What a call has written so far, given where it stands. -/
def Pc.Consistent (host : Host) (call : Call) (env : CallAmbient) (nodeId : String)
    (created updated : Prop) : Pc → Prop
  | .start => ¬ created ∧ ¬ updated
  | .createCheck => ¬ created ∧ ¬ updated ∧ call.onlyCreates = false
  | .createWrite document => ¬ created ∧ ¬ updated ∧ document = call.newDocument nodeId env
  | .createHistory _ => created ∧ ¬ updated
  | .write snapshot document =>
    ¬ updated ∧ call.transform host env snapshot = .ok document ∧ call.onlyCreates = false
  | .record _ => updated ∧ call.onlyCreates = false
  | .done (.ok _) => if call.onlyCreates then created else updated
  | .done (.error _) => True

theorem Pc.consistent_changed {nodeId : String} {created updated : Prop} (hu : ¬ updated)
    (hc : call.onlyCreates = false) (snapshot : AjnaDocument) :
    (changed host call env snapshot).Consistent host call env nodeId created updated := by
  unfold changed
  cases ht : call.transform host env snapshot with
  | error fault => trivial
  | ok document => exact ⟨hu, ht, hc⟩

/-- Everything a lock scope can do: leave the registry alone, create, or update. -/
theorem Pc.next_cases (h : pc.next host call env m = some (m', pc')) : m'.nodeId = m.nodeId ∧
    ((m'.registry = m.registry ∧ ∀ created updated,
        pc.Consistent host call env m.nodeId created updated →
        pc'.Consistent host call env m.nodeId created updated) ∨
      (∃ document, pc = .createWrite document ∧ pc' = .createHistory document ∧
        m'.registry = m.registry.insert call.did document) ∨
      (∃ snapshot document, pc = .write snapshot document ∧
        (pc' = .done (.ok document) ∨ pc' = .record document) ∧
        m'.registry = m.registry.insert call.did document)) := by
  cases pc with
  | start =>
    simp only [next] at h
    split at h
    · cases h
      refine ⟨rfl, .inl ⟨rfl, fun created updated hc => ?_⟩⟩
      split
      · trivial
      · exact ⟨hc.1, hc.2, rfl⟩
    · next hcreates =>
      have hcreates' : call.onlyCreates = false := by simpa using hcreates
      split at h
      · cases h
        exact ⟨rfl, .inl ⟨rfl, fun created updated hc =>
          consistent_changed hc.2 hcreates' _⟩⟩
      · split at h
        · cases h
          exact ⟨rfl, .inl ⟨rfl, fun created updated hc => ⟨hc.1, hc.2, hcreates'⟩⟩⟩
        · cases h
          exact ⟨rfl, .inl ⟨rfl, fun _ _ _ => trivial⟩⟩
  | createCheck =>
    cases h
    refine ⟨rfl, .inl ⟨rfl, fun created updated hc => ?_⟩⟩
    split
    · trivial
    · exact ⟨hc.1, hc.2.1, rfl⟩
  | createWrite document =>
    cases h
    exact ⟨rfl, .inr (.inl ⟨document, rfl, rfl, rfl⟩)⟩
  | createHistory document =>
    cases h
    refine ⟨rfl, .inl ⟨rfl, fun created updated hc => ?_⟩⟩
    split
    · next hcreates =>
      show (if call.onlyCreates then created else updated)
      rw [if_pos hcreates]
      exact hc.1
    · next hcreates => exact consistent_changed hc.2 (by simpa using hcreates) _
  | write snapshot document =>
    cases h
    refine ⟨rfl, .inr (.inr ⟨snapshot, document, rfl, ?_, rfl⟩)⟩
    split
    · exact .inl rfl
    · exact .inr rfl
  | record document =>
    simp only [next] at h
    split at h
    · cases h
    · next mkNode hr =>
      have hreg := registry_pushHistory host m call.did mkNode
      have hnode := nodeId_pushHistory host m call.did mkNode
      cases hp : m.pushHistory host call.did mkNode with
      | mk m₁ r =>
        rw [hp] at h hreg hnode
        cases r with
        | error fault =>
          cases h
          exact ⟨hnode, .inl ⟨hreg, fun _ _ _ => trivial⟩⟩
        | ok u =>
          cases h
          refine ⟨hnode, .inl ⟨hreg, fun created updated hc => ?_⟩⟩
          show (if call.onlyCreates then created else updated)
          rw [if_neg (by simp [hc.2])]
          exact hc.1
  | done r => cases h

end

/-! ## Writes one after another -/

/-- The two kinds of registry write a call makes. -/
inductive WriteKind where
  | creates
  | updates
  deriving DecidableEq

open WriteKind

/-- The write that carries the effect of a call. -/
def Call.finalWrite (call : Call) : WriteKind := if call.onlyCreates then .creates else .updates

section

variable {ι : Type} [DecidableEq ι] (host : Host) (calls : ι → Call × CallAmbient)

/-- Perform one write on the document the writes before it have made: a creation needs
the DID to be free, an update needs a document it can transform. -/
def performWrite (nodeId : String) (o : Option AjnaDocument) (w : ι × WriteKind) :
    Option (Option AjnaDocument) :=
  match w.2, o with
  | .creates, none => some (some ((calls w.1).1.newDocument nodeId (calls w.1).2))
  | .updates, some document =>
    match (calls w.1).1.transform host (calls w.1).2 document with
    | .ok document' => some (some document')
    | .error _ => none
  | _, _ => none

/-- The registry holds what some of the calls' writes make of the document that was
there before, performed one after another, and every call that returned `Ok` has its
write among them. -/
def NoLostUpdate (did : String) (before : Option AjnaDocument) (s : Pool ι) : Prop :=
  ∃ writes : List (ι × WriteKind), writes.Nodup ∧ (∀ w ∈ writes, (calls w.1).1.did = did) ∧
    (∀ i document, (calls i).1.did = did → s.pc i = .done (.ok document) →
      (i, (calls i).1.finalWrite) ∈ writes) ∧
    exec (performWrite host calls s.method.nodeId) before writes =
      some (s.method.registry.lookup did)

/-- The write task `i` is about to make replaces what the task has seen: nothing for a
creation, its snapshot for an update. -/
def Pool.FreshWrite (s : Pool ι) (i : ι) : Prop :=
  match s.pc i with
  | .createWrite _ => s.method.registry.lookup (calls i).1.did = none
  | .write snapshot _ => s.method.registry.lookup (calls i).1.did = some snapshot
  | _ => True

/-- The invariant: the writes made so far, in the order they were made. -/
structure SerialUpTo (did : String) (before : Option AjnaDocument) (nodeId : String)
    (writes : List (ι × WriteKind)) (s : Pool ι) : Prop where
  node : s.method.nodeId = nodeId
  nodup : writes.Nodup
  same : ∀ w ∈ writes, (calls w.1).1.did = did
  tasks : ∀ i, (calls i).1.did = did → (s.pc i).Consistent host (calls i).1 (calls i).2 nodeId
    ((i, creates) ∈ writes) ((i, updates) ∈ writes)
  serial : exec (performWrite host calls nodeId) before writes = some (s.method.registry.lookup did)

variable {host calls} {did : String} {before : Option AjnaDocument} {nodeId : String}
  {writes : List (ι × WriteKind)} {s s' : Pool ι} {i : ι}

/-- A step that leaves the document of the DID and what the task has written alone. -/
theorem SerialUpTo.skip (h : SerialUpTo host calls did before nodeId writes s)
    (hnode : s'.method.nodeId = s.method.nodeId)
    (hreg : s'.method.registry.lookup did = s.method.registry.lookup did)
    (hother : ∀ j, j ≠ i → s'.pc j = s.pc j)
    (hself : (calls i).1.did = did → (s'.pc i).Consistent host (calls i).1 (calls i).2 nodeId
      ((i, creates) ∈ writes) ((i, updates) ∈ writes)) :
    SerialUpTo host calls did before nodeId writes s' where
  node := by rw [hnode, h.node]
  nodup := h.nodup
  same := h.same
  tasks j hj := by
    by_cases hji : j = i
    · subst hji
      exact hself hj
    · rw [hother j hji]
      exact h.tasks j hj
  serial := by rw [hreg, h.serial]

theorem SerialUpTo.push (h : SerialUpTo host calls did before nodeId writes s) {kind : WriteKind}
    {document : AjnaDocument} (hdid : (calls i).1.did = did)
    (hnode : s'.method.nodeId = s.method.nodeId) (hnew : (i, kind) ∉ writes)
    (hwrite : performWrite host calls nodeId (s.method.registry.lookup did) (i, kind) =
      some (some document))
    (hreg : s'.method.registry.lookup did = some document) (hother : ∀ j, j ≠ i → s'.pc j = s.pc j)
    (hself : (s'.pc i).Consistent host (calls i).1 (calls i).2 nodeId
      ((i, creates) ∈ writes ++ [(i, kind)]) ((i, updates) ∈ writes ++ [(i, kind)])) :
    SerialUpTo host calls did before nodeId (writes ++ [(i, kind)]) s' where
  node := by rw [hnode, h.node]
  nodup := by
    rw [nodup_append]
    refine ⟨h.nodup, nodup_singleton _, fun a ha b hb => ?_⟩
    rw [mem_singleton] at hb
    subst hb
    rintro rfl
    exact hnew ha
  same w hw := by
    rcases mem_append.1 hw with hw | hw
    · exact h.same w hw
    · rw [mem_singleton] at hw
      subst hw
      exact hdid
  tasks j hj := by
    by_cases hji : j = i
    · subst hji
      exact hself
    · have hmem : ∀ k, ((j, k) ∈ writes ++ [(i, kind)]) = ((j, k) ∈ writes) := by
        intro k
        simp [hji]
      rw [hother j hji, hmem, hmem]
      exact h.tasks j hj
  serial := by
    rw [exec_append_eq_some]
    refine ⟨_, h.serial, ?_⟩
    rw [exec_cons_eq_some]
    exact ⟨_, hwrite, by rw [hreg]; rfl⟩

theorem SerialUpTo.step (h : SerialUpTo host calls did before nodeId writes s)
    (hfresh : s.FreshWrite calls i) (hstep : Pool.step host calls s i = some s') :
    ∃ writes', SerialUpTo host calls did before nodeId writes' s' := by
  obtain ⟨m', pc', hnext, rfl⟩ := (Pool.step_eq_some host calls).1 hstep
  have hother : ∀ j, j ≠ i → update s.pc i pc' j = s.pc j :=
    fun j hj => update_of_ne hj _ _
  have hself : (Pool.mk m' (update s.pc i pc')).pc i = pc' := update_self _ _ _
  have hlook : ∀ document, (calls i).1.did ≠ did →
      m'.registry = s.method.registry.insert (calls i).1.did document →
      m'.registry.lookup did = s.method.registry.lookup did := by
    intro document hne hreg
    rw [hreg, FMap.lookup_insert_ite, if_neg (Ne.symm hne)]
  obtain ⟨hnode, ⟨hreg, hcons⟩ | ⟨document, hpc, rfl, hreg⟩ | ⟨snapshot, document, hpc, hpc',
    hreg⟩⟩ :=
    next_cases hnext
  · refine ⟨writes, h.skip (i := i) hnode (by rw [hreg]) hother fun hdid => ?_⟩
    rw [hself]
    have htask := h.tasks i hdid
    rw [← h.node] at htask ⊢
    exact hcons _ _ htask
  · by_cases hdid : (calls i).1.did = did
    · have htask := h.tasks i hdid
      unfold Pool.FreshWrite at hfresh
      rw [hpc] at htask hfresh
      obtain ⟨hnc, hnu, rfl⟩ := htask
      refine ⟨_, h.push hdid hnode hnc ?_ (by rw [hreg, hdid, Finmap.lookup_insert]) hother ?_⟩
      · rw [← hdid, hfresh]
        rfl
      · rw [hself]
        exact ⟨by simp, by simpa using hnu⟩
    · refine ⟨writes, h.skip (i := i) hnode (hlook document hdid hreg) hother ?_⟩
      exact fun hc => absurd hc hdid
  · by_cases hdid : (calls i).1.did = did
    · have htask := h.tasks i hdid
      unfold Pool.FreshWrite at hfresh
      rw [hpc] at htask hfresh
      obtain ⟨hnu, ht, hcreates⟩ := htask
      refine ⟨_, h.push hdid hnode hnu ?_ (by rw [hreg, hdid, Finmap.lookup_insert]) hother ?_⟩
      · rw [← hdid, hfresh]
        simp only [performWrite, ht]
      · rw [hself]
        rcases hpc' with rfl | rfl
        · show (if (calls i).1.onlyCreates then _ else _)
          rw [if_neg (by simp [hcreates])]
          simp
        · exact ⟨by simp, hcreates⟩
    · refine ⟨writes, h.skip (i := i) hnode (hlook document hdid hreg) hother ?_⟩
      exact fun hc => absurd hc hdid

omit [DecidableEq ι] in
theorem serialUpTo_init (m : AjnaMethod) (did : String) :
    SerialUpTo host calls did (m.registry.lookup did) m.nodeId [] (init m) where
  node := rfl
  nodup := nodup_nil
  same w hw := by cases hw
  tasks i _ := ⟨not_mem_nil, not_mem_nil⟩
  serial := rfl

omit [DecidableEq ι] in
theorem SerialUpTo.noLostUpdate (h : SerialUpTo host calls did before nodeId writes s) :
    NoLostUpdate host calls did before s := by
  refine ⟨writes, h.nodup, h.same, fun i document hdid hpc => ?_, h.node ▸ h.serial⟩
  have htask := h.tasks i hdid
  rw [hpc] at htask
  simp only [Consistent] at htask
  unfold Call.finalWrite
  split at htask
  · next hcreates => rw [if_pos hcreates]; exact htask
  · next hcreates => rw [if_neg hcreates]; exact htask

omit [DecidableEq ι] in
theorem exec_performWrite_isDeactivated {document : AjnaDocument} {o : Option AjnaDocument}
    (hd : document.isDeactivated = true)
    (h : exec (performWrite host calls nodeId) (some document) writes = some o) :
    ∃ doc, o = some doc ∧ doc.isDeactivated = true := by
  refine exec_invariant (P := fun o => ∃ doc, o = some doc ∧ doc.isDeactivated = true)
    ?_ ⟨document, rfl, hd⟩ h
  rintro _ ⟨i, kind⟩ t ⟨doc, rfl, hdoc⟩ hwrite
  cases kind with
  | creates => cases hwrite
  | updates =>
    simp only [performWrite] at hwrite
    split at hwrite
    · next doc' ht =>
      cases hwrite
      exact ⟨doc', rfl, transform_isDeactivated ht hdoc⟩
    · cases hwrite

omit [DecidableEq ι] in
theorem isDeactivated_of_mem_writes {reason : Option String} {env : CallAmbient}
    {o : Option AjnaDocument} (hcall : calls i = (.deactivate did reason, env))
    (hmem : (i, updates) ∈ writes)
    (h : exec (performWrite host calls nodeId) before writes = some o) :
    ∃ doc, o = some doc ∧ doc.isDeactivated = true := by
  obtain ⟨l₁, l₂, rfl⟩ := append_of_mem hmem
  obtain ⟨o₁, -, h₂⟩ := exec_append_eq_some.1 h
  obtain ⟨o₂, hwrite, hrest⟩ := exec_cons_eq_some.1 h₂
  cases o₁ with
  | none => cases hwrite
  | some document =>
    simp only [performWrite, hcall, Call.transform] at hwrite
    split at hwrite
    · next doc ht =>
      cases hwrite
      refine exec_performWrite_isDeactivated ?_ hrest
      unfold deactivateTransform at ht
      split at ht
      · cases ht
      · cases ht; rfl
    · cases hwrite

end

/-! ## No lost update, as long as every write is fresh -/

/-- **If every registry write of a schedule replaces the document its call read, no
update is lost, and a `deactivate` that returned `Ok` is not undone.** -/
theorem fresh_writes_keep_every_update {ι : Type} [DecidableEq ι] (host : Host)
    (calls : ι → Call × CallAmbient) (m : AjnaMethod) (schedule : List ι) (s : Pool ι)
    (hrun : exec (step host calls) (init m) schedule = some s)
    (hfresh : Along (step host calls) (FreshWrite calls) (init m) schedule) (did : String) :
    NoLostUpdate host calls did (m.registry.lookup did) s ∧
    ∀ i reason env document, calls i = (.deactivate did reason, env) →
      s.pc i = .done (.ok document) →
      ∃ doc, s.method.registry.lookup did = some doc ∧ doc.isDeactivated = true := by
  obtain ⟨writes, hinv⟩ := exec_invariant_along
    (P := fun s => ∃ writes, SerialUpTo host calls did (m.registry.lookup did) m.nodeId writes s)
    (fun s i t ⟨_, hs⟩ hG hstep => hs.step hG hstep) ⟨[], serialUpTo_init m did⟩ hfresh hrun
  have hlost := hinv.noLostUpdate
  refine ⟨hlost, fun i reason env document hcall hpc => ?_⟩
  obtain ⟨ws, -, -, hok, hexec⟩ := hlost
  have hmem := hok i document (by rw [hcall]; rfl) hpc
  rw [hcall] at hmem
  exact isDeactivated_of_mem_writes hcall hmem hexec

/-- A `deactivate` and an `apply_operation`, both on the sample DID. -/
noncomputable def Sample.calls : Bool → Call × CallAmbient
  | false => (.deactivate did none, env)
  | true => (.applyOperation did (.addVerificationMethod lateMethod 0 "node1"),
      env)

noncomputable def Sample.lateDocument : AjnaDocument :=
  (CRDTOperation.addVerificationMethod lateMethod 0 "node1").apply document (env.amb 0)

theorem Sample.deactivate_read (host : Host) :
    next host (calls false).1 (calls false).2 method .start =
      some (method, .write document deactivatedDocument) := by
  simp only [Pc.next]
  rfl

theorem Sample.apply_read (host : Host) :
    next host (calls true).1 (calls true).2 method .start =
      some (method, .write document lateDocument) := by
  simp only [Pc.next]
  rfl

theorem Sample.apply_record (host : Host) (m : AjnaMethod) (document : AjnaDocument) :
    ∃ m' r, next host (calls true).1 (calls true).2 m (.record document) =
      some (m', .done r) ∧ m'.registry = m.registry := by
  have hreg := registry_pushHistory host m (calls true).1.did
    (legacyNode host [.addVerificationMethod lateMethod 0 "node1"] m.nodeId (calls true).2)
  simp only [Pc.next, calls, Call.record] at hreg ⊢
  split
  · next m' fault hp => rw [hp] at hreg; exact ⟨m', .error fault, rfl, hreg⟩
  · next m' hp => rw [hp] at hreg; exact ⟨m', .ok document, rfl, hreg⟩

/-- What `apply_operation` writes after `deactivate`. -/
noncomputable def Sample.latestDocument : AjnaDocument :=
  (CRDTOperation.addVerificationMethod lateMethod 0 "node1").apply deactivatedDocument (env.amb 0)

/-- `deactivate` and then `apply_operation`: both writes are fresh. -/
theorem fresh_writes_keep_every_update_inTurn :
    ∃ s, exec (step Sample.host calls) (init method) [false, false, true, true, true] = some s ∧
      NoLostUpdate Sample.host calls did (some document) s := by
  have hread : next Sample.host (calls true).1 (calls true).2
      (method.insertDocument did deactivatedDocument) .start =
      some (method.insertDocument did deactivatedDocument,
        .write deactivatedDocument latestDocument) := by
    simp only [Pc.next]
    rfl
  obtain ⟨m', r, hrecord, -⟩ := apply_record Sample.host
    ((method.insertDocument did deactivatedDocument).insertDocument did latestDocument)
    latestDocument
  have hexec : exec (step Sample.host calls) (init method) [false, false, true, true, true] =
      some _ :=
    exec_cons_eq_some.2 ⟨_, (step_eq_some _ _).2 ⟨_, _, deactivate_read _, rfl⟩,
      exec_cons_eq_some.2 ⟨_, (step_eq_some _ _).2 ⟨_, _, rfl, rfl⟩,
      exec_cons_eq_some.2 ⟨_, (step_eq_some _ _).2 ⟨_, _, hread, rfl⟩,
      exec_cons_eq_some.2 ⟨_, (step_eq_some _ _).2 ⟨_, _, rfl, rfl⟩,
      exec_cons_eq_some.2 ⟨_, (step_eq_some _ _).2 ⟨_, _, hrecord, rfl⟩, rfl⟩⟩⟩⟩⟩
  refine ⟨_, hexec, (fresh_writes_keep_every_update _ calls method _ _ hexec ?_ did).1⟩
  refine ⟨trivial, fun s₁ h₁ => ?_⟩
  cases h₁
  refine ⟨lookup_registry, fun s₂ h₂ => ?_⟩
  cases h₂
  refine ⟨trivial, fun s₃ h₃ => ?_⟩
  cases h₃
  refine ⟨Finmap.lookup_insert _, fun s₄ h₄ => ?_⟩
  cases h₄
  exact ⟨trivial, fun _ _ => trivial⟩

/-- Both calls read the document, `deactivate` writes and returns `Ok`, and then
`apply_operation` writes its stale clone: the DID is active again. -/
theorem stale_write_undoes_deactivate :
    ¬ ∃ host : Host, ∀ (calls : Bool → Call × CallAmbient) (m : AjnaMethod)
      (schedule : List Bool) (s : Pool Bool) (did : String),
      exec (step host calls) (init m) schedule = some s →
      NoLostUpdate host calls did (m.registry.lookup did) s := by
  rintro ⟨host, hclaim⟩
  obtain ⟨s, hexec, hpc, hlook⟩ : ∃ s : Pool Bool,
      exec (step host calls) (init method) [false, true, false, true, true] = some s ∧
      s.pc false = .done (.ok deactivatedDocument) ∧
      s.method.registry.lookup did = some lateDocument := by
    obtain ⟨m', r, hrecord, hreg⟩ := apply_record host
      ((method.insertDocument did deactivatedDocument).insertDocument did lateDocument) lateDocument
    refine ⟨_, exec_cons_eq_some.2 ⟨_, (step_eq_some _ _).2
      ⟨_, _, deactivate_read host, rfl⟩, exec_cons_eq_some.2 ⟨_,
      (step_eq_some _ _).2 ⟨_, _, apply_read host, rfl⟩,
      exec_cons_eq_some.2 ⟨_, (step_eq_some _ _).2 ⟨_, _, rfl, rfl⟩,
      exec_cons_eq_some.2 ⟨_, (step_eq_some _ _).2 ⟨_, _, rfl, rfl⟩,
      exec_cons_eq_some.2 ⟨_, (step_eq_some _ _).2 ⟨_, _, hrecord, rfl⟩, rfl⟩⟩⟩⟩⟩, rfl, ?_⟩
    show m'.registry.lookup did = _
    rw [hreg]
    exact Finmap.lookup_insert _
  obtain ⟨writes, -, -, hok, hwrites⟩ := hclaim _ _ _ s did hexec
  obtain ⟨doc, hdoc, hdeact⟩ := isDeactivated_of_mem_writes (i := false) rfl
    (hok false _ rfl hpc) hwrites
  rw [hlook] at hdoc
  cases hdoc
  exact absurd hdeact (by decide)

end Idiom.Ajna
