import Idiom.Crdt.ORSet
import Idiom.Lib.Run

/-!
# Replicas of an OR-Set

Any number of replicas add, remove and merge each other's current state. Beside
its `ORSet` each replica carries a ghost history: the additions and removals that
have *reached* it, directly or through a merge. The history is what the claim of
an observed-remove set is about; the operations never read it.
-/

namespace Idiom.ORSet

open Function Finset Run List

variable {R T : Type*} [DecidableEq R] [DecidableEq T]

instance (s : ORSet T) (e : T) (u : Uuid) : Decidable (s.Live e u) :=
  inferInstanceAs (Decidable (u ∈ (s.elements.lookup e).getD ∅))

/-! ## Histories -/

/-- An operation as a history records it. -/
inductive Event (T : Type*) where
  /-- `add` of the element under the UUID. -/
  | added (element : T) (uuid : Uuid)
  /-- `remove` of the element at a replica where these UUIDs were present. -/
  | removed (element : T) (observed : Finset Uuid)
  /-- `remove_instance`, and whether the instance was present where it ran. -/
  | removedInstance (element : T) (uuid : Uuid) (present : Bool)
  deriving DecidableEq

open Event

/-- The removal names the instance: a `remove` that observed it, or any
`remove_instance` of it, present or not. -/
def Event.Names (e : T) (u : Uuid) : Event T → Prop
  | .added _ _ => False
  | .removed e' observed => e' = e ∧ u ∈ observed
  | .removedInstance e' u' _ => e' = e ∧ u' = u

/-- The removal covers the instance: it was executed where the instance was
present. -/
def Event.Covers (e : T) (u : Uuid) : Event T → Prop
  | .added _ _ => False
  | .removed e' observed => e' = e ∧ u ∈ observed
  | .removedInstance e' u' present => e' = e ∧ u' = u ∧ present = true

/-- Some removal in the history covers the instance. -/
def Covered (log : List (Event T)) (e : T) (u : Uuid) : Prop :=
  ∃ ev ∈ log, ev.Covers e u

omit [DecidableEq T] in
@[simp] theorem covered_nil (e : T) (u : Uuid) : ¬ Covered [] e u := by
  simp [Covered]

omit [DecidableEq T] in
theorem covered_append (l₁ l₂ : List (Event T)) (e : T) (u : Uuid) :
    Covered (l₁ ++ l₂) e u ↔ Covered l₁ e u ∨ Covered l₂ e u := by
  simp only [Covered, mem_append]
  constructor
  · rintro ⟨ev, h | h, hc⟩
    · exact .inl ⟨ev, h, hc⟩
    · exact .inr ⟨ev, h, hc⟩
  · rintro (⟨ev, h, hc⟩ | ⟨ev, h, hc⟩)
    · exact ⟨ev, .inl h, hc⟩
    · exact ⟨ev, .inr h, hc⟩

omit [DecidableEq T] in
theorem covered_singleton (ev : Event T) (e : T) (u : Uuid) : Covered [ev] e u ↔ ev.Covers e u := by
  simp [Covered]

/-! ## The system -/

/-- One step of the replicated system. -/
inductive Step (R T : Type*) where
  | add (r : R) (element : T) (uuid : Uuid)
  | remove (r : R) (element : T)
  | removeInstance (r : R) (element : T) (uuid : Uuid)
  | merge (r source : R)
  deriving DecidableEq

/-- The replicas, the history that has reached each, and the UUIDs issued so
far. -/
structure Replicas (R T : Type*) where
  replica : R → ORSet T
  reached : R → List (Event T)
  issued : Finset Uuid

/-- Every replica empty, nothing issued. -/
def start : Replicas R T := ⟨fun _ => new, fun _ => [], ∅⟩

/-- Replace the state of one replica and extend its history. -/
def Replicas.put (s : Replicas R T) (r : R) (set : ORSet T) (log : List (Event T)) : Replicas R T :=
  { s with
    replica := update s.replica r set
    reached := update s.reached r (s.reached r ++ log) }

/-- One step; `add` needs a UUID that has not been issued before. -/
def step (s : Replicas R T) : Step R T → Option (Replicas R T)
  | .add r e u =>
    if u ∈ s.issued then none
    else some { s.put r ((s.replica r).add e u) [.added e u] with issued := insert u s.issued }
  | .remove r e =>
    some (s.put r ((s.replica r).remove e) [.removed e (((s.replica r).elements.lookup e).getD ∅)])
  | .removeInstance r e u =>
    some (s.put r ((s.replica r).removeInstance e u)
      [.removedInstance e u (decide ((s.replica r).Live e u))])
  | .merge r source =>
    some (s.put r ((s.replica r).merge (s.replica source)) (s.reached source))

/-- The state of some replica in some run. -/
def Reachable (R : Type*) [DecidableEq R] (a : ORSet T) : Prop :=
  ∃ (l : List (Step R T)) (s : Replicas R T) (r : R), exec step start l = some s ∧ s.replica r = a

/-! ## The invariant of one replica -/

/-- The replica's state is what its history says it is. -/
structure Tracks (s : ORSet T) (log : List (Event T)) : Prop where
  nonempty : s.NonemptyEntries
  live : ∀ e u, s.Live e u ↔ added e u ∈ log ∧ ¬ Covered log e u
  tombstones : ∀ e u, (e, u) ∈ s.tombstones ↔ Covered log e u

variable {s : ORSet T} {log : List (Event T)}

theorem Tracks.wf (h : Tracks s log) : s.WF :=
  ⟨h.nonempty, fun e u hl ht => ((h.live e u).1 hl).2 ((h.tombstones e u).1 ht)⟩

theorem tracks_new : Tracks (new : ORSet T) [] where
  nonempty := wf_new.nonempty
  live := by simp
  tombstones := by simp

theorem Tracks.add (h : Tracks s log) {e : T} {u : Uuid} (hu : ¬ Covered log e u) :
    Tracks (s.add e u) (log ++ [.added e u]) := by
  have hcov : ∀ e' u', Covered (log ++ [added e u]) e' u' ↔ Covered log e' u' := by
    intro e' u'
    rw [covered_append, covered_singleton]
    simp [Covers]
  refine ⟨(h.wf.add (mt (h.tombstones e u).1 hu)).nonempty, fun e' u' => ?_, fun e' u' => ?_⟩
  · rw [live_add, h.live, hcov, List.mem_append, List.mem_singleton, added.injEq]
    constructor
    · rintro (⟨rfl, rfl⟩ | ⟨ha, hc⟩)
      · exact ⟨.inr ⟨rfl, rfl⟩, hu⟩
      · exact ⟨.inl ha, hc⟩
    · rintro ⟨ha | ⟨rfl, rfl⟩, hc⟩
      · exact .inr ⟨ha, hc⟩
      · exact .inl ⟨rfl, rfl⟩
  · rw [tombstones_add, h.tombstones, hcov]

theorem Tracks.remove (h : Tracks s log) (e : T) :
    Tracks (s.remove e) (log ++ [.removed e ((s.elements.lookup e).getD ∅)]) := by
  have hcov : ∀ e' u', Covered (log ++ [removed e ((s.elements.lookup e).getD ∅)]) e' u' ↔
      Covered log e' u' ∨ (e' = e ∧ s.Live e u') := by
    intro e' u'
    rw [covered_append, covered_singleton]
    simp only [Covers, Live, eq_comm (a := e)]
  have htomb : ∀ e' u', (e', u') ∈ (s.remove e).tombstones ↔
      Covered (log ++ [removed e ((s.elements.lookup e).getD ∅)]) e' u' := by
    intro e' u'
    rw [mem_tombstones_remove, h.tombstones, hcov]
  refine ⟨nonemptyEntries_remove h.nonempty e, fun e' u' => ?_, htomb⟩
  rw [live_remove, hcov, mem_append, h.live]
  constructor
  · rintro ⟨hne, ha, hc⟩
    exact ⟨.inl ha, not_or.2 ⟨hc, fun hx => hne hx.1⟩⟩
  · rintro ⟨ha | ha, hc⟩
    · refine ⟨?_, ha, fun hx => hc (.inl hx)⟩
      -- a live instance of the removed element would be covered by this removal
      rintro rfl
      exact hc (.inr ⟨rfl, (h.live e' u').2 ⟨ha, fun hx => hc (.inl hx)⟩⟩)
    · simp at ha

theorem Tracks.removeInstance (h : Tracks s log) (e : T) (u : Uuid) :
    Tracks (s.removeInstance e u) (log ++ [.removedInstance e u (decide (s.Live e u))]) := by
  have hcov : ∀ e' u',
      Covered (log ++ [removedInstance e u (decide (s.Live e u))]) e' u' ↔
        Covered log e' u' ∨ (e' = e ∧ u' = u ∧ s.Live e u) := by
    intro e' u'
    rw [covered_append, covered_singleton]
    simp only [Covers, decide_eq_true_eq, eq_comm (a := e), eq_comm (a := u)]
  have htomb : ∀ e' u', (e', u') ∈ (s.removeInstance e u).tombstones ↔
      Covered (log ++ [removedInstance e u (decide (s.Live e u))]) e' u' := by
    intro e' u'
    rw [mem_tombstones_removeInstance, h.tombstones, hcov]
  refine ⟨nonemptyEntries_removeInstance h.nonempty e u, fun e' u' => ?_, htomb⟩
  rw [live_removeInstance, hcov, mem_append, h.live]
  constructor
  · rintro ⟨hne, ha, hc⟩
    exact ⟨.inl ha, not_or.2 ⟨hc, fun hx => hne ⟨hx.1, hx.2.1⟩⟩⟩
  · rintro ⟨ha | ha, hc⟩
    · refine ⟨?_, ha, fun hx => hc (.inl hx)⟩
      rintro ⟨rfl, rfl⟩
      exact hc (.inr ⟨rfl, rfl, (h.live e' u').2 ⟨ha, fun hx => hc (.inl hx)⟩⟩)
    · simp at ha

theorem Tracks.merge {t : ORSet T} {l₁ l₂ : List (Event T)} (hs : Tracks s l₁) (ht : Tracks t l₂) :
    Tracks (s.merge t) (l₁ ++ l₂) := by
  refine ⟨nonemptyEntries_merge s t, fun e u => ?_, fun e u => ?_⟩
  · rw [live_merge, hs.live, ht.live, hs.tombstones, ht.tombstones, covered_append, mem_append]
    tauto
  · rw [tombstones_merge, mem_union, hs.tombstones, ht.tombstones, covered_append]

/-! ## The invariant of the system -/

/-- Every replica tracks its history, and every UUID a history mentions as added
or covered has been issued. -/
structure Invariant (s : Replicas R T) : Prop where
  tracks : ∀ r, Tracks (s.replica r) (s.reached r)
  issued : ∀ r e u, added e u ∈ s.reached r → u ∈ s.issued
  observed : ∀ r e u, Covered (s.reached r) e u → u ∈ s.issued

omit [DecidableEq R] in
theorem invariant_start : Invariant (start : Replicas R T) where
  tracks _ := tracks_new
  issued := by simp [start]
  observed := by simp [start]

theorem Invariant.put {s : Replicas R T} (h : Invariant s) {r : R} {set : ORSet T}
    {issued : Finset Uuid} (hsub : s.issued ⊆ issued) (htr : Tracks set (s.reached r ++ log))
    (hadd : ∀ e u, added e u ∈ log → u ∈ issued) (hcov : ∀ e u, Covered log e u → u ∈ issued) :
    Invariant { s.put r set log with issued := issued } := by
  refine ⟨fun r' => ?_, fun r' e u hm => ?_, fun r' e u hc => ?_⟩
  · by_cases hr : r' = r
    · subst hr
      simpa [Replicas.put] using htr
    · simpa [Replicas.put, hr] using h.tracks r'
  · by_cases hr : r' = r
    · subst hr
      simp only [Replicas.put, update_self, mem_append] at hm
      exact hm.elim (fun hx => hsub (h.issued r' e u hx)) (hadd e u)
    · simp only [Replicas.put, update_of_ne hr] at hm
      exact hsub (h.issued r' e u hm)
  · by_cases hr : r' = r
    · subst hr
      simp only [Replicas.put, update_self, covered_append] at hc
      exact hc.elim (fun hx => hsub (h.observed r' e u hx)) (hcov e u)
    · simp only [Replicas.put, update_of_ne hr] at hc
      exact hsub (h.observed r' e u hc)

theorem Invariant.step {s t : Replicas R T} {a : Step R T} (h : Invariant s)
    (hst : ORSet.step s a = some t) : Invariant t := by
  cases a with
  | add r e u =>
    simp only [ORSet.step] at hst
    split at hst
    · cases hst
    · next hu =>
      cases hst
      refine h.put (subset_insert u s.issued)
        ((h.tracks r).add (fun hc => hu (h.observed r e u hc))) ?_ ?_
      · intro e' u' hm
        rw [List.mem_singleton, added.injEq] at hm
        rw [hm.2]
        exact mem_insert_self u s.issued
      · intro e' u' hc
        rw [covered_singleton] at hc
        exact hc.elim
  | remove r e =>
    cases hst
    refine h.put (Subset.refl _) ((h.tracks r).remove e) (by simp) ?_
    intro e' u' hc
    rw [covered_singleton] at hc
    -- what a removal observes was live, hence added, hence issued
    exact h.issued r e u' (((h.tracks r).live e u').1 hc.2).1
  | removeInstance r e u =>
    cases hst
    refine h.put (Subset.refl _) ((h.tracks r).removeInstance e u) (by simp) ?_
    intro e' u' hc
    rw [covered_singleton] at hc
    obtain ⟨-, rfl, hl⟩ := hc
    exact h.issued r e u (((h.tracks r).live e u).1 (of_decide_eq_true hl)).1
  | merge r source =>
    cases hst
    exact h.put (Subset.refl _) ((h.tracks r).merge (h.tracks source))
      (fun e u => h.issued source e u) (fun e u => h.observed source e u)

theorem invariant_of_exec {s : Replicas R T} {l : List (Step R T)}
    (h : exec step start l = some s) : Invariant s :=
  exec_invariant (fun _ _ _ hs hst => hs.step hst) invariant_start h

theorem contains_iff_history {s : Replicas R T} {l : List (Step R T)}
    (h : exec step start l = some s) (r : R) (e : T) :
    (s.replica r).contains e = true ↔
      ∃ u, added e u ∈ s.reached r ∧ ∀ ev ∈ s.reached r, ¬ ev.Covers e u := by
  have htr := (invariant_of_exec h).tracks r
  rw [contains_iff_exists_live htr.nonempty]
  simp only [htr.live, Covered, not_exists, not_and]

theorem Reachable.wf {a : ORSet T} (h : Reachable R a) : a.WF := by
  obtain ⟨l, s, r, hl, rfl⟩ := h
  exact ((invariant_of_exec hl).tracks r).wf

/-! ## The observed-remove set -/

/-- **An OR-Set is a convergent observed-remove set.**  On the states of runs of
any number of replicas, merge is commutative, associative and idempotent, and at
every replica of every run an element is present iff some addition of it has
reached the replica and no removal executed where that addition was present has. -/
theorem orSet_observed_remove :
    (∀ a b c : ORSet T, Reachable R a → Reachable R b → Reachable R c →
      a.merge b = b.merge a ∧ (a.merge b).merge c = a.merge (b.merge c) ∧ a.merge a = a) ∧
    ∀ (l : List (Step R T)) (s : Replicas R T), exec step start l = some s →
      ∀ r e, (s.replica r).contains e = true ↔
        ∃ u, added e u ∈ s.reached r ∧ ∀ ev ∈ s.reached r, ¬ ev.Covers e u :=
  ⟨fun a b c ha _ _ => ⟨merge_comm a b, merge_assoc a b c, merge_self ha.wf⟩,
    fun _ _ h r e => contains_iff_history h r e⟩

/-- One replica adds, a second merges it and removes it, and the first adds again
without having seen the removal. -/
def addWinsRun : List (Step Bool String) :=
  [.add true "key1" 1, .merge false true, .remove false "key1", .add true "key1" 2,
    .merge false true]

theorem orSet_observed_remove_addWins :
    ((exec step start addWinsRun).map fun s => (s.replica false).contains "key1") = some true ∧
      ∀ s, exec step start addWinsRun = some s →
        (∃ u, added "key1" u ∈ s.reached false ∧ ∀ ev ∈ s.reached false, ¬ ev.Covers "key1" u) ∧
        (s.replica false).merge (s.replica false) = s.replica false := by
  refine ⟨by decide, fun s hs => ?_⟩
  have hcontains : (s.replica false).contains "key1" = true := by
    have h : (exec step start addWinsRun).map (fun s => (s.replica false).contains "key1") =
      some true := by decide
    rw [hs] at h
    exact Option.some.inj h
  have hr : Reachable Bool (s.replica false) := ⟨addWinsRun, s, false, hs, rfl⟩
  exact ⟨(orSet_observed_remove.2 addWinsRun s hs false "key1").1 hcontains,
    (orSet_observed_remove.1 _ _ _ hr hr hr).2.2⟩

/-- A `remove_instance` that runs where the instance has not arrived leaves no
tombstone: the instance is present once it does arrive, although a
`remove_instance` naming it has reached the replica. -/
def earlyRemoveRun : List (Step Bool String) :=
  [.add true "key1" 1, .removeInstance false "key1" 1, .merge false true]

theorem contains_not_iff_unnamed :
    ¬ ∀ (l : List (Step Bool String)) (s : Replicas Bool String),
      exec step start l = some s → ∀ r e, (s.replica r).contains e = true ↔
        ∃ u, added e u ∈ s.reached r ∧ ∀ ev ∈ s.reached r, ¬ ev.Names e u := by
  intro hall
  have hrun : (exec step start earlyRemoveRun).map
      (fun s => ((s.replica false).contains "key1", s.reached false)) =
      some (true, [.removedInstance "key1" 1 false, .added "key1" 1]) := by decide
  obtain ⟨s, hs, heq⟩ := Option.map_eq_some_iff.1 hrun
  obtain ⟨hc, hlog⟩ := Prod.mk.inj heq
  obtain ⟨u, hu, hno⟩ := (hall earlyRemoveRun s hs false "key1").1 hc
  rw [hlog] at hu hno
  obtain rfl : u = 1 := by simpa using hu
  exact hno (.removedInstance "key1" 1 false) (by simp) ⟨rfl, rfl⟩

end Idiom.ORSet
