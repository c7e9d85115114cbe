import Idiom.Crdt.LWWMap
import Idiom.Lib.Run

/-!
# Replicas of an LWW-Map

Any number of replicas write under their own node id, at whatever their clocks
read, and merge each other's current state. Clock readings may repeat and may go
backwards, so one replica can write the same key twice under the same stamp.

Such a second write is refused by the replica that makes it: whatever that replica
holds under the key already has at least that stamp. This is what `Authoritative`
says of a stored entry, and `Authoritative.step` carries it through every step, so
a stamp that is stored anywhere in a run names one entry for the rest of the run.
-/

namespace Idiom.LWWMap

open Ranked LWWEntry Function Run

variable {R K V : Type*} [DecidableEq R] [DecidableEq K] [Inhabited V]

/-! ## The system -/

/-- One step of the replicated system. -/
inductive Step (R K V : Type*) where
  | set (r : R) (key : K) (value : V) (now : DateTime)
  | remove (r : R) (key : K) (now : DateTime)
  | merge (r source : R)

/-- The replicas and the writes that have reached each. -/
structure Replicas (R K V : Type*) where
  replica : R → LWWMap K V
  received : R → List (K × LWWEntry V)

open Replicas

/-- Every replica empty. -/
def start : Replicas R K V := ⟨fun _ => new, fun _ => []⟩

/-- Replace the map of one replica and extend the record of what it received. -/
def Replicas.put (s : Replicas R K V) (r : R) (m : LWWMap K V)
    (writes : List (K × LWWEntry V)) : Replicas R K V :=
  { replica := update s.replica r m
    received := update s.received r (s.received r ++ writes) }

/-- One step; a replica writes under its own node id. -/
def step (nodeId : R → String) (s : Replicas R K V) : Step R K V → Option (Replicas R K V)
  | .set r key value now =>
    some (s.put r ((s.replica r).set key value (nodeId r) now)
      [(key, .withTimestamp value now (nodeId r))])
  | .remove r key now =>
    some (s.put r ((s.replica r).remove key (nodeId r) now) [(key, .tombstone now (nodeId r))])
  | .merge r source =>
    some (s.put r ((s.replica r).merge (s.replica source)) (s.received source))

/-! ## What a step does -/

/-- In the step from `s` to `t` the replica `r` is offered the entries `incoming`
and records `writes`; nothing else happens. -/
structure Offers (s t : Replicas R K V) (r : R) (incoming : K → Option (LWWEntry V))
    (writes : List (K × LWWEntry V)) : Prop where
  here : ∀ k, (t.replica r).entries.lookup k =
    join stamp ((s.replica r).entries.lookup k) (incoming k)
  there : ∀ q, q ≠ r → t.replica q = s.replica q ∧ t.received q = s.received q
  record : t.received r = s.received r ++ writes

variable {incoming : K → Option (LWWEntry V)} {writes : List (K × LWWEntry V)} {s : Replicas R K V}

omit [Inhabited V] in
theorem offers_put {r : R} {m : LWWMap K V}
    (h : ∀ k, m.entries.lookup k = join stamp ((s.replica r).entries.lookup k) (incoming k)) :
    Offers s (s.put r m writes) r incoming writes where
  here := by simpa [put] using h
  there q hq := by simp [put, hq]
  record := by simp [put]

omit [Inhabited V] in
theorem offers_setEntry (s : Replicas R K V) (r : R) (key : K) (entry : LWWEntry V) :
    Offers s (s.put r ((s.replica r).setEntry key entry) [(key, entry)]) r
      (fun k => if k = key then some entry else none) [(key, entry)] := by
  refine offers_put fun k => ?_
  rw [lookup_setEntry]
  by_cases hk : k = key
  · subst hk; simp
  · simp [hk]

variable {s t : Replicas R K V} {nodeId : R → String}

theorem step_cases {a : Step R K V} (h : step nodeId s a = some t) :
    (∃ r key entry, entry.nodeId = nodeId r ∧
      Offers s t r (fun k => if k = key then some entry else none) [(key, entry)]) ∨
    ∃ r source, Offers s t r (fun k => (s.replica source).entries.lookup k)
      (s.received source) := by
  cases a with
  | set r key value now | remove r key now =>
    cases h
    exact .inl ⟨r, key, _, rfl, offers_setEntry s r key _⟩
  | merge r source =>
    cases h
    exact .inr ⟨r, source, offers_put (lookup_merge _ _)⟩

omit [DecidableEq R] [Inhabited V] in
/-- An entry held after the step was held before it, or was offered to `r` and is
more recent than what `r` held. -/
theorem Offers.lookup_cases {r : R} (h : Offers s t r incoming writes) {q : R} {k : K}
    {x : LWWEntry V} (hx : (t.replica q).entries.lookup k = some x) :
    (s.replica q).entries.lookup k = some x ∨
      (q = r ∧ incoming k = some x ∧
        ∀ b, (s.replica r).entries.lookup k = some b → b.stamp < x.stamp) := by
  by_cases hq : q = r
  · subst hq
    rw [h.here] at hx
    rcases join_eq_some hx with hold | ⟨hin, hlt⟩
    · exact .inl hold
    · exact .inr ⟨rfl, hin, hlt⟩
  · rw [(h.there q hq).1] at hx
    exact .inl hx

omit [DecidableEq R] [Inhabited V] in
theorem Offers.below {r : R} (h : Offers s t r incoming writes) {q : R} {k : K} {x : LWWEntry V}
    (hx : Below stamp x ((s.replica q).entries.lookup k)) :
    Below stamp x ((t.replica q).entries.lookup k) := by
  by_cases hq : q = r
  · subst hq
    rw [h.here]
    exact hx.join_left _
  · rw [(h.there q hq).1]
    exact hx

/-! ## A stored stamp names one entry -/

/-- The entry `x` owns its stamp under the key: the node that wrote it holds
something at least as recent, and nobody holds another entry with that stamp. -/
structure Authoritative (nodeId : R → String) (s : Replicas R K V) (k : K) (x : LWWEntry V) :
    Prop where
  owner : ∀ q, nodeId q = x.nodeId → Below stamp x ((s.replica q).entries.lookup k)
  unique : ∀ r y, (s.replica r).entries.lookup k = some y → y.stamp = x.stamp → y = x

omit [DecidableEq R] [Inhabited V] in
/-- A replica refuses an entry of its own under a stamp that is already owned: it
holds something at least as recent. -/
theorem Authoritative.not_taken {k : K} {x y : LWWEntry V} (h : Authoritative nodeId s k x) {r : R}
    (hown : y.nodeId = nodeId r) (hstamp : y.stamp = x.stamp) :
    ¬ ∀ b, (s.replica r).entries.lookup k = some b → b.stamp < y.stamp := by
  intro hfree
  obtain ⟨b, hb, hle⟩ := h.owner r (hown.symm.trans (stamp_eq_iff.1 hstamp).2)
  exact absurd (hfree b hb) (hstamp.trans_le hle).not_gt

theorem Authoritative.step {a : Step R K V} {k : K} {x : LWWEntry V}
    (h : Authoritative nodeId s k x) (hst : LWWMap.step nodeId s a = some t) :
    Authoritative nodeId t k x := by
  rcases step_cases hst with ⟨r, key, entry, hown, ho⟩ | ⟨r, source, ho⟩
  · refine ⟨fun q hq => ho.below (h.owner q hq), fun q y hy hstamp => ?_⟩
    rcases ho.lookup_cases hy with hy | ⟨-, hin, hfree⟩
    · exact h.unique q y hy hstamp
    · split at hin
      · cases hin
        exact absurd hfree (h.not_taken hown hstamp)
      · cases hin
  · refine ⟨fun q hq => ho.below (h.owner q hq), fun q y hy hstamp => ?_⟩
    rcases ho.lookup_cases hy with hy | ⟨-, hin, -⟩
    · exact h.unique q y hy hstamp
    · exact h.unique source y hin hstamp

/-! ## The invariant of the system -/

/-- Every stored entry is authoritative, and every replica holds the most recent of
the writes it has received. -/
structure Invariant (nodeId : R → String) (s : Replicas R K V) : Prop where
  authoritative : ∀ r k x, (s.replica r).entries.lookup k = some x → Authoritative nodeId s k x
  outranked : ∀ r k x, (k, x) ∈ s.received r → Below stamp x ((s.replica r).entries.lookup k)
  provenance : ∀ r k x, (s.replica r).entries.lookup k = some x → (k, x) ∈ s.received r

omit [DecidableEq R] [Inhabited V] in
theorem invariant_start (nodeId : R → String) :
    Invariant nodeId (start : Replicas R K V) where
  authoritative := by simp [start, new]
  outranked := by simp [start]
  provenance := by simp [start, new]

omit [DecidableEq R] [Inhabited V] in
theorem Invariant.authoritative_of_taken (hinj : Injective nodeId) (h : Invariant nodeId s) {r : R}
    {key : K} {entry : LWWEntry V} (hown : entry.nodeId = nodeId r)
    (ho : Offers s t r (fun k => if k = key then some entry else none) [(key, entry)])
    (hfree : ∀ b, (s.replica r).entries.lookup key = some b → b.stamp < entry.stamp) :
    Authoritative nodeId t key entry := by
  refine ⟨fun q hq => ?_, fun q y hy hstamp => ?_⟩
  · obtain rfl : q = r := hinj (hq.trans hown)
    rw [ho.here, if_pos rfl]
    exact (below_self entry).join_right _
  · rcases ho.lookup_cases hy with hy | ⟨-, hin, -⟩
    · exact absurd hfree ((h.authoritative q key y hy).not_taken hown hstamp.symm)
    · rw [if_pos rfl] at hin
      exact (Option.some.inj hin).symm

omit [DecidableEq R] [Inhabited V] in
theorem Invariant.record (h : Invariant nodeId s) {r : R} (ho : Offers s t r incoming writes)
    (hlog : ∀ k x, incoming k = some x → (k, x) ∈ writes)
    (hcov : ∀ k x, (k, x) ∈ writes → Below stamp x (incoming k)) :
    (∀ q k x, (k, x) ∈ t.received q → Below stamp x ((t.replica q).entries.lookup k)) ∧
    ∀ q k x, (t.replica q).entries.lookup k = some x → (k, x) ∈ t.received q := by
  refine ⟨fun q k x hx => ?_, fun q k x hx => ?_⟩
  · by_cases hq : q = r
    · subst hq
      rw [ho.record, List.mem_append] at hx
      rcases hx with hx | hx
      · exact ho.below (h.outranked q k x hx)
      · rw [ho.here]
        exact (hcov k x hx).join_right _
    · rw [(ho.there q hq).2] at hx
      exact ho.below (h.outranked q k x hx)
  · rcases ho.lookup_cases hx with hx | ⟨rfl, hin, -⟩
    · by_cases hq : q = r
      · subst hq
        rw [ho.record, List.mem_append]
        exact .inl (h.provenance q k x hx)
      · rw [(ho.there q hq).2]
        exact h.provenance q k x hx
    · rw [ho.record, List.mem_append]
      exact .inr (hlog k x hin)

theorem Invariant.step (hinj : Injective nodeId) {a : Step R K V} (h : Invariant nodeId s)
    (hst : LWWMap.step nodeId s a = some t) : Invariant nodeId t := by
  have hold : ∀ q k x, (s.replica q).entries.lookup k = some x → Authoritative nodeId t k x :=
    fun q k x hx => (h.authoritative q k x hx).step hst
  rcases step_cases hst with ⟨r, key, entry, hown, ho⟩ | ⟨r, source, ho⟩
  · have hrec := h.record ho
      (by
        intro k x hx
        split at hx
        · next hk => cases hx; simp [hk]
        · cases hx)
      (by
        intro k x hx
        obtain ⟨rfl, rfl⟩ : k = key ∧ x = entry := by simpa using hx
        rw [if_pos rfl]
        exact below_self x)
    refine ⟨fun q k x hx => ?_, hrec.1, hrec.2⟩
    rcases ho.lookup_cases hx with hx | ⟨-, hin, hfree⟩
    · exact hold q k x hx
    · split at hin
      · next hk =>
        cases hin
        subst hk
        exact h.authoritative_of_taken hinj hown ho hfree
      · cases hin
  · have hrec := h.record ho (fun k x => h.provenance source k x)
      (fun k x => h.outranked source k x)
    refine ⟨fun q k x hx => ?_, hrec.1, hrec.2⟩
    rcases ho.lookup_cases hx with hx | ⟨-, hin, -⟩
    · exact hold q k x hx
    · exact hold source k x hin

/-! ## Maps of one run -/

variable {nodeId : R → String}

theorem invariant_of_visits (hinj : Injective nodeId) {l : List (Step R K V)}
    (h : Visits (step nodeId) start l s) : Invariant nodeId s :=
  h.invariant (fun _ _ _ hs hst => hs.step hinj hst) (invariant_start nodeId)

/-- Entries held at two moments of one run, the first not after the second, with the
same key and stamp are the same entry. -/
theorem eq_of_stamp_eq (hinj : Injective nodeId) {l l' : List (Step R K V)}
    (hs : exec (step nodeId) start l = some s) (ht : exec (step nodeId) s l' = some t) {r q : R}
    {k : K} {x y : LWWEntry V} (hx : (s.replica r).entries.lookup k = some x)
    (hy : (t.replica q).entries.lookup k = some y) (hstamp : x.stamp = y.stamp) : x = y := by
  have hinv : Invariant nodeId s :=
    exec_invariant (fun _ _ _ h hst => h.step hinj hst) (invariant_start nodeId) hs
  have hauth : Authoritative nodeId t k x :=
    exec_invariant (P := fun u => Authoritative nodeId u k x)
      (fun _ _ _ h hst => h.step hst) (hinv.authoritative r k x hx) ht
  exact (hauth.unique q y hy hstamp.symm).symm

/-- **No ties.**  Any two maps that occur in one run, at whatever replicas and
moments, hold the same entry wherever they hold the same stamp. -/
theorem tieFree_of_visits (hinj : Injective nodeId) {l : List (Step R K V)}
    (hs : Visits (step nodeId) start l s) (ht : Visits (step nodeId) start l t) (r q : R) :
    TieFree (s.replica r) (t.replica q) := by
  intro k x y hx hy hstamp
  obtain ⟨l₁, l₂, rfl, hl₁⟩ := hs
  obtain ⟨l₃, l₄, heq, hl₃⟩ := ht
  rcases List.append_eq_append_iff.1 heq with ⟨m, rfl, -⟩ | ⟨m, rfl, -⟩
  · obtain ⟨u, hu, hrest⟩ := exec_append_eq_some.1 hl₃
    rw [hl₁] at hu
    cases hu
    exact eq_of_stamp_eq hinj hl₁ hrest hx hy hstamp
  · obtain ⟨u, hu, hrest⟩ := exec_append_eq_some.1 hl₁
    rw [hl₃] at hu
    cases hu
    exact (eq_of_stamp_eq hinj hl₃ hrest hy hx hstamp.symm).symm

/-- The map is held by some replica at some moment of the run. -/
def Occurs (nodeId : R → String) (l : List (Step R K V)) (m : LWWMap K V) : Prop :=
  ∃ s r, Visits (step nodeId) start l s ∧ s.replica r = m

/-- **LWW-Map replicas converge under any clocks.**  In every run of replicas with
distinct node ids, merge is commutative, associative and idempotent on the maps that
occur, and two replicas that have received the same set of writes, each at its own
moment of the run, hold equal entries, tombstones included. -/
theorem lwwMap_converges (hinj : Injective nodeId) (l : List (Step R K V)) :
    (∀ a b c : LWWMap K V, Occurs nodeId l a → Occurs nodeId l b → Occurs nodeId l c →
      a.merge b = b.merge a ∧ (a.merge b).merge c = a.merge (b.merge c) ∧ a.merge a = a) ∧
    ∀ s t, Visits (step nodeId) start l s → Visits (step nodeId) start l t →
      ∀ r q, (∀ w, w ∈ s.received r ↔ w ∈ t.received q) → s.replica r = t.replica q := by
  refine ⟨?_, fun s t hs ht r q hrec => ?_⟩
  · rintro a b c ⟨s, r, hs, rfl⟩ ⟨t, q, ht, rfl⟩ -
    exact ⟨merge_comm (tieFree_of_visits hinj hs ht r q), merge_assoc _ _ _, merge_self _⟩
  · have hsi := invariant_of_visits hinj hs
    have hti := invariant_of_visits hinj ht
    refine ext_lookup fun k => eq_of_below (tieFree_of_visits hinj hs ht r q k) ?_ ?_
    · exact fun x hx => hti.outranked q k x ((hrec (k, x)).1 (hsi.provenance r k x hx))
    · exact fun y hy => hsi.outranked r k y ((hrec (k, y)).2 (hti.provenance q k y hy))

/-- Two replicas write the same key in the same tick, one of them twice, then merge
each other. -/
def sameTickRun : List (Step Bool String ℕ) :=
  [.set true "key1" 1 10, .set true "key1" 2 10, .remove false "key1" 10, .merge true false,
    .merge false true]

theorem lwwMap_converges_sameTick :
    ∃ s, exec (step fun b => if b then "node_b" else "node_a") start sameTickRun = some s ∧
      s.replica true = s.replica false ∧
      (s.replica true).get "key1" = some 1 := by
  have hinj : Injective (fun b : Bool => if b then "node_b" else "node_a") := by decide
  obtain ⟨s, hs, hget⟩ : ∃ s, exec (step fun b => if b then "node_b" else "node_a") start
      sameTickRun = some s ∧ (s.replica true).get "key1" = some 1 := ⟨_, rfl, by decide⟩
  have hvis : Visits (step fun b => if b then "node_b" else "node_a") start sameTickRun s :=
    ⟨sameTickRun, [], by simp, hs⟩
  refine ⟨s, hs, (lwwMap_converges hinj sameTickRun).2 s s hvis hvis true false ?_, hget⟩
  cases hs
  intro w
  simp [put]
  tauto

end Idiom.LWWMap
