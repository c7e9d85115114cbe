import Idiom.Vc.StatusList

/-!
# Counters of authorization tokens: `signing/src/counter.rs`

Each pair of a subject and a device has a counter, in a cache and in a storage that survives a
restart. What `next` issues and what `accept` takes should grow.
-/

namespace Idiom.Signing

open Vc (Profile parseU64 pushDigit)
open Run Function List

/-! ## The code -/

inductive CounterError where
  | counterReplay (counter lastSeen : UInt64)
  | storageError (reason : String)
  /-- `*current += 1` with overflow checks. -/
  | panicked
  deriving DecidableEq

/-- The cache, and the texts of the records. -/
structure MonotonicCounterManager where
  counters : String → Option UInt64
  storage : String → Option String

namespace MonotonicCounterManager

variable (m : MonotonicCounterManager)

def key (subjectDid deviceId : String) : String := subjectDid ++ ":" ++ deviceId

/-- `counters.entry(key).or_insert(0)`. -/
def entry (key : String) : UInt64 := (m.counters key).getD 0

def setEntry (key : String) (value : UInt64) : MonotonicCounterManager :=
  { m with counters := update m.counters key (some value) }

/-- `update`, or else `save`; `saved` is what came of it. -/
def persist (key : String) (value : UInt64) (saved : Except String Unit) :
    Except CounterError Unit × MonotonicCounterManager :=
  match saved with
  | .error e => (.error (.storageError e), m)
  | .ok () => (.ok (), { m with storage := update m.storage key (some (toString value.toNat)) })

/-- The entry that `next` increments; `found` is whether the storage answers. -/
def load (key : String) (found : Bool) : UInt64 :=
  if m.entry key = 0 then
    match if found then m.storage key else none with
    | none => 0
    | some text => (parseU64 text).toOption.getD 0
  else m.entry key

/-- The write lock is held from the first line to the last. -/
def next (profile : Profile) (subjectDid deviceId : String) (found : Bool)
    (saved : Except String Unit) : Except CounterError UInt64 × MonotonicCounterManager :=
  let key := key subjectDid deviceId
  let current := m.load key found
  if profile = .dev ∧ current + 1 = 0 then (.error .panicked, m.setEntry key current)
  else
    let (result, m') := (m.setEntry key (current + 1)).persist key (current + 1) saved
    (result.map fun _ => current + 1, m')

def accept (subjectDid deviceId : String) (counter : UInt64) (saved : Except String Unit) :
    Except CounterError Unit × MonotonicCounterManager :=
  let key := key subjectDid deviceId
  if counter ≤ m.entry key then
    (.error (.counterReplay counter (m.entry key)), m.setEntry key (m.entry key))
  else (m.setEntry key counter).persist key counter saved

/-- The second access of `current`, to the storage; `failed` is its error. -/
def find (key : String) (failed : Option String) : Except CounterError UInt64 :=
  match failed with
  | some e => .error (.storageError e)
  | none =>
    match m.storage key with
    | none => .ok 0
    | some text => (parseU64 text).mapError .storageError

end MonotonicCounterManager

open MonotonicCounterManager

/-! ## Concurrent calls and restarts -/

/-- A call of `current` or `verify` that has found no entry. -/
inductive CurrentCall where
  | missed
  | loaded (value : UInt64)

/-- The manager, the calls of `current`, and what was issued or accepted under a key. -/
structure CounterSystem (ι : Type) where
  manager : MonotonicCounterManager
  calls : ι → Option CurrentCall
  log : List (String × UInt64)

inductive CounterStep (ι : Type) where
  | next (subjectDid deviceId : String) (found : Bool) (saved : Except String Unit)
  | accept (subjectDid deviceId : String) (counter : UInt64) (saved : Except String Unit)
  | current (i : ι)
  | find (i : ι) (failed : Option String)
  | insert (i : ι)
  | crash

variable {ι : Type}

namespace CounterSystem

def fresh : CounterSystem ι := ⟨⟨fun _ => none, fun _ => none⟩, fun _ => none, []⟩

/-- The answer of a call on a key, and the manager after it. -/
def record (s : CounterSystem ι) (key : String) :
    Except CounterError UInt64 × MonotonicCounterManager → CounterSystem ι
  | (.ok value, m) => { s with manager := m, log := s.log ++ [(key, value)] }
  | (.error _, m) => { s with manager := m }

/-- One step between two acquisitions of the lock; `pairs` says what the calls ask for. -/
def step [DecidableEq ι] (profile : Profile) (pairs : ι → String × String) (s : CounterSystem ι) :
    CounterStep ι → Option (CounterSystem ι)
  | .next subjectDid deviceId found saved =>
    some (s.record (key subjectDid deviceId)
      (s.manager.next profile subjectDid deviceId found saved))
  | .accept subjectDid deviceId counter saved =>
    let answer := s.manager.accept subjectDid deviceId counter saved
    some (s.record (key subjectDid deviceId) (answer.1.map fun _ => counter, answer.2))
  | .current i =>
    match s.calls i, s.manager.counters (key (pairs i).1 (pairs i).2) with
    | some _, _ => none
    | none, some _ => some s
    | none, none => some { s with calls := update s.calls i (some .missed) }
  | .find i failed =>
    match s.calls i with
    | some .missed =>
      match s.manager.find (key (pairs i).1 (pairs i).2) failed with
      | .error _ => some { s with calls := update s.calls i none }
      | .ok value => some { s with calls := update s.calls i (some (.loaded value)) }
    | _ => none
  | .insert i =>
    match s.calls i with
    | some (.loaded value) =>
      some { s with
        manager := s.manager.setEntry (key (pairs i).1 (pairs i).2) value
        calls := update s.calls i none }
    | _ => none
  | .crash => some { s with manager := { s.manager with counters := fun _ => none }
                            calls := fun _ => none }

/-- The counters of a key that were issued or accepted, in this order. -/
def seen (s : CounterSystem ι) (key : String) : List UInt64 :=
  (s.log.filter (·.1 = key)).map (·.2)

/-- Steps that rely on what is cached rely on no less than what is stored.
* `next` and `accept` find an entry, or nothing is stored (`next` may load it instead).
* `current` puts nothing in the place of a greater entry.
* Without overflow checks, the last counter has not been issued. -/
def Careful (profile : Profile) (pairs : ι → String × String) (s : CounterSystem ι) :
    CounterStep ι → Prop
  | .next subjectDid deviceId found _ =>
    (s.manager.entry (key subjectDid deviceId) = 0 → found = true ∨
      s.manager.storage (key subjectDid deviceId) = none) ∧
    (profile = .release → s.manager.load (key subjectDid deviceId) found + 1 ≠ 0)
  | .accept subjectDid deviceId _ _ =>
    s.manager.entry (key subjectDid deviceId) = 0 →
      s.manager.storage (key subjectDid deviceId) = none
  | .insert i => ∀ value, s.calls i = some (.loaded value) →
      s.manager.entry (key (pairs i).1 (pairs i).2) ≤ value
  | _ => True

end CounterSystem

open CounterSystem

/-! ## A record holds the text of a number -/

theorem foldlM_pushDigit {l : List Char} (hdigit : ∀ c ∈ l, c.isDigit) {n : ℕ}
    (h : Nat.ofDigitChars 10 l n < 2 ^ 64) :
    l.foldlM pushDigit n = .ok (Nat.ofDigitChars 10 l n) := by
  induction l generalizing n with
  | nil => rw [Nat.ofDigitChars_nil]; rfl
  | cons c l ih =>
    rw [Nat.ofDigitChars_cons] at h ⊢
    have hle : 10 * n + (c.toNat - '0'.toNat) ≤
        Nat.ofDigitChars 10 l (10 * n + (c.toNat - '0'.toNat)) := by
      rw [Nat.ofDigitChars_eq_ofDigitChars_zero]
      exact Nat.le_trans (Nat.le_mul_of_pos_left _ (Nat.pow_pos (by decide))) (Nat.le_add_right _ _)
    have hpush : pushDigit n c = .ok (10 * n + (c.toNat - '0'.toNat)) := by
      rw [pushDigit, if_neg (by simpa using hdigit c mem_cons_self), if_neg (by omega)]
    rw [foldlM_cons, hpush]
    exact ih (fun d hd => hdigit d (mem_cons_of_mem c hd)) h

theorem parseU64_toString (value : UInt64) : parseU64 (toString value.toNat) = .ok value := by
  have htext : (toString value.toNat).toList = Nat.toDigits 10 value.toNat := by
    rw [Nat.toString_eq_ofList_toDigits, String.toList_ofList]
  have hdigit : ∀ c ∈ Nat.toDigits 10 value.toNat, c.isDigit := fun c hc =>
    Nat.isDigit_of_mem_toDigits (by decide) (by decide) hc
  have hfold : (Nat.toDigits 10 value.toNat).foldlM pushDigit 0 = .ok value.toNat := by
    have hvalue : Nat.ofDigitChars 10 (Nat.toDigits 10 value.toNat) 0 = value.toNat :=
      Nat.ofDigitChars_ten_toDigits
    rw [foldlM_pushDigit hdigit (by rw [hvalue]; exact value.toNat_lt), hvalue]
  rw [parseU64, htext]
  split
  · next hnil => exact absurd hnil Nat.toDigits_ne_nil
  · next hplus => exact absurd (hdigit '+' (by rw [hplus]; exact mem_cons_self)) (by decide)
  · next hplus => exact absurd (hdigit '+' (by rw [hplus]; exact mem_cons_self)) (by decide)
  · rw [hfold]
    exact congrArg Except.ok UInt64.ofNat_toNat

/-! ## The last counter of a key -/

variable {profile : Profile} {pairs : ι → String × String} {s t : CounterSystem ι}
  {last : String → UInt64} {k : String} {value : UInt64}

/-- `last` is what the records say. An entry other than `0` is not behind it, a call of `current`
that is going to make the first entry has it, and no counter of the key is greater. -/
structure Tracked (pairs : ι → String × String) (last : String → UInt64)
    (s : CounterSystem ι) : Prop where
  stored : ∀ k, (s.manager.storage k = none ∧ last k = 0) ∨
    s.manager.storage k = some (toString (last k).toNat)
  entry : ∀ k, s.manager.entry k = 0 ∨ last k ≤ s.manager.entry k
  calls : ∀ i value, s.calls i = some (.loaded value) →
    s.manager.entry (key (pairs i).1 (pairs i).2) = 0 → last (key (pairs i).1 (pairs i).2) = value
  log : ∀ k value, (k, value) ∈ s.log → value ≤ last k
  grows : ∀ k, (s.seen k).Pairwise (· < ·)

theorem entry_setEntry (m : MonotonicCounterManager) (k k' : String) (value : UInt64) :
    (m.setEntry k value).entry k' = if k' = k then value else m.entry k' := by
  unfold MonotonicCounterManager.setEntry entry
  by_cases heq : k' = k
  · simp [heq]
  · simp [heq]

theorem lt_add_one {value : UInt64} (h : value + 1 ≠ 0) : value < value + 1 := by
  have hne : (value + 1).toNat ≠ 0 := fun heq => h (UInt64.toNat_inj.1 heq)
  rw [UInt64.toNat_add] at hne
  rw [UInt64.lt_iff_toNat_lt, UInt64.toNat_add]
  have hlt := value.toNat_lt
  simp at hne ⊢
  omega

theorem Tracked.fresh : Tracked pairs (fun _ => 0) (fresh : CounterSystem ι) where
  stored _ := .inl ⟨rfl, rfl⟩
  entry _ := .inl rfl
  calls _ _ h := nomatch h
  log _ _ h := nomatch h
  grows _ := .nil

theorem Tracked.setEntry (h : Tracked pairs last s) (hvalue : last k ≤ value)
    (hzero : value = 0 → s.manager.entry k = 0) :
    Tracked pairs last { s with manager := s.manager.setEntry k value } where
  stored := h.stored
  entry k' := by
    rw [entry_setEntry]
    split
    · next heq => exact .inr (heq ▸ hvalue)
    · exact h.entry k'
  calls i value' hi hentry := by
    rw [entry_setEntry] at hentry
    refine h.calls i value' hi ?_
    split at hentry
    · next heq => rw [heq]; exact hzero hentry
    · exact hentry
  log := h.log
  grows := h.grows

theorem seen_concat (s : CounterSystem ι) (k k' : String) (value : UInt64) :
    ({ s with log := s.log ++ [(k, value)] } : CounterSystem ι).seen k' =
      if k = k' then s.seen k' ++ [value] else s.seen k' := by
  unfold seen
  rw [filter_append, map_append]
  by_cases heq : k = k'
  · simp [heq]
  · simp [heq]

theorem Tracked.record (h : Tracked pairs last s) (hvalue : last k < value)
    (saved : Except String Unit) : ∃ last', Tracked pairs last'
      (s.record k (((s.manager.setEntry k value).persist k value saved).1.map fun _ => value,
        ((s.manager.setEntry k value).persist k value saved).2)) := by
  have hpos : value ≠ 0 := by
    rintro rfl
    exact UInt64.not_lt_zero hvalue
  have hset := h.setEntry (UInt64.le_of_lt hvalue) fun hzero => absurd hzero hpos
  cases saved with
  | error e => exact ⟨last, hset⟩
  | ok u =>
    have hentry : (s.manager.setEntry k value).entry k = value := by
      rw [entry_setEntry, if_pos rfl]
    refine ⟨update last k value, ⟨fun k' => ?_, fun k' => ?_, fun i value' hi hzero => ?_,
      fun k' value' hmem => ?_, fun k' => ?_⟩⟩
    · by_cases heq : k' = k
      · exact .inr (by simp [CounterSystem.record, persist, Except.map, heq])
      · rw [update_of_ne heq]
        have hstorage := update_of_ne heq (some (toString value.toNat)) s.manager.storage
        exact (h.stored k').imp (fun hnone => ⟨hstorage.trans hnone.1, hnone.2⟩) hstorage.trans
    · by_cases heq : k' = k
      · rw [heq, update_self]
        exact .inr (UInt64.le_of_eq hentry.symm)
      · rw [update_of_ne heq]
        exact hset.entry k'
    · have hne : key (pairs i).1 (pairs i).2 ≠ k := by
        intro heq
        refine hpos ?_
        rw [← hentry]
        exact heq ▸ hzero
      rw [update_of_ne hne]
      exact hset.calls i value' hi hzero
    · rcases mem_append.1 hmem with hmem | hmem
      · by_cases heq : k' = k
        · rw [heq, update_self]
          exact UInt64.le_of_lt (UInt64.lt_of_le_of_lt (h.log k value' (heq ▸ hmem)) hvalue)
        · rw [update_of_ne heq]
          exact h.log k' value' hmem
      · obtain ⟨rfl, rfl⟩ := Prod.mk.inj (mem_singleton.1 hmem)
        rw [update_self]
        exact UInt64.le_refl _
    · refine (seen_concat s k k' value).symm ▸ ?_
      split
      · next heq =>
        subst heq
        refine pairwise_append.2 ⟨h.grows k, pairwise_singleton _ _, fun a ha b hb => ?_⟩
        obtain ⟨⟨key, v⟩, hkey, rfl⟩ := mem_map.1 ha
        obtain ⟨hmem, hk⟩ := mem_filter.1 hkey
        obtain rfl : key = k := by simpa using hk
        rw [mem_singleton.1 hb]
        exact UInt64.lt_of_le_of_lt (h.log key v hmem) hvalue
      · exact h.grows k'

theorem Tracked.le_load (h : Tracked pairs last s) {found : Bool}
    (hfound : s.manager.entry k = 0 → found = true ∨ s.manager.storage k = none) :
    last k ≤ s.manager.load k found := by
  unfold load
  split
  · next hzero =>
    rcases h.stored k with ⟨hnone, hlast⟩ | hsome
    · rw [hlast]
      exact UInt64.zero_le
    · rcases hfound hzero with rfl | hnone
      · rw [if_pos rfl, hsome]
        dsimp only
        rw [parseU64_toString]
        exact UInt64.le_refl _
      · rw [hnone] at hsome
        cases hsome
  · next hne => exact (h.entry k).resolve_left hne

theorem Tracked.find_eq (h : Tracked pairs last s) {failed : Option String}
    (hfind : s.manager.find k failed = .ok value) : value = last k := by
  unfold find at hfind
  cases failed with
  | some e => cases hfind
  | none =>
    dsimp only at hfind
    rcases h.stored k with ⟨hnone, hlast⟩ | hsome
    · rw [hnone] at hfind
      rw [hlast]
      exact (Except.ok.inj hfind).symm
    · rw [hsome] at hfind
      dsimp only at hfind
      rw [parseU64_toString] at hfind
      exact (Except.ok.inj hfind).symm

variable [DecidableEq ι]

theorem Tracked.setCall (h : Tracked pairs last s) (i : ι) {call : Option CurrentCall}
    (hcall : ∀ value, call = some (.loaded value) → value = last (key (pairs i).1 (pairs i).2)) :
    Tracked pairs last { s with calls := update s.calls i call } where
  stored := h.stored
  entry := h.entry
  calls j value hj hentry := by
    rcases update_cases hj with ⟨rfl, hcall'⟩ | ⟨-, hj⟩
    · exact (hcall value hcall').symm
    · exact h.calls j value hj hentry
  log := h.log
  grows := h.grows

theorem Tracked.step {a : CounterStep ι} (h : Tracked pairs last s)
    (hcareful : Careful profile pairs s a) (hstep : step profile pairs s a = some t) :
    ∃ last', Tracked pairs last' t := by
  cases a with
  | next subjectDid deviceId found saved =>
    simp only [CounterSystem.step, Option.some.injEq] at hstep
    subst hstep
    have hle := h.le_load hcareful.1
    unfold MonotonicCounterManager.next
    dsimp only
    split
    · next hmax =>
      refine ⟨last, h.setEntry hle fun hzero => ?_⟩
      rw [hzero] at hmax
      exact absurd hmax.2 (by decide)
    · next hmax =>
      have hne : s.manager.load (key subjectDid deviceId) found + 1 ≠ 0 := by
        cases profile with
        | dev => exact fun hzero => hmax ⟨rfl, hzero⟩
        | release => exact hcareful.2 rfl
      exact h.record (UInt64.lt_of_le_of_lt hle (lt_add_one hne)) saved
  | accept subjectDid deviceId counter saved =>
    simp only [CounterSystem.step, Option.some.injEq] at hstep
    subst hstep
    have hle : last (key subjectDid deviceId) ≤ s.manager.entry (key subjectDid deviceId) := by
      rcases h.entry (key subjectDid deviceId) with hzero | hle
      · rcases h.stored (key subjectDid deviceId) with ⟨-, hlast⟩ | hsome
        · rw [hlast]
          exact UInt64.zero_le
        · rw [hcareful hzero] at hsome
          cases hsome
      · exact hle
    unfold MonotonicCounterManager.accept
    dsimp only
    split
    · exact ⟨last, h.setEntry hle fun hzero => hzero⟩
    · next hgt => exact h.record (UInt64.lt_of_le_of_lt hle (UInt64.not_le.1 hgt)) saved
  | current i =>
    simp only [CounterSystem.step] at hstep
    split at hstep
    · cases hstep
    · obtain rfl := Option.some.inj hstep
      exact ⟨last, h⟩
    · obtain rfl := Option.some.inj hstep
      exact ⟨last, h.setCall i fun value hcall => by cases hcall⟩
  | find i failed =>
    simp only [CounterSystem.step] at hstep
    split at hstep
    · split at hstep
      · obtain rfl := Option.some.inj hstep
        exact ⟨last, h.setCall i fun value hcall => by cases hcall⟩
      · next value hfind =>
        obtain rfl := Option.some.inj hstep
        refine ⟨last, h.setCall i fun value' hcall => ?_⟩
        cases hcall
        exact h.find_eq hfind
    · cases hstep
  | insert i =>
    simp only [CounterSystem.step] at hstep
    split at hstep
    · next value hcall =>
      obtain rfl := Option.some.inj hstep
      have hge := hcareful value hcall
      have hle : last (key (pairs i).1 (pairs i).2) ≤ value := by
        rcases h.entry (key (pairs i).1 (pairs i).2) with hzero | hle
        · exact UInt64.le_of_eq (h.calls i value hcall hzero)
        · exact UInt64.le_trans hle hge
      have hset := h.setEntry hle fun hzero => UInt64.le_zero_iff.1 (hzero ▸ hge)
      exact ⟨last, hset.setCall i fun value hcall => by cases hcall⟩
    · cases hstep
  | crash =>
    obtain rfl := Option.some.inj hstep
    exact ⟨last, ⟨h.stored, fun _ => .inl rfl, fun _ _ hcall => (nomatch hcall), h.log, h.grows⟩⟩

/-- **No counter is issued or accepted twice**, in runs of concurrent calls with restarts and
failures of the storage: the counters of a key grow if every step is careful. -/
theorem counters_grow {l : List (CounterStep ι)}
    (hcareful : Along (step profile pairs) (Careful profile pairs) fresh l)
    (h : exec (step profile pairs) fresh l = some s) (k : String) :
    (s.seen k).Pairwise (· < ·) := by
  have htracked := exec_invariant_along (P := fun s => ∃ last, Tracked pairs last s)
    (fun _ _ _ ⟨_, htracked⟩ hG hstep => htracked.step hG hstep) ⟨_, Tracked.fresh⟩ hcareful h
  obtain ⟨last, htracked⟩ := htracked
  exact htracked.grows k

/-- A counter is issued; after a restart it is loaded, and a later one accepted. -/
def restarted : List (CounterStep Unit) :=
  [.next "did:a" "d" true (.ok ()), .crash, .current (), .find () none, .insert (),
    .accept "did:a" "d" 5 (.ok ())]

theorem counters_grow_restarted : ∃ s,
    exec (step .release fun _ => ("did:a", "d")) fresh restarted = some s ∧
      s.seen "did:a:d" = [1, 5] ∧ (s.seen "did:a:d").Pairwise (· < ·) := by
  have hcareful : Along (step .release fun _ => ("did:a", "d"))
      (Careful .release fun _ => ("did:a", "d")) fresh restarted := by
    refine along_cons ⟨fun _ => .inl rfl, fun _ => by decide⟩ rfl (along_cons trivial rfl
      (along_cons trivial rfl (along_cons trivial rfl (along_cons (fun value hcall => ?_) rfl
        (along_cons (fun hzero => absurd hzero (by decide)) rfl trivial)))))
    cases hcall
    decide
  obtain ⟨s, hs⟩ : ∃ s, exec (step .release fun _ => ("did:a", "d")) fresh restarted = some s :=
    ⟨_, rfl⟩
  refine ⟨s, hs, ?_, counters_grow hcareful hs "did:a:d"⟩
  cases hs
  decide

end Idiom.Signing
