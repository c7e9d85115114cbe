import Idiom.Pickup.Refinement
import Mathlib.Algebra.BigOperators.Group.Finset.Basic

/-!
# What the in-memory queue hands out

Two tables, edited by each call on its own, and two states that say whether a message may be
handed out. What a reader should see is said by the messages alone.
-/

namespace Idiom.Pickup

open List QueuedMessage

namespace QueueTables

/-- The pending messages of a connection that pass the filter, by the store alone. -/
def waiting (t : QueueTables) (connectionId : String) (recipientKey : Option String) :
    Finset QueuedMessage :=
  (t.messages.keys.biUnion fun id => (t.messages.lookup id).toFinset).filter fun m =>
    m.connectionId = connectionId ∧ m.state = .pending ∧ m.matchesRecipientKey recipientKey = true

/-- The `limit` oldest of some messages, or all of them, in received order. -/
structure Oldest (messages : Finset QueuedMessage) (limit : ℕ) (l : List QueuedMessage) :
    Prop where
  nodup : l.Nodup
  ordered : l.Pairwise NotAfter
  subset : ∀ m ∈ l, m ∈ messages
  length : l.length = min limit messages.card
  oldest : ∀ m ∈ messages, m ∉ l → ∀ m' ∈ l, m'.receivedAt ≤ m.receivedAt

/-- The index holds the ids of the stored messages, and what is handed out and counted are
the messages waiting. -/
structure Correct (t : QueueTables) : Prop where
  nodup : ∀ connectionId, (t.idsOf connectionId).Nodup
  index : ∀ connectionId id, id ∈ t.idsOf connectionId ↔
    ∃ m, t.findById id = some m ∧ m.id = id ∧ m.connectionId = connectionId
  take : ∀ connectionId recipientKey limit, Oldest (t.waiting connectionId recipientKey) limit
    (t.takeFromQueue connectionId recipientKey limit).1
  count : ∀ connectionId recipientKey, t.getPendingCount connectionId recipientKey =
    (t.waiting connectionId recipientKey).card
  bytes : ∀ connectionId recipientKey, t.getTotalBytes connectionId recipientKey =
    ∑ m ∈ t.waiting connectionId recipientKey, m.byteSize

variable {t : QueueTables} {connectionId : String} {recipientKey : Option String}

variable {m : QueuedMessage}

theorem mem_waiting :
    m ∈ t.waiting connectionId recipientKey ↔
      (∃ id, t.messages.lookup id = some m) ∧ m.connectionId = connectionId ∧
        m.state = .pending ∧ m.matchesRecipientKey recipientKey = true := by
  simp only [waiting, Finset.mem_filter, Finset.mem_biUnion, Option.mem_toFinset]
  refine and_congr_left fun _ => ⟨?_, ?_⟩
  · rintro ⟨id, -, hm⟩
    exact ⟨id, hm⟩
  · rintro ⟨id, hm⟩
    exact ⟨id, Finmap.mem_of_lookup_eq_some hm, hm⟩

/-! ## Readers -/

theorem Valid.nodup_pendingFor (ht : t.Valid) (connectionId : String)
    (recipientKey : Option String) : (t.pendingFor connectionId recipientKey).Nodup := by
  rw [pendingFor_eq]
  exact (Nodup.of_map _ (nodup_ids ht.key (ht.nodup connectionId))).filter _

theorem Valid.toFinset_pendingFor (ht : t.Valid) (connectionId : String)
    (recipientKey : Option String) :
    (t.pendingFor connectionId recipientKey).toFinset = t.waiting connectionId recipientKey := by
  ext m
  rw [mem_toFinset, mem_pendingFor, mem_waiting]
  constructor
  · rintro ⟨⟨id, hid, hm⟩, hstate, hkey⟩
    obtain ⟨m', hm', hconn⟩ := (ht.indexed connectionId id).1 hid
    rw [hm] at hm'
    cases hm'
    exact ⟨⟨id, hm⟩, hconn, hstate, hkey⟩
  · rintro ⟨⟨id, hm⟩, hconn, hstate, hkey⟩
    exact ⟨⟨id, (ht.indexed connectionId id).2 ⟨m, hm, hconn⟩, hm⟩, hstate, hkey⟩

theorem oldest_take_insertionSort {l : List QueuedMessage} (hl : l.Nodup) (limit : ℕ) :
    Oldest l.toFinset limit ((l.insertionSort NotAfter).take limit) := by
  have hperm : (l.insertionSort NotAfter).Perm l := perm_insertionSort _ l
  have hsorted := pairwise_insertionSort NotAfter l
  refine ⟨?_, ?_, fun m hm => ?_, ?_, fun m hm hout m' hm' => ?_⟩
  · exact (take_sublist _ _).nodup (hperm.nodup_iff.2 hl)
  · exact hsorted.sublist (take_sublist _ _)
  · exact mem_toFinset.2 (hperm.mem_iff.1 (mem_of_mem_take hm))
  · rw [length_take, hperm.length_eq, toFinset_card_of_nodup hl]
  · -- what is not in the prefix is in the rest, after everything in the prefix
    have hmem := hperm.mem_iff.2 (mem_toFinset.1 hm)
    rw [← take_append_drop limit (l.insertionSort NotAfter)] at hmem hsorted
    have hrest := (mem_append.1 hmem).resolve_left hout
    exact (pairwise_append.1 hsorted).2.2 m' hm' m hrest

/-- **Valid tables are read correctly.** -/
theorem Valid.correct (ht : t.Valid) : t.Correct where
  nodup := ht.nodup
  index connectionId id := by
    rw [ht.indexed]
    constructor
    · rintro ⟨m, hm, hconn⟩
      exact ⟨m, hm, ht.key id m hm, hconn⟩
    · rintro ⟨m, hm, -, hconn⟩
      exact ⟨m, hm, hconn⟩
  take connectionId recipientKey limit := by
    rw [← ht.toFinset_pendingFor]
    exact oldest_take_insertionSort (ht.nodup_pendingFor connectionId recipientKey) limit
  count connectionId recipientKey := by
    rw [← ht.toFinset_pendingFor,
      toFinset_card_of_nodup (ht.nodup_pendingFor connectionId recipientKey)]
    rfl
  bytes connectionId recipientKey := by
    rw [← ht.toFinset_pendingFor, sum_toFinset _ (ht.nodup_pendingFor connectionId recipientKey)]
    rfl

/-! ## One call -/

def Returns (id : String) : QueueCall → Prop
  | .returnToPending ids => id ∈ ids
  | _ => False

variable {id : String}

/-- **What a call does to a message**: it was added, or it was there before, and then it keeps
its state, or is handed out, or returned. -/
theorem lookup_call (ht : t.Valid) {order : IterOrder String} {c : QueueCall}
    (h : (t.call order c).1.messages.lookup id = some m) :
    c.adding = some id ∨ ∃ m₀, t.messages.lookup id = some m₀ ∧
      (m = m₀ ∨ m = m₀.markSending ∨ Returns id c) := by
  cases c with
  | addMessage message =>
    have h := (lookup_addMessage t message id).symm.trans h
    split at h
    · next hid => exact .inl (congrArg some hid.symm)
    · exact .inr ⟨m, h, .inl rfl⟩
  | takeFromQueue c key limit =>
    have h := (lookup_takeFromQueue t c key limit id).symm.trans h
    split at h
    · obtain ⟨m₀, hm₀, rfl⟩ := Option.map_eq_some_iff.1 h
      exact .inr ⟨m₀, hm₀, .inr (.inl rfl)⟩
    · exact .inr ⟨m, h, .inl rfl⟩
  | removeMessages ids =>
    have h := (lookup_removeMessages t ids id).symm.trans h
    split at h
    · cases h
    · exact .inr ⟨m, h, .inl rfl⟩
  | returnToPending ids =>
    have h := (lookup_returnToPending t ids id).symm.trans h
    split at h
    · next hid =>
      obtain ⟨m₀, hm₀, -⟩ := Option.map_eq_some_iff.1 h
      exact .inr ⟨m₀, hm₀, .inr (.inr hid)⟩
    · exact .inr ⟨m, h, .inl rfl⟩
  | clearConnection c =>
    have h := (lookup_clearConnection t c id).symm.trans h
    split at h
    · cases h
    · exact .inr ⟨m, h, .inl rfl⟩
  | deleteExpired cutoff =>
    have heq : (t.call order (.deleteExpired cutoff)).1 =
        t.removeMessages ((t.expired order cutoff).map QueuedMessage.id) :=
      ht.deleteExpired_eq order cutoff
    rw [heq, lookup_removeMessages] at h
    split at h
    · cases h
    · exact .inr ⟨m, h, .inl rfl⟩
  | deleteExpiredForConnection c cutoff =>
    have h := (lookup_deleteExpiredForConnection t c id cutoff).symm.trans h
    split at h
    · cases h
    · exact .inr ⟨m, h, .inl rfl⟩
  | getPendingCount | getTotalBytes | getOldestMessageTime | findById =>
    exact .inr ⟨m, h, .inl rfl⟩

/-- If the message is stored, it is being delivered. -/
def NotWaiting (t : QueueTables) (id : String) : Prop :=
  ∀ m, t.messages.lookup id = some m → m.state = .sending

theorem NotWaiting.call (h : t.NotWaiting id) (ht : t.Valid) {order : IterOrder String}
    {c : QueueCall} (hadds : c.adding ≠ some id) (hreturns : ¬ Returns id c) :
    (t.call order c).1.NotWaiting id := by
  intro m hm
  rcases lookup_call ht hm with hadd | ⟨m₀, hm₀, rfl | rfl | hreturn⟩
  · exact absurd hadd hadds
  · exact h _ hm₀
  · rfl
  · exact absurd hreturn hreturns

theorem notWaiting_takeFromQueue {limit : ℕ}
    (h : m ∈ (t.takeFromQueue connectionId recipientKey limit).1) :
    (t.takeFromQueue connectionId recipientKey limit).2.NotWaiting m.id := by
  intro m' hm'
  have hid : m.id ∈ (t.taken connectionId recipientKey limit).map QueuedMessage.id :=
    mem_map_of_mem h
  rw [lookup_takeFromQueue, if_pos hid] at hm'
  obtain ⟨m₀, -, rfl⟩ := Option.map_eq_some_iff.1 hm'
  rfl

/-! ## Runs -/

/-- The tables after some calls, each with the iteration order it meets. -/
def run (calls : List (IterOrder String × QueueCall)) : QueueTables :=
  calls.foldl (fun t call => (t.call call.1 call.2).1) .new

def addedIds (calls : List (IterOrder String × QueueCall)) : List String :=
  calls.filterMap fun call => call.2.adding

theorem run_append (calls calls' : List (IterOrder String × QueueCall)) :
    run (calls ++ calls') = calls'.foldl (fun t call => (t.call call.1 call.2).1) (run calls) :=
  foldl_append

theorem run_snoc (calls : List (IterOrder String × QueueCall))
    (call : IterOrder String × QueueCall) :
    run (calls ++ [call]) = ((run calls).call call.1 call.2).1 := by
  rw [run_append]
  rfl

theorem addedIds_append (calls calls' : List (IterOrder String × QueueCall)) :
    addedIds (calls ++ calls') = addedIds calls ++ addedIds calls' := filterMap_append

theorem mem_addedIds_singleton {call : IterOrder String × QueueCall} (h : call.2.adding = some id) :
    id ∈ addedIds [call] :=
  mem_filterMap.2 ⟨call, mem_singleton_self _, h⟩

/-- **Run lemma**: the tables stay valid, and hold only messages that were added. -/
theorem valid_run {calls : List (IterOrder String × QueueCall)} (hfresh : (addedIds calls).Nodup) :
    (run calls).Valid ∧ ∀ id m, (run calls).messages.lookup id = some m → id ∈ addedIds calls := by
  induction calls using reverseRecOn with
  | nil => exact ⟨valid_new, fun id m h => by simp [run, new] at h⟩
  | append_singleton calls call ih =>
    obtain ⟨order, c⟩ := call
    rw [addedIds_append] at hfresh
    obtain ⟨hvalid, hadded⟩ := ih hfresh.of_append_left
    have hstep : (run calls).Fresh c := by
      cases c with
      | addMessage message =>
        show (run calls).messages.lookup message.id = none
        by_contra hstored
        obtain ⟨m, hm⟩ := Option.ne_none_iff_exists'.1 hstored
        exact (nodup_append'.1 hfresh).2.2 (hadded message.id m hm) (mem_singleton_self _)
      | _ => trivial
    rw [run_snoc, addedIds_append]
    refine ⟨hvalid.call hstep, fun id m hm => ?_⟩
    rcases lookup_call hvalid hm with hadd | ⟨m₀, hm₀, -⟩
    · exact mem_append_right _ (mem_addedIds_singleton hadd)
    · exact mem_append_left _ (hadded id m₀ hm₀)

theorem notWaiting_run {calls mid : List (IterOrder String × QueueCall)}
    (hfresh : (addedIds (calls ++ mid)).Nodup) (h : (run calls).NotWaiting id)
    (hadded : id ∈ addedIds calls) (hreturns : ∀ call ∈ mid, ¬ Returns id call.2) :
    (run (calls ++ mid)).NotWaiting id := by
  induction mid using reverseRecOn with
  | nil => rwa [append_nil]
  | append_singleton mid call ih =>
    rw [← append_assoc] at hfresh ⊢
    have hinit : (addedIds (calls ++ mid)).Nodup := by
      rw [addedIds_append] at hfresh
      exact hfresh.of_append_left
    have hbefore := ih hinit fun call' hcall' => hreturns call' (mem_append_left _ hcall')
    rw [run_snoc]
    refine hbefore.call (valid_run hinit).1 (fun hadd => ?_)
      (hreturns call (mem_append_right _ (mem_singleton_self _)))
    -- the id was added before, so it cannot be fresh
    rw [addedIds_append] at hfresh
    refine (nodup_append'.1 hfresh).2.2 ?_ (mem_addedIds_singleton hadd)
    rw [addedIds_append]
    exact mem_append_left _ hadded

/-- **The queue is correct in every run with fresh ids**, and a message that is handed out
twice was returned in between. -/
theorem handsOutOnce (calls : List (IterOrder String × QueueCall))
    (hfresh : (addedIds calls).Nodup) :
    (run calls).Correct ∧
      ∀ before mid after order order' c c' key key' limit limit',
        calls = before ++ (order, .takeFromQueue c key limit) :: mid ++
          (order', .takeFromQueue c' key' limit') :: after →
        ∀ m ∈ ((run before).takeFromQueue c key limit).1,
          ∀ m' ∈ ((run (before ++ (order, .takeFromQueue c key limit) :: mid)).takeFromQueue c'
              key' limit').1,
            m'.id = m.id → ∃ call ∈ mid, Returns m.id call.2 := by
  refine ⟨(valid_run hfresh).1.correct, ?_⟩
  intro before mid after order order' c c' key key' limit limit' hcalls m hm m' hm' hid
  by_contra hreturns
  push Not at hreturns
  rw [hcalls, addedIds_append] at hfresh
  have hfresh := hfresh.of_append_left
  rw [append_cons] at hfresh hm'
  have hbefore : (addedIds before).Nodup := by
    rw [append_assoc, addedIds_append] at hfresh
    exact hfresh.of_append_left
  obtain ⟨hvalid, hadded⟩ := valid_run hbefore
  have htaken : (run (before ++ [(order, .takeFromQueue c key limit)])).NotWaiting m.id := by
    rw [run_snoc]
    exact notWaiting_takeFromQueue hm
  have hmem : m.id ∈ addedIds (before ++ [(order, .takeFromQueue c key limit)]) := by
    rw [addedIds_append]
    exact mem_append_left _ (hadded m.id m (hvalid.of_mem_taken hm).1)
  have hnot := notWaiting_run hfresh htaken hmem hreturns
  obtain ⟨hlookup, -, hpending⟩ := (valid_run hfresh).1.of_mem_taken hm'
  rw [← hid] at hnot
  rw [hnot m' hlookup] at hpending
  cases hpending

/-- A message is queued, handed out, returned and handed out again. -/
theorem handsOutOnce_returned : (run
    [(.some, .addMessage (.new "m-1" "conn-1" ["key1"] "payload" 7)),
      (.some, .takeFromQueue "conn-1" none 10), (.some, .returnToPending ["m-1"]),
      (.some, .takeFromQueue "conn-1" (some "key1") 10)]).Correct := by
  refine (handsOutOnce _ ?_).1
  exact nodup_singleton "m-1"

/-! ## Picking up in rounds -/

/-- One delivery, all of it acknowledged. -/
def pickUp (t : QueueTables) (connectionId : String) (recipientKey : Option String)
    (limit : ℕ) : List QueuedMessage × QueueTables :=
  let (messages, t') := t.takeFromQueue connectionId recipientKey limit
  (messages, t'.removeMessages (messages.map QueuedMessage.id))

/-- One round after the other, with the limit of each. -/
def pickUpAll (t : QueueTables) (connectionId : String) (recipientKey : Option String) :
    List ℕ → List QueuedMessage × QueueTables
  | [] => ([], t)
  | limit :: limits =>
    let (messages, t') := t.pickUp connectionId recipientKey limit
    let (rest, t'') := t'.pickUpAll connectionId recipientKey limits
    (messages ++ rest, t'')

theorem Oldest.append {messages : Finset QueuedMessage} {limit limit' : ℕ}
    {l l' : List QueuedMessage} (h : Oldest messages limit l)
    (h' : Oldest (messages \ l.toFinset) limit' l') :
    Oldest messages (limit + limit') (l ++ l') := by
  have hrest : ∀ m ∈ l', m ∈ messages ∧ m ∉ l := fun m hm => by
    simpa using h'.subset m hm
  refine ⟨?_, ?_, fun m hm => ?_, ?_, fun m hm hout m' hm' => ?_⟩
  · exact h.nodup.append h'.nodup fun m hm hm' => (hrest m hm').2 hm
  · exact pairwise_append.2 ⟨h.ordered, h'.ordered, fun m hm m' hm' =>
      h.oldest m' (hrest m' hm').1 (hrest m' hm').2 m hm⟩
  · exact (mem_append.1 hm).elim (h.subset m) fun hm => (hrest m hm).1
  · have hsub : l.toFinset ⊆ messages := fun m hm => h.subset m (mem_toFinset.1 hm)
    rw [length_append, h'.length, Finset.card_sdiff_of_subset hsub,
      toFinset_card_of_nodup h.nodup, h.length]
    omega
  · rw [mem_append, not_or] at hout
    rcases mem_append.1 hm' with hm' | hm'
    · exact h.oldest m hm hout.1 m' hm'
    · exact h'.oldest m (by simp [hm, hout.1]) hout.2 m' hm'

theorem Valid.lookup_pickUp (ht : t.Valid) {limit : ℕ} {id : String} :
    (t.pickUp connectionId recipientKey limit).2.messages.lookup id = some m ↔
      t.messages.lookup id = some m ∧ m ∉ (t.pickUp connectionId recipientKey limit).1 := by
  have hrw : (t.pickUp connectionId recipientKey limit).2.messages.lookup id =
      if id ∈ (t.taken connectionId recipientKey limit).map QueuedMessage.id then none
      else t.messages.lookup id := by
    refine (lookup_removeMessages _ _ id).trans (ite_congr rfl (fun _ => rfl) fun hid => ?_)
    exact (lookup_takeFromQueue t _ _ _ id).trans (if_neg hid)
  rw [hrw]
  constructor
  · intro h
    split at h
    · cases h
    · next hid => exact ⟨h, fun hm => hid (ht.key id m h ▸ mem_map_of_mem hm)⟩
  · rintro ⟨h, hm⟩
    rw [if_neg fun hid => ?_, h]
    obtain ⟨m', hm', rfl⟩ := mem_map.1 hid
    rw [(ht.of_mem_taken hm').1] at h
    exact hm (Option.some.inj h ▸ hm')

theorem Valid.pickUp (ht : t.Valid) (limit : ℕ) :
    (t.pickUp connectionId recipientKey limit).2.Valid :=
  (ht.takeFromQueue connectionId recipientKey limit).removeMessages _

/-- **Rounds of any sizes** hand out what one delivery of their sum would: the oldest messages
waiting, in received order and each once; every other message stays as it is. -/
theorem oldest_pickUpAll (ht : t.Valid) (limits : List ℕ) :
    Oldest (t.waiting connectionId recipientKey) limits.sum
        (t.pickUpAll connectionId recipientKey limits).1 ∧
      ∀ id m, (t.pickUpAll connectionId recipientKey limits).2.messages.lookup id = some m ↔
        t.messages.lookup id = some m ∧ m ∉ (t.pickUpAll connectionId recipientKey limits).1 := by
  induction limits generalizing t with
  | nil =>
    refine ⟨⟨nodup_nil, Pairwise.nil, by simp [QueueTables.pickUpAll],
      by simp [QueueTables.pickUpAll], by simp [QueueTables.pickUpAll]⟩, fun id m => ?_⟩
    simp [QueueTables.pickUpAll]
  | cons limit limits ih =>
    obtain ⟨hrest, hkept⟩ := ih (ht.pickUp limit)
    have hfirst : Oldest (t.waiting connectionId recipientKey) limit
        (t.pickUp connectionId recipientKey limit).1 := ht.correct.take _ _ _
    have hwaiting : (t.pickUp connectionId recipientKey limit).2.waiting connectionId
        recipientKey = t.waiting connectionId recipientKey \
          (t.pickUp connectionId recipientKey limit).1.toFinset := by
      ext m
      simp only [mem_waiting, ht.lookup_pickUp, exists_and_right, Finset.mem_sdiff, mem_toFinset]
      tauto
    rw [hwaiting] at hrest
    refine ⟨hfirst.append hrest, fun id m => (hkept id m).trans ?_⟩
    rw [ht.lookup_pickUp, and_assoc]
    refine and_congr_right fun _ => ?_
    exact not_or.symm.trans (not_congr mem_append.symm)

theorem oldest_pickUpAll_two :
    let t := (new.addMessage (.new "m-2" "conn-1" ["key1"] "two" 9)).addMessage
      (.new "m-1" "conn-1" ["key1"] "one" 7)
    Oldest (t.waiting "conn-1" none) 2 (t.pickUpAll "conn-1" none [1, 1]).1 := by
  refine (oldest_pickUpAll ((valid_new.addMessage rfl).addMessage ?_) [1, 1]).1
  rw [lookup_addMessage]
  rfl

end QueueTables

end Idiom.Pickup
