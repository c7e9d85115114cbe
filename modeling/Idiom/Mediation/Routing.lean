import Idiom.Mediation.Forward
import Idiom.Mediation.KeylistRuns

/-!
# Routing a JWE to a mediated recipient

A JWE reaches the mediator over HTTP, on a WebSocket, or wrapped in a forward message. Each of
the three reads the recipient keys in its own way before it calls `process_forward`.
-/

namespace Idiom.Mediation

open Pickup Option List QueueTables KeylistTask Keylist Run

/-! ## Kids -/

/-- What is read of a JWE without decrypting it: the `kid` of each recipient, in the protected
header and at the top level, and the `skid` of the sender. -/
structure Jwe where
  protectedRecipients : List (Option String)
  recipients : List (Option String)
  skid : Option String
  deriving DecidableEq

/-- Extract recipient kids from a raw JWE: those of the protected header, if there are any. -/
def extractJweRecipientKids (jwe : Jwe) : List String :=
  let kids := jwe.protectedRecipients.reduceOption
  if kids.isEmpty then jwe.recipients.reduceOption else kids

/-- Convert a recipient `kid` to the raw base58 form used by the keylist. -/
def canonicalizeKid (kid : String) : String :=
  match stripPrefix "did:key:z" kid with
  | none => kid
  | some stripped =>
    match Base58.decode stripped with
    | none => kid
    | some decoded =>
      if decoded.length = 34 ∧ decoded[0]? = some 0xed ∧ decoded[1]? = some 0x01 then
        Base58.encode (decoded.drop 2)
      else kid

/-- What the socket makes of a `did:key`: the base58 of all but two bytes, whatever they are. -/
def rawVerkey (kid : String) : Option String :=
  match didKeyBytes kid with
  | none => none
  | some decoded => if 2 < decoded.length then some (Base58.encode (decoded.drop 2)) else none

section

variable (order : IterOrder KeylistRecord) (rows : Keylist)

def Keylist.findMediationForRecipientKey (recipientKey : String) : Option KeylistRecord :=
  (rows.getAll order).find? fun r => r.recipientKey = recipientKey

/-- The HTTP handler probes the canonical form of each kid. -/
def httpMatchedKid (kids : List String) : Option String :=
  kids.findSome? fun kid =>
    let canonical := canonicalizeKid kid
    match rows.findMediationForRecipientKey order canonical with
    | some _ => some canonical
    | none => none

/-- The WebSocket fast path probes each kid as it is, then without its first two bytes. -/
def wsMatchedKid (kids : List String) : Option String :=
  kids.findSome? fun kid =>
    match rows.findMediationForRecipientKey order kid with
    | some _ => some kid
    | none =>
      match rawVerkey kid with
      | none => none
      | some raw =>
        match rows.findMediationForRecipientKey order raw with
        | some _ => some raw
        | none => none

/-! ## `process_forward` -/

inductive MediationState where
  | requested
  | granted
  | denied
  deriving DecidableEq

structure MediationRecord where
  connectionId : String
  state : MediationState

inductive MediationError where
  | storage (message : String)
  | notFound (message : String)
  | invalidState (expected : List MediationState) (actual : MediationState)

/-- The repositories behind `ForwardService`. -/
structure Mediator where
  rows : Keylist
  mediations : String → Option MediationRecord
  queue : QueueTables

def forwardRow (recipientKey : String) : Option KeylistRecord :=
  rows.findMediationForRecipientKey order (canonicalizeRecipientKey recipientKey)

/-- Process a forwarded message for a recipient key, up to its place in the queue: the id of the
queue entry, and the queue. The key is looked up in canonical form and queued as it was
given. -/
def processForward (s : Mediator) (recipientKey encryptedMessage : String) (now : Timestamp)
    (id : String) : Except MediationError (String × QueueTables) :=
  if maxForwardedMessageSizeBytes < encryptedMessage.utf8ByteSize then
    let size := encryptedMessage.utf8ByteSize
    .error (.storage
      s!"Forwarded message too large: {size} bytes (max {maxForwardedMessageSizeBytes})")
  else
    match forwardRow order s.rows recipientKey with
    | none => .error (.notFound s!"No mediation found for recipient key: {recipientKey}")
    | some r =>
      match s.mediations r.mediationId with
      | none => .error (.notFound s!"Mediation not found: {r.mediationId}")
      | some m =>
        if m.state ≠ .granted then .error (.invalidState [.granted] m.state)
        else
          let c := m.connectionId
          let enqueue (queue : QueueTables) : String × QueueTables :=
            (id, queue.addMessage (.new id c [recipientKey] encryptedMessage now))
          let count := s.queue.getPendingCount c none
          if maxQueuePerConnection ≤ count then
            let relief := s.queue.deleteExpiredForConnection c (now - forwardStaleReliefTtl)
            if relief.1 = 0 then
              .error (.storage
                s!"Queue full for connection {c} ({count} messages, max {maxQueuePerConnection})")
            else .ok (enqueue relief.2)
          else .ok (enqueue s.queue)

/-! ## Entry points -/

/-- What becomes of a JWE. -/
inductive JweOutcome where
  | directRouted (recipientKid : String)
  | unpacked
  | rejected

/-- The HTTP handler: a JWE that it cannot unpack goes through `direct_route_jwe` once more. -/
def httpJwe (jwe : Jwe) (unpacks : Bool) : JweOutcome :=
  let kids := extractJweRecipientKids jwe
  match httpMatchedKid order rows kids with
  | some kid => .directRouted kid
  | none =>
    if unpacks then .unpacked
    else
      match httpMatchedKid order rows kids with
      | some kid => .directRouted kid
      | none => .rejected

def wsJwe (jwe : Jwe) (unpacks : Bool) : JweOutcome :=
  match wsMatchedKid order rows (extractJweRecipientKids jwe) with
  | some kid => .directRouted kid
  | none => if unpacks then .unpacked else .rejected

def JweOutcome.recipientKid : JweOutcome → Option String
  | .directRouted kid => some kid
  | _ => none

inductive Entry where
  | http
  | webSocket
  | forward

/-- The key that an entry point gives to `process_forward`. A forward message names its
recipient; of several, this is the first that a mediation is found for. -/
def Entry.recipientKey (jwe : Jwe) (unpacks : Bool) : Entry → Option String
  | .http => (httpJwe order rows jwe unpacks).recipientKid
  | .webSocket => (wsJwe order rows jwe unpacks).recipientKid
  | .forward => (extractJweRecipientKids jwe).find? fun kid => (forwardRow order rows kid).isSome

def Entry.deliveredTo (jwe : Jwe) (unpacks : Bool) (e : Entry) : Option KeylistRecord :=
  (e.recipientKey order rows jwe unpacks).bind (forwardRow order rows)

/-- The message is one of those that a status request of its connection with this filter counts,
and that a delivery request takes from. -/
def Found (queue : QueueTables) (id recipientKey : String) : Prop :=
  ∃ m, queue.messages.lookup id = some m ∧ m ∈ queue.pendingFor m.connectionId (some recipientKey)

/-- The entry points agree on whether a JWE is for a mediated recipient and on its row; and a
message that is queued is found with the filter, if that spells its recipient key. -/
structure Consistent (jwe : Jwe) (unpacks : Bool) (filter : String) : Prop where
  mediated : ∀ e e' : Entry, (e.recipientKey order rows jwe unpacks).isSome =
    (e'.recipientKey order rows jwe unpacks).isSome
  delivered : ∀ e e' : Entry,
    e.deliveredTo order rows jwe unpacks = e'.deliveredTo order rows jwe unpacks
  found : ∀ (e : Entry) (key : String), e.recipientKey order rows jwe unpacks = some key →
    canonicalizeRecipientKey filter = canonicalizeRecipientKey key →
    ∀ (s : Mediator) (encryptedMessage : String) (now : Timestamp) (id id' : String)
      (queue : QueueTables), s.rows = rows →
      processForward order s key encryptedMessage now id = .ok (id', queue) → Found queue id' filter

end

/-! ## The condition -/

variable (rows : Keylist)

def Mediated (key : String) : Prop := ∃ r ∈ rows, r.recipientKey = key

/-- The first kid whose canonical form has a row. -/
def FirstMediated (kids : List String) (kid : String) : Prop :=
  ∃ before after, kids = before ++ kid :: after ∧
    (∀ k ∈ before, ¬ Mediated rows (canonicalizeRecipientKey k)) ∧
    Mediated rows (canonicalizeRecipientKey kid)

/-- A `did:key` that has no row, but whose bytes after the first two are the key of one. -/
def Stray (kid raw : String) : Prop :=
  ¬ Mediated rows (canonicalizeRecipientKey kid) ∧ rawVerkey kid = some raw ∧ Mediated rows raw

def Unambiguous (kids : List String) : Prop :=
  ∀ before kid after raw, kids = before ++ kid :: after →
    (∀ k ∈ before, ¬ Mediated rows (canonicalizeRecipientKey k) ∧ ∀ raw, ¬ Stray rows k raw) →
    Stray rows kid raw →
    ∃ kid', FirstMediated rows after kid' ∧ canonicalizeRecipientKey kid' = raw

/-- If the filter spells the key of the first mediated kid, both are in the form that is
stored. -/
def Spelled (kids : List String) (filter : String) : Prop :=
  ∀ kid, FirstMediated rows kids kid →
    canonicalizeRecipientKey filter = canonicalizeRecipientKey kid →
    filter = canonicalizeRecipientKey kid ∧ kid = canonicalizeRecipientKey kid

/-! ## Stored keys -/

def Keylist.StoredForm (rows : Keylist) : Prop :=
  ∀ r ∈ rows, KeylistSystem.Canonical r.recipientKey

/-- The key of the update at hand. -/
def KeylistPc.key : KeylistPc → Option String
  | .start => none
  | .scan key _ => some key
  | .check key _ _ _ => some key
  | .delete key _ _ _ _ => some key
  | .save key _ => some key

namespace KeylistSystem

structure Stored (s : KeylistSystem) : Prop where
  rows : s.store.rows.StoredForm
  tasks : ∀ t task, s.tasks t = some task → ∀ key, task.pc.key = some key → Canonical key

theorem stored_start : Stored start where
  rows r hr := by simp [start] at hr
  tasks t task h := by simp [start] at h

theorem deleteByRecipientKey_subset (order : IterOrder KeylistRecord) (rows : Keylist)
    (mediationId recipientKey : String) (backend : KeylistBackend) :
    rows.deleteByRecipientKey order mediationId recipientKey backend ⊆ rows := by
  cases backend with
  | memory => exact Finset.filter_subset _ _
  | storage =>
    unfold deleteByRecipientKey
    cases rows.findByRecipientKey order mediationId recipientKey with
    | none => exact Finset.Subset.refl _
    | some r => exact Finset.erase_subset _ _

variable {backend : KeylistBackend}

theorem stored_next {order : IterOrder KeylistRecord} {id : String} {store store' : KeylistStore}
    {task task' : KeylistTask} {event : KeylistEvent} (hrows : store.rows.StoredForm)
    (htask : ∀ key, task.pc.key = some key → Canonical key)
    (h : task.next backend order id store = some (store', task', event)) :
    store'.rows.StoredForm ∧ ∀ key, task'.pc.key = some key → Canonical key := by
  have hdelete : ∀ mediationId key,
      (store.rows.deleteByRecipientKey order mediationId key backend).StoredForm :=
    fun mediationId key r hr => hrows r (deleteByRecipientKey_subset order _ _ _ backend hr)
  obtain ⟨mediationId, updates, pc, results⟩ := task
  cases pc with
  | start =>
    cases updates with
    | nil => simp [KeylistTask.next] at h
    | cons update updates =>
      obtain ⟨recipientKey, action⟩ := update
      cases action with
      | add =>
        cases h
        refine ⟨hrows, fun key hkey => ?_⟩
        obtain rfl := some.inj hkey
        exact canonicalizeRecipientKey_idem recipientKey
      | remove =>
        cases h
        exact ⟨hdelete _ _, fun key hkey => (by cases hkey)⟩
  | scan k newConn =>
    cases h
    exact ⟨hrows, htask⟩
  | check k newConn stale deleted =>
    cases stale with
    | nil =>
      simp only [KeylistTask.next] at h
      split at h
      all_goals cases h
      · exact ⟨hrows, fun key hkey => (by cases hkey)⟩
      · exact ⟨hrows, htask⟩
    | cons r stale =>
      simp only [KeylistTask.next] at h
      split at h
      · split_ifs at h
        all_goals cases h
        · exact ⟨hrows, htask⟩
        · exact ⟨hrows, fun key hkey => (by cases hkey)⟩
      · cases h
        exact ⟨hrows, htask⟩
  | delete k newConn row stale deleted =>
    cases h
    exact ⟨hdelete _ _, htask⟩
  | save k deleted =>
    cases h
    refine ⟨fun r hr => ?_, fun key hkey => (by cases hkey)⟩
    rcases Finset.mem_insert.1 hr with rfl | hr
    · exact htask k rfl
    · exact hrows r hr

theorem Stored.step {s s' : KeylistSystem} {a : KeylistStep} (h : Stored s)
    (hstep : s.step backend a = some s') : Stored s' := by
  cases a with
  | request mediationId connectionId =>
    simp only [KeylistSystem.step] at hstep
    split at hstep
    · cases hstep
    · obtain rfl := some.inj hstep
      exact ⟨h.rows, h.tasks⟩
  | drop mediationId =>
    obtain rfl := some.inj hstep
    exact ⟨h.rows, h.tasks⟩
  | update t mediationId updates =>
    simp only [KeylistSystem.step] at hstep
    split at hstep
    · obtain rfl := some.inj hstep
      refine ⟨h.rows, fun u task hu key hkey => ?_⟩
      rcases update_eq_some hu with ⟨-, rfl⟩ | ⟨-, hu⟩
      · cases hkey
      · exact h.tasks u task hu key hkey
    · cases hstep
  | run t order id =>
    simp only [KeylistSystem.step] at hstep
    split at hstep
    · cases hstep
    · next task ht =>
      split_ifs at hstep
      split at hstep
      · cases hstep
      · next store task' event hnext =>
        obtain rfl := some.inj hstep
        obtain ⟨hrows, hkey⟩ := stored_next h.rows (h.tasks t task ht) hnext
        refine ⟨by rwa [record_store], fun u other hu => ?_⟩
        rw [record_tasks] at hu
        rcases update_eq_some hu with ⟨-, rfl⟩ | ⟨-, hu⟩
        · exact hkey
        · exact h.tasks u other hu

theorem canonical_of_exec {steps : List KeylistStep} {s : KeylistSystem}
    (hexec : exec (KeylistSystem.step backend) start steps = some s) : s.store.rows.StoredForm :=
  (exec_invariant (fun _ _ _ h hstep => Stored.step h hstep) stored_start hexec).rows

end KeylistSystem

open KeylistSystem

/-! ## The matches -/

section

variable {order : IterOrder KeylistRecord} {rows : Keylist} {key kid : String}

theorem canonicalizeKid_eq (kid : String) : canonicalizeKid kid = canonicalizeRecipientKey kid := by
  unfold canonicalizeKid canonicalizeRecipientKey didKeyBytes
  cases stripPrefix "did:key:z" kid with
  | none => rfl
  | some stripped =>
    simp only [bind_some]
    cases Base58.decode stripped with
    | none => rfl
    | some decoded =>
      match decoded with
      | [] | [_] => simp
      | a :: b :: rest => simp [ed25519Pub]

theorem canonical_or_rawVerkey (kid : String) :
    canonicalizeRecipientKey kid = kid ∨ rawVerkey kid = some (canonicalizeRecipientKey kid) := by
  cases hkid : didKeyBytes kid with
  | none => simp [canonicalizeRecipientKey, hkid]
  | some decoded =>
    by_cases hed : decoded.length = 34 ∧ decoded.take 2 = ed25519Pub
    · right
      simp only [rawVerkey, canonicalizeRecipientKey, hkid, if_pos hed]
      rw [if_pos (by omega)]
    · left
      simp only [canonicalizeRecipientKey, hkid, if_neg hed]

theorem of_findMediation {r : KeylistRecord}
    (h : rows.findMediationForRecipientKey order key = some r) : r ∈ rows ∧ r.recipientKey =
      key := by
  simpa using order.mem_of_find? h

theorem exists_findMediation (order : IterOrder KeylistRecord) (h : Mediated rows key) :
    ∃ r, rows.findMediationForRecipientKey order key = some r := by
  obtain ⟨r, hr, hkey⟩ := h
  exact isSome_iff_exists.1 (order.find?_isSome.2 ⟨r, hr, by simpa using hkey⟩)

theorem findMediation_eq_none (h : ¬ Mediated rows key) :
    rows.findMediationForRecipientKey order key = none := by
  cases hfind : rows.findMediationForRecipientKey order key with
  | none => rfl
  | some r => exact absurd ⟨r, of_findMediation hfind⟩ h

theorem httpProbe_eq_some (order : IterOrder KeylistRecord) {found : String} :
    (match rows.findMediationForRecipientKey order (canonicalizeKid kid) with
      | some _ => some (canonicalizeKid kid)
      | none => none) = some found ↔
      Mediated rows (canonicalizeRecipientKey kid) ∧ canonicalizeRecipientKey kid = found := by
  rw [canonicalizeKid_eq]
  by_cases hmed : Mediated rows (canonicalizeRecipientKey kid)
  · obtain ⟨r, hr⟩ := exists_findMediation order hmed
    simp [hr, hmed]
  · simp [findMediation_eq_none hmed, hmed]

theorem httpMatchedKid_eq_some {kids : List String} {found : String} :
    httpMatchedKid order rows kids = some found ↔
      ∃ kid, FirstMediated rows kids kid ∧ canonicalizeRecipientKey kid = found := by
  unfold httpMatchedKid FirstMediated
  rw [findSome?_eq_some_iff]
  constructor
  · rintro ⟨before, kid, after, rfl, hkid, hbefore⟩
    obtain ⟨hmed, hfound⟩ := (httpProbe_eq_some order).1 hkid
    refine ⟨kid, ⟨before, after, rfl, fun k hk hmed' => ?_, hmed⟩, hfound⟩
    have hsome := (httpProbe_eq_some order).2 ⟨hmed', rfl⟩
    rw [hbefore k hk] at hsome
    cases hsome
  · rintro ⟨kid, ⟨before, after, rfl, hbefore, hmed⟩, hfound⟩
    refine ⟨before, kid, after, rfl, (httpProbe_eq_some order).2 ⟨hmed, hfound⟩, fun k hk => ?_⟩
    rw [eq_none_iff_forall_ne_some]
    intro found' hsome
    exact hbefore k hk ((httpProbe_eq_some order).1 hsome).1

theorem httpMatchedKid_cons_mediated (h : Mediated rows (canonicalizeRecipientKey kid))
    (kids : List String) :
    httpMatchedKid order rows (kid :: kids) = some (canonicalizeRecipientKey kid) := by
  unfold httpMatchedKid
  rw [findSome?_cons, (httpProbe_eq_some order).2 ⟨h, rfl⟩]

theorem httpMatchedKid_cons_none (h : ¬ Mediated rows (canonicalizeRecipientKey kid))
    (kids : List String) :
    httpMatchedKid order rows (kid :: kids) = httpMatchedKid order rows kids := by
  unfold httpMatchedKid
  rw [← canonicalizeKid_eq] at h
  simp only [findSome?_cons, findMediation_eq_none h]

theorem canonical_of_mediated (hrows : rows.StoredForm)
    (h : Mediated rows kid) : canonicalizeRecipientKey kid = kid := by
  obtain ⟨r, hr, rfl⟩ := h
  exact hrows r hr

theorem wsMatchedKid_cons_mediated (hrows : rows.StoredForm)
    (h : Mediated rows (canonicalizeRecipientKey kid)) (kids : List String) :
    wsMatchedKid order rows (kid :: kids) = some (canonicalizeRecipientKey kid) := by
  obtain ⟨r, hr⟩ := exists_findMediation order h
  unfold wsMatchedKid
  by_cases hkid : canonicalizeRecipientKey kid = kid
  · rw [hkid] at hr ⊢
    simp only [findSome?_cons, hr]
  · -- the kid is a `did:key` of a row, and has no row itself
    have hnone : ¬ Mediated rows kid := fun hmed => hkid (canonical_of_mediated hrows hmed)
    have hraw := (canonical_or_rawVerkey kid).resolve_left hkid
    simp only [findSome?_cons, findMediation_eq_none hnone, hraw, hr]

theorem not_mediated_of_canonical (hrows : rows.StoredForm)
    (h : ¬ Mediated rows (canonicalizeRecipientKey kid)) : ¬ Mediated rows kid := by
  intro hmed
  rw [canonical_of_mediated hrows hmed] at h
  exact h hmed

theorem wsMatchedKid_cons_stray (hrows : rows.StoredForm)
    {raw : String} (h : Stray rows kid raw) (kids : List String) :
    wsMatchedKid order rows (kid :: kids) = some raw := by
  obtain ⟨hnone, hraw, hmed⟩ := h
  obtain ⟨r, hr⟩ := exists_findMediation order hmed
  unfold wsMatchedKid
  simp only [findSome?_cons, findMediation_eq_none (not_mediated_of_canonical hrows hnone),
    hraw, hr]

theorem wsMatchedKid_cons_none (hrows : rows.StoredForm)
    (h : ¬ Mediated rows (canonicalizeRecipientKey kid)) (hstray : ∀ raw, ¬ Stray rows kid raw)
    (kids : List String) :
    wsMatchedKid order rows (kid :: kids) = wsMatchedKid order rows kids := by
  unfold wsMatchedKid
  simp only [findSome?_cons, findMediation_eq_none (not_mediated_of_canonical hrows h)]
  cases hraw : rawVerkey kid with
  | none => rfl
  | some raw =>
    have hnone : ¬ Mediated rows raw := fun hmed => hstray raw ⟨h, hraw, hmed⟩
    simp only [findMediation_eq_none hnone]

/-! ## When the matches agree -/

theorem unambiguous_cons_mediated (h : Mediated rows (canonicalizeRecipientKey kid))
    (kids : List String) : Unambiguous rows (kid :: kids) := by
  intro before k after raw heq hbefore hstray
  cases before with
  | nil =>
    obtain ⟨rfl, -⟩ := cons.inj heq
    exact absurd h hstray.1
  | cons k' before =>
    obtain ⟨rfl, -⟩ := cons.inj heq
    exact absurd h (hbefore kid (by simp)).1

theorem unambiguous_cons_stray {raw : String} (h : Stray rows kid raw) (kids : List String) :
    Unambiguous rows (kid :: kids) ↔
      ∃ kid', FirstMediated rows kids kid' ∧ canonicalizeRecipientKey kid' = raw := by
  constructor
  · intro hkids
    exact hkids [] kid kids raw rfl (by simp) h
  · intro hfirst before k after raw' heq hbefore hstray
    cases before with
    | nil =>
      obtain ⟨rfl, rfl⟩ := cons.inj heq
      obtain rfl := some.inj (h.2.1.symm.trans hstray.2.1)
      exact hfirst
    | cons k' before =>
      obtain ⟨rfl, -⟩ := cons.inj heq
      exact absurd h ((hbefore kid (by simp)).2 raw)

theorem unambiguous_cons_none (h : ¬ Mediated rows (canonicalizeRecipientKey kid))
    (hstray : ∀ raw, ¬ Stray rows kid raw) (kids : List String) :
    Unambiguous rows (kid :: kids) ↔ Unambiguous rows kids := by
  constructor
  · rintro hkids before k after raw rfl hbefore
    refine hkids (kid :: before) k after raw rfl fun k' hk' => ?_
    rcases mem_cons.1 hk' with rfl | hk'
    · exact ⟨h, hstray⟩
    · exact hbefore k' hk'
  · intro hkids before k after raw heq hbefore hk
    cases before with
    | nil =>
      obtain ⟨rfl, -⟩ := cons.inj heq
      exact absurd hk (hstray raw)
    | cons k' before =>
      obtain ⟨rfl, rfl⟩ := cons.inj heq
      exact hkids before k after raw rfl (fun x hx => hbefore x (by simp [hx])) hk

/-- The socket and the HTTP handler match the same key, exactly when no stray kid misleads the
socket. -/
theorem matchedKid_eq_iff (hrows : rows.StoredForm) (kids : List String) :
    wsMatchedKid order rows kids = httpMatchedKid order rows kids ↔ Unambiguous rows kids := by
  induction kids with
  | nil =>
    constructor
    · intro _ before kid after raw heq
      simp at heq
    · intro _
      rfl
  | cons kid kids ih =>
    by_cases hmed : Mediated rows (canonicalizeRecipientKey kid)
    · rw [wsMatchedKid_cons_mediated hrows hmed, httpMatchedKid_cons_mediated hmed]
      exact iff_of_true rfl (unambiguous_cons_mediated hmed kids)
    · by_cases hstray : ∃ raw, Stray rows kid raw
      · obtain ⟨raw, hstray⟩ := hstray
        rw [wsMatchedKid_cons_stray hrows hstray, httpMatchedKid_cons_none hmed,
          unambiguous_cons_stray hstray, ← httpMatchedKid_eq_some, eq_comm]
      · have hnone : ∀ raw, ¬ Stray rows kid raw := fun raw h => hstray ⟨raw, h⟩
        rw [wsMatchedKid_cons_none hrows hmed hnone, httpMatchedKid_cons_none hmed,
          unambiguous_cons_none hmed hnone, ih]

/-! ## Entry points -/

variable {jwe : Jwe} {unpacks : Bool}

open Entry

theorem recipientKey_http : http.recipientKey order rows jwe unpacks =
    httpMatchedKid order rows (extractJweRecipientKids jwe) := by
  simp only [recipientKey, httpJwe]
  cases httpMatchedKid order rows (extractJweRecipientKids jwe) with
  | some kid => rfl
  | none => cases unpacks <;> rfl

theorem recipientKey_webSocket : webSocket.recipientKey order rows jwe unpacks =
    wsMatchedKid order rows (extractJweRecipientKids jwe) := by
  simp only [recipientKey, wsJwe]
  cases wsMatchedKid order rows (extractJweRecipientKids jwe) with
  | some kid => rfl
  | none => cases unpacks <;> rfl

theorem forwardRow_isSome (order : IterOrder KeylistRecord) :
    (forwardRow order rows kid).isSome = true ↔ Mediated rows (canonicalizeRecipientKey kid) := by
  unfold forwardRow
  by_cases hmed : Mediated rows (canonicalizeRecipientKey kid)
  · obtain ⟨r, hr⟩ := exists_findMediation order hmed
    simp [hr, hmed]
  · simp [findMediation_eq_none hmed, hmed]

theorem recipientKey_forward : forward.recipientKey order rows jwe unpacks = some kid ↔
    FirstMediated rows (extractJweRecipientKids jwe) kid := by
  simp only [recipientKey, find?_eq_some_iff_append, forwardRow_isSome]
  constructor
  · rintro ⟨hmed, before, after, heq, hbefore⟩
    refine ⟨before, after, heq, fun k hk hmed' => ?_, hmed⟩
    rw [← forwardRow_isSome order] at hmed'
    simpa [hmed'] using hbefore k hk
  · rintro ⟨before, after, heq, hbefore, hmed⟩
    refine ⟨hmed, before, after, heq, fun k hk => ?_⟩
    have hnone := hbefore k hk
    rw [← forwardRow_isSome order] at hnone
    simpa using hnone

theorem recipientKey_http_eq : http.recipientKey order rows jwe unpacks =
    (forward.recipientKey order rows jwe unpacks).map canonicalizeRecipientKey := by
  rw [recipientKey_http]
  ext found
  rw [httpMatchedKid_eq_some, map_eq_some_iff]
  simp only [recipientKey_forward]

theorem forwardRow_canonical (key : String) :
    forwardRow order rows (canonicalizeRecipientKey key) = forwardRow order rows key := by
  unfold forwardRow
  rw [canonicalizeRecipientKey_idem]

theorem deliveredTo_http : http.deliveredTo order rows jwe unpacks =
    forward.deliveredTo order rows jwe unpacks := by
  unfold deliveredTo
  rw [recipientKey_http_eq]
  cases forward.recipientKey order rows jwe unpacks with
  | none => rfl
  | some kid => exact forwardRow_canonical kid

theorem recipientKey_of_forwardRow {r : KeylistRecord} (h : forwardRow order rows key = some r) :
    r.recipientKey = canonicalizeRecipientKey key :=
  (of_findMediation h).2

theorem wsMatchedKid_mediated (hrows : rows.StoredForm)
    {kids : List String} (h : wsMatchedKid order rows kids = some key) : Mediated rows key := by
  induction kids with
  | nil => cases h
  | cons kid kids ih =>
    by_cases hmed : Mediated rows (canonicalizeRecipientKey kid)
    · rw [wsMatchedKid_cons_mediated hrows hmed] at h
      obtain rfl := some.inj h
      exact hmed
    · by_cases hstray : ∃ raw, Stray rows kid raw
      · obtain ⟨raw, hstray⟩ := hstray
        rw [wsMatchedKid_cons_stray hrows hstray] at h
        obtain rfl := some.inj h
        exact hstray.2.2
      · rw [wsMatchedKid_cons_none hrows hmed fun raw h => hstray ⟨raw, h⟩] at h
        exact ih h

theorem matchedKid_eq_of_delivered (hrows : rows.StoredForm)
    (hsome : (webSocket.recipientKey order rows jwe unpacks).isSome =
      (http.recipientKey order rows jwe unpacks).isSome)
    (hrow : webSocket.deliveredTo order rows jwe unpacks =
      http.deliveredTo order rows jwe unpacks) :
    webSocket.recipientKey order rows jwe unpacks =
      http.recipientKey order rows jwe unpacks := by
  unfold deliveredTo at hrow
  cases hws : webSocket.recipientKey order rows jwe unpacks with
  | none =>
    rw [hws] at hsome
    exact (isNone_iff_eq_none.1 (by simpa using hsome.symm)).symm
  | some key =>
    rw [hws] at hsome
    obtain ⟨key', hhttp⟩ := isSome_iff_exists.1 hsome.symm
    rw [hws, hhttp, bind_some] at hrow
    have hmed := wsMatchedKid_mediated hrows (recipientKey_webSocket.symm.trans hws)
    have hkey := canonical_of_mediated hrows hmed
    obtain ⟨r, hr⟩ := isSome_iff_exists.1
      ((forwardRow_isSome order).2 (by rwa [hkey] : Mediated rows (canonicalizeRecipientKey key)))
    obtain ⟨kid, -, rfl⟩ := httpMatchedKid_eq_some.1 (recipientKey_http.symm.trans hhttp)
    rw [hhttp, ← hkey, ← recipientKey_of_forwardRow hr,
      recipientKey_of_forwardRow (hrow.symm.trans hr), canonicalizeRecipientKey_idem]

theorem agree_of_unambiguous (hrows : rows.StoredForm)
    (hkids : Unambiguous rows (extractJweRecipientKids jwe)) (e : Entry) :
    (e.recipientKey order rows jwe unpacks).isSome =
        (forward.recipientKey order rows jwe unpacks).isSome ∧
      e.deliveredTo order rows jwe unpacks = forward.deliveredTo order rows jwe unpacks := by
  have hhttp : (http.recipientKey order rows jwe unpacks).isSome =
      (forward.recipientKey order rows jwe unpacks).isSome := by
    rw [recipientKey_http_eq, isSome_map]
  cases e with
  | http => exact ⟨hhttp, deliveredTo_http⟩
  | webSocket =>
    have heq : webSocket.recipientKey order rows jwe unpacks =
        http.recipientKey order rows jwe unpacks := by
      rw [recipientKey_webSocket, recipientKey_http]
      exact (matchedKid_eq_iff hrows _).2 hkids
    refine ⟨by rw [heq, hhttp], ?_⟩
    rw [← deliveredTo_http]
    unfold deliveredTo
    rw [heq]
  | forward => exact ⟨rfl, rfl⟩

/-! ## The queue -/

theorem found_addMessage (queue : QueueTables) (id c : String) (encryptedMessage : String)
    (now : Timestamp) (filter : String) :
    Found (queue.addMessage (.new id c [key] encryptedMessage now)) id filter ↔ filter = key := by
  unfold Found
  simp only [lookup_addMessage, mem_pendingFor, idsOf_addMessage]
  simp [QueuedMessage.new, QueuedMessage.matchesRecipientKey]

theorem found_processForward {s : Mediator} {encryptedMessage id id' filter : String}
    {now : Timestamp} {queue : QueueTables}
    (h : processForward order s key encryptedMessage now id = .ok (id', queue)) :
    Found queue id' filter ↔ filter = key := by
  simp only [processForward] at h
  repeat' split at h
  all_goals cases h
  all_goals exact found_addMessage _ _ _ _ _ _

def granting (rows : Keylist) : Mediator where
  rows := rows
  mediations _ := some ⟨"", .granted⟩
  queue := .new

theorem processForward_granting (order : IterOrder KeylistRecord)
    (h : Mediated rows (canonicalizeRecipientKey key)) :
    ∃ id queue, processForward order (granting rows) key "" 0 "" = .ok (id, queue) := by
  obtain ⟨r, hr⟩ := isSome_iff_exists.1 ((forwardRow_isSome order).2 h)
  simp [processForward, hr, granting, getPendingCount, pendingFor, new, maxQueuePerConnection]

end

/-! ## The result -/

section

variable {rows : Keylist} {jwe : Jwe} {unpacks : Bool} {filter : String}
  {order : IterOrder KeylistRecord}

theorem Consistent.spelled (h : Consistent order rows jwe unpacks filter) :
    Spelled rows (extractJweRecipientKids jwe) filter := by
  intro kid hfirst hspells
  have hforward : Entry.forward.recipientKey order rows jwe unpacks = some kid :=
    recipientKey_forward.2 hfirst
  have hhttp : Entry.http.recipientKey order rows jwe unpacks =
      some (canonicalizeRecipientKey kid) := by
    rw [recipientKey_http_eq, hforward, map_some]
  obtain ⟨-, -, -, -, hmed⟩ := hfirst
  have hmed' : Mediated rows (canonicalizeRecipientKey (canonicalizeRecipientKey kid)) := by
    rwa [canonicalizeRecipientKey_idem]
  obtain ⟨id, queue, hok⟩ := processForward_granting order hmed'
  obtain ⟨id', queue', hok'⟩ := processForward_granting order hmed
  have hfilter := (found_processForward hok).1 (h.found .http _ hhttp
    (by rw [hspells, canonicalizeRecipientKey_idem]) (granting rows) "" 0 "" id queue rfl hok)
  have hfilter' := (found_processForward hok').1 (h.found .forward _ hforward hspells
    (granting rows) "" 0 "" id' queue' rfl hok')
  exact ⟨hfilter, hfilter'.symm.trans hfilter⟩

theorem found_of_spelled (hrows : rows.StoredForm)
    (hkids : Unambiguous rows (extractJweRecipientKids jwe))
    (hfilter : Spelled rows (extractJweRecipientKids jwe) filter) {e : Entry} {key : String}
    (hkey : e.recipientKey order rows jwe unpacks = some key)
    (hspells : canonicalizeRecipientKey filter = canonicalizeRecipientKey key) : filter = key := by
  have hcanonical : ∀ key', httpMatchedKid order rows (extractJweRecipientKids jwe) = some key' →
      canonicalizeRecipientKey filter = canonicalizeRecipientKey key' → filter = key' := by
    intro key' hkey' hspells'
    obtain ⟨kid, hfirst, rfl⟩ := httpMatchedKid_eq_some.1 hkey'
    rw [canonicalizeRecipientKey_idem] at hspells'
    exact (hfilter kid hfirst hspells').1
  cases e with
  | http => exact hcanonical key (recipientKey_http.symm.trans hkey) hspells
  | webSocket =>
    rw [recipientKey_webSocket, (matchedKid_eq_iff hrows _).2 hkids] at hkey
    exact hcanonical key hkey hspells
  | forward =>
    obtain ⟨hleft, hright⟩ := hfilter key (recipientKey_forward.1 hkey) hspells
    exact hleft.trans hright.symm

/-- **The entry points are consistent**, over every keylist that updates have written, exactly
when no stray kid misleads the socket, and a filter that spells the recipient key is in the
stored form, as the recipient is. -/
theorem consistent_iff {backend : KeylistBackend} {steps : List KeylistStep} {s : KeylistSystem}
    (hexec : exec (step backend) start steps = some s)
    (order : IterOrder KeylistRecord) (jwe : Jwe) (unpacks : Bool) (filter : String) :
    Consistent order s.store.rows jwe unpacks filter ↔
      Unambiguous s.store.rows (extractJweRecipientKids jwe) ∧
        Spelled s.store.rows (extractJweRecipientKids jwe) filter := by
  have hrows := canonical_of_exec hexec
  constructor
  · intro h
    refine ⟨?_, h.spelled⟩
    have heq := matchedKid_eq_of_delivered hrows (h.mediated .webSocket .http)
      (h.delivered .webSocket .http)
    rw [recipientKey_webSocket, recipientKey_http] at heq
    exact (matchedKid_eq_iff hrows _).1 heq
  · rintro ⟨hkids, hfilter⟩
    refine ⟨fun e e' => ?_, fun e e' => ?_, ?_⟩
    · rw [(agree_of_unambiguous hrows hkids e).1, (agree_of_unambiguous hrows hkids e').1]
    · rw [(agree_of_unambiguous hrows hkids e).2, (agree_of_unambiguous hrows hkids e').2]
    · intro e key hkey hspells s' encryptedMessage now id id' queue _ hok
      exact (found_processForward hok).2 (found_of_spelled hrows hkids hfilter hkey hspells)

end

namespace Sample

/-- A raw verkey of 32 bytes. -/
def verkey : String := "4wBqpZM9xaSheZzJSMawUKKwhdpChKbZ5eu5ky4Vigw"

/-- A JWE for an X25519 key that has the same bytes. -/
def x25519Jwe : Jwe := ⟨[], [some "did:key:z6LSbk7MN8NDFRJBo2wkq5sYG4XonrAvuJVkS4NaaDcbD6Th"], none⟩

def verkeyJwe : Jwe := ⟨[some verkey], [], none⟩

noncomputable def registeredVerkey : List KeylistStep :=
  [.request "m1" "alice", .update 0 "m1" [⟨verkey, .add⟩], .run 0 .some "r1", .run 0 .some "r1",
    .run 0 .some "r1", .run 0 .some "r1"]

theorem canonicalize_verkey : canonicalizeRecipientKey verkey = verkey := by decide +kernel

theorem exec_registeredVerkey : ∃ s, exec (step .memory) start
    registeredVerkey = some s ∧ s.store.rows = {⟨"r1", "m1", verkey⟩} := by
  simp [registeredVerkey, exec, step, KeylistTask.next, canonicalize_verkey,
    start, getAll, findByRecipientKey, save]

theorem mediated_verkey {key : String} : Mediated {⟨"r1", "m1", verkey⟩} key ↔ verkey = key := by
  simp [Mediated]

end Sample

open Sample

/-- A JWE for the registered verkey, and a filter with the verkey. -/
theorem consistent_iff_verkey :
    ∃ s, exec (step .memory) start registeredVerkey =
        some s ∧ s.store.rows = {⟨"r1", "m1", verkey⟩} ∧
      Consistent .some s.store.rows verkeyJwe false verkey := by
  obtain ⟨s, hs, hrows⟩ := exec_registeredVerkey
  refine ⟨s, hs, hrows, (consistent_iff hs .some verkeyJwe false verkey).2 ?_⟩
  have hkids : extractJweRecipientKids verkeyJwe = [verkey] := by decide
  rw [hrows, hkids]
  constructor
  · apply unambiguous_cons_mediated
    rw [canonicalize_verkey, mediated_verkey]
  · rintro kid ⟨before, after, heq, -⟩ -
    obtain rfl : kid = verkey := by
      have hmem : kid ∈ [verkey] := by simp [heq]
      simpa using hmem
    exact ⟨rfl, rfl⟩

/-- The socket delivers a JWE for another key to the owner of the verkey; the HTTP handler
rejects it. -/
theorem consistent_fails_x25519 :
    ∃ s, exec (step .memory) start registeredVerkey =
        some s ∧ ¬ Consistent .some s.store.rows x25519Jwe false verkey := by
  obtain ⟨s, hs, hrows⟩ := exec_registeredVerkey
  refine ⟨s, hs, fun h => ?_⟩
  have hkids : extractJweRecipientKids x25519Jwe =
      ["did:key:z6LSbk7MN8NDFRJBo2wkq5sYG4XonrAvuJVkS4NaaDcbD6Th"] := by decide
  have hcanonical := canonical_of_exec hs
  have hsome := h.mediated .webSocket .http
  rw [recipientKey_webSocket, recipientKey_http, hkids] at hsome
  rw [hrows] at hsome hcanonical
  have hnone : ¬ Mediated {⟨"r1", "m1", verkey⟩} (canonicalizeRecipientKey
      "did:key:z6LSbk7MN8NDFRJBo2wkq5sYG4XonrAvuJVkS4NaaDcbD6Th") := by
    rw [mediated_verkey]
    decide +kernel
  have hstray : Stray {⟨"r1", "m1", verkey⟩}
      "did:key:z6LSbk7MN8NDFRJBo2wkq5sYG4XonrAvuJVkS4NaaDcbD6Th" verkey :=
    ⟨hnone, by decide +kernel, mediated_verkey.2 rfl⟩
  rw [wsMatchedKid_cons_stray hcanonical hstray, httpMatchedKid_cons_none hnone] at hsome
  cases hsome

end Idiom.Mediation
