import Idiom.Ecash.Pending

/-!
# A batch is credited at most once

The reveal handler looks at the pending commit, calls the wallet without any lock, and removes the
entry afterwards. The history of a run says which commits were accepted, which one each reveal
found, and what the wallet was given.
-/

namespace Idiom.Ecash

open Function List Reply Tasks Access Maps Calls Option Run Prog

variable {ι : Type} [DecidableEq ι]

/-! ## The history of a run -/

/-- One call of `receive_batch_json`: by which reveal, for which accepted commit of which batch. -/
structure Delivery (ι : Type) where
  task : ι
  batchId : Bytes 32
  /-- How many commits of the batch had been accepted when the reveal found the last of them. -/
  number : ℕ
  batchJson : String
  credited : Bool

/-- The accepted commit of a delivery. -/
def Delivery.key (d : Delivery ι) : Bytes 32 × ℕ := (d.batchId, d.number)

structure Ledger (ι : Type) where
  /-- The accepted commits of each batch, in their order. -/
  accepted : Bytes 32 → List ReceivedCommit
  /-- What a reveal looked up, and how many commits of that batch there had been. -/
  found : ι → Option (Bytes 32 × ℕ)
  deliveries : List (Delivery ι)

namespace Ledger

def empty : Ledger ι := ⟨fun _ => [], fun _ => none, []⟩

def record (L : Ledger ι) : ι × Access × Input → Ledger ι
  | (_, .storeCommit batchId commit, _) =>
    { L with accepted := update L.accepted batchId (L.accepted batchId ++ [commit]) }
  | (t, .findCommit batchId, _) =>
    { L with found := update L.found t (some (batchId, (L.accepted batchId).length)) }
  | (t, .receiveBatch batchId batchJson, e) =>
    { L with deliveries := L.deliveries ++
        [⟨t, batchId, ((L.found t).map Prod.snd).getD 0, batchJson, e.wallet.isOk⟩] }
  | _ => L

end Ledger

open Ledger

def ledger (trace : List (ι × Access × Input)) : Ledger ι := trace.foldl record empty

@[simp] theorem ledger_append (trace : List (ι × Access × Input)) (a : ι × Access × Input) :
    ledger (trace ++ [a]) = (ledger trace).record a := foldl_append ..

/-- The accepted commits that were credited. -/
def Ledger.credits (L : Ledger ι) : List (Bytes 32 × ℕ) :=
  (L.deliveries.filter Delivery.credited).map Delivery.key

omit [DecidableEq ι] in
theorem mem_credits {L : Ledger ι} {k : Bytes 32 × ℕ} :
    k ∈ L.credits ↔ ∃ d ∈ L.deliveries, d.credited = true ∧ d.key = k := by
  simp [credits, and_assoc]

/-- An access that is neither of a batch-reveal nor the one that accepts a commit. -/
def Access.IsPlain : Access → Prop
  | storeCommit .. => False
  | findCommit _ => False
  | receiveBatch .. => False
  | removeCommit _ => False
  | _ => True

variable {access : Access}

theorem record_plain {L : Ledger ι} {t : ι} {e : Input} (h : access.IsPlain) :
    L.record (t, access, e) = L := by
  cases access <;> first | rfl | exact absurd h fun h => h

variable {commit : ReceivedCommit}

theorem receivedCommit_plain {e : Input} {m : Maps} {b : Bytes 32} (hplain : access.IsPlain)
    (h : (access.effect e m).receivedCommit b = some commit) :
    m.receivedCommit b = some commit := by
  have herase : ∀ k, ((m.pending.erase k).lookup b).bind PendingBatchTransfer.receivedCommit =
      some commit → m.receivedCommit b = some commit := by
    intro k hk
    rw [bind_lookup_erase] at hk
    split at hk
    · cases hk
    · exact hk
  cases access with
  | readClock | generateKey label | signWithDid data | confirm batchId result
  | takeDone batchId => exact h
  | storeCommit batchId commit | findCommit batchId | receiveBatch batchId batchJson
  | removeCommit batchId => exact absurd hplain fun h => h
  | acknowledge batchId pk sig did =>
    simp only [effect] at h
    split at h
    · unfold receivedCommit at h
      rw [setPending_pending, bind_lookup_insert] at h
      split at h
      · cases h
      · exact herase batchId h
    · exact herase batchId h
  | register batchId batch =>
    unfold effect receivedCommit at h
    rw [setPending_pending, bind_lookup_insert] at h
    split at h
    · cases h
    · exact h
  | takeAck batchId =>
    simp only [effect] at h
    split at h
    · exact herase batchId h
    · exact h
  | prune now =>
    unfold effect receivedCommit at h
    rw [setPending_pending, FMap.lookup_retain] at h
    unfold receivedCommit
    cases hentry : m.pending.lookup b with
    | none =>
      rw [hentry] at h
      cases h
    | some entry =>
      rw [hentry] at h
      cases hfresh : entry.isFresh now with
      | true => simpa [hfresh] using h
      | false => simp [hfresh] at h

/-! ## The property -/

section

variable (handler : BatchTransferHandler) (calls : ι → Call)

def Genuine (trace : List (ι × Access × Input)) (batchId : Bytes 32) (commit : ReceivedCommit) :
    Prop :=
  ∃ t inbound e, calls t = .handle inbound ∧ inbound.msgType = piuriBatchCommit ∧
    readCommit handler.codec inbound.body = .ok (commit.commitJson, batchId) ∧
    commit.rxSeLabel = rxSeLabel handler batchId ∧
    (t, generateKey commit.rxSeLabel, e) ∈ trace ∧ e.key = .ok commit.rxSePk

/-- The envelope is made of the reveal and of the accepted commit that the reveal found. -/
def Paired (L : Ledger ι) (d : Delivery ι) : Prop :=
  ∃ inbound reveal commit, calls d.task = .handle inbound ∧ inbound.msgType = piuriBatchReveal ∧
    readReveal handler.codec inbound.body = .ok (reveal, d.batchId) ∧
    ((L.accepted d.batchId).take d.number).getLast? = some commit ∧
    d.batchJson = transferJson handler commit reveal

/-- The answer to a reveal that was credited. -/
def Answers (d : Delivery ι) (reply : Reply) : Prop :=
  ∃ inbound, calls d.task = .handle inbound ∧
    reply = .message (some (respond inbound piuriBatchDone (doneBody d.batchId)))

/-- **A batch is credited at most once.** -/
structure CreditedOnce (x : Calls ι) : Prop where
  /-- At most one success for each accepted commit of a batch. -/
  once : (ledger x.trace).credits.Nodup
  /-- The wallet gets the reveal with the commit and the key of the same batch. -/
  paired : ∀ d ∈ (ledger x.trace).deliveries, Paired handler calls (ledger x.trace) d
  genuine : ∀ b, ∀ commit ∈ (ledger x.trace).accepted b, Genuine handler calls x.trace b commit
  /-- A reveal whose credit succeeded ends with the one answer "done", whatever happens. -/
  answered : ∀ d ∈ (ledger x.trace).deliveries, d.credited = true →
    ∀ p, x.tasks d.task = some p → p.Yields (Answers calls d)

end

/-! ## The condition -/

def Access.isRemoval : Access → Bool
  | removeCommit _ => true
  | _ => false

def Access.isDelivery : Access → Bool
  | receiveBatch .. => true
  | _ => false

/-- The reveal has its credit, and will remove the entry next. -/
def Calls.Removing (x : Calls ι) (t : ι) : Prop :=
  ∃ access ∈ (x.tasks t).bind label, access.isRemoval = true

/-- The reveal is at the wallet. -/
def Calls.AtWallet (x : Calls ι) (t : ι) : Prop :=
  ∃ access ∈ (x.tasks t).bind label, access.isDelivery = true

instance (x : Calls ι) (t : ι) : Decidable (x.Removing t) :=
  inferInstanceAs (Decidable (∃ access ∈ (x.tasks t).bind label, access.isRemoval = true))

instance (x : Calls ι) (t : ι) : Decidable (x.AtWallet t) :=
  inferInstanceAs (Decidable (∃ access ∈ (x.tasks t).bind label, access.isDelivery = true))

/-- While one reveal has its credit and has not removed the entry, no reveal that found the same
accepted commit is at the wallet. -/
def RevealsApart (x : Calls ι) : Prop :=
  ∀ t u, x.Removing t → x.AtWallet u → (ledger x.trace).found t ≠ (ledger x.trace).found u

instance [Fintype ι] (x : Calls ι) : Decidable (RevealsApart x) :=
  inferInstanceAs (Decidable (∀ t u, x.Removing t → x.AtWallet u →
    (ledger x.trace).found t ≠ (ledger x.trace).found u))

/-! ## Where each call stands -/

section

variable (handler : BatchTransferHandler) (calls : ι → Call)

def PlainNode (access : Access) (effect : Input → Maps → Maps)
    (_ : Input → Maps → Handling Reply) : Prop :=
  access.IsPlain ∧ effect = access.effect

/-- Where a call stands, in view of the history. -/
inductive Stage (trace : List (ι × Access × Input)) (t : ι) : Handling Reply → Prop where
  /-- A call that is no batch-commit and no batch-reveal, or that has only plain accesses left. -/
  | plain {p} (hplain : p.Nodes PlainNode)
      (hanswer : ∀ d ∈ (ledger trace).deliveries, d.task = t → d.credited = true →
        p.Yields (Answers calls d)) : Stage trace t p
  | generating {inbound commitJson batchId} (hcall : calls t = .handle inbound)
      (htype : inbound.msgType = piuriBatchCommit)
      (hread : readCommit handler.codec inbound.body = .ok (commitJson, batchId))
      (hnone : ∀ d ∈ (ledger trace).deliveries, d.task ≠ t) :
      Stage trace t (.access (.generateKey (rxSeLabel handler batchId))
        (generateKey (rxSeLabel handler batchId)).effect
        fun e _ => message <$> acceptKey handler inbound commitJson batchId e.key)
  | storing {inbound commitJson batchId pk e} (hcall : calls t = .handle inbound)
      (htype : inbound.msgType = piuriBatchCommit)
      (hread : readCommit handler.codec inbound.body = .ok (commitJson, batchId))
      (hkey : (t, generateKey (rxSeLabel handler batchId), e) ∈ trace)
      (hpk : e.key = .ok pk)
      (hnone : ∀ d ∈ (ledger trace).deliveries, d.task ≠ t) :
      Stage trace t (.access (.storeCommit batchId ⟨commitJson, rxSeLabel handler batchId, pk⟩)
        (storeCommit batchId ⟨commitJson, rxSeLabel handler batchId, pk⟩).effect
        fun _ _ => message <$> acknowledgeCommit handler inbound batchId pk)
  | finding {inbound reveal batchId} (hcall : calls t = .handle inbound)
      (htype : inbound.msgType = piuriBatchReveal)
      (hread : readReveal handler.codec inbound.body = .ok (reveal, batchId))
      (hnone : ∀ d ∈ (ledger trace).deliveries, d.task ≠ t) :
      Stage trace t (.access (.findCommit batchId) (findCommit batchId).effect
        fun _ m => message <$>
          creditReveal handler inbound batchId reveal (m.receivedCommit batchId))
  | crediting {inbound reveal batchId number commit} (hcall : calls t = .handle inbound)
      (htype : inbound.msgType = piuriBatchReveal)
      (hread : readReveal handler.codec inbound.body = .ok (reveal, batchId))
      (hfound : (ledger trace).found t = some (batchId, number))
      (hbound : number ≤ ((ledger trace).accepted batchId).length)
      (hcommit : (((ledger trace).accepted batchId).take number).getLast? = some commit)
      (hnone : ∀ d ∈ (ledger trace).deliveries, d.task ≠ t) :
      Stage trace t (.access (.receiveBatch batchId (transferJson handler commit reveal))
        (receiveBatch batchId (transferJson handler commit reveal)).effect
        fun e _ => message <$> answerReveal inbound batchId e.wallet)
  | removing {inbound batchId number} (hcall : calls t = .handle inbound)
      (hfound : (ledger trace).found t = some (batchId, number))
      (hanswer : ∀ d ∈ (ledger trace).deliveries, d.task = t → d.batchId = batchId) :
      Stage trace t (.access (.removeCommit batchId) (removeCommit batchId).effect
        fun _ _ => .done (.message (some (respond inbound piuriBatchDone (doneBody batchId)))))

/-- A reveal could still be credited for the accepted commit `k`: it is pending, or some reveal that
found it is at the wallet. -/
def Calls.Pursued (x : Calls ι) (k : Bytes 32 × ℕ) : Prop :=
  (x.shared.receivedCommit k.1 ≠ none ∧ k.2 = ((ledger x.trace).accepted k.1).length) ∨
    ∃ t, x.AtWallet t ∧ (ledger x.trace).found t = some k

/-- The invariant. -/
structure Accounted (x : Calls ι) : Prop where
  stages : ∀ t p, x.tasks t = some p → Stage handler calls x.trace t p
  started : ∀ d ∈ (ledger x.trace).deliveries, x.tasks d.task ≠ none
  /-- A pending commit is the last one that was accepted. -/
  current : ∀ b commit, x.shared.receivedCommit b = some commit →
    ((ledger x.trace).accepted b).getLast? = some commit
  genuine : ∀ b, ∀ commit ∈ (ledger x.trace).accepted b, Genuine handler calls x.trace b commit
  bounded : ∀ d ∈ (ledger x.trace).deliveries,
    d.number ≤ ((ledger x.trace).accepted d.batchId).length
  paired : ∀ d ∈ (ledger x.trace).deliveries, Paired handler calls (ledger x.trace) d
  once : (ledger x.trace).credits.Nodup
  /-- A commit that is credited and can still be found is about to be removed. -/
  settled : ∀ k, x.Pursued k → k ∈ (ledger x.trace).credits →
    ∃ t, x.Removing t ∧ (ledger x.trace).found t = some k

end

section

variable {L : Ledger ι} {t u : ι} {access : Access} {e : Input}

theorem accepted_grows (b : Bytes 32) : L.accepted b <+: (L.record (t, access, e)).accepted b := by
  cases access with
  | storeCommit batchId commit =>
    show L.accepted b <+: update L.accepted batchId _ b
    by_cases hb : b = batchId
    · subst hb
      rw [update_self]
      exact prefix_append ..
    · rw [update_of_ne hb]
  | _ => exact prefix_rfl

theorem found_record_of_ne (h : u ≠ t) : (L.record (t, access, e)).found u = L.found u := by
  cases access with
  | findCommit batchId => exact update_of_ne h ..
  | _ => rfl

theorem deliveries_record {d : Delivery ι} (h : d ∈ (L.record (t, access, e)).deliveries) :
    d ∈ L.deliveries ∨ d.task = t := by
  cases access with
  | receiveBatch batchId batchJson =>
    rcases mem_append.1 h with h | h
    · exact .inl h
    · exact .inr (congrArg Delivery.task (mem_singleton.1 h))
  | _ => exact .inl h

theorem getLast_take_of_grows {l l' : List ReceivedCommit} {n : ℕ} (hn : n ≤ l.length)
    (h : l <+: l') (hlast : (l.take n).getLast? = some commit) :
    (l'.take n).getLast? = some commit := by
  obtain ⟨rest, rfl⟩ := h
  rwa [take_append_of_le_length hn]

variable {handler : BatchTransferHandler} {calls : ι → Call}

theorem Paired.record {d : Delivery ι} (h : Paired handler calls L d)
    (hn : d.number ≤ (L.accepted d.batchId).length) :
    Paired handler calls (L.record (t, access, e)) d := by
  obtain ⟨inbound, reveal, commit, hcall, htype, hread, hcommit, hjson⟩ := h
  exact ⟨inbound, reveal, commit, hcall, htype, hread,
    getLast_take_of_grows hn (accepted_grows _) hcommit, hjson⟩

omit [DecidableEq ι] in
theorem Genuine.append {trace : List (ι × Access × Input)} {a : ι × Access × Input} {b : Bytes 32}
    (h : Genuine handler calls trace b commit) : Genuine handler calls (trace ++ [a]) b commit := by
  obtain ⟨t, inbound, e, hcall, htype, hread, hlabel, hkey, hpk⟩ := h
  exact ⟨t, inbound, e, hcall, htype, hread, hlabel, mem_append_left _ hkey, hpk⟩

theorem Stage.others {trace : List (ι × Access × Input)} {p : Handling Reply}
    (h : Stage handler calls trace u p) (hne : u ≠ t) :
    Stage handler calls (trace ++ [(t, access, e)]) u p := by
  have hfound : (ledger (trace ++ [(t, access, e)])).found u = (ledger trace).found u := by
    rw [ledger_append, found_record_of_ne hne]
  have hdeliveries : ∀ d ∈ (ledger (trace ++ [(t, access, e)])).deliveries, d.task = u →
      d ∈ (ledger trace).deliveries := by
    intro d hd htask
    rw [ledger_append] at hd
    exact (deliveries_record hd).resolve_right fun h => hne (htask.symm.trans h)
  have hnever : (∀ d ∈ (ledger trace).deliveries, d.task ≠ u) →
      ∀ d ∈ (ledger (trace ++ [(t, access, e)])).deliveries, d.task ≠ u :=
    fun hnone d hd htask => hnone d (hdeliveries d hd htask) htask
  cases h with
  | plain hplain hanswer =>
    exact .plain hplain fun d hd htask => hanswer d (hdeliveries d hd htask) htask
  | generating hcall htype hread hnone => exact .generating hcall htype hread (hnever hnone)
  | storing hcall htype hread hkey hpk hnone =>
    exact .storing hcall htype hread (mem_append_left _ hkey) hpk (hnever hnone)
  | finding hcall htype hread hnone => exact .finding hcall htype hread (hnever hnone)
  | crediting hcall htype hread hfound' hbound hcommit hnone =>
    have hext : ∀ b, (ledger trace).accepted b <+:
        (ledger (trace ++ [(t, access, e)])).accepted b := by
      intro b
      rw [ledger_append]
      exact accepted_grows b
    exact .crediting hcall htype hread (hfound.trans hfound') (hbound.trans (hext _).length_le)
      (getLast_take_of_grows hbound (hext _) hcommit) (hnever hnone)
  | removing hcall hfound' hanswer =>
    exact .removing hcall (hfound.trans hfound') fun d hd htask =>
      hanswer d (hdeliveries d hd htask) htask

end

/-! ## One access -/

/-- The state after an access of `t`. -/
def Calls.after (x : Calls ι) (t : ι) (access : Access) (e : Input) (p : Handling Reply) :
    Calls ι :=
  ⟨access.effect e x.shared, update x.tasks t (some p), x.trace ++ [(t, access, e)]⟩

section

variable {handler : BatchTransferHandler} {calls : ι → Call} {x : Calls ι} {t u : ι}
  {access : Access} {e : Input} {p : Handling Reply}

theorem ledger_after : ledger (x.after t access e p).trace =
    (ledger x.trace).record (t, access, e) :=
  ledger_append ..

theorem after_tasks_self : (x.after t access e p).tasks t = some p := update_self ..

theorem after_tasks_of_ne (h : u ≠ t) : (x.after t access e p).tasks u = x.tasks u :=
  update_of_ne h ..

theorem removing_after_of_ne (h : u ≠ t) : (x.after t access e p).Removing u ↔ x.Removing u := by
  unfold Removing
  rw [after_tasks_of_ne h]

theorem atWallet_after_of_ne (h : u ≠ t) : (x.after t access e p).AtWallet u ↔ x.AtWallet u := by
  unfold AtWallet
  rw [after_tasks_of_ne h]

theorem atWallet_after_self :
    (x.after t access e p).AtWallet t ↔ ∃ a ∈ p.label, a.isDelivery = true := by
  unfold AtWallet
  rw [after_tasks_self]
  exact Iff.rfl

theorem removing_after_self :
    (x.after t access e p).Removing t ↔ ∃ a ∈ p.label, a.isRemoval = true := by
  unfold Removing
  rw [after_tasks_self]
  exact Iff.rfl

variable {next : Input → Maps → Handling Reply}

omit [DecidableEq ι] in
theorem removing_of_task {effect : Input → Maps → Maps}
    (h : x.tasks t = some (.access access effect next)) :
    x.Removing t ↔ access.isRemoval = true := by
  unfold Removing
  rw [h]
  exact ⟨fun ⟨a, ha, hr⟩ => by cases ha; exact hr, fun hr => ⟨access, rfl, hr⟩⟩

omit [DecidableEq ι] in
theorem atWallet_of_task {effect : Input → Maps → Maps}
    (h : x.tasks t = some (.access access effect next)) :
    x.AtWallet t ↔ access.isDelivery = true := by
  unfold AtWallet
  rw [h]
  exact ⟨fun ⟨a, ha, hr⟩ => by cases ha; exact hr, fun hr => ⟨access, rfl, hr⟩⟩

theorem stages_after (h : Accounted handler calls x)
    (hstage : Stage handler calls (x.trace ++ [(t, access, e)]) t p) :
    ∀ u q, (x.after t access e p).tasks u = some q →
      Stage handler calls (x.after t access e p).trace u q := by
  intro u q hq
  rcases update_eq_some hq with ⟨rfl, rfl⟩ | ⟨hne, hq⟩
  · exact hstage
  · exact (h.stages u q hq).others hne

theorem started_after (h : Accounted handler calls x) :
    ∀ d ∈ (ledger (x.after t access e p).trace).deliveries,
      (x.after t access e p).tasks d.task ≠ none := by
  intro d hd hnone
  obtain ⟨hne, hnone⟩ := update_eq_none hnone
  rw [ledger_after] at hd
  exact h.started d ((deliveries_record hd).resolve_right hne) hnone

theorem old_after (h : Accounted handler calls x) {d : Delivery ι}
    (hd : d ∈ (ledger x.trace).deliveries) :
    d.number ≤ ((ledger (x.after t access e p).trace).accepted d.batchId).length ∧
      Paired handler calls (ledger (x.after t access e p).trace) d := by
  rw [ledger_after]
  exact ⟨(h.bounded d hd).trans (accepted_grows _).length_le,
    (h.paired d hd).record (h.bounded d hd)⟩

theorem Accounted.start (h : Accounted handler calls x) (hnone : x.tasks t = none)
    (hstage : Stage handler calls x.trace t p) (hwallet : ∀ a ∈ p.label, a.isDelivery = false) :
    Accounted handler calls { x with tasks := update x.tasks t (some p) } where
  stages u q hq := by
    rcases update_eq_some hq with ⟨rfl, rfl⟩ | ⟨_, hq⟩
    · exact hstage
    · exact h.stages u q hq
  started d hd hd' := h.started d hd (update_eq_none hd').2
  current := h.current
  genuine := h.genuine
  bounded := h.bounded
  paired := h.paired
  once := h.once
  settled k hk hcredit := by
    have hold : x.Pursued k := by
      rcases hk with hk | ⟨u, ⟨a, ha, hdelivery⟩, hfound⟩
      · exact .inl hk
      · refine .inr ⟨u, ⟨a, ?_, hdelivery⟩, hfound⟩
        by_cases hu : u = t
        · subst hu
          have ha' : a ∈ p.label := by simpa using ha
          rw [hwallet a ha'] at hdelivery
          cases hdelivery
        · simpa [update_of_ne hu] using ha
    obtain ⟨u, ⟨a, ha, hremoval⟩, hfound⟩ := h.settled k hold hcredit
    refine ⟨u, ⟨a, ?_, hremoval⟩, hfound⟩
    have hu : u ≠ t := by
      rintro rfl
      rw [hnone] at ha
      cases ha
    simpa [update_of_ne hu] using ha

theorem atWallet_of_after (hwallet : ∀ a ∈ p.label, a.isDelivery = false) {u : ι}
    (hu : (x.after t access e p).AtWallet u) : u ≠ t ∧ x.AtWallet u := by
  have hne : u ≠ t := by
    rintro rfl
    obtain ⟨a, ha, hdelivery⟩ := atWallet_after_self.1 hu
    rw [hwallet a ha] at hdelivery
    cases hdelivery
  exact ⟨hne, (atWallet_after_of_ne hne).1 hu⟩

theorem Accounted.removing_after (h : Accounted handler calls x) (hbefore : ¬ x.Removing t)
    {k : Bytes 32 × ℕ} (hold : x.Pursued k) (hcredit : k ∈ (ledger x.trace).credits) :
    ∃ u, u ≠ t ∧ (x.after t access e p).Removing u ∧ (ledger x.trace).found u = some k := by
  obtain ⟨u, hu, hfound⟩ := h.settled k hold hcredit
  have hne : u ≠ t := by
    rintro rfl
    exact hbefore hu
  exact ⟨u, hne, (removing_after_of_ne hne).2 hu, hfound⟩

theorem Accounted.plain (h : Accounted handler calls x) (hplain : access.IsPlain)
    (hbefore : ¬ x.Removing t) (hstage : Stage handler calls (x.trace ++ [(t, access, e)]) t p)
    (hwallet : ∀ a ∈ p.label, a.isDelivery = false) :
    Accounted handler calls (x.after t access e p) := by
  have hsame : ledger (x.after t access e p).trace = ledger x.trace := by
    rw [ledger_after, record_plain hplain]
  refine ⟨stages_after h hstage, started_after h, ?_, ?_, ?_, ?_, ?_, fun k hk hcredit => ?_⟩
  · intro b commit hb
    rw [hsame]
    exact h.current b commit (receivedCommit_plain hplain hb)
  · rw [hsame]
    exact fun b commit hc => (h.genuine b commit hc).append
  · rw [hsame]
    exact h.bounded
  · rw [hsame]
    exact h.paired
  · rw [hsame]
    exact h.once
  · rw [hsame] at hcredit ⊢
    have hold : x.Pursued k := by
      rcases hk with ⟨hpending, hnumber⟩ | ⟨u, hu, hfound⟩
      · rw [hsame] at hnumber
        obtain ⟨commit, hcommit⟩ := ne_none_iff_exists'.1 hpending
        left
        rw [receivedCommit_plain hplain hcommit]
        exact ⟨by simp, hnumber⟩
      · rw [hsame] at hfound
        have hne : u ≠ t := by
          rintro rfl
          obtain ⟨a, ha, hdelivery⟩ := atWallet_after_self.1 hu
          rw [hwallet a ha] at hdelivery
          cases hdelivery
        exact .inr ⟨u, (atWallet_after_of_ne hne).1 hu, hfound⟩
    obtain ⟨u, hu, hfound⟩ := h.settled k hold hcredit
    have hne : u ≠ t := by
      rintro rfl
      exact hbefore hu
    exact ⟨u, (removing_after_of_ne hne).2 hu, hfound⟩

variable {b : Bytes 32}

theorem Accounted.storing (h : Accounted handler calls x) (hbefore : ¬ x.Removing t)
    (hgenuine : Genuine handler calls x.trace b commit)
    (hstage : Stage handler calls (x.trace ++ [(t, .storeCommit b commit, e)]) t p)
    (hwallet : ∀ a ∈ p.label, a.isDelivery = false) :
    Accounted handler calls (x.after t (.storeCommit b commit) e p) := by
  have hledger : ledger (x.after t (.storeCommit b commit) e p).trace =
      (ledger x.trace).record (t, .storeCommit b commit, e) := ledger_after
  have haccepted : ∀ b', ((ledger x.trace).record (t, .storeCommit b commit, e)).accepted b' =
      if b' = b then (ledger x.trace).accepted b ++ [commit] else (ledger x.trace).accepted b' :=
    fun b' => update_apply ..
  have hpending : ∀ b', (x.after t (.storeCommit b commit) e p).shared.receivedCommit b' =
      if b' = b then some commit else x.shared.receivedCommit b' :=
    fun b' => bind_lookup_insert ..
  refine ⟨stages_after h hstage, started_after h, fun b' c hc => ?_, fun b' c hc => ?_, ?_, ?_,
    ?_, fun k hk hcredit => ?_⟩
  · rw [hpending] at hc
    rw [hledger, haccepted]
    split at hc
    · next hb =>
      cases hc
      rw [if_pos hb, getLast?_append_of_ne_nil _ (by simp)]
      rfl
    · next hb =>
      rw [if_neg hb]
      exact h.current b' c hc
  · rw [hledger, haccepted] at hc
    split at hc
    · next hb =>
      subst hb
      rcases mem_append.1 hc with hc | hc
      · exact (h.genuine b' c hc).append
      · rw [mem_singleton.1 hc]
        exact hgenuine.append
    · exact (h.genuine b' c hc).append
  · exact fun d hd => (old_after h (by rw [hledger] at hd; exact hd)).1
  · exact fun d hd => (old_after h (by rw [hledger] at hd; exact hd)).2
  · rw [hledger]
    exact h.once
  · have hcredit' : k ∈ (ledger x.trace).credits := by
      rw [hledger] at hcredit
      exact hcredit
    have hold : x.Pursued k := by
      rcases hk with ⟨hp, hnumber⟩ | ⟨u, hu, hfound⟩
      · rw [hpending] at hp
        rw [hledger, haccepted] at hnumber
        by_cases hb : k.1 = b
        · -- more commits than when anything was credited
          rw [if_pos hb, length_append] at hnumber
          obtain ⟨d, hd, _, rfl⟩ := mem_credits.1 hcredit'
          have hbound := h.bounded d hd
          have hbatch : d.batchId = b := hb
          have hlast : d.number = ((ledger x.trace).accepted b).length + 1 := hnumber
          rw [hbatch] at hbound
          omega
        · rw [if_neg hb] at hp hnumber
          exact .inl ⟨hp, hnumber⟩
      · rw [hledger] at hfound
        exact .inr ⟨u, (atWallet_of_after hwallet hu).2, hfound⟩
    obtain ⟨u, -, hu, hfound⟩ := h.removing_after hbefore hold hcredit'
    refine ⟨u, hu, ?_⟩
    rw [hledger]
    exact hfound

theorem Accounted.finding (h : Accounted handler calls x) (hbefore : ¬ x.Removing t)
    (hstage : Stage handler calls (x.trace ++ [(t, .findCommit b, e)]) t p)
    (hwallet : (∃ a ∈ p.label, a.isDelivery = true) → x.shared.receivedCommit b ≠ none) :
    Accounted handler calls (x.after t (.findCommit b) e p) := by
  have hledger : ledger (x.after t (.findCommit b) e p).trace =
      (ledger x.trace).record (t, .findCommit b, e) := ledger_after
  have hfound : ∀ u, ((ledger x.trace).record (t, .findCommit b, e)).found u =
      if u = t then some (b, ((ledger x.trace).accepted b).length)
      else (ledger x.trace).found u :=
    fun u => update_apply ..
  refine ⟨stages_after h hstage, started_after h, ?_, ?_, ?_, ?_, ?_, fun k hk hcredit => ?_⟩
  · rw [hledger]
    exact h.current
  · rw [hledger]
    exact fun b' c hc => (h.genuine b' c hc).append
  · exact fun d hd => (old_after h (by rw [hledger] at hd; exact hd)).1
  · exact fun d hd => (old_after h (by rw [hledger] at hd; exact hd)).2
  · rw [hledger]
    exact h.once
  · have hcredit' : k ∈ (ledger x.trace).credits := by
      rw [hledger] at hcredit
      exact hcredit
    have hold : x.Pursued k := by
      rcases hk with ⟨hp, hnumber⟩ | ⟨u, hu, hfound'⟩
      · rw [hledger] at hnumber
        exact .inl ⟨hp, hnumber⟩
      · rw [hledger, hfound] at hfound'
        split at hfound'
        · next heq =>
          subst heq
          cases hfound'
          exact .inl ⟨hwallet (atWallet_after_self.1 hu), rfl⟩
        · next hne => exact .inr ⟨u, (atWallet_after_of_ne hne).1 hu, hfound'⟩
    obtain ⟨u, hne, hu, hfound'⟩ := h.removing_after hbefore hold hcredit'
    refine ⟨u, hu, ?_⟩
    rw [hledger, hfound, if_neg hne]
    exact hfound'

theorem Accounted.removing {n : ℕ} (h : Accounted handler calls x) (hapart : RevealsApart x)
    (hbefore : x.Removing t) (hfound : (ledger x.trace).found t = some (b, n))
    (hstage : Stage handler calls (x.trace ++ [(t, .removeCommit b, e)]) t p)
    (hwallet : ∀ a ∈ p.label, a.isDelivery = false) :
    Accounted handler calls (x.after t (.removeCommit b) e p) := by
  have hledger : ledger (x.after t (.removeCommit b) e p).trace = ledger x.trace := ledger_after
  have hpending : ∀ b', (x.after t (.removeCommit b) e p).shared.receivedCommit b' =
      if b' = b then none else x.shared.receivedCommit b' :=
    fun b' => bind_lookup_erase ..
  refine ⟨stages_after h hstage, started_after h, fun b' c hc => ?_, ?_, ?_, ?_, ?_,
    fun k hk hcredit => ?_⟩
  · rw [hpending] at hc
    rw [hledger]
    split at hc
    · cases hc
    · exact h.current b' c hc
  · rw [hledger]
    exact fun b' c hc => (h.genuine b' c hc).append
  · rw [hledger]
    exact h.bounded
  · rw [hledger]
    exact h.paired
  · rw [hledger]
    exact h.once
  · rw [hledger] at hcredit ⊢
    -- the one that is removing the commit of `k` is not `t`
    have hold : x.Pursued k ∧ (ledger x.trace).found t ≠ some k := by
      rcases hk with ⟨hp, hnumber⟩ | ⟨u, hu, hfound'⟩
      · rw [hpending] at hp
        rw [hledger] at hnumber
        by_cases hb : k.1 = b
        · rw [if_pos hb] at hp
          exact absurd rfl hp
        · rw [if_neg hb] at hp
          refine ⟨.inl ⟨hp, hnumber⟩, fun heq => hb ?_⟩
          rw [hfound] at heq
          cases heq
          rfl
      · rw [hledger] at hfound'
        have hu' := (atWallet_of_after hwallet hu).2
        refine ⟨.inr ⟨u, hu', hfound'⟩, fun heq => ?_⟩
        exact hapart t u hbefore hu' (heq.trans hfound'.symm)
    obtain ⟨u, hu, hfound'⟩ := h.settled k hold.1 hcredit
    have hne : u ≠ t := by
      rintro rfl
      exact hold.2 hfound'
    exact ⟨u, (removing_after_of_ne hne).2 hu, hfound'⟩

theorem Accounted.crediting {n : ℕ} {json : String} (h : Accounted handler calls x)
    (hapart : RevealsApart x) (hbefore : x.AtWallet t) (hremoving : ¬ x.Removing t)
    (hfound : (ledger x.trace).found t = some (b, n))
    (hbound : n ≤ ((ledger x.trace).accepted b).length)
    (hpaired : Paired handler calls (ledger x.trace) ⟨t, b, n, json, e.wallet.isOk⟩)
    (hstage : Stage handler calls (x.trace ++ [(t, .receiveBatch b json, e)]) t p)
    (hremoval : e.wallet.isOk = true → ∃ a ∈ p.label, a.isRemoval = true)
    (hwallet : ∀ a ∈ p.label, a.isDelivery = false) :
    Accounted handler calls (x.after t (.receiveBatch b json) e p) := by
  have hledger : ledger (x.after t (.receiveBatch b json) e p).trace =
      { ledger x.trace with deliveries := (ledger x.trace).deliveries ++
          [⟨t, b, n, json, e.wallet.isOk⟩] } := by
    rw [ledger_after]
    simp only [record, hfound, map_some, getD_some]
  have hdelivery : ∀ d ∈ (ledger (x.after t (.receiveBatch b json) e p).trace).deliveries,
      d ∈ (ledger x.trace).deliveries ∨ d = ⟨t, b, n, json, e.wallet.isOk⟩ := by
    intro d hd
    rw [hledger] at hd
    exact (mem_append.1 hd).imp id mem_singleton.1
  have hcredits : (ledger (x.after t (.receiveBatch b json) e p).trace).credits =
      (ledger x.trace).credits ++ if e.wallet.isOk = true then [(b, n)] else [] := by
    rw [hledger]
    unfold credits
    rw [filter_append, map_append]
    cases hok : e.wallet.isOk <;> rfl
  have hfirst : (b, n) ∉ (ledger x.trace).credits := by
    intro hmem
    obtain ⟨u, hu, hfound'⟩ := h.settled (b, n) (.inr ⟨t, hbefore, hfound⟩) hmem
    exact hapart u t hu hbefore (hfound'.trans hfound.symm)
  refine ⟨stages_after h hstage, started_after h, ?_, ?_, fun d hd => ?_, fun d hd => ?_, ?_,
    fun k hk hcredit => ?_⟩
  · rw [hledger]
    exact h.current
  · rw [hledger]
    exact fun b' c hc => (h.genuine b' c hc).append
  · rcases hdelivery d hd with hd | rfl
    · exact (old_after h hd).1
    · rw [hledger]
      exact hbound
  · rcases hdelivery d hd with hd | rfl
    · exact (old_after h hd).2
    · rw [hledger]
      exact hpaired
  · rw [hcredits]
    split
    · refine nodup_append.2 ⟨h.once, nodup_singleton _, fun k hk k' hk' => ?_⟩
      rw [mem_singleton.1 hk']
      rintro rfl
      exact hfirst hk
    · rw [append_nil]
      exact h.once
  · have hold : x.Pursued k := by
      rcases hk with ⟨hp, hnumber⟩ | ⟨u, hu, hfound'⟩
      · rw [hledger] at hnumber
        exact .inl ⟨hp, hnumber⟩
      · rw [hledger] at hfound'
        exact .inr ⟨u, (atWallet_of_after hwallet hu).2, hfound'⟩
    rw [hcredits] at hcredit
    rcases mem_append.1 hcredit with hcredit | hcredit
    · obtain ⟨u, -, hu, hfound'⟩ := h.removing_after hremoving hold hcredit
      refine ⟨u, hu, ?_⟩
      rw [hledger]
      exact hfound'
    · split at hcredit
      · next hok =>
        rw [mem_singleton.1 hcredit]
        refine ⟨t, removing_after_self.2 (hremoval hok), ?_⟩
        rw [hledger]
        exact hfound
      · cases hcredit

end

/-! ## Runs -/

section

variable {handler : BatchTransferHandler} {calls : ι → Call} {x y : Calls ι} {t : ι}

omit [DecidableEq ι] in
theorem isPlain_of_label {p : Handling Reply} (h : p.Nodes PlainNode) :
    ∀ a ∈ p.label, a.IsPlain := by
  intro a ha
  cases p with
  | done r | fail r => cases ha
  | access label effect next =>
    cases ha
    exact h.1.1

theorem isDelivery_of_isPlain {a : Access} (h : a.IsPlain) : a.isDelivery = false := by
  cases a <;> first | rfl | exact absurd h fun h => h

theorem isRemoval_of_isPlain {a : Access} (h : a.IsPlain) : a.isRemoval = false := by
  cases a <;> first | rfl | exact absurd h fun h => h

variable {trace : List (ι × Access × Input)}

theorem stage_of_nodes {p : Handling Reply} (h : p.Nodes PlainNode)
    (hnone : ∀ d ∈ (ledger trace).deliveries, d.task ≠ t) : Stage handler calls trace t p :=
  .plain h fun d hd htask => absurd htask (hnone d hd)

theorem nodes_acknowledged (inbound : InboundMessage) (b : Bytes 32) (pk : Bytes 33) :
    (message <$> acknowledgeCommit handler inbound b pk).Nodes PlainNode := by
  refine ⟨⟨trivial, rfl⟩, fun clock m => ?_⟩
  show Nodes PlainNode (message <$> (if handler.didSigner then _ else _))
  split
  · exact ⟨⟨trivial, rfl⟩, fun _ _ => trivial⟩
  · trivial

theorem nodes_plain_waitFor {α : Type} (access : Access) (hplain : access.IsPlain)
    {f : Maps → Option α} {g : Option α → Reply} (n : ℕ) :
    (g <$> waitFor (perform access fun _ m => .done (f m)) n).Nodes PlainNode := by
  induction n with
  | zero =>
    refine ⟨⟨hplain, rfl⟩, fun e m => ?_⟩
    dsimp only
    cases f m with
    | none => exact ⟨⟨hplain, rfl⟩, fun _ _ => trivial⟩
    | some a => trivial
  | succ n ih =>
    refine ⟨⟨hplain, rfl⟩, fun e m => ?_⟩
    dsimp only
    cases f m with
    | none => exact ih
    | some a => trivial

theorem nodes_plain_program {call : Call} (h : ∀ inbound, call ≠ .handle inbound) :
    (call.program handler).Nodes PlainNode := by
  cases call with
  | handle inbound => exact absurd rfl (h inbound)
  | registerPendingBatch batchId batch | takeAck batchId
  | takeDone batchId => exact ⟨⟨trivial, rfl⟩, fun _ _ => trivial⟩
  | waitForAck batchId n => exact nodes_plain_waitFor (.takeAck batchId) trivial n
  | waitForDone batchId n => exact nodes_plain_waitFor (.takeDone batchId) trivial n
  | pruneExpired => exact ⟨⟨trivial, rfl⟩, fun _ _ => ⟨⟨trivial, rfl⟩, fun _ _ => trivial⟩⟩

theorem nodes_plain_ack (inbound : InboundMessage) :
    (message <$> handleBatchAck handler inbound).Nodes PlainNode := by
  unfold handleBatchAck
  split
  · trivial
  · next ack _ =>
    refine ⟨⟨trivial, rfl⟩, fun e m => ?_⟩
    show Nodes PlainNode (message <$> answerAck (m.pending.lookup ack.batchId))
    rcases answerAck_cases (m.pending.lookup ack.batchId) with ⟨_, _, _, h⟩ | ⟨_, _, h⟩
    · rw [h]
      trivial
    · rw [h]
      trivial

theorem nodes_plain_done (inbound : InboundMessage) :
    (message <$> handleBatchDone inbound).Nodes PlainNode := by
  unfold handleBatchDone
  split
  · trivial
  · exact ⟨⟨trivial, rfl⟩, fun _ _ => trivial⟩

theorem stage_program (hnone : ∀ d ∈ (ledger trace).deliveries, d.task ≠ t) :
    Stage handler calls trace t ((calls t).program handler) ∧
      ∀ a ∈ ((calls t).program handler).label, a.isDelivery = false := by
  have hplain : ∀ {p : Handling Reply}, p.Nodes PlainNode →
      Stage handler calls trace t p ∧ ∀ a ∈ p.label, a.isDelivery = false :=
    fun h => ⟨stage_of_nodes h hnone, fun a ha => isDelivery_of_isPlain (isPlain_of_label h a ha)⟩
  by_cases hhandle : ∃ inbound, calls t = .handle inbound
  · obtain ⟨inbound, hcall⟩ := hhandle
    rw [hcall]
    show Stage handler calls trace t (message <$> handle handler inbound) ∧
      ∀ a ∈ (message <$> handle handler inbound).label, a.isDelivery = false
    unfold handle
    split
    · next htype =>
      unfold handleBatchCommit
      split
      · exact hplain trivial
      · next commitJson batchId hread =>
        split
        · refine ⟨.generating hcall htype hread hnone, fun a ha => ?_⟩
          cases ha
          rfl
        · exact hplain trivial
    split
    · exact hplain (nodes_plain_ack inbound)
    split
    · next htype =>
      unfold handleBatchReveal
      split
      · exact hplain trivial
      · next reveal batchId hread =>
        refine ⟨.finding hcall htype hread hnone, fun a ha => ?_⟩
        cases ha
        rfl
    split
    · exact hplain (nodes_plain_done inbound)
    · exact hplain trivial
  · exact hplain (nodes_plain_program fun inbound h => hhandle ⟨inbound, h⟩)

omit [DecidableEq ι] in
theorem not_removing {effect : Input → Maps → Maps} {next : Input → Maps → Handling Reply}
    (ht : x.tasks t = some (.access access effect next)) (h : access.isRemoval = false) :
    ¬ x.Removing t := by
  rw [removing_of_task ht, h]
  exact Bool.false_ne_true

variable {inbound : InboundMessage} {b : Bytes 32}

theorem stage_acceptKey (trace : List (ι × Access × Input)) {commitJson : String} {e : Input}
    (hcall : calls t = .handle inbound) (htype : inbound.msgType = piuriBatchCommit)
    (hread : readCommit handler.codec inbound.body = .ok (commitJson, b))
    (hkey : (t, generateKey (rxSeLabel handler b), e) ∈ trace)
    (hnone : ∀ d ∈ (ledger trace).deliveries, d.task ≠ t) :
    Stage handler calls trace t (message <$> acceptKey handler inbound commitJson b e.key) ∧
      ∀ a ∈ (message <$> acceptKey handler inbound commitJson b e.key).label,
        a.isDelivery = false := by
  cases hpk : e.key with
  | error text => exact ⟨stage_of_nodes trivial hnone, fun a ha => by cases ha⟩
  | ok pk =>
    refine ⟨.storing hcall htype hread hkey hpk hnone, fun a ha => ?_⟩
    cases ha
    rfl

theorem stage_creditReveal {reveal : Ajna.Json} (found : Option ReceivedCommit)
    (hcall : calls t = .handle inbound) (htype : inbound.msgType = piuriBatchReveal)
    (hread : readReveal handler.codec inbound.body = .ok (reveal, b))
    (hfound : (ledger trace).found t = some (b, ((ledger trace).accepted b).length))
    (hcommit : ∀ commit, found = some commit → ((ledger trace).accepted b).getLast? = some commit)
    (hnone : ∀ d ∈ (ledger trace).deliveries, d.task ≠ t) :
    Stage handler calls trace t (message <$> creditReveal handler inbound b reveal found) ∧
      ((∃ a ∈ (message <$> creditReveal handler inbound b reveal found).label,
        a.isDelivery = true) → found ≠ none) := by
  cases found with
  | none => exact ⟨stage_of_nodes trivial hnone, fun ⟨a, ha, _⟩ => by cases ha⟩
  | some commit =>
    refine ⟨.crediting hcall htype hread hfound le_rfl ?_ hnone, fun _ => by simp⟩
    rw [take_length]
    exact hcommit commit rfl

theorem stage_answerReveal {n : ℕ} (wallet : Except String Unit) (hcall : calls t = .handle inbound)
    (hfound : (ledger trace).found t = some (b, n))
    (hbatch : ∀ d ∈ (ledger trace).deliveries, d.task = t →
      d.batchId = b ∧ d.credited = wallet.isOk) :
    Stage handler calls trace t (message <$> answerReveal inbound b wallet) ∧
      (∀ a ∈ (message <$> answerReveal inbound b wallet).label, a.isDelivery = false) ∧
      (wallet.isOk = true →
        ∃ a ∈ (message <$> answerReveal inbound b wallet).label, a.isRemoval = true) := by
  cases wallet with
  | error reason =>
    refine ⟨.plain trivial ?_, fun a ha => (by cases ha), fun hok => (by cases hok)⟩
    intro d hd htask hc
    rw [(hbatch d hd htask).2] at hc
    cases hc
  | ok _ =>
    refine ⟨.removing hcall hfound fun d hd htask => (hbatch d hd htask).1, fun a ha => ?_,
      fun _ => ⟨_, rfl, rfl⟩⟩
    cases ha
    rfl

theorem Accounted.go {effect : Input → Maps → Maps} {next : Input → Maps → Handling Reply}
    {e : Input} (h : Accounted handler calls x) (hapart : RevealsApart x)
    (ht : x.tasks t = some (.access access effect next)) :
    Accounted handler calls ⟨effect e x.shared,
      update x.tasks t (some (next e x.shared)), x.trace ++ [(t, access, e)]⟩ := by
  cases h.stages t _ ht with
  | plain hplain hanswer =>
    obtain ⟨⟨hlabel, rfl⟩, hnext⟩ := hplain
    refine h.plain hlabel (not_removing ht (isRemoval_of_isPlain hlabel)) ?_ fun a ha =>
      isDelivery_of_isPlain (isPlain_of_label (hnext e x.shared) a ha)
    refine .plain (hnext e x.shared) fun d hd htask hc => ?_
    rw [ledger_append, record_plain hlabel] at hd
    exact hanswer d hd htask hc e x.shared
  | @generating inbound commitJson b hcall htype hread hnone =>
    obtain ⟨hstage, hwallet⟩ := stage_acceptKey
      (x.trace ++ [(t, .generateKey (rxSeLabel handler b), e)]) hcall htype hread
      (mem_append_right _ (mem_singleton.2 rfl))
      (by rw [ledger_append]; exact hnone)
    exact h.plain trivial (not_removing ht rfl) hstage hwallet
  | @storing inbound commitJson b pk e' hcall htype hread hkey hpk hnone =>
    have hnodes : (message <$> acknowledgeCommit handler inbound b pk).Nodes PlainNode :=
      nodes_acknowledged inbound b pk
    refine h.storing (not_removing ht rfl)
      ⟨t, inbound, e', hcall, htype, hread, rfl, hkey, hpk⟩ ?_ fun a ha =>
        isDelivery_of_isPlain (isPlain_of_label hnodes a ha)
    refine stage_of_nodes hnodes ?_
    rw [ledger_append]
    exact hnone
  | @finding inbound reveal b hcall htype hread hnone =>
    have haccepted : (ledger (x.trace ++ [(t, .findCommit b, e)])).accepted b =
        (ledger x.trace).accepted b := by
      rw [ledger_append]
      rfl
    have hfound : (ledger (x.trace ++ [(t, .findCommit b, e)])).found t =
        some (b, ((ledger (x.trace ++ [(t, .findCommit b, e)])).accepted b).length) := by
      rw [ledger_append]
      exact update_self ..
    obtain ⟨hstage, hwallet⟩ := stage_creditReveal (x.shared.receivedCommit b) hcall htype
      hread hfound (fun commit hc => by rw [haccepted]; exact h.current b commit hc)
      (by rw [ledger_append]; exact hnone)
    exact h.finding (not_removing ht rfl) hstage hwallet
  | @crediting inbound reveal b n commit hcall htype hread hfound hbound hcommit hnone =>
    have hledger : ledger (x.trace ++ [(t, .receiveBatch b (transferJson handler commit reveal),
        e)]) = { ledger x.trace with deliveries := (ledger x.trace).deliveries ++
          [⟨t, b, n, transferJson handler commit reveal, e.wallet.isOk⟩] } := by
      rw [ledger_append]
      simp only [record, hfound, map_some, getD_some]
    have hfound' : (ledger (x.trace ++ [(t, .receiveBatch b (transferJson handler commit reveal),
        e)])).found t = some (b, n) := by
      rw [hledger]
      exact hfound
    obtain ⟨hstage, hwallet, hremoval⟩ := stage_answerReveal e.wallet hcall hfound'
      fun d hd htask => by
        rw [hledger] at hd
        rcases mem_append.1 hd with hd | hd
        · exact absurd htask (hnone d hd)
        · rw [mem_singleton.1 hd]
          exact ⟨rfl, rfl⟩
    exact h.crediting hapart ((atWallet_of_task ht).2 rfl) (not_removing ht rfl) hfound hbound
      ⟨inbound, reveal, commit, hcall, htype, hread, hcommit, rfl⟩ hstage hremoval hwallet
  | @removing inbound b n hcall hfound hanswer =>
    refine h.removing hapart ((removing_of_task ht).2 rfl) hfound ?_ fun a ha => by cases ha
    refine .plain trivial fun d hd htask _ => ⟨inbound, ?_, ?_⟩
    · rw [htask]
      exact hcall
    · rw [ledger_append] at hd
      rw [hanswer d hd htask]

theorem Accounted.step {a : TaskStep ι Input} (h : Accounted handler calls x)
    (hapart : RevealsApart x) (hstep : step (fun t => (calls t).program handler) x a = some y) :
    Accounted handler calls y := by
  obtain ⟨t, rfl, hnone, rfl⟩ | ⟨t, e, access, effect, next, rfl, ht, rfl⟩ :=
    step_cases hstep
  · have hnever : ∀ d ∈ (ledger x.trace).deliveries, d.task ≠ t := by
      rintro d hd rfl
      exact h.started d hd hnone
    have hstart : Stage handler calls x.trace t ((calls t).program handler) ∧ _ :=
      stage_program hnever
    exact h.start hnone hstart.1 hstart.2
  · exact h.go hapart ht

theorem accounted_fresh (m : Maps) (hm : ∀ b, m.receivedCommit b = none) :
    Accounted handler calls (fresh m) where
  stages t p hp := by cases hp
  started d hd := by cases hd
  current b commit hc := by
    rw [show (fresh m : Calls ι).shared = m from rfl, hm] at hc
    cases hc
  genuine b commit hc := by cases hc
  bounded d hd := by cases hd
  paired d hd := by cases hd
  once := nodup_nil
  settled k _ hk := by cases hk

theorem Accounted.creditedOnce (h : Accounted handler calls x) : CreditedOnce handler calls x where
  once := h.once
  paired := h.paired
  genuine := h.genuine
  answered d hd hcredit p hp := by
    cases h.stages d.task p hp with
    | plain _ hanswer => exact hanswer d hd rfl hcredit
    | generating _ _ _ hnone | storing _ _ _ _ _ hnone | finding _ _ _ hnone
    | crediting _ _ _ _ _ _ hnone => exact absurd rfl (hnone d hd)
    | @removing inbound b n hcall _ hanswer =>
      intro e m
      exact ⟨inbound, hcall, by rw [hanswer d hd rfl]⟩

/-- **A batch is credited at most once.**  Any calls run at once on a handler; if no reveal
is at the
wallet while another one of the same accepted commit has its credit and has not removed the entry,
then every accepted commit is credited at most once. -/
theorem creditedOnce_of_revealsApart {l : List (TaskStep ι Input)}
    (hapart : Along (step fun t => (calls t).program handler) (fun x _ => RevealsApart x)
      (fresh new) l)
    (h : exec (step fun t => (calls t).program handler) (fresh new) l =
      some y) : CreditedOnce handler calls y := by
  have haccounted : Accounted handler calls y :=
    exec_invariant_along (fun u a v hu hG hstep => Accounted.step hu hG hstep)
      (accounted_fresh new fun b => rfl) hapart h
  exact haccounted.creditedOnce

end

/-! ## A reveal that comes twice -/

inductive Arrival where
  | commit
  | reveal
  | again
  deriving DecidableEq

instance : Fintype Arrival := ⟨{.commit, .reveal, .again}, fun a => by cases a <;> decide⟩

def revealTwice : Arrival → Call
  | .commit => .handle commitZero
  | .reveal => .handle revealZero
  | .again => .handle revealZero

def receiverZero : BatchTransferHandler := ⟨zeroCodec, true, false⟩

def inTurn : List (TaskStep Arrival Input) :=
  [.start .commit, .go .commit inputZero, .go .commit inputZero, .go .commit inputZero,
    .start .reveal, .go .reveal inputZero, .go .reveal inputZero, .go .reveal inputZero,
    .start .again, .go .again inputZero]

/-- In turn, the first reveal is credited and the second one finds nothing. -/
theorem creditedOnce_of_revealsApart_inTurn : ∃ y,
    exec (step fun t => (revealTwice t).program receiverZero) (fresh new)
      inTurn = some y ∧ (ledger y.trace).credits = [(batchZero, 1)] ∧
      CreditedOnce receiverZero revealTwice y := by
  have hrun : (exec (step fun t => (revealTwice t).program receiverZero)
      (fresh new) inTurn).any (fun y =>
        decide ((ledger y.trace).credits = [(batchZero, 1)])) = true := by
    decide +kernel
  obtain ⟨y, hy, hcredits⟩ := (any_eq_true _ _).1 hrun
  have hapart : Along (step fun t => (revealTwice t).program receiverZero)
      (fun x _ => RevealsApart x) (fresh new) inTurn :=
    of_decide_eq_true (by decide +kernel)
  exact ⟨y, hy, of_decide_eq_true hcredits, creditedOnce_of_revealsApart hapart hy⟩

def atOnce : List (TaskStep Arrival Input) :=
  [.start .commit, .go .commit inputZero, .go .commit inputZero, .go .commit inputZero,
    .start .reveal, .start .again, .go .reveal inputZero, .go .again inputZero,
    .go .reveal inputZero, .go .again inputZero]

/-- **Two reveals at once are both credited.**  Each finds the pending commit before the other one
removes it, and the wallet accepts twice. -/
theorem creditedOnce_fails_atOnce : ∃ y,
    exec (step fun t => (revealTwice t).program receiverZero) (fresh new)
      atOnce = some y ∧ (ledger y.trace).credits = [(batchZero, 1), (batchZero, 1)] ∧
      ¬ CreditedOnce receiverZero revealTwice y := by
  have hrun : (exec (step fun t => (revealTwice t).program receiverZero)
      (fresh new) atOnce).any (fun y =>
        decide ((ledger y.trace).credits = [(batchZero, 1), (batchZero, 1)])) = true := by
    decide +kernel
  obtain ⟨y, hy, hcredits⟩ := (any_eq_true _ _).1 hrun
  refine ⟨y, hy, of_decide_eq_true hcredits, fun h => ?_⟩
  have honce := h.once
  rw [of_decide_eq_true hcredits] at honce
  exact absurd honce (by decide)

end Idiom.Ecash
