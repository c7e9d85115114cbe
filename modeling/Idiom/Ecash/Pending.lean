import Idiom.Ecash.Transfer

/-!
# No message destroys a pending transfer

A message that is answered with an error should leave the map of pending transfers unchanged, and
an entry of the sender, with the preimages of committed money, should leave it only through
`take_ack` or by age. Calls run at once, suspended at each access.
-/

namespace Idiom.Ecash

open Tasks Option Maps

/-! ## What every access is -/

/-- The map is written first, and then the call fails: a batch-ack without a commit. -/
def Access.Rejects (access : Access) (m : Maps) : Prop :=
  match access with
  | acknowledge batchId .. => ∀ batch ts, m.pending.lookup batchId ≠ some (.committed batch ts)
  | _ => False

/-- An access has the effect of its label, and after one that writes the map of pending transfers
the call does not fail, unless it is one that rejects. -/
def Node {α : Type} (access : Access) (effect : Input → Maps → Maps)
    (next : Input → Maps → Handling α) : Prop :=
  effect = access.effect ∧
    ∀ e m, (access.Rejects m → ∃ error, next e m = .fail error) ∧
      (¬ access.Rejects m → (access.effect e m).pending ≠ m.pending →
        (next e m).Yields fun _ => True)

variable {access : Access}

theorem node_of_unwritten {α : Type} {next : Input → Maps → Handling α}
    (hpending : ∀ e m, (access.effect e m).pending = m.pending) (hrejects : ∀ m, ¬ access.Rejects m)
    : Node access access.effect next :=
  ⟨rfl, fun e m => ⟨fun h => absurd h (hrejects m), fun _ h => absurd (hpending e m) h⟩⟩

theorem node_of_yields {α : Type} {next : Input → Maps → Handling α}
    (hrejects : ∀ m, ¬ access.Rejects m) (h : ∀ e m, (next e m).Yields fun _ => True) :
    Node access access.effect next :=
  ⟨rfl, fun e m => ⟨fun hr => absurd hr (hrejects m), fun _ _ => h e m⟩⟩

section

variable (handler : BatchTransferHandler) (inbound : InboundMessage)

theorem yields_acknowledgeCommit (batchId : Bytes 32) (receiverSpendPk : Bytes 33) :
    (acknowledgeCommit handler inbound batchId receiverSpendPk).Yields fun _ => True := by
  intro clock m
  split
  · exact fun e m => trivial
  · trivial

theorem nodes_acknowledgeCommit (batchId : Bytes 32) (receiverSpendPk : Bytes 33) :
    (acknowledgeCommit handler inbound batchId receiverSpendPk).Nodes Node := by
  refine ⟨node_of_unwritten (fun _ _ => rfl) fun _ h => h, fun clock m => ?_⟩
  split
  · exact ⟨node_of_unwritten (fun _ _ => rfl) fun _ h => h, fun _ _ => trivial⟩
  · trivial

theorem nodes_handleBatchCommit : (handleBatchCommit handler inbound).Nodes Node := by
  unfold handleBatchCommit
  split
  · trivial
  · next commitJsonStr batchId _ =>
    split
    · refine ⟨node_of_unwritten (fun _ _ => rfl) fun _ h => h, fun e m => ?_⟩
      dsimp only
      cases e.key with
      | error text => trivial
      | ok receiverSpendPk =>
        exact ⟨node_of_yields (fun _ h => h) fun _ _ =>
            yields_acknowledgeCommit handler inbound batchId receiverSpendPk,
          fun _ _ => nodes_acknowledgeCommit handler inbound batchId receiverSpendPk⟩
    · trivial

theorem answerAck_cases (entry : Option PendingBatchTransfer) :
    (∃ batch ts, entry = some (.committed batch ts) ∧ answerAck entry = .done none) ∨
      (∀ batch ts, entry ≠ some (.committed batch ts)) ∧
        ∃ error, answerAck entry = .fail error := by
  cases entry with
  | none => exact .inr ⟨fun _ _ h => (by cases h), _, rfl⟩
  | some entry =>
    cases entry with
    | committed batch ts => exact .inl ⟨batch, ts, rfl, rfl⟩
    | commitReceived commit ts
    | ackReceived batch pk sig did ts => exact .inr ⟨fun _ _ h => (by cases h), _, rfl⟩

theorem nodes_handleBatchAck : (handleBatchAck handler inbound).Nodes Node := by
  unfold handleBatchAck
  split
  · trivial
  · next ack _ =>
    refine ⟨⟨rfl, fun e m => ⟨fun hrejects => ?_, fun hrejects _ => ?_⟩⟩, fun e m => ?_⟩
    · rcases answerAck_cases (m.pending.lookup ack.batchId) with ⟨batch, ts, h, _⟩ | ⟨_, h⟩
      · exact absurd h (hrejects batch ts)
      · exact h
    · rcases answerAck_cases (m.pending.lookup ack.batchId) with ⟨_, _, _, h⟩ | ⟨h, _⟩
      · dsimp only
        rw [h]
        trivial
      · exact absurd h hrejects
    · dsimp only
      rcases answerAck_cases (m.pending.lookup ack.batchId) with ⟨_, _, _, h⟩ | ⟨_, _, h⟩
      · rw [h]
        trivial
      · rw [h]
        trivial

theorem nodes_handleBatchReveal : (handleBatchReveal handler inbound).Nodes Node := by
  unfold handleBatchReveal
  split
  · trivial
  · next reveal batchId _ =>
    refine ⟨node_of_unwritten (fun _ _ => rfl) fun _ h => h, fun e m => ?_⟩
    dsimp only
    cases m.receivedCommit batchId with
    | none => trivial
    | some commit =>
      refine ⟨node_of_unwritten (fun _ _ => rfl) fun _ h => h, fun e m => ?_⟩
      dsimp only
      cases e.wallet with
      | error reason => trivial
      | ok _ => exact ⟨node_of_yields (fun _ h => h) fun _ _ => trivial, fun _ _ => trivial⟩

theorem nodes_handleBatchDone : (handleBatchDone inbound).Nodes Node := by
  unfold handleBatchDone
  split
  · trivial
  · exact ⟨node_of_unwritten (fun _ _ => rfl) fun _ h => h, fun _ _ => trivial⟩

theorem nodes_handle : (handle handler inbound).Nodes Node := by
  unfold handle
  split
  · exact nodes_handleBatchCommit handler inbound
  split
  · exact nodes_handleBatchAck handler inbound
  split
  · exact nodes_handleBatchReveal handler inbound
  split
  · exact nodes_handleBatchDone inbound
  · trivial

theorem yields_waitFor {α : Type} {f : Maps → Option α} (n : ℕ) :
    (waitFor (perform access fun _ m => .done (f m)) n).Yields fun _ => True := by
  induction n with
  | zero =>
    intro e m
    dsimp only
    cases f m with
    | none => exact fun _ _ => trivial
    | some a => trivial
  | succ n ih =>
    intro e m
    dsimp only
    cases f m with
    | none => exact ih
    | some a => trivial

theorem nodes_waitFor {α : Type} (access : Access) (hrejects : ∀ m, ¬ access.Rejects m)
    {f : Maps → Option α} (n : ℕ) :
    (waitFor (perform access fun _ m => .done (f m)) n).Nodes Node := by
  induction n with
  | zero =>
    refine ⟨node_of_yields hrejects fun e m => yields_waitFor (f := f) 0 e m, fun e m => ?_⟩
    dsimp only
    cases f m with
    | none => exact ⟨node_of_yields hrejects fun _ _ => trivial, fun _ _ => trivial⟩
    | some a => trivial
  | succ n ih =>
    refine ⟨node_of_yields hrejects fun e m => yields_waitFor (f := f) (n + 1) e m, fun e m => ?_⟩
    dsimp only
    cases f m with
    | none => exact ih
    | some a => trivial

theorem Node.map {α β : Type} {f : α → β} {effect : Input → Maps → Maps}
    {next : Input → Maps → Handling α} (h : Node access effect next) :
    Node access effect fun e m => f <$> next e m := by
  refine ⟨h.1, fun e m => ⟨fun hrejects => ?_, fun hrejects hpending => ?_⟩⟩
  · obtain ⟨error, herror⟩ := (h.2 e m).1 hrejects
    exact ⟨error, congrArg (f <$> ·) herror⟩
  · exact Prog.yields_map.2 ((h.2 e m).2 hrejects hpending)

theorem nodes_program (call : Call) : (call.program handler).Nodes Node := by
  have hmap : ∀ {α β : Type} {f : α → β} {p : Handling α}, p.Nodes Node → (f <$> p).Nodes Node :=
    fun h => h.map fun _ _ _ => Node.map
  cases call with
  | handle inbound => exact hmap (nodes_handle handler inbound)
  | registerPendingBatch batchId batch | takeAck batchId | takeDone batchId =>
    exact hmap ⟨node_of_yields (fun _ h => h) fun _ _ => trivial, fun _ _ => trivial⟩
  | waitForAck batchId n => exact hmap (nodes_waitFor (.takeAck batchId) (fun _ h => h) n)
  | waitForDone batchId n => exact hmap (nodes_waitFor (.takeDone batchId) (fun _ h => h) n)
  | pruneExpired =>
    exact hmap ⟨node_of_unwritten (fun _ _ => rfl) fun _ h => h, fun clock _ =>
      ⟨node_of_yields (fun _ h => h) fun _ _ => trivial, fun _ _ => trivial⟩⟩

end

/-! ## The property -/

/-- The sender's data of a batch. -/
def Maps.senderBatch (m : Maps) (batchId : Bytes 32) : Option SenderBatch :=
  (m.pending.lookup batchId).bind PendingBatchTransfer.senderBatch

/-- `take_ack` of the batch, or a prune when the entry is at least as old as the timeout. -/
def Access.Releases (access : Access) (batchId : Bytes 32) (entry : PendingBatchTransfer) : Prop :=
  match access with
  | takeAck taken => taken = batchId
  | prune now => entry.ts.toNat + transferTimeoutMs.toNat ≤ now.toNat
  | _ => False

/-- An access with what follows it: it leaves the sender's data of every batch alone unless it
releases them, and if it writes the map, the call does not end with an error. -/
structure Access.Keeps {α : Type} (access : Access) (e : Input) (m : Maps)
    (next : Handling α) : Prop where
  sender : ∀ batchId entry batch, m.pending.lookup batchId = some entry →
    entry.senderBatch = some batch →
      (access.effect e m).senderBatch batchId = some batch ∨ access.Releases batchId entry
  errors : (access.effect e m).pending ≠ m.pending → next.Yields fun _ => True

open Access

variable {ι : Type} [DecidableEq ι]

/-- The calls on a handler, run at once. -/
abbrev Calls (ι : Type) := Tasks ι Maps Input Access MessageHandlerError Reply

def Calls.nextAccess (x : Calls ι) : TaskStep ι Input → Option Access
  | .start _ => none
  | .go t _ => (x.tasks t).bind Prog.label

/-- **No message destroys a pending transfer**, in one step: the sender's data stay unless the
step releases them, and a step that writes the map is one of a call that is not answered with an
error. -/
structure KeepsPending (program : ι → Handling Reply) (x : Calls ι) (a : TaskStep ι Input) :
    Prop where
  sender : ∀ y, step program x a = some y → ∀ batchId entry batch,
    x.shared.pending.lookup batchId = some entry → entry.senderBatch = some batch →
      y.shared.senderBatch batchId = some batch ∨
        ∃ access ∈ x.nextAccess a, access.Releases batchId entry
  errors : ∀ y, step program x a = some y → y.shared.pending ≠ x.shared.pending →
    ∃ t e p, a = .go t e ∧ y.tasks t = some p ∧ p.Yields fun _ => True

/-! ## The condition -/

/-- A commit and a removal meet no entry of the sender, a batch-ack meets only an entry that waits
for it, a registration meets no other data, and no prune reads an earlier time than the one at
which an entry of the sender was made. -/
def Access.Spares (access : Access) (m : Maps) : Prop :=
  match access with
  | storeCommit batchId _ => m.senderBatch batchId = none
  | removeCommit batchId => m.senderBatch batchId = none
  | acknowledge batchId .. => ∀ entry ∈ m.pending.lookup batchId, ∃ batch ∈ entry.senderBatch,
      entry = .committed batch entry.ts
  | register batchId batch => ∀ old ∈ m.senderBatch batchId, old = batch
  | prune now => ∀ batchId ∈ m.pending.keys, ∀ entry ∈ m.pending.lookup batchId,
      entry.senderBatch.isSome = true → now < entry.ts → entry.isFresh now = true
  | _ => True

instance (access : Access) (m : Maps) : Decidable (access.Spares m) :=
  match access with
  | .storeCommit batchId _ => inferInstanceAs (Decidable (m.senderBatch batchId = none))
  | .removeCommit batchId => inferInstanceAs (Decidable (m.senderBatch batchId = none))
  | .acknowledge batchId .. => inferInstanceAs (Decidable (∀ entry ∈ m.pending.lookup batchId,
      ∃ batch ∈ entry.senderBatch, entry = .committed batch entry.ts))
  | .register batchId batch =>
    inferInstanceAs (Decidable (∀ old ∈ m.senderBatch batchId, old = batch))
  | .prune now => inferInstanceAs (Decidable (∀ batchId ∈ m.pending.keys,
      ∀ entry ∈ m.pending.lookup batchId,
        entry.senderBatch.isSome = true → now < entry.ts → entry.isFresh now = true))
  | .readClock => isTrue trivial
  | .generateKey _ => isTrue trivial
  | .signWithDid _ => isTrue trivial
  | .receiveBatch .. => isTrue trivial
  | .findCommit _ => isTrue trivial
  | .confirm .. => isTrue trivial
  | .takeAck _ => isTrue trivial
  | .takeDone _ => isTrue trivial

def SparesPending (x : Calls ι) (a : TaskStep ι Input) : Prop :=
  ∀ access ∈ x.nextAccess a, access.Spares x.shared

instance (x : Calls ι) (a : TaskStep ι Input) : Decidable (SparesPending x a) :=
  inferInstanceAs (Decidable (∀ access ∈ x.nextAccess a, access.Spares x.shared))

/-! ## The exact condition -/

variable {batch : SenderBatch} {batchId : Bytes 32}

theorem senderBatch_eq_some {m : Maps} :
    m.senderBatch batchId = some batch ↔
      ∃ entry, m.pending.lookup batchId = some entry ∧ entry.senderBatch = some batch :=
  bind_eq_some_iff

theorem senderBatch_insert (m : Maps) (batchId b : Bytes 32) (entry : PendingBatchTransfer) :
    (m.setPending (m.pending.insert batchId entry)).senderBatch b =
      if b = batchId then entry.senderBatch else m.senderBatch b :=
  bind_lookup_insert ..

theorem senderBatch_erase (m : Maps) (batchId b : Bytes 32) :
    (m.setPending (m.pending.erase batchId)).senderBatch b =
      if b = batchId then none else m.senderBatch b :=
  bind_lookup_erase ..

theorem isFresh_of_le {now : UInt64} {entry : PendingBatchTransfer} (h : entry.ts ≤ now) :
    entry.isFresh now = false ↔ entry.ts.toNat + transferTimeoutMs.toNat ≤ now.toNat := by
  have hle : entry.ts.toNat ≤ now.toNat := UInt64.le_iff_toNat_le.1 h
  unfold PendingBatchTransfer.isFresh
  rw [decide_eq_false_iff_not, UInt64.lt_iff_toNat_lt, UInt64.toNat_sub_of_le _ _ h]
  omega

theorem forall_mem_eq_none_iff {β : Type} {o : Option β} :
    (∀ b ∈ o, (none : Option β) = some b) ↔ o = none := by
  cases o with
  | none | some b => simp

section

variable {α : Type} {e : Input} {m : Maps} {next : Handling α}

theorem keeps_of_unwritten (h : (access.effect e m).pending = m.pending) :
    access.Keeps e m next where
  sender b entry batch hlookup hbatch := by
    left
    rw [senderBatch_eq_some, h]
    exact ⟨entry, hlookup, hbatch⟩
  errors hne := absurd h hne

theorem keeps_iff_at {after : Option SenderBatch}
    (heffect : ∀ b, (access.effect e m).senderBatch b = if b =
      batchId then after else m.senderBatch b)
    (hreleases : ∀ b entry, ¬ access.Releases b entry)
    (hnext : (access.effect e m).pending ≠ m.pending → next.Yields fun _ => True) :
    access.Keeps e m next ↔ ∀ batch ∈ m.senderBatch batchId, after = some batch := by
  constructor
  · intro h batch hbatch
    obtain ⟨entry, hlookup, hentry⟩ := senderBatch_eq_some.1 hbatch
    rcases h.sender batchId entry batch hlookup hentry with hkept | hrel
    · rwa [heffect, if_pos rfl] at hkept
    · exact absurd hrel (hreleases batchId entry)
  · intro h
    refine ⟨fun b entry batch hlookup hentry => ?_, hnext⟩
    have hbatch : m.senderBatch b = some batch := senderBatch_eq_some.2 ⟨entry, hlookup, hentry⟩
    left
    rw [heffect]
    split
    · next heq =>
      subst heq
      exact h batch hbatch
    · exact hbatch

theorem keeps_prune_iff {now : UInt64}
    (hnext : ((prune now).effect e m).pending ≠ m.pending → next.Yields fun _ => True) :
    (prune now).Keeps e m next ↔ (prune now).Spares m := by
  have hlookup : ∀ b, ((prune now).effect e m).pending.lookup b =
      (m.pending.lookup b).bind fun entry => if entry.isFresh now then some entry else none :=
    fun b => FMap.lookup_retain ..
  constructor
  · intro h b _ entry hentry hsender hlt
    obtain ⟨batch, hbatch⟩ := isSome_iff_exists.1 hsender
    by_contra hstale
    rcases h.sender b entry batch hentry hbatch with hkept | hrel
    · rw [senderBatch_eq_some, hlookup, hentry] at hkept
      simp [hstale] at hkept
    · have hlt' := UInt64.lt_iff_toNat_lt.1 hlt
      have hage : entry.ts.toNat + transferTimeoutMs.toNat ≤ now.toNat := hrel
      omega
  · intro h
    refine ⟨fun b entry batch hentry hbatch => ?_, hnext⟩
    cases hfresh : entry.isFresh now with
    | true =>
      left
      rw [senderBatch_eq_some]
      exact ⟨entry, by rw [hlookup, hentry]; simp [hfresh], hbatch⟩
    | false =>
      right
      refine (isFresh_of_le ?_).1 hfresh
      by_contra hlt
      have hmem : b ∈ m.pending.keys :=
        Finmap.mem_keys.2 (Finmap.lookup_isSome.1 (by rw [hentry]; rfl))
      have hkept := h b hmem entry hentry (by rw [hbatch]; rfl) (UInt64.not_le.1 hlt)
      rw [hfresh] at hkept
      cases hkept

section

variable {batchId : Bytes 32} {pk : Bytes 33} {sig : List UInt8} {did : String}
  {next : Input → Maps → Handling α}

theorem effect_acknowledge_committed {ts : UInt64}
    (h : m.pending.lookup batchId = some (.committed batch ts)) :
    (acknowledge batchId pk sig did).effect e m =
      m.setPending ((m.pending.erase batchId).insert batchId
        (.ackReceived batch pk sig did ts)) := by
  simp only [effect, h]

theorem effect_acknowledge_of_rejects (h : (acknowledge batchId pk sig did).Rejects m) :
    (acknowledge batchId pk sig did).effect e m = m.setPending (m.pending.erase batchId) := by
  unfold effect
  dsimp only
  split
  · next batch ts hlookup => exact absurd hlookup (h batch ts)
  · rfl

theorem keeps_acknowledge_of_committed {ts : UInt64}
    (hnode : Node (.acknowledge batchId pk sig did) (acknowledge batchId pk sig did).effect next)
    (hentry : m.pending.lookup batchId = some (.committed batch ts)) :
    (acknowledge batchId pk sig did).Keeps e m (next e m) := by
  have hsender : ∀ b, ((acknowledge batchId pk sig did).effect e m).senderBatch b =
      if b = batchId then some batch else m.senderBatch b := by
    intro b
    rw [effect_acknowledge_committed hentry]
    unfold senderBatch
    rw [setPending_pending, bind_lookup_insert, bind_lookup_erase]
    split <;> rfl
  have hyields := (hnode.2 e m).2 fun h => h batch ts hentry
  refine (keeps_iff_at hsender (fun _ _ h => h) hyields).2 fun batch' hbatch' => ?_
  obtain ⟨entry, hlookup, hsome⟩ := senderBatch_eq_some.1 hbatch'
  rw [hentry] at hlookup
  cases hlookup
  exact hsome

theorem not_keeps_acknowledge {entry : PendingBatchTransfer}
    (hnode : Node (.acknowledge batchId pk sig did) (acknowledge batchId pk sig did).effect next)
    (hentry : m.pending.lookup batchId = some entry)
    (hne : ∀ batch ts, entry ≠ .committed batch ts) :
    ¬ (acknowledge batchId pk sig did).Keeps e m (next e m) := by
  have hrejects : (acknowledge batchId pk sig did).Rejects m := by
    intro batch ts h
    rw [hentry] at h
    exact hne batch ts (some.inj h)
  intro hkeeps
  obtain ⟨error, herror⟩ := (hnode.2 e m).1 hrejects
  have hyields : (next e m).Yields fun _ => True := by
    refine hkeeps.errors fun h => ?_
    have hnone := congrArg (fun p => Finmap.lookup batchId p) h
    rw [effect_acknowledge_of_rejects hrejects, setPending_pending, FMap.lookup_erase_ite,
      if_pos rfl, hentry] at hnone
    cases hnone
  rw [herror] at hyields
  exact hyields

theorem effect_acknowledge_of_none (h : m.pending.lookup batchId = none) :
    ((acknowledge batchId pk sig did).effect e m).pending = m.pending := by
  have hrejects : (acknowledge batchId pk sig did).Rejects m := by
    intro batch ts h'
    rw [h] at h'
    cases h'
  rw [effect_acknowledge_of_rejects hrejects, setPending_pending]
  refine Finmap.ext_lookup fun b => ?_
  rw [FMap.lookup_erase_ite]
  split
  · next heq => rw [heq, h]
  · rfl

theorem keeps_acknowledge_iff
    (hnode : Node (.acknowledge batchId pk sig did) (acknowledge batchId pk sig did).effect next) :
    (acknowledge batchId pk sig did).Keeps e m (next e m) ↔
      (acknowledge batchId pk sig did).Spares m := by
  cases hentry : m.pending.lookup batchId with
  | none =>
    refine iff_of_true (keeps_of_unwritten (effect_acknowledge_of_none hentry)) ?_
    intro entry h
    rw [hentry] at h
    cases h
  | some entry =>
    have hother : (∀ batch ts, entry ≠ .committed batch ts) →
        ((acknowledge batchId pk sig did).Keeps e m (next e m) ↔
          (acknowledge batchId pk sig did).Spares m) := by
      intro hne
      refine iff_of_false (not_keeps_acknowledge hnode hentry hne) fun hspares => ?_
      obtain ⟨batch, _, h⟩ := hspares entry hentry
      exact hne batch entry.ts h
    cases entry with
    | commitReceived commit ts
    | ackReceived batch pk' sig' did' ts => exact hother fun _ _ h => by cases h
    | committed batch ts =>
      refine iff_of_true (keeps_acknowledge_of_committed hnode hentry) ?_
      intro entry h
      rw [hentry] at h
      cases h
      exact ⟨batch, rfl, rfl⟩

end

theorem keeps_takeAck
    (hnext : ((Access.takeAck batchId).effect e m).pending ≠ m.pending → next.Yields fun _ => True)
    :
    (Access.takeAck batchId).Keeps e m next := by
  refine ⟨fun b entry batch hlookup hbatch => ?_, hnext⟩
  by_cases hb : batchId = b
  · exact .inr hb
  · left
    have hkept : m.senderBatch b = some batch := senderBatch_eq_some.2 ⟨entry, hlookup, hbatch⟩
    unfold Access.effect
    dsimp only
    split
    · rw [senderBatch_erase, if_neg (Ne.symm hb), hkept]
    · exact hkept

/-- **The exact condition of an access.** -/
theorem keeps_iff_spares {next : Input → Maps → Handling α} (hnode : Node access access.effect next)
    :
    access.Keeps e m (next e m) ↔ access.Spares m := by
  have hwritten := (hnode.2 e m).2
  cases access with
  | readClock | generateKey label | signWithDid data | receiveBatch batchId batchJson
  | findCommit batchId | confirm batchId result
  | takeDone batchId => exact iff_of_true (keeps_of_unwritten rfl) trivial
  | takeAck batchId => exact iff_of_true (keeps_takeAck (hwritten fun h => h)) trivial
  | prune now => exact keeps_prune_iff (hwritten fun h => h)
  | acknowledge batchId pk sig did => exact keeps_acknowledge_iff hnode
  | storeCommit batchId commit =>
    have hsender : ∀ b, ((storeCommit batchId commit).effect e m).senderBatch b =
        if b = batchId then none else m.senderBatch b :=
      fun b => senderBatch_insert m batchId b (.commitReceived commit e.now)
    exact (keeps_iff_at hsender (fun _ _ h => h) (hwritten fun h => h)).trans forall_mem_eq_none_iff
  | removeCommit batchId =>
    have hsender : ∀ b, ((removeCommit batchId).effect e m).senderBatch b =
        if b = batchId then none else m.senderBatch b :=
      fun b => senderBatch_erase m batchId b
    exact (keeps_iff_at hsender (fun _ _ h => h) (hwritten fun h => h)).trans forall_mem_eq_none_iff
  | register batchId batch =>
    have hsender : ∀ b, ((register batchId batch).effect e m).senderBatch b =
        if b = batchId then some batch else m.senderBatch b :=
      fun b => senderBatch_insert m batchId b (.committed batch e.now)
    refine (keeps_iff_at hsender (fun _ _ h => h) (hwritten fun h => h)).trans ?_
    exact forall_congr' fun old => forall_congr' fun _ =>
      ⟨fun h => (some.inj h).symm, fun h => congrArg some h.symm⟩

end

/-! ## Runs -/

section

omit [DecidableEq ι] in
theorem nextAccess_eq_some {x : Calls ι} {a : TaskStep ι Input} (h : x.nextAccess a = some access) :
    ∃ t e effect next, a = .go t e ∧ x.tasks t = some (.access access effect next) := by
  cases a with
  | start t => cases h
  | go t e =>
    obtain ⟨p, hp, hlabel⟩ := bind_eq_some_iff.1 h
    cases p with
    | done r | fail r => cases hlabel
    | access label effect next =>
      cases hlabel
      exact ⟨t, e, effect, next, rfl, hp⟩

theorem keepsPending_iff {program : ι → Handling Reply} {x : Calls ι} {a : TaskStep ι Input}
    (hnodes : ∀ t p, x.tasks t = some p → p.Nodes Node) :
    KeepsPending program x a ↔ SparesPending x a := by
  cases hnext : x.nextAccess a with
  | none =>
    have hsame : ∀ y, step program x a = some y → y.shared = x.shared := by
      intro y hy
      obtain ⟨t, _, _, rfl⟩ | ⟨t, e, label, effect, next, rfl, ht, _⟩ := step_cases hy
      · rfl
      · simp [Calls.nextAccess, ht, Prog.label] at hnext
    refine iff_of_true ⟨fun y hy b entry batch hlookup hbatch => ?_, fun y hy hne => ?_⟩ ?_
    · rw [hsame y hy]
      exact .inl (senderBatch_eq_some.2 ⟨entry, hlookup, hbatch⟩)
    · rw [hsame y hy] at hne
      exact absurd rfl hne
    · intro access h
      rw [hnext] at h
      cases h
  | some access =>
    obtain ⟨t, e, effect, next, rfl, ht⟩ := nextAccess_eq_some hnext
    obtain ⟨hnode, _⟩ := hnodes t _ ht
    obtain rfl : effect = access.effect := hnode.1
    have hstep : step program x (.go t e) = some ⟨access.effect e x.shared,
        Function.update x.tasks t (some (next e x.shared)), x.trace ++ [(t, access, e)]⟩ := by
      simp only [step, ht]
    have hspares : SparesPending x (.go t e) ↔ access.Spares x.shared := by
      unfold SparesPending
      rw [hnext]
      simp
    rw [hspares, ← keeps_iff_spares hnode (e := e)]
    constructor
    · intro h
      refine ⟨fun b entry batch hlookup hbatch => ?_, fun hne => ?_⟩
      · rcases h.sender _ hstep b entry batch hlookup hbatch with hkept | ⟨a, ha, hrel⟩
        · exact .inl hkept
        · rw [hnext] at ha
          cases ha
          exact .inr hrel
      · obtain ⟨u, e', p, heq, hp, hyields⟩ := h.errors _ hstep hne
        cases heq
        obtain rfl := some.inj ((Function.update_self t (some (next e x.shared)) x.tasks).symm.trans
          hp)
        exact hyields
    · intro h
      refine ⟨fun y hy b entry batch hlookup hbatch => ?_, fun y hy hne => ?_⟩
      · obtain rfl := some.inj (hstep.symm.trans hy)
        rcases h.sender b entry batch hlookup hbatch with hkept | hrel
        · exact .inl hkept
        · exact .inr ⟨access, hnext, hrel⟩
      · obtain rfl := some.inj (hstep.symm.trans hy)
        exact ⟨t, e, _, rfl, Function.update_self .., h.errors hne⟩

/-- **When no message destroys a pending transfer.**  A run of any calls, from empty maps, keeps
the pending transfers exactly if all its steps spare them. -/
theorem keepsPending_iff_sparesPending (handler : BatchTransferHandler) (calls : ι → Call)
    (l : List (TaskStep ι Input)) :
    Run.Along (step fun t => (calls t).program handler)
        (KeepsPending fun t => (calls t).program handler) (fresh new) l ↔
      Run.Along (step fun t => (calls t).program handler) SparesPending (fresh new) l := by
  refine Run.along_iff_along (I := fun x : Calls ι => ∀ t p, x.tasks t = some p → p.Nodes Node)
    (fun x a hx => keepsPending_iff hx) (fun x a y hx _ hstep => ?_) ?_
  · exact nodes_step (fun t => nodes_program handler (calls t)) hx hstep
  · intro t p hp
    cases hp

end

/-! ## A batch-ack that comes twice -/

def ackTwice : Fin 3 → Call
  | 0 => .registerPendingBatch batchZero ⟨[batchZero], [], [], []⟩
  | _ => .handle ackZero

/-- All but the last step of the second batch-ack. -/
def ackTwiceRun : List (TaskStep (Fin 3) Input) :=
  [.start 0, .go 0 inputZero, .start 1, .go 1 inputZero, .start 2]

/-- **A batch-ack that comes twice destroys the transfer.**  The second one is answered with an
error, and the entry with the preimages is gone. -/
theorem keepsPending_fails_ackTwice :
    ¬ Run.Along (step fun t => (ackTwice t).program ⟨zeroCodec, false, false⟩)
      (KeepsPending fun t => (ackTwice t).program ⟨zeroCodec, false, false⟩)
      (fresh new) (ackTwiceRun ++ [.go 2 inputZero]) := by
  intro h
  have hrun : (Run.exec (step fun t => (ackTwice t).program ⟨zeroCodec, false, false⟩)
      (fresh new) ackTwiceRun).any (fun x =>
        decide (¬ SparesPending x (.go 2 inputZero))) = true := by
    decide +kernel
  obtain ⟨x, hx, hdestroys⟩ := (any_eq_true _ _).1 hrun
  have hnodes : ∀ t p, x.tasks t = some p → p.Nodes Node := by
    refine Run.exec_invariant
      (P := fun x : Calls (Fin 3) => ∀ t p, x.tasks t = some p → p.Nodes Node)
      (fun u a v hu hstep => ?_) (fun t p hp => ?_) hx
    · exact nodes_step (fun t => nodes_program _ (ackTwice t)) hu hstep
    · cases hp
  exact of_decide_eq_true hdestroys ((keepsPending_iff hnodes).1 (h.right hx).1)

end Idiom.Ecash
