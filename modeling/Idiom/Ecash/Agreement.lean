import Idiom.Ecash.Pending

/-!
# Sender and receiver agree on the outcome

Two handlers, each on its own maps. The network may reorder, duplicate and drop messages, and
third parties may send any message to either side, so a call of either side may start at any moment
with any message.

* `Party`, `Parties` — the two handlers and the calls that are made on them.
* `Accepted`, `Refused` — what the receiver's wallet has said of a batch.
-/

namespace Idiom.Ecash

open List Reply Ajna.Json Run Access Prog

inductive Party where
  | sender
  | receiver
  deriving DecidableEq

/-- The calls of a run, and where each is made. -/
structure Parties (ι : Type) where
  handler : Party → BatchTransferHandler
  node : ι → Party
  call : ι → Call

/-- The state of both handlers, with all calls in progress. -/
abbrev Exchange (ι : Type) := Tasks ι (Party → Maps) Input Access MessageHandlerError Reply

variable {ι : Type}

def Parties.program (parties : Parties ι) (t : ι) :
    Prog (Party → Maps) Input Access MessageHandlerError Reply :=
  ((parties.call t).program (parties.handler (parties.node t))).focus (parties.node t)

def Parties.step [DecidableEq ι] (parties : Parties ι) :
    Exchange ι → TaskStep ι Input → Option (Exchange ι) := Tasks.step parties.program

/-- Both handlers are new, and no call has started. -/
def Exchange.initial : Exchange ι := Tasks.fresh fun _ => Maps.new

/-! ## The property -/

section

variable (parties : Parties ι) (b : Bytes 32)

/-- The access gives a reveal of the batch to the wallet. -/
def Access.delivers : Access → Bool
  | receiveBatch batchId _ => decide (batchId = b)
  | _ => false

/-- The receiver's wallet has given a reveal of the batch this answer. -/
def Answered (ok : Bool) (trace : List (ι × Access × Input)) : Prop :=
  ∃ a ∈ trace, parties.node a.1 = .receiver ∧ a.2.1.delivers b = true ∧ a.2.2.wallet.isOk = ok

def Accepted (trace : List (ι × Access × Input)) : Prop := Answered parties b true trace

def Refused (trace : List (ι × Access × Input)) : Prop := Answered parties b false trace

/-- The batch whose outcome the call asks for. -/
def Call.confirms : Call → Option (Bytes 32)
  | takeDone batchId => some batchId
  | waitForDone batchId _ => some batchId
  | _ => none

/-- The sender's call `t` has yielded an outcome of the batch. -/
def Yielded (x : Exchange ι) (t : ι) (result : TransferDoneResult) : Prop :=
  parties.node t = .sender ∧ (parties.call t).confirms = some b ∧
    x.tasks t = some (.done (.confirmation (some result)))

/-- **Sender and receiver agree on the outcome.**  As a call that has returned stays, what it has
yielded is compared with all that the wallet says later. -/
structure Agreement (x : Exchange ι) : Prop where
  done : ∀ t, Yielded parties b x t .done → Accepted parties b x.trace
  nack : ∀ t reason, Yielded parties b x t (.nack reason) → ¬ Accepted parties b x.trace

/-! ## The condition -/

def outcome (body : Ajna.Json) : Option TransferDoneResult :=
  match readDone body with
  | .ok (batchId, result) => if batchId = b then some result else none
  | .error _ => none

def Call.message : Call → Option InboundMessage
  | handle inbound => some inbound
  | _ => none

/-- The answer of a call that has returned. -/
def Exchange.answer (x : Exchange ι) (t : ι) : Option OutboundMessage :=
  match x.tasks t with
  | some (.done (.message reply)) => reply
  | _ => none

def Sent (x : Exchange ι) (result : TransferDoneResult) : Prop :=
  ∃ u, parties.node u = .receiver ∧ ∃ reply ∈ x.answer u, reply.msgType = piuriBatchDone ∧
    outcome b reply.body = some result

/-- A batch-done of the batch that reaches the sender says what one says that the receiver sent; and
the wallet does not accept a reveal of the batch after it has refused one,
  or the other way round. -/
def Faithful (x : Exchange ι) : TaskStep ι Input → Prop
  | .start t => parties.node t = .sender → ∀ inbound ∈ (parties.call t).message,
      inbound.msgType = piuriBatchDone → ∀ result ∈ outcome b inbound.body, Sent parties b x result
  | .go t e => parties.node t = .receiver →
      (∃ access ∈ (x.tasks t).bind label, access.delivers b = true) →
        ¬ Answered parties b (!e.wallet.isOk) x.trace

instance (ok : Bool) (trace : List (ι × Access × Input)) :
    Decidable (Answered parties b ok trace) :=
  inferInstanceAs (Decidable (∃ a ∈ trace, parties.node a.1 = .receiver ∧
    a.2.1.delivers b = true ∧ a.2.2.wallet.isOk = ok))

instance [Fintype ι] (x : Exchange ι) (result : TransferDoneResult) :
    Decidable (Sent parties b x result) :=
  inferInstanceAs (Decidable (∃ u, parties.node u = .receiver ∧ ∃ reply ∈ x.answer u,
    reply.msgType = piuriBatchDone ∧ outcome b reply.body = some result))

instance [Fintype ι] (x : Exchange ι) (a : TaskStep ι Input) :
    Decidable (Faithful parties b x a) :=
  match a with
  | .start t => inferInstanceAs (Decidable (parties.node t = .sender →
      ∀ inbound ∈ (parties.call t).message, inbound.msgType = piuriBatchDone →
        ∀ result ∈ outcome b inbound.body, Sent parties b x result))
  | .go t e => inferInstanceAs (Decidable (parties.node t = .receiver →
      (∃ access ∈ (x.tasks t).bind label, access.delivers b = true) →
        ¬ Answered parties b (!e.wallet.isOk) x.trace))

end

/-! ## The messages -/

theorem parse32FromJson_ofBytes {val : Ajna.Json} {field : String} (b : Bytes 32)
    (h : val.get field = some (.ofBytes b.1)) : parse32FromJson val field = .ok b := by
  have hlength : (b.1.map fun n => number (.posInt n.toUInt64)).length = 32 := by
    rw [length_map, b.2]
  unfold parse32FromJson
  rw [h]
  simp only [Option.bind_some, ofBytes, asArray, dif_pos hlength]
  congr 1
  refine Subtype.ext ?_
  show (b.1.map _).map _ = b.1
  rw [map_map]
  conv_rhs => rw [← map_id b.1]
  refine map_congr_left fun n _ => ?_
  simp [asU64]

@[simp] theorem readDone_doneBody (b : Bytes 32) : readDone (doneBody b) = .ok (b, .done) := by
  have hparse : parse32FromJson (doneBody b) "batch_id" = .ok b :=
    parse32FromJson_ofBytes b rfl
  unfold readDone
  simp only [hparse]
  rfl

@[simp] theorem readDone_nackBody (b : Bytes 32) (reason : String) :
    readDone (nackBody b reason) = .ok (b, .nack reason) := by
  have hparse : parse32FromJson (nackBody b reason) "batch_id" = .ok b :=
    parse32FromJson_ofBytes b rfl
  have hstatus : (((nackBody b reason).get "status").bind asStr).getD "done" = "nack" :=
    rfl
  unfold readDone
  simp only [hparse, hstatus]
  rfl

@[simp] theorem outcome_doneBody (b b' : Bytes 32) :
    outcome b (doneBody b') = if b' = b then some .done else none := by
  unfold outcome
  rw [readDone_doneBody]

@[simp] theorem outcome_nackBody (b b' : Bytes 32) (reason : String) :
    outcome b (nackBody b' reason) = if b' = b then some (.nack reason) else none := by
  unfold outcome
  rw [readDone_nackBody]

/-! ## What each call may rely on -/

section

variable (parties : Parties ι) (b : Bytes 32)

/-- The wallet has said so. -/
def Backed (trace : List (ι × Access × Input)) : TransferDoneResult → Prop
  | .done => Accepted parties b trace
  | .nack _ => Refused parties b trace

/-- Outcomes that the sender has noted are backed by the wallet, and a call only adds to the
history. -/
def discipline : Discipline ι (Party → Maps) Input Access where
  kind _ := .enter
  idle _ := True
  inv w := ∀ result, (w.1 .sender).doneConfirmations.lookup b = some result →
    Backed parties b w.2 result
  evolves _ w w' := w.2 ⊆ w'.2
  refl _ _ := Subset.refl _
  trans _ _ _ _ := Subset.trans

/-- What a call returns is backed by the wallet. -/
def Justified (t : ι) (r : Except MessageHandlerError Reply)
    (w : World ι (Party → Maps) Input Access) : Prop :=
  (parties.node t = .receiver → ∀ reply, r = .ok (.message (some reply)) →
    reply.msgType = piuriBatchDone → ∀ result, outcome b reply.body = some result →
      Backed parties b w.2 result) ∧
  (parties.node t = .sender → (parties.call t).confirms = some b →
    ∀ result, r = .ok (.confirmation (some result)) → Backed parties b w.2 result)

end

variable {parties : Parties ι} {b : Bytes 32} {trace trace' : List (ι × Access × Input)}

theorem Answered.mono {ok : Bool} (h : Answered parties b ok trace) (hsub : trace ⊆ trace') :
    Answered parties b ok trace' := by
  obtain ⟨a, ha, h⟩ := h
  exact ⟨a, hsub ha, h⟩

theorem Backed.mono {result : TransferDoneResult} (h : Backed parties b trace result)
    (hsub : trace ⊆ trace') : Backed parties b trace' result := by
  cases result with
  | done | nack reason => exact Answered.mono h hsub

theorem Justified.mono {t : ι} {r : Except MessageHandlerError Reply}
    {w w' : World ι (Party → Maps) Input Access} (h : Justified parties b t r w)
    (hsub : w.2 ⊆ w'.2) : Justified parties b t r w' :=
  ⟨fun hnode reply hr htype result hresult => (h.1 hnode reply hr htype result hresult).mono hsub,
    fun hnode hconfirms result hr => (h.2 hnode hconfirms result hr).mono hsub⟩

variable {access : Access}

theorem lookup_confirmations {e : Input} {m : Maps} {result : TransferDoneResult}
    (h : (access.effect e m).doneConfirmations.lookup b = some result) :
    access = .confirm b result ∨ m.doneConfirmations.lookup b = some result := by
  cases access with
  | confirm batchId result' =>
    unfold effect at h
    rw [FMap.lookup_insert_ite] at h
    split at h
    · next hb =>
      cases h
      exact .inl (by rw [hb])
    · exact .inr h
  | takeDone batchId =>
    unfold effect at h
    rw [FMap.lookup_erase_ite] at h
    split at h
    · cases h
    · exact .inr h
  | acknowledge batchId pk sig did | takeAck batchId =>
    simp only [effect] at h
    split at h <;> exact .inr h
  | _ => exact .inr h

section

variable {t : ι} {w : World ι (Party → Maps) Input Access}

/-- A call with `p` left to do keeps to the discipline, and has its outcome justified. -/
abbrev SafeTask (parties : Parties ι) (b : Bytes 32) (t : ι)
    (p : Prog (Party → Maps) Input Access MessageHandlerError Reply)
    (w : World ι (Party → Maps) Input Access) : Prop :=
  (discipline parties b).Safe t (Justified parties b t) p w

theorem safe_done {a : Reply} (h : Justified parties b t (.ok a) w) :
    SafeTask parties b t ((done a : Handling Reply).focus (parties.node t)) w :=
  fun _ hsub _ => h.mono hsub

theorem safe_fail {error : MessageHandlerError} :
    SafeTask parties b t ((fail error : Handling Reply).focus (parties.node t)) w :=
  fun _ _ _ => ⟨fun _ _ h => (by cases h), fun _ _ _ h => (by cases h)⟩

variable {next : Input → Maps → Handling Reply}

/-- One access: it may note an outcome at the sender only if the wallet has said so. -/
theorem safe_perform
    (hconfirm : parties.node t = .sender → ∀ result, access = .confirm b result →
      Backed parties b w.2 result)
    (hnext : ∀ (w₀ : World ι (Party → Maps) Input Access) (e : Input), w.2 ⊆ w₀.2 →
      (discipline parties b).inv w₀ →
      SafeTask parties b t ((next e (w₀.1 (parties.node t))).focus (parties.node t))
        (Function.update w₀.1 (parties.node t) (access.effect e (w₀.1 (parties.node t))),
          w₀.2 ++ [(t, access, e)]))
    :
    SafeTask parties b t ((perform access next).focus (parties.node t)) w := by
  intro w₀ e hsub hinv _ _
  have happend : w₀.2 ⊆ w₀.2 ++ [(t, access, e)] := subset_append_left ..
  refine ⟨⟨fun result hresult => ?_, fun _ _ => happend, fun hfree => (by cases hfree),
    fun _ _ => trivial⟩, hnext w₀ e hsub hinv⟩
  cases hnode : parties.node t with
  | receiver =>
    rw [hnode] at hresult
    exact (hinv result hresult).mono happend
  | sender =>
    rw [hnode] at hresult
    have hlookup : (access.effect e (w₀.1 .sender)).doneConfirmations.lookup b = some result := by
      simpa using hresult
    rcases lookup_confirmations hlookup with haccess | hold
    · exact (hconfirm hnode result haccess).mono (Subset.trans hsub happend)
    · exact (hinv result hold).mono happend

theorem safe_quiet (haccess : ∀ result, access ≠ .confirm b result)
    (hnext : ∀ e m w', SafeTask parties b t ((next e m).focus (parties.node t)) w') :
    SafeTask parties b t ((perform access next).focus (parties.node t)) w :=
  safe_perform (fun _ result h => absurd h (haccess result)) fun _ e _ _ => hnext e _ _

theorem justified_message {reply : Option OutboundMessage}
    (h : ∀ m, reply = some m → m.msgType ≠ piuriBatchDone) :
    Justified parties b t (.ok (.message reply)) w :=
  ⟨fun _ m hr htype => absurd htype (h m (by cases hr; rfl)), fun _ _ _ hr => (by cases hr)⟩

theorem safe_acknowledgeCommit (handler : BatchTransferHandler) (inbound : InboundMessage)
    (batchId : Bytes 32) (pk : Bytes 33) :
    SafeTask parties b t
      ((message <$> acknowledgeCommit handler inbound batchId pk).focus (parties.node t))
      w := by
  have hack : ∀ body : Ajna.Json, ∀ m, some (respond inbound piuriBatchAck body) = some m →
      m.msgType ≠ piuriBatchDone := by
    rintro body m ⟨⟩
    show piuriBatchAck ≠ piuriBatchDone
    decide
  refine safe_quiet (fun _ h => by cases h) fun clock m w' => ?_
  show SafeTask parties b t (focus (parties.node t)
    (message <$> (if handler.didSigner then _ else _ : Handling (Option OutboundMessage)))) w'
  split
  · refine safe_quiet (fun _ h => by cases h) fun e m w'' => ?_
    exact safe_done (justified_message (hack _))
  · exact safe_done (justified_message (hack _))

theorem safe_handleBatchCommit (handler : BatchTransferHandler) (inbound : InboundMessage) :
    SafeTask parties b t
      ((message <$> handleBatchCommit handler inbound).focus (parties.node t)) w := by
  unfold handleBatchCommit
  split
  · exact safe_fail
  · next commitJson batchId _ =>
    split
    · refine safe_quiet (fun _ h => by cases h) fun e m w' => ?_
      show SafeTask parties b t
        ((message <$> acceptKey handler inbound commitJson batchId e.key).focus (parties.node t)) w'
      cases e.key with
      | error text => exact safe_fail
      | ok pk =>
        refine safe_quiet (fun _ h => by cases h) fun _ _ w'' => ?_
        exact safe_acknowledgeCommit handler inbound batchId pk
    · exact safe_fail

theorem safe_handleBatchAck (handler : BatchTransferHandler) (inbound : InboundMessage) :
    SafeTask parties b t
      ((message <$> handleBatchAck handler inbound).focus (parties.node t)) w := by
  unfold handleBatchAck
  split
  · exact safe_fail
  · next ack _ =>
    refine safe_quiet (fun _ h => by cases h) fun e m w' => ?_
    show SafeTask parties b t (focus (parties.node t)
      (message <$> answerAck (m.pending.lookup ack.batchId))) w'
    rcases answerAck_cases (m.pending.lookup ack.batchId) with ⟨_, _, _, h⟩ | ⟨_, _, h⟩
    · rw [h]
      exact safe_done (justified_message fun m h => by cases h)
    · rw [h]
      exact safe_fail

theorem safe_handleBatchReveal (handler : BatchTransferHandler) (inbound : InboundMessage) :
    SafeTask parties b t
      ((message <$> handleBatchReveal handler inbound).focus (parties.node t)) w := by
  unfold handleBatchReveal
  split
  · exact safe_fail
  · next reveal batchId _ =>
    refine safe_quiet (fun _ h => by cases h) fun _ m w' => ?_
    show SafeTask parties b t ((message <$> creditReveal handler inbound batchId reveal
        (m.receivedCommit batchId)).focus (parties.node t)) w'
    cases m.receivedCommit batchId with
    | none => exact safe_fail
    | some commit =>
      refine safe_perform (fun _ _ h => by cases h) fun w₀ e _ _ => ?_
      have hmem : (t, receiveBatch batchId (transferJson handler commit reveal), e) ∈
          w₀.2 ++ [(t, .receiveBatch batchId (transferJson handler commit reveal), e)] :=
        mem_append_right _ (mem_singleton.2 rfl)
      have hanswered : parties.node t = .receiver → batchId = b →
          Answered parties b e.wallet.isOk
            (w₀.2 ++ [(t, .receiveBatch batchId (transferJson handler commit reveal), e)]) :=
        fun hnode hb => ⟨_, hmem, hnode, decide_eq_true hb, rfl⟩
      show SafeTask parties b t (focus (parties.node t)
        (message <$> answerReveal inbound batchId e.wallet)) _
      cases hwallet : e.wallet with
      | error reason =>
        refine safe_done ⟨fun hnode reply hr _ result hresult => ?_, fun _ _ _ h => by cases h⟩
        cases hr
        have hb : batchId = b ∧ TransferDoneResult.nack reason = result := by
          simpa [respond] using hresult
        rw [hwallet] at hanswered
        rw [← hb.2]
        exact hanswered hnode hb.1
      | ok _ =>
        refine safe_perform (fun _ _ h => by cases h) fun w₁ e' hsub _ => safe_done ?_
        refine ⟨fun hnode reply hr _ result hresult => ?_, fun _ _ _ h => by cases h⟩
        cases hr
        have hb : batchId = b ∧ TransferDoneResult.done = result := by
          simpa [respond] using hresult
        rw [hwallet] at hanswered
        rw [← hb.2]
        exact ((hanswered hnode hb.1).mono hsub).mono (subset_append_left ..)

theorem safe_handleBatchDone (inbound : InboundMessage)
    (h : parties.node t = .sender → ∀ result, outcome b inbound.body = some result →
      Backed parties b w.2 result) :
    SafeTask parties b t ((message <$> handleBatchDone inbound).focus (parties.node t)) w := by
  unfold handleBatchDone
  split
  · exact safe_fail
  · next batchId result hread =>
    refine safe_perform (fun hnode result' haccess => ?_) fun _ _ _ _ =>
      safe_done (justified_message fun m h => by cases h)
    cases haccess
    refine h hnode result ?_
    unfold outcome
    rw [hread]
    exact if_pos rfl

theorem safe_handle (handler : BatchTransferHandler) (inbound : InboundMessage)
    (h : parties.node t = .sender → inbound.msgType = piuriBatchDone →
      ∀ result, outcome b inbound.body = some result → Backed parties b w.2 result) :
    SafeTask parties b t ((message <$> handle handler inbound).focus (parties.node t)) w := by
  unfold handle
  split
  · exact safe_handleBatchCommit handler inbound
  split
  · exact safe_handleBatchAck handler inbound
  split
  · exact safe_handleBatchReveal handler inbound
  split
  · next htype => exact safe_handleBatchDone inbound fun hnode => h hnode htype
  · exact safe_fail

theorem safe_waitFor {α : Type} {f : Maps → Option α} {g : Option α → Reply} (n : ℕ)
    (haccess : ∀ result, access ≠ .confirm b result)
    (hanswer : ∀ (w₀ : World ι (Party → Maps) Input Access) e, (discipline parties b).inv w₀ →
      Justified parties b t (.ok (g (f (w₀.1 (parties.node t)))))
      (Function.update w₀.1 (parties.node t) (access.effect e (w₀.1 (parties.node t))),
      w₀.2 ++ [(t, access, e)]))
    :
    SafeTask parties b t
      ((g <$> waitFor (perform access fun _ m => .done (f m)) n).focus (parties.node t)) w := by
  induction n generalizing w with
  | zero =>
    refine safe_perform (fun _ result h => absurd h (haccess result)) fun w₀ e _ hinv => ?_
    have hjustified := hanswer w₀ e hinv
    dsimp only
    cases hf : f (w₀.1 (parties.node t)) with
    | some a =>
      rw [hf] at hjustified
      exact safe_done hjustified
    | none =>
      exact safe_perform (fun _ result h => absurd h (haccess result)) fun w₁ e' _ hinv' =>
        safe_done (hanswer w₁ e' hinv')
  | succ n ih =>
    refine safe_perform (fun _ result h => absurd h (haccess result)) fun w₀ e _ hinv => ?_
    have hjustified := hanswer w₀ e hinv
    dsimp only
    cases hf : f (w₀.1 (parties.node t)) with
    | some a =>
      rw [hf] at hjustified
      exact safe_done hjustified
    | none => exact ih

theorem justified_takeDone {batchId : Bytes 32} {effect : Input → Maps → Maps}
    (hconfirms : (parties.call t).confirms = some batchId)
    (w₀ : World ι (Party → Maps) Input Access) (e : Input) (hinv : (discipline parties b).inv w₀) :
    Justified parties b t
      (.ok (.confirmation ((w₀.1 (parties.node t)).doneConfirmations.lookup batchId)))
      (Function.update w₀.1 (parties.node t) (effect e (w₀.1 (parties.node t))),
        w₀.2 ++ [(t, .takeDone batchId, e)]) := by
  refine ⟨fun _ _ h => (by cases h), fun hnode hb result hr => ?_⟩
  rw [hconfirms] at hb
  cases hb
  rw [hnode] at hr
  have hlookup : (w₀.1 .sender).doneConfirmations.lookup b = some result := by
    simpa using hr
  exact (hinv result hlookup).mono (subset_append_left ..)

theorem safe_program
    (h : parties.node t = .sender → ∀ inbound, parties.call t = .handle inbound →
      inbound.msgType = piuriBatchDone → ∀ result, outcome b inbound.body = some result →
        Backed parties b w.2 result) :
    SafeTask parties b t (parties.program t) w := by
  unfold Parties.program
  cases hcall : parties.call t with
  | handle inbound => exact safe_handle _ inbound fun hnode => h hnode inbound hcall
  | registerPendingBatch batchId batch | takeAck batchId =>
    refine safe_quiet (fun _ h => by cases h) fun _ _ _ => safe_done ?_
    exact ⟨fun _ _ h => (by cases h), fun _ _ _ h => (by cases h)⟩
  | waitForAck batchId n =>
    refine safe_waitFor n (fun _ h => by cases h) fun _ _ _ => ?_
    exact ⟨fun _ _ h => (by cases h), fun _ _ _ h => (by cases h)⟩
  | takeDone batchId =>
    refine safe_perform (fun _ _ h => by cases h) fun w₀ e _ hinv => safe_done ?_
    exact justified_takeDone (by rw [hcall]; rfl) w₀ e hinv
  | waitForDone batchId n =>
    refine safe_waitFor n (fun _ h => by cases h) fun w₀ e hinv => ?_
    exact justified_takeDone (by rw [hcall]; rfl) w₀ e hinv
  | pruneExpired =>
    refine safe_quiet (fun _ h => by cases h) fun _ _ _ => ?_
    refine safe_quiet (fun _ h => by cases h) fun _ _ _ => safe_done ?_
    exact ⟨fun _ _ h => (by cases h), fun _ _ _ h => (by cases h)⟩

end

/-! ## Runs -/

section

variable [DecidableEq ι] {x y : Exchange ι} {l : List (TaskStep ι Input)}

theorem consistent_of_faithful
    (hfaithful : Along parties.step (Faithful parties b) Exchange.initial l)
    (h : exec parties.step Exchange.initial l = some y) (hok : Accepted parties b y.trace) :
    ¬ Refused parties b y.trace := by
  have hinv : ∀ ok, Answered parties b ok y.trace → ¬ Answered parties b (!ok) y.trace := by
    refine exec_invariant_along
      (P := fun x : Exchange ι => ∀ ok, Answered parties b ok x.trace →
        ¬ Answered parties b (!ok) x.trace) (fun u a v hu hG hstep => ?_) ?_ hfaithful h
    · obtain ⟨t, rfl, _, rfl⟩ | ⟨t, e, access, effect, next, rfl, ht, rfl⟩ :=
        Tasks.step_cases hstep
      · exact hu
      · -- a new answer is compared with the old ones by the condition
        have hcases : ∀ ok, Answered parties b ok (u.trace ++ [(t, access, e)]) →
            Answered parties b ok u.trace ∨
              (e.wallet.isOk = ok ∧ ¬ Answered parties b (!ok) u.trace) := by
          rintro ok ⟨a, ha, hnode, hdelivers, hanswer⟩
          rcases mem_append.1 ha with ha | ha
          · exact .inl ⟨a, ha, hnode, hdelivers, hanswer⟩
          · rw [mem_singleton.1 ha] at hnode hdelivers hanswer
            have hnot := hG hnode ⟨access, by rw [ht]; rfl, hdelivers⟩
            rw [hanswer] at hnot
            exact .inr ⟨hanswer, hnot⟩
        intro ok h₁ h₂
        rcases hcases ok h₁ with h₁ | ⟨he, h₁⟩
        · rcases hcases (!ok) h₂ with h₂ | ⟨_, h₂⟩
          · exact hu ok h₁ h₂
          · rw [Bool.not_not] at h₂
            exact h₂ h₁
        · rcases hcases (!ok) h₂ with h₂ | ⟨he', _⟩
          · exact h₁ h₂
          · rw [he] at he'
            cases ok <;> cases he'
    · rintro ok ⟨a, ha, _⟩
      cases ha
  exact hinv true hok

theorem sound_of_faithful (hfaithful : Along parties.step (Faithful parties b) Exchange.initial l)
    (h : exec parties.step Exchange.initial l = some y) :
    Discipline.Sound (discipline parties b) (Justified parties b) y := by
  refine Discipline.sound_of_exec_along (G := Faithful parties b) (fun x t hx hG _ => ?_)
    (fun t => ?_) (Discipline.sound_fresh (fun result hresult => by cases hresult) trivial)
    (hfaithful.imp fun x a hG => ⟨?_, hG⟩) h
  · refine safe_program fun hnode inbound hcall htype result hresult => ?_
    obtain ⟨u, hu, reply, hreply, hreplyType, hreplyResult⟩ :=
      hG hnode inbound (by rw [hcall]; rfl) htype result hresult
    unfold Exchange.answer at hreply
    split at hreply
    · next answer hdone =>
      cases hreply
      exact (hx.of_done hdone).1 hu reply rfl hreplyType result hreplyResult
    · cases hreply
  · cases parties.program t with
    | done r | fail r => exact fun h => h
    | access label effect next => exact fun h => by cases h
  · cases a with
    | start t => trivial
    | go t e =>
      intro _ u _ p _
      cases p with
      | done r | fail r => exact fun h => h
      | access label effect next => exact fun h => by cases h

/-- **Sender and receiver agree on the outcome**, in every run in which a batch-done of the batch
that reaches the sender is one that the receiver sent, and the wallet does not change its mind. -/
theorem agreement_of_faithful
    (hfaithful : Along parties.step (Faithful parties b) Exchange.initial l)
    (h : exec parties.step Exchange.initial l = some y) : Agreement parties b y := by
  have hsound := sound_of_faithful hfaithful h
  refine ⟨fun t ⟨hnode, hconfirms, ht⟩ => ?_, fun t reason ⟨hnode, hconfirms, ht⟩ hok => ?_⟩
  · exact (hsound.of_done ht).2 hnode hconfirms .done rfl
  · have hrefused : Refused parties b y.trace :=
      (hsound.of_done ht).2 hnode hconfirms (.nack reason) rfl
    exact consistent_of_faithful hfaithful h hok hrefused

end

/-! ## A batch-done of the receiver, and one of a third party -/

def doneZero : InboundMessage := ⟨piuriBatchDone, doneBody batchZero, none, none, none⟩

/-- The receiver handles a commit and its reveal; a batch-done reaches the sender, which asks for
the outcome. -/
def transfer : Parties (Fin 4) where
  handler _ := ⟨zeroCodec, true, false⟩
  node t := if t < 2 then .receiver else .sender
  call
    | 0 => .handle commitZero
    | 1 => .handle revealZero
    | 2 => .handle doneZero
    | 3 => .takeDone batchZero

def honestRun : List (TaskStep (Fin 4) Input) :=
  [.start 0, .go 0 inputZero, .go 0 inputZero, .go 0 inputZero, .start 1, .go 1 inputZero,
    .go 1 inputZero, .go 1 inputZero, .start 2, .go 2 inputZero, .start 3, .go 3 inputZero]

/-- Both sides agree that the batch is transferred. -/
theorem agreement_of_faithful_honestRun : ∃ y,
    exec transfer.step Exchange.initial honestRun = some y ∧
      Accepted transfer batchZero y.trace ∧ Agreement transfer batchZero y := by
  have hrun : (exec transfer.step Exchange.initial honestRun).any (fun y =>
      decide (Answered transfer batchZero true y.trace)) = true := by
    decide +kernel
  obtain ⟨y, hy, hok⟩ := (Option.any_eq_true _ _).1 hrun
  have hfaithful : Along transfer.step (Faithful transfer batchZero) Exchange.initial
      honestRun := of_decide_eq_true (by decide +kernel)
  have haccepted : Answered transfer batchZero true y.trace := of_decide_eq_true hok
  exact ⟨y, hy, haccepted, agreement_of_faithful hfaithful hy⟩

/-- The batch-done comes from a third party, and nothing has reached the receiver. -/
def forgedRun : List (TaskStep (Fin 4) Input) :=
  [.start 2, .go 2 inputZero, .start 3, .go 3 inputZero]

/-- The call has yielded that the transfer is done. -/
def Exchange.saysDone (x : Exchange ι) (t : ι) : Bool :=
  match x.tasks t with
  | some (.done (.confirmation (some .done))) => true
  | _ => false

/-- **A third party makes the sender believe that the transfer is done.** -/
theorem agreement_fails_forgedRun : ∃ y,
    exec transfer.step Exchange.initial forgedRun = some y ∧ ¬ Agreement transfer batchZero y := by
  have hrun : (exec transfer.step Exchange.initial forgedRun).any (fun y =>
      decide (¬ Answered transfer batchZero true y.trace) && y.saysDone 3) = true := by
    decide +kernel
  obtain ⟨y, hy, hyields⟩ := (Option.any_eq_true _ _).1 hrun
  rw [Bool.and_eq_true] at hyields
  obtain ⟨hnot, hdone⟩ := hyields
  have hnever : ¬ Answered transfer batchZero true y.trace := of_decide_eq_true hnot
  refine ⟨y, hy, fun h => hnever (h.done 3 ⟨rfl, rfl, ?_⟩)⟩
  unfold Exchange.saysDone at hdone
  split at hdone
  · assumption
  · cases hdone

end Idiom.Ecash
