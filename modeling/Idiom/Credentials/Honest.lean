import Idiom.Credentials.Isolation
import Mathlib.Tactic.IntervalCases

/-!
# An honest exchange

An issuer and a holder run one exchange over the AnonCreds handlers and service. Messages arrive
at least once, the first time in the order they were sent, and any of them again later.

* `World`, `Turn`, `step` — the two agents and the messages between them.
* `Completes` — one record for each side, every delivered message applied to it, and both `Done`
  with the same credential at the end.
* `Stage`, `At` — how far the exchange is.
-/

namespace Idiom.Credentials

open Exchange CredentialExchangeRecord Finmap List Run Option

/-! ## Messages on the way -/

/-- What the two agents share. -/
structure Setting where
  serde : Serde
  /-- Whether the holder answers an offer at once. -/
  autoAccept : Bool
  /-- The context in which either side receives the messages of the other. -/
  context : CredentialExchangeRole → MessageContext

open Setting

/-- Both have the AnonCreds handlers only. -/
def Setting.config (setting : Setting) : Config where
  autoAccept := setting.autoAccept
  autoIssue := false
  supported _ := false

/-- A message on its way to one of the two. -/
structure Envelope where
  recipient : CredentialExchangeRole
  inbound : InboundMessage

section
variable (setting : Setting) (threadId : String)

/-- `to_didcomm_message` and `from_didcomm_message`, for each type of message: the attachment goes
as a JSON value, except that of an issue message, which goes as its text. -/
def Setting.proposal (json : String) : Envelope where
  recipient := .issuer
  inbound :=
    { threadId := threadId
      firstFormatId := some anonCredsOffer
      formats := [anonCredsOffer]
      body := .propose (.ok json)
      context := setting.context .issuer }

def Setting.offer (json : String) : Envelope where
  recipient := .holder
  inbound :=
    { threadId := threadId
      firstFormatId := some anonCredsOffer
      formats := [anonCredsOffer]
      body := .offer (.ok json)
      context := setting.context .holder }

def Setting.request (json : String) : Envelope where
  recipient := .issuer
  inbound :=
    { threadId := threadId
      firstFormatId := some anonCredsRequest
      formats := [anonCredsRequest]
      body := .request (.ok json)
      context := setting.context .issuer }

def Setting.issue (json : String) : Envelope where
  recipient := .holder
  inbound :=
    { threadId := threadId
      firstFormatId := some anonCredsCredential
      formats := [anonCredsCredential]
      body := .issue (.ok json)
      context := setting.context .holder }

def Setting.ack (status : AckStatus) : Envelope where
  recipient := .issuer
  inbound :=
    { threadId := threadId
      firstFormatId := none
      formats := []
      body := .ack status
      context := setting.context .issuer }

end

/-- The answer of a handler, on its way. -/
def Setting.envelope (setting : Setting) : Reply → Envelope
  | .request msg => setting.request msg.threadId (setting.serde.canonical msg.credentialRequestJson)
  | .issue msg => setting.issue msg.threadId msg.credentialJson
  | .ack threadId status => setting.ack threadId status

/-- What a handler sends back, on its way. -/
def Setting.replies (setting : Setting)
    (answer : Except MessageHandlerError (Option OutboundMessage)) : List Envelope :=
  (answers answer).map fun out => setting.envelope out.message

/-- AnonCreds libraries whose calls succeed. The offer they make is JSON and names its credential
definition. -/
structure Answers (serde : Serde) where
  createCredentialOffer : String → String → String
  createCredentialRequest : String → String → String → String → String
  createCredential : String → String → String → Attributes → String
  processCredential : String → String → String → String
  recordId : String
  messageId : String
  now : ℕ
  reads : ∀ schemaId credDefId, ∃ get,
    serde.fields (serde.canonical (createCredentialOffer schemaId credDefId)) = some get ∧
      get "cred_def_id" = some credDefId

def Answers.calls {serde : Serde} (answers : Answers serde) : Calls where
  createCredentialOffer schemaId credDefId := .ok (answers.createCredentialOffer schemaId credDefId)
  createCredentialRequest threadId offerJson credDefId entropy :=
    .ok (answers.createCredentialRequest threadId offerJson credDefId entropy)
  createCredential credDefId offerJson requestJson attributes :=
    .ok (answers.createCredential credDefId offerJson requestJson attributes)
  processCredential threadId credentialJson credDefId :=
    .ok (answers.processCredential threadId credentialJson credDefId)
  signCredential format _ _ := .error (.unsupportedFormat format.detailFormatId)
  recordId := answers.recordId
  messageId := answers.messageId
  credentialId := ""
  now := answers.now

/-! ## The two agents -/

structure World where
  issuer : Exchange
  holder : Exchange
  /-- The messages sent, in order. -/
  wire : List Envelope
  /-- How many of them have arrived. -/
  delivered : ℕ

open World

def World.agent (w : World) : CredentialExchangeRole → Exchange
  | .issuer => w.issuer
  | .holder => w.holder

def World.setAgent (w : World) (role : CredentialExchangeRole) (s : Exchange) : World :=
  match role with
  | .issuer => { w with issuer := s }
  | .holder => { w with holder := s }

/-- What happens next: a message arrives, or an application goes on with the exchange. -/
inductive Move where
  | deliver (i : ℕ)
  | acceptProposal (exchangeId schemaId credDefId : String)
  | acceptOffer (exchangeId entropy : String)
  | setAutoIssueAttributes (exchangeId : String) (attributes : Attributes)
  | registerAutoIssueAttributes (exchangeId : String) (attributes : Attributes)
  | acceptRequest (exchangeId : String) (attributes : Attributes)

structure Turn (serde : Serde) where
  answers : Answers serde
  order : IterOrder String
  move : Move

/-- The message that arrives: the next one or one that has arrived before. The id that is drawn
meanwhile is a new one. -/
def World.due (w : World) (recordId : String) (i : ℕ) : Option Envelope :=
  if i ≤ w.delivered then
    (w.wire[i]?).filter fun env => recordId ∉ (w.agent env.recipient).records
  else none

/-- An application names the exchange by the id of its record. -/
def Exchange.isOn (s : Exchange) (threadId exchangeId : String) : Bool :=
  (s.findById exchangeId).any fun r => r.threadId = threadId

/-- What an operation did at one side, and the message the application sends of what it returned. -/
def World.operated {α : Type} (w : World) (role : CredentialExchangeRole)
    (result : Exchange × Except CredentialError α) (send : α → List Envelope) : World :=
  match result with
  | (s, .ok a) => { w.setAgent role s with wire := w.wire ++ send a }
  | (s, .error _) => w.setAgent role s

variable (setting : Setting) (thread : String)

def World.deliver (w : World) (answers : Answers setting.serde) (order : IterOrder String) (i : ℕ)
    (env : Envelope) : World :=
  let handled := handle setting.serde answers.calls order setting.config (w.agent env.recipient)
    env.inbound
  { w.setAgent env.recipient handled.1 with
    wire := w.wire ++ setting.replies handled.2
    delivered := max w.delivered (i + 1) }

def exchangeStep (w : World) (a : Turn setting.serde) : Option World :=
  match a.move with
  | .deliver i =>
    match w.due a.answers.recordId i with
    | none => none
    | some env => some (w.deliver setting a.answers a.order i env)
  | .acceptProposal exchangeId schemaId credDefId =>
    if w.issuer.isOn thread exchangeId then
      some (w.operated .issuer (acceptProposal a.answers.calls w.issuer exchangeId schemaId
        credDefId)
        fun msg => [setting.offer msg.threadId (setting.serde.canonical msg.credentialOfferJson)])
    else none
  | .acceptOffer exchangeId entropy =>
    if w.holder.isOn thread exchangeId then
      some (w.operated .holder (acceptOffer a.answers.calls w.holder exchangeId entropy)
        fun msg => [setting.envelope (.request msg)])
    else none
  | .setAutoIssueAttributes exchangeId attributes =>
    if w.issuer.isOn thread exchangeId then
      some (w.operated .issuer
        (setAutoIssueAttributes a.answers.calls w.issuer exchangeId attributes) fun _ => [])
    else none
  | .registerAutoIssueAttributes exchangeId attributes =>
    some { w with
      issuer := { w.issuer with autoIssue := w.issuer.autoIssue.insert exchangeId attributes } }
  | .acceptRequest exchangeId attributes =>
    if w.issuer.isOn thread exchangeId then
      some (w.operated .issuer (acceptRequest a.answers.calls w.issuer exchangeId attributes)
        fun issued => [setting.envelope (.issue issued.1)])
    else none

/-! ## How it starts -/

/-- The operation the exchange starts with. -/
inductive Opening where
  | createProposal (connectionId schemaId credDefId : Option String) (proposalJson : String)
  | createOffer (connectionId : Option String) (schemaId credDefId : String)

def Exchange.Absent (thread : String) (s : Exchange) : Prop :=
  ∀ id r, s.records.lookup id = some r → r.threadId ≠ thread

/-- Two agents with any other exchanges; the ids that are drawn for this one are new. -/
structure Start where
  issuer : Exchange
  holder : Exchange
  answers : Answers setting.serde
  opening : Opening
  issuer_keyed : issuer.Keyed
  holder_keyed : holder.Keyed
  issuer_absent : issuer.Absent answers.messageId
  holder_absent : holder.Absent answers.messageId
  issuer_fresh : answers.recordId ∉ issuer.records
  holder_fresh : answers.recordId ∉ holder.records

variable {setting}

/-- The thread of the exchange. -/
def Start.threadId (start : Start setting) : String := start.answers.messageId

def Start.world (start : Start setting) : World :=
  let w : World := ⟨start.issuer, start.holder, [], 0⟩
  match start.opening with
  | .createProposal connectionId schemaId credDefId proposalJson =>
    w.operated .holder
      (createProposal start.answers.calls start.holder connectionId schemaId credDefId proposalJson)
      fun result =>
        [setting.proposal result.2.threadId
          (setting.serde.canonical result.2.credentialProposalJson)]
  | .createOffer connectionId schemaId credDefId =>
    w.operated .issuer
      (createOffer start.answers.calls start.issuer connectionId schemaId credDefId)
      fun result =>
        [setting.offer result.2.threadId (setting.serde.canonical result.2.credentialOfferJson)]

/-! ## How it should go -/

structure Only (thread : String) (s : Exchange) (r : CredentialExchangeRecord) : Prop where
  lookup : s.records.lookup r.id = some r
  onThread : r.threadId = thread
  only : ∀ id r', s.records.lookup id = some r' → r'.threadId = thread → id = r.id

/-- One side has sent a message, or has received one. -/
def World.TakesPart (w : World) (role : CredentialExchangeRole) : Prop :=
  ∃ i env, w.wire[i]? = some env ∧ (env.recipient = role → i < w.delivered)

/-- The record holds what the message brought. -/
def Body.AppliedTo (r : CredentialExchangeRecord) : Body → Prop
  | .propose (.ok json) => r.credentialProposalJson = some json
  | .offer (.ok json) => r.credentialOfferJson = some json
  | .request (.ok json) => r.credentialRequestJson = some json
  | .issue (.ok json) => r.credentialJson = some json
  | .ack _ => r.state = .done
  | _ => False

/-- All messages have arrived, and no application is asked to go on. -/
def World.Settled (thread : String) (w : World) : Prop :=
  w.delivered = w.wire.length ∧ ∀ role id r, (w.agent role).records.lookup id = some r →
    r.threadId = thread →
    r.state ∉ [CredentialExchangeState.proposalReceived, .offerReceived, .requestReceived]

structure Completes (thread : String) (w : World) : Prop where
  /-- Whoever takes part holds exactly one record of the thread. -/
  one : ∀ role, w.TakesPart role → ∃ r, Only thread (w.agent role) r ∧ r.role = role
  /-- Every message that has arrived is applied to that record. -/
  applied : ∀ i env r, w.wire[i]? = some env → i < w.delivered →
    Only thread (w.agent env.recipient) r → env.inbound.body.AppliedTo r
  /-- In the end both records are `Done`, with the same credential. -/
  done : w.Settled thread → ∃ r r' json, Only thread w.issuer r ∧ Only thread w.holder r' ∧
    r.state = .done ∧ r'.state = .done ∧ r.credentialJson = some json ∧
    r'.credentialJson = some json

def Body.isOffer : Body → Bool
  | .offer _ => true
  | _ => false

/-- An offer arrives at a holder that has no record of the thread. -/
def OfferIsNew (thread : String) (w : World) (a : Turn setting.serde) : Prop :=
  ∀ i env, a.move = .deliver i → w.due a.answers.recordId i = some env →
    env.inbound.body.isOffer = true → (w.agent env.recipient).Absent thread

/-! ## How far it is -/

/-- The messages sent so far, by what they brought, and how many have arrived. -/
inductive Stage where
  | proposed (proposal : String)
  | proposalReceived (proposal : String)
  | counterOffered (proposal offer : String)
  | offered (offer : String)
  | offerReceived (offer : String)
  | requested (offer request : String)
  | requestReceived (offer request : String)
  | issued (offer request credential : String)
  | processed (offer request credential : String)
  | completed (offer request credential : String)

namespace Stage

def wire (setting : Setting) (thread : String) : Stage → List Envelope
  | proposed p | proposalReceived p => [setting.proposal thread p]
  | counterOffered p o => [setting.proposal thread p, setting.offer thread o]
  | offered o | offerReceived o => [setting.offer thread o]
  | requested o q | requestReceived o q => [setting.offer thread o, setting.request thread q]
  | issued o q c =>
    [setting.offer thread o, setting.request thread q, setting.issue thread c]
  | processed o q c | completed o q c =>
    [setting.offer thread o, setting.request thread q, setting.issue thread c,
      setting.ack thread .ok]

def delivered : Stage → ℕ
  | proposed _ | offered _ => 0
  | proposalReceived _ | counterOffered _ _ | offerReceived _ | requested _ _ => 1
  | requestReceived _ _ | issued _ _ _ => 2
  | processed _ _ _ => 3
  | completed _ _ _ => 4

/-- The offer that was sent. -/
def offer : Stage → Option String
  | proposed _ | proposalReceived _ => none
  | counterOffered _ o | offered o | offerReceived o | requested o _ | requestReceived o _
  | issued o _ _ | processed o _ _ | completed o _ _ => some o

/-- What the issuer's record holds, if there is one. -/
def ofIssuer : Stage → Option (CredentialExchangeRecord → Prop)
  | proposed _ => none
  | proposalReceived p => some fun r =>
    r.state = .proposalReceived ∧ r.credentialProposalJson = some p
  | counterOffered p _ => some fun r => r.state = .offerSent ∧ r.credentialProposalJson = some p
  | offered _ | offerReceived _ | requested _ _ => some fun r =>
    r.state = .offerSent ∧ r.credentialOfferJson.isSome ∧ r.credDefId.isSome
  | requestReceived _ q => some fun r =>
    r.state = .requestReceived ∧ r.credentialOfferJson.isSome ∧ r.credDefId.isSome ∧
      r.credentialRequestJson = some q
  | issued _ q c | processed _ q c => some fun r =>
    r.state = .credentialIssued ∧ r.credentialRequestJson = some q ∧ r.credentialJson = some c
  | completed _ q c => some fun r =>
    r.state = .done ∧ r.credentialRequestJson = some q ∧ r.credentialJson = some c

/-- What the holder's record holds, if there is one. -/
def ofHolder : Stage → Option (CredentialExchangeRecord → Prop)
  | proposed _ | proposalReceived _ | counterOffered _ _ => some fun r => r.state = .proposalSent
  | offered _ => none
  | offerReceived o => some fun r =>
    r.state = .offerReceived ∧ r.credentialOfferJson = some o ∧ r.credDefId.isSome
  | requested o _ | requestReceived o _ | issued o _ _ => some fun r =>
    r.state = .requestSent ∧ r.credentialOfferJson = some o ∧ r.credDefId.isSome
  | processed o _ c | completed o _ c => some fun r =>
    r.state = .done ∧ r.credentialOfferJson = some o ∧ r.credentialJson = some c

end Stage

open Stage

/-- An offer the holder can read. -/
def Readable (serde : Serde) (offer : String) : Prop :=
  ∃ get, serde.fields offer = some get ∧ (get "cred_def_id").isSome

/-- One side holds one record of the thread, with a property, or none. -/
def Holds (thread : String) (role : CredentialExchangeRole)
    (P : Option (CredentialExchangeRecord → Prop)) (s : Exchange) : Prop :=
  s.Keyed ∧
    match P with
    | none => s.Absent thread
    | some P => ∃ r, Only thread s r ∧ r.role = role ∧ P r

variable (setting)

structure At (stage : Stage) (w : World) : Prop where
  issuer : Holds thread .issuer stage.ofIssuer w.issuer
  holder : Holds thread .holder stage.ofHolder w.holder
  wire : w.wire = stage.wire setting thread
  delivered : w.delivered = stage.delivered
  readable : ∀ offer, stage.offer = some offer → Readable setting.serde offer

variable {setting thread} {s : Exchange} {r r' : CredentialExchangeRecord}
  {role : CredentialExchangeRole} {P Q : CredentialExchangeRecord → Prop}
  {order : IterOrder String} {answers : Answers setting.serde}

theorem Only.found (h : Only thread s r) : s.findByThreadId order thread = some r := by
  refine findByThreadId_eq_some h.lookup h.onThread fun id' r' hr' hthread' => ?_
  obtain rfl := h.only id' r' hr' hthread'
  exact some.inj (hr'.symm.trans h.lookup)

theorem Only.unique (h : Only thread s r) (h' : Only thread s r') : r = r' := by
  have hid := h'.only r.id r h.lookup h.onThread
  have hlookup := h.lookup
  rw [hid, h'.lookup] at hlookup
  exact (some.inj hlookup).symm

variable {exchangeId : String}

theorem Only.findById (h : Only thread s r) (hon : s.isOn thread exchangeId = true) :
    exchangeId = r.id := by
  unfold Exchange.isOn Exchange.findById at hon
  cases hr : s.records.lookup exchangeId with
  | none =>
    rw [hr] at hon
    cases hon
  | some r₀ =>
    rw [hr] at hon
    exact h.only exchangeId r₀ hr (of_decide_eq_true hon)

variable {autoIssue : FMap String Attributes} {credentials : FMap String String}

theorem Only.insert (h : Only thread s r) (hid : r'.id = r.id) (hthread : r'.threadId = r.threadId)
    :
    Only thread ⟨s.records.insert r.id r', autoIssue, credentials⟩ r' where
  lookup := by
    rw [hid]
    exact lookup_insert _
  onThread := hthread.trans h.onThread
  only id r₀ hr₀ hthread₀ := by
    rw [FMap.lookup_insert_ite] at hr₀
    split at hr₀
    · next heq => rw [heq, hid]
    · rw [hid]
      exact h.only id r₀ hr₀ hthread₀

theorem Exchange.Absent.insert (h : s.Absent thread) (hthread : r.threadId = thread) :
    Only thread ⟨s.records.insert r.id r, autoIssue, credentials⟩ r where
  lookup := lookup_insert _
  onThread := hthread
  only id r₀ hr₀ hthread₀ := by
    rw [FMap.lookup_insert_ite] at hr₀
    split at hr₀
    · assumption
    · exact absurd hthread₀ (h id r₀ hr₀)

theorem Holds.insert (hkeyed : s.Keyed) (h : Only thread s r) (hid : r'.id = r.id)
    (hthread : r'.threadId = r.threadId) (hrole : r'.role = role) (hP : P r') :
    Holds thread role (some P) ⟨s.records.insert r.id r', autoIssue, credentials⟩ :=
  ⟨Keyed.insert hkeyed hid, r', h.insert hid hthread, hrole, hP⟩

theorem Holds.prop (h : Holds thread role (some P) s) (honly : Only thread s r) : P r := by
  obtain ⟨-, r', honly', -, hP⟩ := h
  rw [honly.unique honly']
  exact hP

theorem Holds.create (hkeyed : s.Keyed) (h : s.Absent thread) (hthread : r.threadId = thread)
    (hrole : r.role = role) (hP : P r) :
    Holds thread role (some P) ⟨s.records.insert r.id r, autoIssue, credentials⟩ :=
  ⟨Keyed.insert hkeyed rfl, r, h.insert hthread, hrole, hP⟩

/-- What a side does with a message that arrives. -/
abbrev Setting.handled (setting : Setting) (calls : Calls) (order : IterOrder String)
    (s : Exchange) (env : Envelope) : Handled :=
  handle setting.serde calls order setting.config s env.inbound

/-! ## What arrives for the first time -/

theorem isW3cFor_config (inbound : InboundMessage) :
    W3c.isW3cFor setting.config inbound = false := by
  unfold W3c.isW3cFor
  split
  · rfl
  · unfold W3c.supportsFormatId
    split
    · exact Bool.and_false _
    · exact Bool.and_false _

/-- What the handlers of one side leave behind, and what they send. -/
structure Yields (setting : Setting) (thread : String) (role : CredentialExchangeRole)
    (P : Option (CredentialExchangeRecord → Prop)) (replies : List Envelope) (handled : Handled) :
    Prop where
  holds : Holds thread role P handled.1
  replies : setting.replies handled.2 = replies

section
variable {calls : Calls}

theorem proposal_arrives (hkeyed : s.Keyed) (h : s.Absent thread)
    (hfresh : calls.recordId ∉ s.records) (proposal : String) :
    Yields setting thread .issuer (ofIssuer (.proposalReceived proposal)) []
      (setting.handled calls order s (setting.proposal thread proposal)) := by
  have hnone : s.findByThreadId order thread = none := findByThreadId_eq_none.2 h
  simp only [handle, Setting.proposal, handlePropose, storeProposal, hnone]
  rw [create_of_notMem (by rw [setConnectionId_id]; exact hfresh)]
  refine ⟨.create hkeyed h ?_ ?_ ⟨?_, ?_⟩, rfl⟩
  all_goals
    cases setting.context .issuer with
    | mk connectionId fromDid toDid => cases connectionId <;> rfl

/-- The record of an offer that was read. -/
structure Offered (offer : String) (answers : Answers setting.serde) (thread : String)
    (r : CredentialExchangeRecord) : Prop where
  id : r.id = answers.recordId
  onThread : r.threadId = thread
  role : r.role = .holder
  state : r.state = .offerReceived
  offerJson : r.credentialOfferJson = some offer
  credDefId : r.credDefId.isSome

theorem offered_offerRecord {offer : String} {get : String → Option String}
    (hget : (get "cred_def_id").isSome) :
    Offered offer answers thread
      (offerRecord answers.calls (setting.offer thread offer).inbound offer get) := by
  unfold offerRecord
  dsimp only [Setting.offer]
  cases (setting.context .holder).connectionId with
  | none | some connectionId => exact ⟨rfl, rfl, rfl, rfl, rfl, hget⟩

def requestedRecord (answers : Answers setting.serde) (request : String)
    (r : CredentialExchangeRecord) : CredentialExchangeRecord :=
  updateState { r with credentialRequestJson := some request } answers.now .requestSent

theorem acceptOffer_eq {offer credDefId entropy : String} (hr : s.records.lookup r.id = some r)
    (hstate : r.state = .offerReceived) (hrole : r.role = .holder)
    (hoffer : r.credentialOfferJson = some offer) (hcredDefId : r.credDefId = some credDefId) :
    ∃ request, acceptOffer answers.calls s r.id entropy =
      ({ s with records := s.records.insert r.id (requestedRecord answers request r) },
        .ok ⟨r.threadId, [anonCredsRequest], request⟩) := by
  refine ⟨answers.createCredentialRequest r.threadId offer credDefId entropy, ?_⟩
  unfold acceptOffer
  rw [findById, hr]
  refine edit_of_ok hr (by rfl) ?_
  simp only [acceptOfferRecord, bind_eq_ok, guardState_eq_ok, guardRole_eq_ok, stored_eq_ok]
  exact ⟨(), hstate, (), hrole, offer, hoffer, credDefId, hcredDefId, _, rfl, rfl⟩

theorem handle_offer (hfresh : answers.recordId ∉ s.records) {offer : String}
    (hreads : Readable setting.serde offer) :
    ∃ r, r.id = answers.recordId ∧ r.threadId = thread ∧ r.role = .holder ∧
      r.credentialOfferJson = some offer ∧ r.credDefId.isSome ∧
      (setting.handled answers.calls order s (setting.offer thread offer)).1 =
          { s with records := s.records.insert answers.recordId r } ∧
      ((r.state = .offerReceived ∧ setting.replies
          (setting.handled answers.calls order s (setting.offer thread offer)).2 = []) ∨
        (r.state = .requestSent ∧ ∃ request, setting.replies
          (setting.handled answers.calls order s (setting.offer thread offer)).2 =
            [setting.request thread request])) := by
  obtain ⟨get, hfields, hget⟩ := hreads
  have hrecord := @offered_offerRecord setting thread answers offer get hget
  have hhandle : setting.handled answers.calls order s (setting.offer thread offer) =
        handleOffer setting.serde answers.calls setting.autoAccept s
          (setting.offer thread offer).inbound (.ok offer) := by
    simp only [handle, isW3cFor_config, Bool.false_eq_true]
    rfl
  rw [hhandle]
  generalize hr : offerRecord answers.calls (setting.offer thread offer).inbound offer get = r
    at hrecord
  have hsave : s.save r = ({ s with records := s.records.insert answers.recordId r }, .ok ()) := by
    rw [← hrecord.id]
    exact save_of_notMem (by rw [hrecord.id]; exact hfresh)
  cases hauto : setting.autoAccept with
  | false =>
    refine ⟨r, hrecord.id, hrecord.onThread, hrecord.role, hrecord.offerJson, hrecord.credDefId, ?_,
      .inl ⟨hrecord.state, ?_⟩⟩
    · simp only [handleOffer, hfields, hr, hsave]
      rfl
    · simp only [handleOffer, hfields, hr, hsave]
      rfl
  | true =>
    obtain ⟨credDefId, hcredDefId⟩ := isSome_iff_exists.1 hrecord.credDefId
    have hlookup : lookup r.id (s.records.insert answers.recordId r) = some r := by
      rw [hrecord.id]
      exact lookup_insert _
    obtain ⟨request, hrequest⟩ := @acceptOffer_eq setting
      { s with records := s.records.insert answers.recordId r } r answers offer credDefId
      autoAcceptEntropy hlookup hrecord.state hrecord.role hrecord.offerJson hcredDefId
    rw [hrecord.id, insert_insert] at hrequest
    have hhandled : handleOffer setting.serde answers.calls true s
        (setting.offer thread offer).inbound (.ok offer) =
          ({ s with
              records := s.records.insert answers.recordId (requestedRecord answers request r) },
            .ok (some ((setting.offer thread offer).inbound.reply
              (.request ⟨r.threadId, [anonCredsRequest], request⟩)))) := by
      have hcalls : answers.calls.recordId = answers.recordId := rfl
      simp only [handleOffer, hfields, hr, hsave, if_true, hcalls, hrequest]
    rw [hhandled]
    refine ⟨requestedRecord answers request r, hrecord.id, hrecord.onThread, hrecord.role,
      hrecord.offerJson, hrecord.credDefId, rfl, .inr ⟨rfl, setting.serde.canonical request, ?_⟩⟩
    rw [← hrecord.onThread]
    rfl

theorem offer_arrives (hkeyed : s.Keyed) (h : s.Absent thread)
    (hfresh : answers.recordId ∉ s.records)
    {offer : String} (hreads : Readable setting.serde offer) :
    Yields setting thread .holder (ofHolder (.offerReceived offer)) []
        (setting.handled answers.calls order s (setting.offer thread offer)) ∨
      ∃ request, Yields setting thread .holder (ofHolder (.requested offer request))
        [setting.request thread request]
        (setting.handled answers.calls order s (setting.offer thread offer)) := by
  obtain ⟨r, hid, hthread, hrole, hoffer, hcredDefId, hagent, hanswer⟩ :=
    @handle_offer setting thread s order answers hfresh offer hreads
  have hholds : ∀ P : CredentialExchangeRecord → Prop, P r → Holds thread .holder (some P)
      (setting.handled answers.calls order s (setting.offer thread offer)).1 := by
    intro P hP
    rw [hagent, ← hid]
    exact .create hkeyed h hthread hrole hP
  rcases hanswer with ⟨hstate, hreplies⟩ | ⟨hstate, request, hreplies⟩
  · exact .inl ⟨hholds _ ⟨hstate, hoffer, hcredDefId⟩, hreplies⟩
  · exact .inr ⟨request, hholds _ ⟨hstate, hoffer, hcredDefId⟩, hreplies⟩

theorem request_arrives (hkeyed : s.Keyed) (h : Only thread s r) (hrole : r.role = .issuer)
    (hstate : r.state = .offerSent) (hoffer : r.credentialOfferJson.isSome)
    (hcredDefId : r.credDefId.isSome) (offer request : String) :
    Yields setting thread .issuer (ofIssuer (.requestReceived offer request)) []
        (setting.handled calls order s (setting.request thread request)) ∨
      ∃ credential, Yields setting thread .issuer (ofIssuer (.issued offer request credential))
        [setting.issue thread credential]
        (setting.handled calls order s (setting.request thread request)) := by
  have hhandle : setting.handled calls order s (setting.request thread request) =
        handleRequest calls order s (setting.request thread request).inbound (.ok request) := by
    simp only [handle, Setting.request, isW3cFor_config, Bool.false_eq_true, if_false]
  have hhandled := @handleRequest_handled s r calls order request
    (setting.request thread request).inbound hkeyed h.found
  rw [hhandle]
  generalize handleRequest calls order s (setting.request thread request).inbound (.ok request) =
    handled at hhandled ⊢
  cases hhandled with
  | refused e hrefused => exact absurd hstate hrefused
  | kept answer _ hanswer =>
    refine .inl ⟨.insert hkeyed h (by rfl) (by rfl) (by exact hrole) ⟨rfl, hoffer, hcredDefId, rfl⟩,
      ?_⟩
    rw [Setting.replies, hanswer]
    rfl
  | issued autoIssue msg _ _ hmsg hauto =>
    refine .inr ⟨msg.credentialJson, .insert hkeyed h (by rfl) (by rfl) (by exact hrole)
      ⟨rfl, rfl, rfl⟩, ?_⟩
    rw [← h.onThread, ← hmsg]
    rfl

theorem issue_arrives (hkeyed : s.Keyed) (h : Only thread s r) (hrole : r.role = .holder)
    {offer : String} (hstate : r.state = .requestSent) (hoffer : r.credentialOfferJson = some offer)
    (hcredDefId : r.credDefId.isSome) (request credential : String) :
    Yields setting thread .holder (ofHolder (.processed offer request credential))
      [setting.ack thread .ok]
      (setting.handled answers.calls order s (setting.issue thread credential)) := by
  obtain ⟨credDefId, hcredDefId⟩ := isSome_iff_exists.1 hcredDefId
  have hok : processCredentialRecord answers.calls credential r = .ok
      (updateState
        { r with
          credentialJson := some credential
          credentialId := some (answers.processCredential r.threadId credential credDefId) }
        answers.now .done, answers.processCredential r.threadId credential credDefId) := by
    simp only [processCredentialRecord, bind_eq_ok, guardState_eq_ok, guardRole_eq_ok, stored_eq_ok]
    exact ⟨(), hstate, (), hrole, credDefId, hcredDefId, _, rfl, rfl⟩
  have hfound : s.findById r.id = some r := h.lookup
  simp only [handle, issue, handleIssue,
    h.found, processCredential, hfound, edit_of_ok h.lookup (by rfl) hok]
  exact ⟨.insert hkeyed h (by rfl) (by rfl) (by exact hrole) ⟨rfl, hoffer, rfl⟩, rfl⟩

theorem ack_arrives (hkeyed : s.Keyed) (h : Only thread s r) (hrole : r.role = .issuer)
    {offer request credential : String} (hstate : r.state = .credentialIssued)
    (hrequest : r.credentialRequestJson = some request)
    (hcredential : r.credentialJson = some credential) (status : AckStatus) :
    Yields setting thread .issuer (ofIssuer (.completed offer request credential)) []
      (setting.handled calls order s (setting.ack thread status)) := by
  have hdone : r.state ≠ .done := by
    rw [hstate]
    decide
  simp only [handle, Setting.ack, handleAck, processAck, h.found, if_neg hdone,
    update_of_lookup h.lookup (r.updateState_id calls.now .done)]
  exact ⟨.insert hkeyed h (by rfl) (by rfl) (by exact hrole) ⟨rfl, hrequest, hcredential⟩, rfl⟩

/-! ## What arrives again -/

/-- A message that was applied before changes nothing. -/
structure Ignored (setting : Setting) (s : Exchange) (handled : Handled) : Prop where
  same : handled.1 = s
  silent : setting.replies handled.2 = []

theorem proposal_again (h : Only thread s r) (proposal : String) :
    Ignored setting s (setting.handled calls order s (setting.proposal thread proposal)) := by
  simp only [handle, Setting.proposal, handlePropose, storeProposal, h.found]
  exact ⟨rfl, rfl⟩

theorem request_again (h : Only thread s r) (hstate : r.state ≠ .offerSent) (request : String) :
    Ignored setting s (setting.handled calls order s (setting.request thread request)) := by
  simp only [handle, Setting.request, handleRequest, h.found, storeRequest_of_ne h.lookup hstate]
  exact ⟨rfl, rfl⟩

theorem issue_again (h : Only thread s r) (hstate : r.state ≠ .requestSent) (credential : String) :
    Ignored setting s (setting.handled calls order s (setting.issue thread credential)) := by
  have herror : processCredentialRecord calls credential r =
      .error (.invalidState [.requestSent] r.state) := by
    simp only [processCredentialRecord, guardState, ne_eq, hstate, not_false_eq_true]
    rfl
  have hfound : s.findById r.id = some r := h.lookup
  simp only [handle, issue, handleIssue, h.found, processCredential, hfound, edit_of_error herror]
  exact ⟨rfl, rfl⟩

theorem ack_again (h : Only thread s r) (hstate : r.state = .done) (status : AckStatus) :
    Ignored setting s (setting.handled calls order s (setting.ack thread status)) := by
  simp only [handle, Setting.ack, handleAck, processAck, h.found, if_pos hstate]
  exact ⟨rfl, rfl⟩

end

/-! ## A message arrives -/

variable {w : World} {stage stage' : Stage} {i : ℕ} {env : Envelope}

theorem World.of_due {recordId : String} (h : w.due recordId i = some env) :
    i ≤ w.delivered ∧ w.wire[i]? = some env ∧ recordId ∉ (w.agent env.recipient).records := by
  unfold due at h
  split_ifs at h with hi
  obtain ⟨henv, hfresh⟩ := filter_eq_some_iff.1 h
  exact ⟨hi, henv, of_decide_eq_true hfresh⟩

theorem World.deliver_ignored (hi : i < w.delivered) (h : Ignored setting (w.agent env.recipient)
      (setting.handled answers.calls order (w.agent env.recipient) env)) :
        w.deliver setting answers order i env = w := by
  have hmax : max w.delivered (i + 1) = w.delivered := by omega
  simp only [deliver, h.same, h.silent, append_nil, hmax]
  cases env.recipient <;> rfl

section

variable (h : At setting thread stage w) {replies : List Envelope}
  (hwire : stage'.wire setting thread = stage.wire setting thread ++ replies)
  (hdelivered : stage'.delivered = max stage.delivered (i + 1))
  (hoffer : stage'.offer = stage.offer)
include h hwire hdelivered hoffer

theorem At.deliver_issuer (hrecipient : env.recipient = .issuer)
    (hyields : Yields setting thread .issuer stage'.ofIssuer replies
      (setting.handled answers.calls order w.issuer env))
    (hholder : stage'.ofHolder = stage.ofHolder) :
    At setting thread stage' (w.deliver setting answers order i env) := by
  simp only [deliver, hrecipient, agent]
  refine ⟨hyields.holds, ?_, ?_, ?_, fun offer ho => h.readable offer (by rw [← hoffer, ho])⟩
  · rw [hholder]
    exact h.holder
  · rw [hwire, h.wire, hyields.replies]
  · rw [hdelivered, h.delivered]

theorem At.deliver_holder (hrecipient : env.recipient = .holder)
    (hyields : Yields setting thread .holder stage'.ofHolder replies
      (setting.handled answers.calls order w.holder env))
    (hissuer : stage'.ofIssuer = stage.ofIssuer) :
    At setting thread stage' (w.deliver setting answers order i env) := by
  simp only [deliver, hrecipient, agent]
  refine ⟨?_, hyields.holds, ?_, ?_, fun offer ho => h.readable offer (by rw [← hoffer, ho])⟩
  · rw [hissuer]
    exact h.issuer
  · rw [hwire, h.wire, hyields.replies]
  · rw [hdelivered, h.delivered]

end

theorem Holds.not_absent {P : CredentialExchangeRecord → Prop} (h : Holds thread role (some P) s) :
    ¬ s.Absent thread := by
  obtain ⟨-, r, honly, -⟩ := h
  exact fun habsent => habsent r.id r honly.lookup honly.onThread

theorem At.again (h : At setting thread stage w) (hi : i < w.delivered)
    (henv : w.wire[i]? = some env)
    (hoffer : env.inbound.body.isOffer = true → (w.agent env.recipient).Absent thread) :
    w.deliver setting answers order i env = w := by
  refine deliver_ignored hi ?_
  obtain ⟨hissuer, hholder, hwire, hdelivered, -⟩ := h
  rw [hwire] at henv
  rw [hdelivered] at hi
  cases stage with
  | proposed p | offered o => cases hi
  | proposalReceived p | counterOffered p o =>
    obtain rfl : i = 0 := Nat.lt_one_iff.1 hi
    cases henv
    obtain ⟨-, r, honly, -⟩ := hissuer
    exact proposal_again honly p
  | offerReceived o | requested o q =>
    obtain rfl : i = 0 := Nat.lt_one_iff.1 hi
    cases henv
    exact absurd (hoffer rfl) hholder.not_absent
  | requestReceived o q | issued o q c =>
    obtain ⟨-, r, honly, -, hstate, -⟩ := hissuer
    have hi : i < 2 := hi
    interval_cases i
    · cases henv
      exact absurd (hoffer rfl) hholder.not_absent
    · cases henv
      exact request_again honly (by rw [hstate]; decide) q
  | processed o q c =>
    obtain ⟨-, r, honly, -, hstate, -⟩ := hissuer
    have hi : i < 3 := hi
    interval_cases i
    · cases henv
      exact absurd (hoffer rfl) hholder.not_absent
    · cases henv
      exact request_again honly (by rw [hstate]; decide) q
    · cases henv
      obtain ⟨-, r', honly', -, hstate', -⟩ := hholder
      exact issue_again honly' (by rw [hstate']; decide) c
  | completed o q c =>
    obtain ⟨-, r, honly, -, hstate, -⟩ := hissuer
    have hi : i < 4 := hi
    interval_cases i
    · cases henv
      exact absurd (hoffer rfl) hholder.not_absent
    · cases henv
      exact request_again honly (by rw [hstate]; decide) q
    · cases henv
      obtain ⟨-, r', honly', -, hstate', -⟩ := hholder
      exact issue_again honly' (by rw [hstate']; decide) c
    · cases henv
      exact ack_again honly hstate .ok

theorem At.first (h : At setting thread stage w) (henv : w.wire[w.delivered]? = some env)
    (hfresh : answers.recordId ∉ (w.agent env.recipient).records)
    (hoffer : env.inbound.body.isOffer = true → (w.agent env.recipient).Absent thread) :
    ∃ stage', At setting thread stage' (w.deliver setting answers order w.delivered env) := by
  have hat := h
  obtain ⟨hissuer, hholder, hwire, hdelivered, hreadable⟩ := h
  rw [hwire, hdelivered] at henv
  rw [hdelivered]
  cases stage with
  | proposed p =>
    cases henv
    obtain ⟨hkeyed, habsent⟩ := hissuer
    exact ⟨.proposalReceived p, hat.deliver_issuer rfl rfl rfl rfl
      (@proposal_arrives setting thread w.issuer order answers.calls hkeyed habsent hfresh p) rfl⟩
  | proposalReceived p => cases henv
  | counterOffered p o =>
    cases henv
    exact absurd (hoffer rfl) hholder.not_absent
  | offered o =>
    cases henv
    obtain ⟨hkeyed, habsent⟩ := hholder
    rcases @offer_arrives setting thread w.holder order answers hkeyed habsent hfresh o
      (hreadable o rfl) with hyields | ⟨q, hyields⟩
    · exact ⟨.offerReceived o, hat.deliver_holder rfl rfl rfl rfl hyields rfl⟩
    · exact ⟨.requested o q, hat.deliver_holder rfl rfl rfl rfl hyields rfl⟩
  | offerReceived o => cases henv
  | requested o q =>
    cases henv
    obtain ⟨hkeyed, r, honly, hrole, hstate, hoffer, hcredDefId⟩ := hissuer
    rcases @request_arrives setting thread w.issuer r order answers.calls hkeyed honly hrole hstate
      hoffer hcredDefId o q with hyields | ⟨c, hyields⟩
    · exact ⟨.requestReceived o q, hat.deliver_issuer rfl rfl rfl rfl hyields rfl⟩
    · exact ⟨.issued o q c, hat.deliver_issuer rfl rfl rfl rfl hyields rfl⟩
  | requestReceived o q => cases henv
  | issued o q c =>
    cases henv
    obtain ⟨hkeyed, r, honly, hrole, hstate, hoffer, hcredDefId⟩ := hholder
    exact ⟨.processed o q c, hat.deliver_holder rfl rfl rfl rfl
      (issue_arrives hkeyed honly hrole hstate hoffer hcredDefId q c) rfl⟩
  | processed o q c =>
    cases henv
    obtain ⟨hkeyed, r, honly, hrole, hstate, hrequest, hcredential⟩ := hissuer
    exact ⟨.completed o q c, hat.deliver_issuer rfl rfl rfl rfl
      (ack_arrives hkeyed honly hrole hstate hrequest hcredential .ok) rfl⟩
  | completed o q c => cases henv

/-! ## An application goes on -/

theorem Holds.named {P : Option (CredentialExchangeRecord → Prop)} (h : Holds thread role P s)
    (hon : s.isOn thread exchangeId = true) :
    ∃ P' r, P = some P' ∧ Only thread s r ∧ r.role = role ∧ P' r ∧ exchangeId = r.id := by
  obtain ⟨-, h⟩ := h
  cases P with
  | none =>
    unfold isOn findById at hon
    cases hr : s.records.lookup exchangeId with
    | none =>
      rw [hr] at hon
      cases hon
    | some r =>
      rw [hr] at hon
      exact absurd (of_decide_eq_true hon) (h exchangeId r hr)
  | some P' =>
    obtain ⟨r, honly, hrole, hP⟩ := h
    exact ⟨P', r, rfl, honly, hrole, hP, honly.findById hon⟩

theorem edit_refused {α : Type} (h : Only thread s r) {what : String}
    {f : CredentialExchangeRecord → Except CredentialError (CredentialExchangeRecord × α)}
    {e : CredentialError} (herror : f r = .error e) :
    s.edit (s.findById r.id) what f = (s, .error e) := by
  rw [findById, h.lookup]
  exact edit_of_error herror

theorem edit_done {α : Type} (h : Only thread s r) {what : String}
    {f : CredentialExchangeRecord → Except CredentialError (CredentialExchangeRecord × α)} {a : α}
    (hid : r'.id = r.id) (hok : f r = .ok (r', a)) :
    s.edit (s.findById r.id) what f = ({ s with records := s.records.insert r.id r' }, .ok a) := by
  rw [findById, h.lookup]
  exact edit_of_ok h.lookup hid hok

theorem guardState_error {expected : CredentialExchangeState} (h : r.state ≠ expected) :
    guardState r expected = .error (.invalidState [expected] r.state) := if_pos h

theorem At.set_issuer (h : At setting thread stage w) {sent : List Envelope}
    (hs : Holds thread .issuer stage'.ofIssuer s) (hholder : stage'.ofHolder = stage.ofHolder)
    (hwire : stage'.wire setting thread = stage.wire setting thread ++ sent)
    (hdelivered : stage'.delivered = stage.delivered)
    (hreadable : ∀ offer, stage'.offer = some offer → Readable setting.serde offer) :
    At setting thread stage' { w.setAgent .issuer s with wire := w.wire ++ sent } := by
  refine ⟨hs, ?_, ?_, hdelivered.symm ▸ h.delivered, hreadable⟩
  · rw [hholder]
    exact h.holder
  · rw [hwire, ← h.wire]

theorem At.set_holder (h : At setting thread stage w) {sent : List Envelope}
    (hs : Holds thread .holder stage'.ofHolder s) (hissuer : stage'.ofIssuer = stage.ofIssuer)
    (hwire : stage'.wire setting thread = stage.wire setting thread ++ sent)
    (hdelivered : stage'.delivered = stage.delivered) (hoffer : stage'.offer = stage.offer) :
    At setting thread stage' { w.setAgent .holder s with wire := w.wire ++ sent } := by
  refine ⟨?_, hs, ?_, hdelivered.symm ▸ h.delivered,
    fun offer ho => h.readable offer (by rw [← hoffer, ho])⟩
  · rw [hissuer]
    exact h.issuer
  · rw [hwire, ← h.wire]

theorem At.acceptProposal (h : At setting thread stage w) {exchangeId schemaId credDefId : String}
    (hon : w.issuer.isOn thread exchangeId = true) : ∃ stage', At setting thread stage'
      (w.operated .issuer
        (acceptProposal answers.calls w.issuer exchangeId schemaId credDefId) fun msg =>
          [setting.offer msg.threadId (setting.serde.canonical msg.credentialOfferJson)]) := by
  obtain ⟨P, r, hP, honly, hrole, hr, rfl⟩ := h.issuer.named hon
  by_cases hstate : r.state = .proposalReceived
  · have hok : acceptProposalRecord answers.calls schemaId credDefId r = .ok
        (updateState
          { r with
            schemaId := some schemaId
            credDefId := some credDefId
            credentialOfferJson := some (answers.createCredentialOffer schemaId credDefId) }
          answers.now .offerSent,
          ⟨r.threadId, [anonCredsOffer], answers.createCredentialOffer schemaId credDefId⟩) := by
      simp only [acceptProposalRecord, bind_eq_ok, guardState_eq_ok, guardRole_eq_ok]
      exact ⟨(), hstate, (), hrole, _, rfl, rfl⟩
    rw [Credentials.acceptProposal, edit_done honly (by rfl) hok]
    cases stage with
    | proposed p => cases hP
    | proposalReceived p =>
      cases hP
      obtain ⟨get, hfields, hget⟩ := answers.reads schemaId credDefId
      refine ⟨.counterOffered p
          (setting.serde.canonical (answers.createCredentialOffer schemaId credDefId)), h.set_issuer
            (.insert h.issuer.1 honly (by rfl) (by rfl)
        (by exact hrole) ⟨rfl, hr.2⟩) rfl ?_ rfl ?_⟩
      · rw [← honly.onThread]
        rfl
      · intro offer hoffer
        cases hoffer
        exact ⟨get, hfields, by rw [hget]; rfl⟩
    | _ =>
      cases hP
      cases hstate.symm.trans hr.1
  · have herror : acceptProposalRecord answers.calls schemaId credDefId r =
        .error (.invalidState [.proposalReceived] r.state) := by
      rw [acceptProposalRecord, guardState_error hstate]
      rfl
    rw [Credentials.acceptProposal, edit_refused honly herror]
    exact ⟨stage, h⟩

theorem At.acceptOffer (h : At setting thread stage w) {exchangeId entropy : String}
    (hon : w.holder.isOn thread exchangeId = true) : ∃ stage', At setting thread stage'
      (w.operated .holder (acceptOffer answers.calls w.holder exchangeId entropy) fun msg =>
        [setting.envelope (.request msg)]) := by
  obtain ⟨P, r, hP, honly, hrole, hr, rfl⟩ := h.holder.named hon
  by_cases hstate : r.state = .offerReceived
  · cases stage with
    | offered o => cases hP
    | offerReceived o =>
      cases hP
      obtain ⟨credDefId, hcredDefId⟩ := isSome_iff_exists.1 hr.2.2
      obtain ⟨request, hrequest⟩ := @acceptOffer_eq setting w.holder r answers o credDefId entropy
        honly.lookup hstate hrole hr.2.1 hcredDefId
      rw [hrequest]
      refine ⟨.requested o (setting.serde.canonical request), h.set_holder (.insert h.holder.1 honly
        (by rfl) (by rfl) (by exact hrole) ⟨rfl, hr.2.1, hr.2.2⟩) rfl ?_ rfl rfl⟩
      rw [← honly.onThread]
      rfl
    | _ =>
      cases hP
      first
      | cases hstate.symm.trans hr.1
      | cases hstate.symm.trans hr
  · have herror : acceptOfferRecord answers.calls entropy r =
        .error (.invalidState [.offerReceived] r.state) := by
      rw [acceptOfferRecord, guardState_error hstate]
      rfl
    rw [Credentials.acceptOffer, edit_refused honly herror]
    exact ⟨stage, h⟩

theorem At.acceptRequest (h : At setting thread stage w) {attributes : Attributes}
    (hon : w.issuer.isOn thread exchangeId = true) :
    ∃ stage', At setting thread stage'
      (w.operated .issuer (acceptRequest answers.calls w.issuer exchangeId attributes) fun issued =>
        [setting.envelope (.issue issued.1)]) := by
  obtain ⟨P, r, hP, honly, hrole, hr, rfl⟩ := h.issuer.named hon
  by_cases hstate : r.state = .requestReceived
  · cases stage with
    | proposed p => cases hP
    | requestReceived o q =>
      cases hP
      obtain ⟨-, hoffer, hcredDefId, hrequest⟩ := hr
      obtain ⟨offerJson, hoffer⟩ := isSome_iff_exists.1 hoffer
      obtain ⟨credDefId, hcredDefId⟩ := isSome_iff_exists.1 hcredDefId
      have hok : acceptRequestRecord answers.calls attributes r = .ok
          (updateState
            { r with
              credentialJson := some (answers.createCredential credDefId offerJson q attributes) }
            answers.now .credentialIssued,
            ⟨r.threadId, [anonCredsCredential],
              answers.createCredential credDefId offerJson q attributes⟩, r.connectionId) := by
        simp only [acceptRequestRecord, bind_eq_ok, guardState_eq_ok, guardRole_eq_ok, stored_eq_ok]
        exact ⟨(), hstate, (), hrole, offerJson, hoffer, q, hrequest, credDefId, hcredDefId, _, rfl,
          rfl⟩
      rw [Credentials.acceptRequest, edit_done honly (by rfl) hok]
      refine ⟨.issued o q (answers.createCredential credDefId offerJson q attributes),
        h.set_issuer (.insert h.issuer.1 honly (by rfl) (by rfl) (by exact hrole)
          ⟨rfl, hrequest, rfl⟩) rfl ?_ rfl h.readable⟩
      rw [← honly.onThread]
      rfl
    | _ =>
      cases hP
      cases hstate.symm.trans hr.1
  · have herror : acceptRequestRecord answers.calls attributes r =
        .error (.invalidState [.requestReceived] r.state) := by
      rw [acceptRequestRecord, guardState_error hstate]
      rfl
    rw [Credentials.acceptRequest, edit_refused honly herror]
    exact ⟨stage, h⟩

theorem Stage.ofIssuer_attributes (hP : stage.ofIssuer = some P) (hr : P r) (now : ℕ)
    (attributes : Attributes) :
    P { r with autoIssueAttributes := some attributes, updatedAt := now } := by
  cases stage with
  | proposed p => cases hP
  | _ =>
    cases hP
    exact hr

theorem At.setAutoIssueAttributes (h : At setting thread stage w) {attributes : Attributes}
    (hon : w.issuer.isOn thread exchangeId = true) :
    At setting thread stage (w.operated .issuer
      (setAutoIssueAttributes answers.calls w.issuer exchangeId attributes) fun _ => []) := by
  obtain ⟨P, r, hP, honly, hrole, hr, rfl⟩ := h.issuer.named hon
  rw [Credentials.setAutoIssueAttributes, edit_done honly (by rfl) rfl]
  refine h.set_issuer ?_ rfl (append_nil _).symm rfl h.readable
  rw [hP]
  exact .insert h.issuer.1 honly (by rfl) (by rfl) (by exact hrole)
    (ofIssuer_attributes hP hr answers.now attributes)

theorem At.registerAutoIssueAttributes (h : At setting thread stage w)
    (autoIssue : FMap String Attributes) :
    At setting thread stage { w with issuer := { w.issuer with autoIssue := autoIssue } } := by
  refine ⟨⟨h.issuer.1, ?_⟩, h.holder, h.wire, h.delivered, h.readable⟩
  have hissuer := h.issuer.2
  cases hP : stage.ofIssuer with
  | none =>
    rw [hP] at hissuer
    exact hissuer
  | some P =>
    rw [hP] at hissuer
    obtain ⟨r, honly, hrole, hr⟩ := hissuer
    exact ⟨r, ⟨honly.lookup, honly.onThread, honly.only⟩, hrole, hr⟩

variable {a : Turn setting.serde}

/-- **What one turn does**, when an offer that arrives is new. -/
theorem At.step (h : At setting thread stage w) {w' : World} (hnew : OfferIsNew thread w a)
    (hstep : exchangeStep setting thread w a = some w') :
    ∃ stage', At setting thread stage' w' := by
  obtain ⟨answers, order, move⟩ := a
  cases move with
  | deliver i =>
    simp only [exchangeStep] at hstep
    cases hdue : w.due answers.recordId i with
    | none =>
      rw [hdue] at hstep
      cases hstep
    | some env =>
      rw [hdue] at hstep
      cases hstep
      have hoffer := hnew i env rfl hdue
      obtain ⟨hi, henv, hfresh⟩ := of_due hdue
      rcases Nat.lt_or_eq_of_le hi with hlt | rfl
      · rw [h.again hlt henv hoffer]
        exact ⟨stage, h⟩
      · exact h.first henv hfresh hoffer
  | acceptProposal exchangeId schemaId credDefId =>
    simp only [exchangeStep] at hstep
    split_ifs at hstep with hon
    cases hstep
    exact h.acceptProposal hon
  | acceptOffer exchangeId entropy =>
    simp only [exchangeStep] at hstep
    split_ifs at hstep with hon
    cases hstep
    exact h.acceptOffer hon
  | setAutoIssueAttributes exchangeId attributes =>
    simp only [exchangeStep] at hstep
    split_ifs at hstep with hon
    cases hstep
    exact ⟨stage, h.setAutoIssueAttributes hon⟩
  | registerAutoIssueAttributes exchangeId attributes =>
    cases hstep
    exact ⟨stage, h.registerAutoIssueAttributes _⟩
  | acceptRequest exchangeId attributes =>
    simp only [exchangeStep] at hstep
    split_ifs at hstep with hon
    cases hstep
    exact h.acceptRequest hon

/-! ## How it goes -/

theorem At.one (h : At setting thread stage w) {role : CredentialExchangeRole}
    (hpart : w.TakesPart role) : ∃ r, Only thread (w.agent role) r ∧ r.role = role := by
  obtain ⟨i, env, henv, hi⟩ := hpart
  rw [h.wire] at henv
  rw [h.delivered] at hi
  cases role with
  | issuer =>
    obtain ⟨-, hissuer⟩ := h.issuer
    cases stage with
    | proposed p =>
      -- the proposal, the only message, has not arrived
      cases i with
      | zero =>
        cases henv
        exact absurd (hi rfl) (Nat.not_lt_zero 0)
      | succ i => cases henv
    | _ =>
      obtain ⟨r, honly, hrole, -⟩ := hissuer
      exact ⟨r, honly, hrole⟩
  | holder =>
    obtain ⟨-, hholder⟩ := h.holder
    cases stage with
    | offered o =>
      cases i with
      | zero =>
        cases henv
        exact absurd (hi rfl) (Nat.not_lt_zero 0)
      | succ i => cases henv
    | _ =>
      obtain ⟨r, honly, hrole, -⟩ := hholder
      exact ⟨r, honly, hrole⟩

theorem At.applied (h : At setting thread stage w) (henv : w.wire[i]? = some env)
    (hi : i < w.delivered) (honly : Only thread (w.agent env.recipient) r) :
    env.inbound.body.AppliedTo r := by
  obtain ⟨hissuer, hholder, hwire, hdelivered, -⟩ := h
  rw [hwire] at henv
  rw [hdelivered] at hi
  cases stage with
  | proposed p | offered o => cases hi
  | proposalReceived p | counterOffered p o =>
    obtain rfl : i = 0 := Nat.lt_one_iff.1 hi
    cases henv
    exact (hissuer.prop honly).2
  | offerReceived o | requested o q =>
    obtain rfl : i = 0 := Nat.lt_one_iff.1 hi
    cases henv
    exact (hholder.prop honly).2.1
  | requestReceived o q =>
    have hi : i < 2 := hi
    interval_cases i
    · cases henv
      exact (hholder.prop honly).2.1
    · cases henv
      exact (hissuer.prop honly).2.2.2
  | issued o q c =>
    have hi : i < 2 := hi
    interval_cases i
    · cases henv
      exact (hholder.prop honly).2.1
    · cases henv
      exact (hissuer.prop honly).2.1
  | processed o q c =>
    have hi : i < 3 := hi
    interval_cases i
    · cases henv
      exact (hholder.prop honly).2.1
    · cases henv
      exact (hissuer.prop honly).2.1
    · cases henv
      exact (hholder.prop honly).2.2
  | completed o q c =>
    have hi : i < 4 := hi
    interval_cases i
    · cases henv
      exact (hholder.prop honly).2.1
    · cases henv
      exact (hissuer.prop honly).2.1
    · cases henv
      exact (hholder.prop honly).2.2
    · cases henv
      exact (hissuer.prop honly).1

theorem At.done (h : At setting thread stage w) (hsettled : w.Settled thread) :
    ∃ r r' json, Only thread w.issuer r ∧ Only thread w.holder r' ∧ r.state = .done ∧
      r'.state = .done ∧ r.credentialJson = some json ∧ r'.credentialJson = some json := by
  obtain ⟨⟨-, hissuer⟩, ⟨-, hholder⟩, hwire, hdelivered, -⟩ := h
  obtain ⟨hlength, hwaiting⟩ := hsettled
  rw [hwire, hdelivered] at hlength
  cases stage with
  | completed o q c =>
    obtain ⟨r, honly, -, hstate, -, hjson⟩ := hissuer
    obtain ⟨r', honly', -, hstate', -, hjson'⟩ := hholder
    exact ⟨r, r', c, honly, honly', hstate, hstate', hjson, hjson'⟩
  | proposalReceived p | requestReceived o q =>
    obtain ⟨r, honly, -, hstate, -⟩ := hissuer
    exact absurd (by rw [hstate]; decide) (hwaiting .issuer r.id r honly.lookup honly.onThread)
  | offerReceived o =>
    obtain ⟨r, honly, -, hstate, -⟩ := hholder
    exact absurd (by rw [hstate]; decide) (hwaiting .holder r.id r honly.lookup honly.onThread)
  | _ => cases hlength

theorem At.completes (h : At setting thread stage w) : Completes thread w where
  one _ := h.one
  applied _ _ _ := h.applied
  done := h.done

theorem Stage.offer_of_mem (henv : env ∈ stage.wire setting thread)
    (hoffer : env.inbound.body.isOffer = true) :
    ∃ offer, stage.offer = some offer ∧ env = setting.offer thread offer := by
  cases stage
  all_goals simp only [wire, mem_cons, not_mem_nil, or_false] at henv
  case proposed | proposalReceived =>
    rw [henv] at hoffer
    cases hoffer
  case counterOffered p o =>
    rcases henv with rfl | rfl
    · cases hoffer
    · exact ⟨o, rfl, rfl⟩
  case offered o | offerReceived o => exact ⟨o, rfl, henv⟩
  case requested o q | requestReceived o q =>
    rcases henv with rfl | rfl
    · exact ⟨o, rfl, rfl⟩
    · cases hoffer
  case issued o q c =>
    rcases henv with rfl | rfl | rfl
    · exact ⟨o, rfl, rfl⟩
    all_goals cases hoffer
  case processed o q c | completed o q c =>
    rcases henv with rfl | rfl | rfl | rfl
    · exact ⟨o, rfl, rfl⟩
    all_goals cases hoffer

theorem At.not_completes (h : At setting thread stage w) (hold : ¬ OfferIsNew thread w a) :
    ∃ w', exchangeStep setting thread w a = some w' ∧ ¬ Completes thread w' := by
  simp only [OfferIsNew, not_forall] at hold
  obtain ⟨i, env, hmove, hdue, hisOffer, hpresent⟩ := hold
  refine ⟨w.deliver setting a.answers a.order i env, by simp only [exchangeStep, hmove, hdue],
    fun hcompletes => hpresent fun id r hr hthread => ?_⟩
  obtain ⟨-, henv, hfresh⟩ := of_due hdue
  have hmem : env ∈ stage.wire setting thread := h.wire ▸ List.mem_of_getElem? henv
  obtain ⟨offer, hoffer, rfl⟩ := offer_of_mem hmem hisOffer
  obtain ⟨r', hid', hthread', -, -, -, hagent, -⟩ := @handle_offer setting thread w.holder a.order
    a.answers hfresh offer (h.readable offer hoffer)
  -- the holder has taken part, with the record it had and the new one
  have hpart : (w.deliver setting a.answers a.order i (setting.offer thread offer)).TakesPart
      .holder := by
    refine ⟨i, setting.offer thread offer, ?_, fun _ => ?_⟩
    · have hlt := (List.getElem?_eq_some_iff.1 henv).1
      exact (List.getElem?_append_left hlt).trans henv
    · exact Nat.lt_of_lt_of_le (Nat.lt_succ_self i) (Nat.le_max_right _ _)
  obtain ⟨r₀, honly, -⟩ := hcompletes.one .holder hpart
  have hrecords : ((w.deliver setting a.answers a.order i (setting.offer thread offer)).agent
      .holder).records = w.holder.records.insert a.answers.recordId r' :=
    congrArg records hagent
  have hne : id ≠ a.answers.recordId := by
    rintro rfl
    exact hfresh (lookup_isSome.1 (by rw [hr]; rfl))
  have hold := honly.only id r (by rw [hrecords, lookup_insert_of_ne _ hne]; exact hr) hthread
  have hnew := honly.only a.answers.recordId r' (by rw [hrecords, lookup_insert]) hthread'
  exact hne (hold.trans hnew.symm)

/-! ## Runs -/

theorem Start.at (start : Start setting) :
    ∃ stage, At setting start.threadId stage start.world := by
  obtain ⟨issuer, holder, answers, opening, hissuer, hholder, hissuer', hholder', hfresh,
    hfresh'⟩ :=
    start
  cases opening with
  | createProposal connectionId schemaId credDefId proposalJson =>
    refine ⟨.proposed (setting.serde.canonical proposalJson), ?_⟩
    simp only [Start.world, createProposal]
    rw [create_of_notMem (by rw [setConnectionId_id]; exact hfresh')]
    refine ⟨⟨hissuer, hissuer'⟩, .create hholder hholder' ?_ ?_ ?_, rfl, rfl,
      fun offer hoffer => (nomatch hoffer)⟩
    all_goals cases connectionId <;> rfl
  | createOffer connectionId schemaId credDefId =>
    refine ⟨.offered
      (setting.serde.canonical (answers.createCredentialOffer schemaId credDefId)), ?_⟩
    have hcalls : answers.calls.createCredentialOffer schemaId credDefId =
        .ok (answers.createCredentialOffer schemaId credDefId) := rfl
    simp only [Start.world, createOffer, hcalls]
    rw [create_of_notMem (by rw [setConnectionId_id]; exact hfresh)]
    have hreadable : ∀ offer, (offered (setting.serde.canonical
        (answers.createCredentialOffer schemaId credDefId))).offer = some offer →
          Readable setting.serde offer := by
      intro offer hoffer
      obtain ⟨get, hfields, hget⟩ := answers.reads schemaId credDefId
      cases hoffer
      exact ⟨get, hfields, by rw [hget]; rfl⟩
    refine ⟨.create hissuer hissuer' ?_ ?_ ⟨?_, ?_, ?_⟩, ⟨hholder, hholder'⟩, rfl, rfl, hreadable⟩
    all_goals cases connectionId <;> rfl

/-- The same turn with the hash maps in another order. -/
structure SameTurn (a b : Turn setting.serde) : Prop where
  answers : b.answers = a.answers
  move : b.move = a.move

theorem handle_order {serde : Serde} {calls : Calls} {config : Config} {order' : IterOrder String}
    {inbound : InboundMessage}
    (h : s.findByThreadId order inbound.threadId = s.findByThreadId order' inbound.threadId) :
    handle serde calls order config s inbound = handle serde calls order' config s inbound := by
  unfold handle
  cases inbound.body with
  | propose attachment => simp only [handlePropose, storeProposal, h]
  | offer attachment => simp only [W3c.handleOffer, W3c.storeOffer, h]
  | request attachment => simp only [W3c.handleRequest, handleRequest, h]
  | issue attachment => simp only [W3c.handleIssue, handleIssue, h]
  | ack status => simp only [handleAck, processAck, h]
  | problemReport description => simp only [handleProblemReport, h]

theorem Holds.findByThreadId {P : Option (CredentialExchangeRecord → Prop)}
    (h : Holds thread role P s) (order order' : IterOrder String) :
    s.findByThreadId order thread = s.findByThreadId order' thread := by
  obtain ⟨-, h⟩ := h
  cases P with
  | none =>
    rw [findByThreadId_eq_none.2 h, findByThreadId_eq_none.2 h]
  | some P =>
    obtain ⟨r, honly, -⟩ := h
    rw [honly.found, honly.found]

theorem Stage.thread_of_mem (stage : Stage) :
    ∀ env ∈ stage.wire setting thread, env.inbound.threadId = thread := by
  cases stage <;> simp [wire, Setting.proposal, Setting.offer, Setting.request, Setting.issue,
    Setting.ack]

theorem At.findByThreadId (h : At setting thread stage w) (role : CredentialExchangeRole)
    (order order' : IterOrder String) :
    (w.agent role).findByThreadId order thread = (w.agent role).findByThreadId order' thread := by
  cases role with
  | issuer => exact h.issuer.findByThreadId order order'
  | holder => exact h.holder.findByThreadId order order'

theorem At.any_order (h : At setting thread stage w) {a b : Turn setting.serde}
    (hab : SameTurn a b) : exchangeStep setting thread w a = exchangeStep setting thread w b := by
  obtain ⟨answers, order, move⟩ := a
  obtain ⟨answers', order', move'⟩ := b
  obtain ⟨rfl, rfl⟩ := hab
  cases move' with
  | deliver i =>
    simp only [exchangeStep]
    cases hdue : w.due answers'.recordId i with
    | none => rfl
    | some env =>
      have henv := mem_of_getElem? (of_due hdue).2.1
      rw [h.wire] at henv
      have hthread := stage.thread_of_mem env henv
      have hfound := h.findByThreadId env.recipient order order'
      rw [← hthread] at hfound
      simp only [deliver, handle_order hfound]
  | _ => rfl

theorem At.keeps {w' : World} (h : ∃ stage, At setting thread stage w)
    (hnew : OfferIsNew thread w a) (hstep : exchangeStep setting thread w a = some w') :
    ∃ stage, At setting thread stage w' := by
  obtain ⟨stage, hstage⟩ := h
  exact hstage.step hnew hstep

theorem Start.completes_iff_along (start : Start setting) (l : List (Turn setting.serde)) :
    (∀ w, Visits (exchangeStep setting start.threadId) start.world l w →
        Completes start.threadId w) ↔
      Along (exchangeStep setting start.threadId) (OfferIsNew start.threadId) start.world l := by
  refine visits_iff_along_of_invariant (fun w a w' h hnew hstep => At.keeps h hnew hstep) ?_ ?_
    start.at
  · rintro w ⟨stage, hstage⟩
    exact hstage.completes
  · rintro w a ⟨stage, hstage⟩ hold
    exact hstage.not_completes hold

/-- **An exchange goes as it should exactly when every offer that arrives is new to the holder.**
Then it does not depend on the order of the hash maps. -/
theorem completes_iff (setting : Setting) (start : Start setting) (l : List (Turn setting.serde)) :
    ((∀ w, Visits (exchangeStep setting start.threadId) start.world l w →
        Completes start.threadId w) ↔
      Along (exchangeStep setting start.threadId) (OfferIsNew start.threadId) start.world l) ∧
    (Along (exchangeStep setting start.threadId) (OfferIsNew start.threadId) start.world l →
      ∀ l', Forall₂ SameTurn l l' →
        exec (exchangeStep setting start.threadId) start.world l' =
          exec (exchangeStep setting start.threadId) start.world l) := by
  refine ⟨start.completes_iff_along l, fun hG l' hl' => ?_⟩
  refine exec_congr_along ?_ (fun w a w' h hnew hstep => At.keeps h hnew hstep) start.at hG hl'
  rintro w a b ⟨stage, hstage⟩ hab
  exact hstage.any_order hab

/-! ## An offer that arrives twice -/

namespace Sample

/-- JSON that is read as an object whose string fields are its text. -/
def echo : Serde := ⟨fun text => some fun _ => some text, fun text => text⟩

def shared : Setting := ⟨echo, false, fun _ => ⟨some "conn-1", none, none⟩⟩

def succeeding (recordId : String) : Answers shared.serde where
  createCredentialOffer _ credDefId := credDefId
  createCredentialRequest _ _ _ _ := "request"
  createCredential _ _ _ _ := "credential"
  processCredential _ _ _ := "credential-1"
  recordId := recordId
  messageId := "thread-1"
  now := 0
  reads _ credDefId := ⟨fun _ => some credDefId, rfl, rfl⟩

theorem absent_new (threadId : String) : (new ∅).Absent threadId := by
  intro id r hr
  cases (lookup_empty id).symm.trans hr

theorem keyed_new : (new ∅).Keyed := FMap.keyed_empty _

/-- The issuer offers; neither side has another exchange. -/
def opened : Start shared where
  issuer := .new ∅
  holder := .new ∅
  answers := succeeding "exchange-1"
  opening := .createOffer (some "conn-1") "schema-1" "cred-def-1"
  issuer_keyed := keyed_new
  holder_keyed := keyed_new
  issuer_absent := absent_new "thread-1"
  holder_absent := absent_new "thread-1"
  issuer_fresh := notMem_empty
  holder_fresh := notMem_empty

/-- The offer arrives, and the holder draws an id for its record. -/
noncomputable def offerArrives (recordId : String) : Turn shared.serde where
  answers := succeeding recordId
  order := .some
  move := .deliver 0

end Sample

open Sample

theorem completes_fails :
    ¬ ∀ (setting : Setting) (start : Start setting) (l : List (Turn setting.serde)) w,
      Visits (exchangeStep setting start.threadId) start.world l w →
        Completes start.threadId w := by
  intro hall
  have hG := (opened.completes_iff_along [offerArrives "exchange-2", offerArrives "exchange-3"]).1
    (hall shared opened _)
  -- the offer again, which the holder has a record of by now
  have hagain : ((exchangeStep shared opened.threadId opened.world
      (offerArrives "exchange-2")).any fun w => (w.due "exchange-3" 0).any fun env =>
        env.inbound.body.isOffer && ((w.agent env.recipient).records.lookup "exchange-2").any
          fun r => decide (r.threadId = "thread-1")) = true := by decide +kernel
  obtain ⟨w, hstep, hagain⟩ := (Option.any_eq_true _ _).1 hagain
  obtain ⟨env, hdue, hagain⟩ := (Option.any_eq_true _ _).1 hagain
  rw [Bool.and_eq_true] at hagain
  obtain ⟨hoffer, hagain⟩ := hagain
  obtain ⟨r, hlookup, hthread⟩ := (Option.any_eq_true _ _).1 hagain
  exact (hG.2 w hstep).1 0 env rfl hdue hoffer "exchange-2" r hlookup (of_decide_eq_true hthread)

namespace Sample

/-- The offer, its acceptance, the request, its acceptance, the credential and the ack; the id of
the record that is found comes first. -/
noncomputable def toTheEnd (order : String → IterOrder String) : List (Turn shared.serde) :=
  [⟨succeeding "exchange-2", order "exchange-1", .deliver 0⟩,
    ⟨succeeding "exchange-2", order "exchange-2", .acceptOffer "exchange-2" "entropy"⟩,
    ⟨succeeding "exchange-3", order "exchange-1", .deliver 1⟩,
    ⟨succeeding "exchange-3", order "exchange-1", .acceptRequest "exchange-1" ∅⟩,
    ⟨succeeding "exchange-3", order "exchange-2", .deliver 2⟩,
    ⟨succeeding "exchange-3", order "exchange-1", .deliver 3⟩]

def bothDone (w : World) : Bool :=
  (w.issuer.records.lookup "exchange-1").any (fun r => r.state = .done) &&
    (w.holder.records.lookup "exchange-2").any fun r => r.state = .done

/-- An offer arrives at an agent without records. -/
def offersFirst (w : World) (a : Turn shared.serde) : Bool :=
  match a.move with
  | .deliver i => (w.due a.answers.recordId i).all fun env =>
    !env.inbound.body.isOffer || decide ((w.agent env.recipient).records.keys = ∅)
  | _ => true

theorem offerIsNew_of_offersFirst {a : Turn shared.serde} (h : offersFirst w a = true) :
    OfferIsNew thread w a := by
  intro i env hmove hdue hoffer id r hr
  have hkeys : (w.agent env.recipient).records.keys = ∅ := by
    simpa [offersFirst, hmove, hdue, hoffer] using h
  have hmem := mem_keys.2 (mem_of_lookup_eq_some hr)
  rw [hkeys] at hmem
  cases hmem

end Sample

theorem completes_iff_toTheEnd :
    ∃ w, exec (exchangeStep shared "thread-1") opened.world (toTheEnd .first) = some w ∧
      bothDone w = true ∧ Completes "thread-1" w ∧
      exec (exchangeStep shared "thread-1") opened.world (toTheEnd fun _ => .some) = some w := by
  have hdone : (exec (exchangeStep shared "thread-1") opened.world (toTheEnd .first)).any bothDone =
      true := by decide +kernel
  obtain ⟨w, hexec, hdone⟩ := (Option.any_eq_true _ _).1 hdone
  have hfirst : Along (exchangeStep shared "thread-1") (fun w a => offersFirst w a = true)
      opened.world (toTheEnd .first) := of_decide_eq_true (by decide +kernel)
  have hG : Along (exchangeStep shared "thread-1") (OfferIsNew "thread-1") opened.world
      (toTheEnd .first) := Along.imp hfirst fun _ _ => offerIsNew_of_offersFirst
  obtain ⟨hcompletes, horder⟩ := completes_iff shared opened (toTheEnd .first)
  refine ⟨w, hexec, hdone, hcompletes.2 hG _ (.of_exec hexec), (horder hG _ ?_).trans hexec⟩
  iterate 6 refine .cons ⟨rfl, rfl⟩ ?_
  exact .nil

end Idiom.Credentials
