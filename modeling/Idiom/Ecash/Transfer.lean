import Idiom.Lib.Tasks
import Idiom.Workflow.Template

/-!
# The batch transfer of eCash: `agent/src/modules/ecash_transfer.rs`

Four messages: the sender commits, the receiver acknowledges with a key of its own, the sender
reveals, the receiver says whether its wallet took the notes. One map holds the pending
transfers of both roles.
-/

namespace Idiom

open List

/-! ## `serde_json::Value` -/

namespace Ajna.Json

/-- `Value::get`. -/
def get (key : String) : Json → Option Json
  | .object fields => Workflow.lookupField fields key
  | _ => none

/-- `Value::as_str`. -/
def asStr : Json → Option String
  | .string s => some s
  | _ => none

/-- `Value::as_u64`. -/
def asU64 : Json → Option UInt64
  | .number (.posInt n) => some n
  | _ => none

/-- `Value::as_array`. -/
def asArray : Json → Option (List Json)
  | .array items => some items
  | _ => none

/-- A vector of bytes. -/
def ofBytes (bytes : List UInt8) : Json := .array (bytes.map fun b => .number (.posInt b.toUInt64))

end Ajna.Json

namespace Ecash

open Ajna (Json)

/-! ## Data -/

/-- `[u8; n]`. -/
abbrev Bytes (n : ℕ) := {bytes : List UInt8 // bytes.length = n}

/-- Timeout for pending transfers (30 seconds). -/
def transferTimeoutMs : UInt64 := 30000

/-- What the sender needs for the reveal. -/
structure SenderBatch where
  preimages : List (Bytes 32)
  noteSerials : List (Bytes 32)
  senderSeLabels : List String
  senderSePks : List (Bytes 33)
  deriving DecidableEq

/-- What the receiver keeps of a batch-commit, apart from the time. -/
structure ReceivedCommit where
  commitJson : String
  rxSeLabel : String
  rxSePk : Bytes 33
  deriving DecidableEq

/-- Internal state for pending batch transfers. -/
inductive PendingBatchTransfer where
  /-- Receiver has received a batch-commit, waiting for batch-reveal. -/
  | commitReceived (commit : ReceivedCommit) (ts : UInt64)
  /-- Sender has sent a batch-commit, waiting for batch-ack. -/
  | committed (batch : SenderBatch) (ts : UInt64)
  /-- Sender has received a batch-ack, ready to reveal. -/
  | ackReceived (batch : SenderBatch) (receiverSpendPk : Bytes 33) (ackSig : List UInt8)
    (receiverDid : String) (ts : UInt64)
  deriving DecidableEq

namespace PendingBatchTransfer

def ts : PendingBatchTransfer → UInt64
  | commitReceived _ ts => ts
  | committed _ ts => ts
  | ackReceived _ _ _ _ ts => ts

/-- The sender's data, in an entry of the sender. -/
def senderBatch : PendingBatchTransfer → Option SenderBatch
  | commitReceived _ _ => none
  | committed batch _ => some batch
  | ackReceived batch _ _ _ _ => some batch

/-- The commit, in an entry of the receiver. -/
def receivedCommit : PendingBatchTransfer → Option ReceivedCommit
  | commitReceived commit _ => some commit
  | _ => none

end PendingBatchTransfer

/-- Data returned when sender receives an ACK. -/
structure BatchAckData where
  batch : SenderBatch
  receiverSpendPk : Bytes 33
  ackSig : List UInt8
  receiverDid : String
  deriving DecidableEq

/-- Result of a transfer from the receiver's perspective (4th message). -/
inductive TransferDoneResult where
  | done
  | nack (reason : String)
  deriving DecidableEq

inductive MessageHandlerError where
  | invalidMessage (text : String)
  | processingFailed (text : String)
  deriving DecidableEq

structure InboundMessage where
  msgType : String
  body : Json
  sender : Option String
  to_ : Option String
  connectionId : Option String

structure OutboundMessage where
  msgType : String
  body : Json
  to_ : String
  sender : String
  connectionId : Option String

/-- The two maps of a handler, each behind a lock. -/
structure Maps where
  pending : FMap (Bytes 32) PendingBatchTransfer
  doneConfirmations : FMap (Bytes 32) TransferDoneResult

theorem bind_lookup_insert {β : Type} (pending : FMap (Bytes 32) PendingBatchTransfer)
    (k b : Bytes 32) (entry : PendingBatchTransfer) (f : PendingBatchTransfer → Option β) :
    ((pending.insert k entry).lookup b).bind f =
      if b = k then f entry else (pending.lookup b).bind f := by
  rw [FMap.lookup_insert_ite]
  split <;> rfl

theorem bind_lookup_erase {β : Type} (pending : FMap (Bytes 32) PendingBatchTransfer)
    (k b : Bytes 32) (f : PendingBatchTransfer → Option β) :
    ((pending.erase k).lookup b).bind f = if b = k then none else (pending.lookup b).bind f := by
  rw [FMap.lookup_erase_ite]
  split <;> rfl

namespace Maps

def new : Maps := ⟨∅, ∅⟩

def setPending (m : Maps) (pending : FMap (Bytes 32) PendingBatchTransfer) : Maps :=
  { m with pending := pending }

@[simp] theorem setPending_pending (m : Maps) (p : FMap (Bytes 32) PendingBatchTransfer) :
    (m.setPending p).pending = p := rfl

end Maps

/-! ## Accesses -/

/-- What an access reads from outside: the clock, the key store, the signer, the wallet. -/
structure Input where
  now : UInt64
  key : Except String (Bytes 33)
  signature : Except String (List UInt8 × String)
  wallet : Except String Unit

/-- The accesses of the calls; each scope of a lock is one. -/
inductive Access where
  | readClock
  | generateKey (label : String)
  | signWithDid (data : List UInt8)
  /-- `receive_batch_json`. -/
  | receiveBatch (batchId : Bytes 32) (batchJson : String)
  | storeCommit (batchId : Bytes 32) (commit : ReceivedCommit)
  | acknowledge (batchId : Bytes 32) (receiverSpendPk : Bytes 33) (ackSig : List UInt8)
    (receiverDid : String)
  | findCommit (batchId : Bytes 32)
  | removeCommit (batchId : Bytes 32)
  | confirm (batchId : Bytes 32) (result : TransferDoneResult)
  | register (batchId : Bytes 32) (batch : SenderBatch)
  | takeAck (batchId : Bytes 32)
  | takeDone (batchId : Bytes 32)
  | prune (now : UInt64)

/-- `now - ts < TRANSFER_TIMEOUT_MS`; the subtraction wraps. -/
def PendingBatchTransfer.isFresh (now : UInt64) (entry : PendingBatchTransfer) : Bool :=
  decide (now - entry.ts < transferTimeoutMs)

def Access.effect (access : Access) (e : Input) (m : Maps) : Maps :=
  match access with
  | storeCommit batchId commit =>
    m.setPending (m.pending.insert batchId (.commitReceived commit e.now))
  | acknowledge batchId receiverSpendPk ackSig receiverDid =>
    -- the entry is removed before it is looked at
    match m.pending.lookup batchId with
    | some (.committed batch ts) =>
      m.setPending ((m.pending.erase batchId).insert batchId
        (.ackReceived batch receiverSpendPk ackSig receiverDid ts))
    | _ => m.setPending (m.pending.erase batchId)
  | removeCommit batchId => m.setPending (m.pending.erase batchId)
  | confirm batchId result =>
    { m with doneConfirmations := m.doneConfirmations.insert batchId result }
  | register batchId batch => m.setPending (m.pending.insert batchId (.committed batch e.now))
  | takeAck batchId =>
    match m.pending.lookup batchId with
    | some (.ackReceived ..) => m.setPending (m.pending.erase batchId)
    | _ => m
  | takeDone batchId => { m with doneConfirmations := m.doneConfirmations.erase batchId }
  | prune now =>
    m.setPending (FMap.retain m.pending fun _ entry =>
      if entry.isFresh now then some entry else none)
  | _ => m

/-- A call in progress. -/
abbrev Handling := Prog Maps Input Access MessageHandlerError

/-- Make an access, and go on with what it gives. -/
def perform {α : Type} (access : Access) (next : Input → Maps → Handling α) : Handling α :=
  .access access access.effect next

/-! ## Bodies -/

/-- What the handler uses of the `serde_json`, `hex` and `blake3` crates. -/
structure Codec where
  /-- `serde_json::from_str`. -/
  parseJson : String → Except String Json
  /-- `Value::to_string`. -/
  printJson : Json → String
  hexEncode : List UInt8 → String
  hexDecode : String → Except String (List UInt8)
  blake3 : List UInt8 → List UInt8

/-- Helper: parse a `[u8; 32]` from a JSON byte array. -/
def parse32FromJson (val : Json) (field : String) : Except MessageHandlerError (Bytes 32) :=
  match (val.get field).bind Json.asArray with
  | none => .error (.invalidMessage ("Missing " ++ field ++ " field"))
  | some arr =>
    if h : arr.length = 32 then
      .ok ⟨arr.map fun v => (v.asU64.getD 0).toUInt8, by simpa using h⟩
    else .error (.invalidMessage (field ++ " must be 32 bytes"))

/-- A field that must be a string. -/
def requireStr (body : Json) (field missing : String) : Except MessageHandlerError String :=
  match (body.get field).bind Json.asStr with
  | none => .error (.invalidMessage missing)
  | some s => .ok s

section

variable (codec : Codec)

/-- A string that must be JSON. -/
def parseBody (what text : String) : Except MessageHandlerError Json :=
  (codec.parseJson text).mapError fun e => .invalidMessage ("Invalid " ++ what ++ " JSON: " ++ e)

/-- A string that must be `n` bytes in hex. -/
def parseHex (n : ℕ) (field text : String) : Except MessageHandlerError (Bytes n) := do
  let bytes ← (codec.hexDecode text).mapError fun e =>
    .invalidMessage ("Invalid " ++ field ++ " hex: " ++ e)
  if h : bytes.length = n then .ok ⟨bytes, h⟩
  else .error (.invalidMessage (field ++ " must be " ++ toString n ++ " bytes"))

/-- Validate `total_amount == sum of notes[].amount`, where there are notes. -/
def checkTotal (commit : Json) : Except MessageHandlerError Unit :=
  let totalAmount := (((commit.get "total_amount").bind Json.asU64).getD 0).toNat
  match (commit.get "notes").bind Json.asArray with
  | none => .ok ()
  | some notes =>
    let sum := notes.foldl
      (fun sum n => sum + (((n.get "amount").bind Json.asU64).getD 0).toNat) 0
    if sum ≠ totalAmount then
      .error (.invalidMessage ("total_amount " ++ toString totalAmount ++ " != sum of notes " ++
        toString sum))
    else .ok ()

/-- The commit's text and its batch. -/
def readCommit (body : Json) : Except MessageHandlerError (String × Bytes 32) := do
  let commitJsonStr ← requireStr body "commit" "Missing commit in batch-commit"
  let commit ← parseBody codec "commit" commitJsonStr
  let batchId ← parse32FromJson commit "batch_id"
  checkTotal commit
  return (commitJsonStr, batchId)

structure BatchAck where
  batchId : Bytes 32
  receiverSpendPk : Bytes 33
  ackSig : List UInt8
  receiverDid : String

def readAck (body : Json) : Except MessageHandlerError BatchAck := do
  let batchIdHex ← requireStr body "batch_id" "Missing batch_id in ACK body"
  let batchId ← parseHex codec 32 "batch_id" batchIdHex
  let spendPkHex ← requireStr body "receiver_spend_pk" "Missing receiver_spend_pk in ACK body"
  let receiverSpendPk ← parseHex codec 33 "receiver_spend_pk" spendPkHex
  let ackSig := (((body.get "ack_sig").bind Json.asStr).bind fun s =>
    (codec.hexDecode s).toOption).getD []
  return ⟨batchId, receiverSpendPk, ackSig, ((body.get "receiver_did").bind Json.asStr).getD ""⟩

def readReveal (body : Json) : Except MessageHandlerError (Json × Bytes 32) := do
  let revealJsonStr ← requireStr body "reveal" "Missing reveal in batch-reveal"
  let reveal ← parseBody codec "reveal" revealJsonStr
  let batchId ← parse32FromJson reveal "batch_id"
  return (reveal, batchId)

end

/-- The batch and what its receiver says. -/
def readDone (body : Json) : Except MessageHandlerError (Bytes 32 × TransferDoneResult) := do
  let status := ((body.get "status").bind Json.asStr).getD "done"
  let batchId ← parse32FromJson body "batch_id"
  if status = "nack" then
    return (batchId, .nack (((body.get "reason").bind Json.asStr).getD "unknown"))
  else return (batchId, .done)

def doneBody (batchId : Bytes 32) : Json :=
  .object [("batch_id", .ofBytes batchId.1), ("status", .string "done")]

def nackBody (batchId : Bytes 32) (reason : String) : Json :=
  .object [("batch_id", .ofBytes batchId.1), ("status", .string "nack"), ("reason", .string reason)]

/-! ## The handler -/

def piuriBatchCommit : String := "https://ajna.network/ecash/1.0/batch-commit"
def piuriBatchAck : String := "https://ajna.network/ecash/1.0/batch-ack"
def piuriBatchReveal : String := "https://ajna.network/ecash/1.0/batch-reveal"
def piuriBatchDone : String := "https://ajna.network/ecash/1.0/batch-done"

/-- What a handler is made with; whether it has a key store and a signer. -/
structure BatchTransferHandler where
  codec : Codec
  seProvider : Bool
  didSigner : Bool

/-- The answer to a message. -/
def respond (inbound : InboundMessage) (msgType : String) (body : Json) : OutboundMessage where
  msgType := msgType
  body := body
  to_ := inbound.sender.getD ""
  sender := inbound.to_.getD ""
  connectionId := inbound.connectionId

/-- `to_le_bytes`. -/
def toLeBytes (n : UInt64) : List UInt8 :=
  (range 8).map fun i => (n >>> (8 * UInt64.ofNat i)).toUInt8

section

variable (handler : BatchTransferHandler)

/-- What the receiver signs. -/
def ackDigest (batchId : Bytes 32) (receiverSpendPk : Bytes 33) (timestampMs : UInt64) :
    List UInt8 :=
  handler.codec.blake3 ("AJNA/ECASH/BATCH-ACK/V1".toUTF8.toList ++ batchId.1 ++
    receiverSpendPk.1 ++ toLeBytes timestampMs)

def ackBody (batchId : Bytes 32) (receiverSpendPk : Bytes 33) (timestampMs : UInt64)
    (signature : Option (List UInt8 × String)) : Json :=
  .object ([("batch_id", .string (handler.codec.hexEncode batchId.1)),
    ("receiver_spend_pk", .string (handler.codec.hexEncode receiverSpendPk.1)),
    ("timestamp_ms", .number (.posInt timestampMs))] ++
    match signature with
    | some (sig, did) =>
      [("ack_sig", .string (handler.codec.hexEncode sig)), ("receiver_did", .string did)]
    | none => [])

/-- The label of the key for a batch. -/
def rxSeLabel (batchId : Bytes 32) : String :=
  "ecash-rx-batch-" ++ handler.codec.hexEncode (batchId.1.take 8)

/-- Sign ACK with DID Ed25519 key for non-repudiation; if that fails, it goes unsigned. -/
def acknowledgeCommit (inbound : InboundMessage) (batchId : Bytes 32)
    (receiverSpendPk : Bytes 33) : Handling (Option OutboundMessage) :=
  perform .readClock fun clock _ =>
    if handler.didSigner then
      perform (.signWithDid (ackDigest handler batchId receiverSpendPk clock.now)) fun e _ =>
        .done (some (respond inbound piuriBatchAck
          (ackBody handler batchId receiverSpendPk clock.now e.signature.toOption)))
    else
      .done (some (respond inbound piuriBatchAck
        (ackBody handler batchId receiverSpendPk clock.now none)))

/-- Message 1, once there is a key: store pending state, then answer. -/
def acceptCommit (inbound : InboundMessage) (commitJson : String) (batchId : Bytes 32)
    (receiverSpendPk : Bytes 33) : Handling (Option OutboundMessage) :=
  perform (.storeCommit batchId ⟨commitJson, rxSeLabel handler batchId, receiverSpendPk⟩)
    fun _ _ => acknowledgeCommit handler inbound batchId receiverSpendPk

/-- Message 1, once the key store has answered. -/
def acceptKey (inbound : InboundMessage) (commitJson : String) (batchId : Bytes 32) :
    Except String (Bytes 33) → Handling (Option OutboundMessage)
  | .error text => .fail (.processingFailed ("SE key generation failed: " ++ text))
  | .ok receiverSpendPk => acceptCommit handler inbound commitJson batchId receiverSpendPk

/-- Message 1 (receiver side). -/
def handleBatchCommit (inbound : InboundMessage) : Handling (Option OutboundMessage) :=
  match readCommit handler.codec inbound.body with
  | .error e => .fail e
  | .ok (commitJsonStr, batchId) =>
    if handler.seProvider then
      -- generate ONE key for the entire batch
      perform (.generateKey (rxSeLabel handler batchId)) fun e _ =>
        acceptKey handler inbound commitJsonStr batchId e.key
    else .fail (.processingFailed
      "Secure Key Store not available — cannot receive eCash without hardware security")

/-- Message 2, once the entry is removed: only a committed one goes on. -/
def answerAck : Option PendingBatchTransfer → Handling (Option OutboundMessage)
  | some (.committed ..) => .done none
  | _ => .fail (.processingFailed "No pending batch commit for this ACK")

/-- Message 2 (sender side). -/
def handleBatchAck (inbound : InboundMessage) : Handling (Option OutboundMessage) :=
  match readAck handler.codec inbound.body with
  | .error e => .fail e
  | .ok ack =>
    perform (.acknowledge ack.batchId ack.receiverSpendPk ack.ackSig ack.receiverDid) fun _ m =>
      answerAck (m.pending.lookup ack.batchId)

/-- The combined envelope for the `NoteReceiver`. -/
def transferJson (commit : ReceivedCommit) (reveal : Json) : String :=
  handler.codec.printJson (.object [("batch", .bool true),
    ("commit", (handler.codec.parseJson commit.commitJson).toOption.getD .null),
    ("reveal", reveal),
    ("rx_se_label", .string commit.rxSeLabel),
    ("rx_se_pk", .string (handler.codec.hexEncode commit.rxSePk.1))])

/-- Message 3, once the wallet has answered. -/
def answerReveal (inbound : InboundMessage) (batchId : Bytes 32) :
    Except String Unit → Handling (Option OutboundMessage)
  | .ok () =>
    -- success: now remove pending state
    perform (.removeCommit batchId) fun _ _ =>
      .done (some (respond inbound piuriBatchDone (doneBody batchId)))
  | .error reason => .done (some (respond inbound piuriBatchDone (nackBody batchId reason)))

/-- Message 3, once the pending commit is looked up. -/
def creditReveal (inbound : InboundMessage) (batchId : Bytes 32) (reveal : Json) :
    Option ReceivedCommit → Handling (Option OutboundMessage)
  | some commit =>
    perform (.receiveBatch batchId (transferJson handler commit reveal)) fun e _ =>
      answerReveal inbound batchId e.wallet
  | none => .fail (.processingFailed "No pending batch commit for this reveal")

def Maps.receivedCommit (m : Maps) (batchId : Bytes 32) : Option ReceivedCommit :=
  (m.pending.lookup batchId).bind PendingBatchTransfer.receivedCommit

/-- Message 3 (receiver side). -/
def handleBatchReveal (inbound : InboundMessage) : Handling (Option OutboundMessage) :=
  match readReveal handler.codec inbound.body with
  | .error e => .fail e
  | .ok (reveal, batchId) =>
    -- peek, don't remove yet
    perform (.findCommit batchId) fun _ m =>
      creditReveal handler inbound batchId reveal (m.receivedCommit batchId)

/-- Message 4 (sender side). -/
def handleBatchDone (inbound : InboundMessage) : Handling (Option OutboundMessage) :=
  match readDone inbound.body with
  | .error e => .fail e
  | .ok (batchId, result) => perform (.confirm batchId result) fun _ _ => .done none

def handle (inbound : InboundMessage) : Handling (Option OutboundMessage) :=
  if inbound.msgType = piuriBatchCommit then handleBatchCommit handler inbound
  else if inbound.msgType = piuriBatchAck then handleBatchAck handler inbound
  else if inbound.msgType = piuriBatchReveal then handleBatchReveal handler inbound
  else if inbound.msgType = piuriBatchDone then handleBatchDone inbound
  else .fail (.invalidMessage ("Unknown message type: " ++ inbound.msgType))

end

/-! ## The payment flow -/

/-- What a call returns. -/
inductive Reply where
  | message (reply : Option OutboundMessage)
  | ack (data : Option BatchAckData)
  | confirmation (result : Option TransferDoneResult)
  | unit

open Reply

/-- Store a sender-side pending batch transfer. -/
def registerPendingBatch (batchId : Bytes 32) (batch : SenderBatch) : Handling Unit :=
  perform (.register batchId batch) fun _ _ => .done ()

/-- The ACK that is there for a batch. -/
def Maps.ackData (m : Maps) (batchId : Bytes 32) : Option BatchAckData :=
  match m.pending.lookup batchId with
  | some (.ackReceived batch receiverSpendPk ackSig receiverDid _) =>
    some ⟨batch, receiverSpendPk, ackSig, receiverDid⟩
  | _ => none

/-- Check if we have a received ACK for a given batch. -/
def takeAck (batchId : Bytes 32) : Handling (Option BatchAckData) :=
  perform (.takeAck batchId) fun _ m => .done (m.ackData batchId)

/-- Check if the receiver sent a DONE/NACK for a given batch. -/
def takeDone (batchId : Bytes 32) : Handling (Option TransferDoneResult) :=
  perform (.takeDone batchId) fun _ m => .done (m.doneConfirmations.lookup batchId)

/-- Try at once, after each notification that comes before the deadline, and at the deadline. -/
def waitFor {α : Type} (take : Handling (Option α)) : ℕ → Handling (Option α)
  | 0 => do
    match ← take with
    | some a => return some a
    | none => take
  | notifications + 1 => do
    match ← take with
    | some a => return some a
    | none => waitFor take notifications

/-- Wait for ACK with timeout. -/
def waitForAck (batchId : Bytes 32) (notifications : ℕ) : Handling (Option BatchAckData) :=
  waitFor (takeAck batchId) notifications

/-- Wait for DONE/NACK with timeout. -/
def waitForDone (batchId : Bytes 32) (notifications : ℕ) : Handling (Option TransferDoneResult) :=
  waitFor (takeDone batchId) notifications

/-- Prune timed-out pending transfers. -/
def pruneExpired : Handling Unit :=
  perform .readClock fun clock _ => perform (.prune clock.now) fun _ _ => .done ()

/-- The calls on a handler. -/
inductive Call where
  | handle (inbound : InboundMessage)
  | registerPendingBatch (batchId : Bytes 32) (batch : SenderBatch)
  | takeAck (batchId : Bytes 32)
  | takeDone (batchId : Bytes 32)
  | waitForAck (batchId : Bytes 32) (notifications : ℕ)
  | waitForDone (batchId : Bytes 32) (notifications : ℕ)
  | pruneExpired

def Call.program (handler : BatchTransferHandler) : Call → Handling Reply
  | handle inbound => message <$> Ecash.handle handler inbound
  | registerPendingBatch batchId batch =>
    (fun _ => unit) <$> Ecash.registerPendingBatch batchId batch
  | takeAck batchId => ack <$> Ecash.takeAck batchId
  | takeDone batchId => confirmation <$> Ecash.takeDone batchId
  | waitForAck batchId notifications => ack <$> Ecash.waitForAck batchId notifications
  | waitForDone batchId notifications =>
    confirmation <$> Ecash.waitForDone batchId notifications
  | pruneExpired => (fun _ => unit) <$> Ecash.pruneExpired

/-! ## The batch of zeros, for runs -/

def batchZero : Bytes 32 := ⟨replicate 32 0, rfl⟩

def keyZero : Bytes 33 := ⟨replicate 33 0, rfl⟩

def batchZeroJson : Json := .object [("batch_id", .ofBytes batchZero.1)]

def batchZeroText : String :=
  "\x7b\"batch_id\":[" ++ String.intercalate "," (replicate 32 "0") ++ "]\x7d"

/-- What the wallet gets for the batch. -/
def envelopeZeroText : String :=
  "\x7b\"batch\":true,\"commit\":" ++ batchZeroText ++ ",\"reveal\":" ++ batchZeroText ++
    ",\"rx_se_label\":\"ecash-rx-batch-" ++ String.ofList (replicate 16 '0') ++
    "\",\"rx_se_pk\":\"" ++ String.ofList (replicate 66 '0') ++ "\"\x7d"

def zeroCodec : Codec where
  parseJson text :=
    if text = batchZeroText then .ok batchZeroJson
    else .error "expected value at line 1 column 1"
  printJson _ := envelopeZeroText
  hexEncode bytes := String.ofList (bytes.flatMap fun b =>
    [Nat.digitChar (b / 16).toNat, Nat.digitChar (b % 16).toNat])
  hexDecode text := decode text.toList
  blake3 bytes := bytes
where
  digit (c : Char) : Option UInt8 :=
    if c.isDigit then some (c.toNat - 48).toUInt8
    else if 'a' ≤ c ∧ c ≤ 'f' then some (c.toNat - 87).toUInt8
    else none
  decode : List Char → Except String (List UInt8)
    | [] => .ok []
    | [_] => .error "Odd number of digits"
    | a :: b :: rest =>
      match digit a, digit b, decode rest with
      | some x, some y, .ok bytes => .ok ((16 * x + y) :: bytes)
      | _, _, _ => .error "Invalid character"

/-- A message of the batch, from nobody. -/
def messageZero (msgType : String) (fields : List (String × Json)) : InboundMessage :=
  ⟨msgType, .object fields, none, none, none⟩

def commitZero : InboundMessage :=
  messageZero piuriBatchCommit [("commit", .string batchZeroText)]

def ackZero : InboundMessage :=
  messageZero piuriBatchAck [("batch_id", .string (String.ofList (replicate 64 '0'))),
    ("receiver_spend_pk", .string (String.ofList (replicate 66 '0')))]

def revealZero : InboundMessage :=
  messageZero piuriBatchReveal [("reveal", .string batchZeroText)]

/-- The key store gives the key of zeros, and the wallet accepts. -/
def inputZero : Input := ⟨0, .ok keyZero, .error "no signer", .ok ()⟩

end Ecash
end Idiom
