import Idiom.Lib.Run
import Idiom.Workflow.Template

/-!
# The command queue: `protocols/workflow/src/queue/command_queue.rs`

Messages from peers are enqueued as commands. A worker polls the commands that are pending, takes
a few of them in the iteration order of the hash map, and spawns a handler call for each; a call
that ends writes the command back.

* `CommandRepository` — `protocols/workflow/src/repository/command_repository.rs`, in memory.
* `CommandQueue` — the repository, the enqueue calls, the batch of the worker and the handler
  calls, with the history of all of them.
-/

namespace Idiom.Workflow

open Ajna (Json)
open Function

/-! ## Commands -/

inductive CommandType where
  | start
  | advance
  | pause
  | resume
  | cancel
  | complete
  deriving DecidableEq

inductive CommandStatus where
  | pending
  | processing
  | completed
  | failed
  deriving DecidableEq

/-- The arguments of `enqueue`. -/
structure Command where
  cmd : CommandType
  thid : String
  connectionId : Option String
  idempotencyKey : Option String
  payload : Json

structure WorkflowCommandRecord where
  id : String
  command : Command
  status : CommandStatus
  attempts : ℕ
  lastAttemptAt : Option ℤ
  error : Option String
  createdAt : ℤ

def WorkflowCommandRecord.new (id : String) (now : ℤ) (command : Command) : WorkflowCommandRecord :=
  ⟨id, command, .pending, 0, none, none, now⟩

abbrev CommandRepository := FMap String WorkflowCommandRecord

namespace CommandRepository

variable (records : CommandRepository) (order : IterOrder String)

/-- `save` and `update` are the same. -/
def update (record : WorkflowCommandRecord) : CommandRepository := records.insert record.id record

def values : List WorkflowCommandRecord := (order.list records.keys).filterMap records.lookup

def findPending : List WorkflowCommandRecord :=
  (values records order).filter fun r => r.status = .pending

def findByCmdAndThidPending (cmd : CommandType) (thid : String) : Option WorkflowCommandRecord :=
  (values records order).find? fun r => r.command.cmd = cmd ∧ r.command.thid = thid ∧
    (r.status = .pending ∨ r.status = .processing)

def deleteCompletedBefore (before : ℤ) : CommandRepository :=
  FMap.retain records fun _ r =>
    if (r.status = .completed ∨ r.status = .failed) ∧ r.createdAt < before then none else some r

end CommandRepository

open CommandRepository

/-! ## The queue -/

structure CommandQueueConfig where
  concurrency : ℕ
  maxAttempts : ℕ
  completedRetention : ℤ

/-- A `WorkflowError` of a handler: a missing template, or another one with its text. -/
inductive HandlerError where
  | templateNotFound (id : String)
  | other (text : String)

def HandlerError.toString : HandlerError → String
  | .templateNotFound id => "Workflow template not found: " ++ id
  | .other text => text

inductive Outcome where
  | ok
  | error (error : HandlerError)
  | timeout

/-- The outcome counts against `max_attempts`. -/
def Outcome.counts : Outcome → Bool
  | .error (.other _) => true
  | .timeout => true
  | _ => false

/-- The worker takes the command. -/
def WorkflowCommandRecord.take (record : WorkflowCommandRecord) (now : ℤ) : WorkflowCommandRecord :=
  { record with
    status := .processing, attempts := record.attempts + 1, lastAttemptAt := some now }

/-- What a handler call writes back. -/
def WorkflowCommandRecord.settle (record : WorkflowCommandRecord) (maxAttempts : ℕ) :
    Outcome → WorkflowCommandRecord
  | .ok => { record with status := .completed }
  | .error (.templateNotFound id) =>
    { record with
      attempts := if 0 < record.attempts then record.attempts - 1 else record.attempts
      status := .pending
      error := some (HandlerError.templateNotFound id).toString }
  | .error (.other text) =>
    { record with
      status := if maxAttempts ≤ record.attempts then .failed else .pending
      error := some text }
  | .timeout =>
    { record with
      status := if maxAttempts ≤ record.attempts then .failed else .pending
      error := some "Processing timeout" }

/-- A handler call, with its outcome once it has ended. -/
structure Job where
  record : WorkflowCommandRecord
  outcome : Option Outcome

inductive EnqueueCall where
  /-- No such command was found; a new one is to be saved. -/
  | checked
  | ended
  deriving DecidableEq

inductive QueueEvent (ι : Type) where
  /-- An enqueue call found a command of the type and thread, and ended. -/
  | skipped (t : ι) (id : String)
  | checked (t : ι)
  | saved (t : ι) (id : String)
  /-- A handler call. -/
  | started (id : String)
  | ended (id : String) (outcome : Outcome)
  /-- It was written back. -/
  | settled (id : String) (status : CommandStatus)

/-- The id under which a command was saved. -/
def QueueEvent.savedId {ι : Type} : QueueEvent ι → Option String
  | .saved _ id => some id
  | _ => none

structure CommandQueue (ι : Type) where
  repository : CommandRepository
  calls : ι → Option EnqueueCall
  /-- What the worker has polled and has still to take. -/
  batch : List WorkflowCommandRecord
  jobs : ℕ → Option Job
  spawned : ℕ
  log : List (QueueEvent ι)

inductive QueueStep (ι : Type) where
  | enqueue (t : ι) (order : IterOrder String)
  | save (t : ι) (uuid : String) (now : ℤ)
  | poll (order : IterOrder String)
  | take (now : ℤ)
  | handled (i : ℕ) (outcome : Outcome)
  | settle (i : ℕ)
  | cleanup (now : ℤ)

namespace CommandQueue

variable {ι : Type} [DecidableEq ι]

def empty : CommandQueue ι := ⟨∅, fun _ => none, [], fun _ => none, 0, []⟩

/-- The call `t` enqueues `commands t`. A new UUID was never used before. -/
def step (config : CommandQueueConfig) (commands : ι → Command) (q : CommandQueue ι) :
    QueueStep ι → Option (CommandQueue ι)
  | .enqueue t order =>
    match q.calls t with
    | none =>
      match findByCmdAndThidPending q.repository order (commands t).cmd
          (commands t).thid with
      | some existing =>
        some { q with
          calls := update q.calls t (some .ended)
          log := q.log ++ [.skipped t existing.id] }
      | none =>
        some { q with
          calls := update q.calls t (some .checked)
          log := q.log ++ [.checked t] }
    | some _ => none
  | .save t uuid now =>
    if q.calls t = some .checked ∧ ∀ event ∈ q.log, event.savedId ≠ some uuid then
      some { q with
        repository := update q.repository (.new uuid now (commands t))
        calls := update q.calls t (some .ended)
        log := q.log ++ [.saved t uuid] }
    else none
  | .poll order =>
    match q.batch with
    | [] => some { q with
        batch := (findPending q.repository order).take config.concurrency }
    | _ :: _ => none
  | .take now =>
    match q.batch with
    | [] => none
    | record :: rest =>
      some { q with
        repository := update q.repository (record.take now)
        batch := rest
        jobs := update q.jobs q.spawned (some ⟨record.take now, none⟩)
        spawned := q.spawned + 1
        log := q.log ++ [.started record.id] }
  | .handled i outcome =>
    match q.jobs i with
    | some ⟨record, none⟩ =>
      some { q with
        jobs := update q.jobs i (some ⟨record, some outcome⟩)
        log := q.log ++ [.ended record.id outcome] }
    | _ => none
  | .settle i =>
    match q.jobs i with
    | some ⟨record, some outcome⟩ =>
      some { q with
        repository :=
          update q.repository (record.settle config.maxAttempts outcome)
        jobs := update q.jobs i none
        log := q.log ++ [.settled record.id (record.settle config.maxAttempts outcome).status] }
    | _ => none
  | .cleanup now =>
    match q.batch with
    | [] => some { q with
        repository := deleteCompletedBefore q.repository (now - config.completedRetention) }
    | _ :: _ => none

end CommandQueue

end Idiom.Workflow
