import Idiom.Ajna.Document

/-!
# Workflow templates and instances: `protocols/workflow/src/domain`

A template is a state machine: states, transitions on events with a guard and an action, and a
policy for its instances. An instance is a run of it, with a context, artifacts and a history.
-/

namespace Idiom.Workflow

open Ajna (Json JsonNumber)

/-! ## Templates -/

inductive StateType where
  | start
  | normal
  | final
  deriving DecidableEq

structure StateDef where
  name : String
  stateType : StateType
  section_ : Option String

structure TransitionDef where
  source : String
  target : String
  on : String
  guard : Option String
  action : Option String

structure ActionDef where
  key : String
  typeUri : String
  profileRef : Option String
  staticInput : Option Json

inductive PolicyMode where
  | singletonPerConnection
  | multiPerConnection
  deriving DecidableEq

/-- A declarative workflow definition — the "blueprint" for workflow instances. -/
structure WorkflowTemplate where
  templateId : String
  version : String
  policyMode : PolicyMode
  states : List StateDef
  transitions : List TransitionDef
  actions : List ActionDef

namespace WorkflowTemplate

variable (template : WorkflowTemplate)

def startState : Option StateDef :=
  template.states.find? fun s => s.stateType = .start

def findState (name : String) : Option StateDef :=
  template.states.find? fun s => s.name = name

def findAction (key : String) : Option ActionDef :=
  template.actions.find? fun a => a.key = key

/-- Get transitions from a given state for a specific event. -/
def transitionsFrom (state event : String) : List TransitionDef :=
  template.transitions.filter fun t => t.source = state ∧ t.on = event

/-- The state has type `Final`; a name that the template does not have is not final. -/
def isFinal (name : String) : Bool :=
  match template.findState name with
  | some s => decide (s.stateType = .final)
  | none => false

end WorkflowTemplate

/-! ## Instances -/

inductive InstanceStatus where
  | active
  | paused
  | canceled
  | completed
  | error
  deriving DecidableEq

structure InstanceHistoryItem where
  ts : String
  event : String
  source : String
  target : String
  actionKey : Option String
  msgId : Option String

structure Participant where
  did : String

structure WorkflowInstanceData where
  instanceId : String
  templateId : String
  templateVersion : String
  connectionId : Option String
  participants : List (String × Participant)
  state : String
  section_ : Option String
  context : Json
  artifacts : Json
  status : InstanceStatus
  history : List InstanceHistoryItem
  idempotencyKeys : List String

/-! ## Errors -/

inductive WorkflowError where
  | instanceNotFound (id : String)
  | templateNotFound (id : String)
  | invalidStatus (status : InstanceStatus) (operation : String)
  | noEnabledTransition (state event : String)
  | policyViolation (reason : String)
  | actionFailed (reason : String)
  | actionTimeout
  | actionHandlerNotFound (typeUri : String)
  | validationFailed (reason : String)

/-- The checks of the transitions: both states are known, and the action is. -/
def validateTransitions (template : WorkflowTemplate) :
    List TransitionDef → Except WorkflowError Unit
  | [] => .ok ()
  | transition :: rest =>
    let stateNames := template.states.map StateDef.name
    if transition.source ∉ stateNames then
      .error (.validationFailed ("Transition 'from' references unknown state: '" ++
        transition.source ++ "'"))
    else if transition.target ∉ stateNames then
      .error (.validationFailed ("Transition 'to' references unknown state: '" ++
        transition.target ++ "'"))
    else
      match transition.action with
      | none => validateTransitions template rest
      | some actionKey =>
        match template.findAction actionKey with
        | none => .error (.validationFailed
            ("Transition action references unknown action key: '" ++ actionKey ++ "'"))
        | some _ => validateTransitions template rest

def validateTemplate (template : WorkflowTemplate) : Except WorkflowError Unit :=
  let startCount := (template.states.filter fun s => s.stateType = .start).length
  if startCount = 0 then
    .error (.validationFailed "Template must have at least one start state")
  else if 1 < startCount then
    .error (.validationFailed "Template must have exactly one start state")
  else validateTransitions template template.transitions

/-! ## Guards -/

/-- `jmespath::Variable`. -/
inductive Variable where
  | null
  | bool (b : Bool)
  | string (s : String)
  | number (n : JsonNumber)
  | array (items : List Variable)
  | object (fields : List (String × Variable))
  | expref

/-- Determine if a JMESPath result is "truthy". A float is zero with either sign. -/
def isTruthy : Variable → Bool
  | .null => false
  | .bool b => b
  | .string s => !s.isEmpty
  | .number (.posInt n) => n != 0
  | .number (.negInt n) => n != 0
  | .number (.float bits) => bits != 0 && bits != 0x8000000000000000
  | .array items => !items.isEmpty
  | .object fields => !fields.isEmpty
  | .expref => true

/-- Compile a JMESPath expression and search a value with it; `none` if either fails. -/
abbrev JmesPath := String → Json → Option Variable

/-- Evaluate a guard expression: no guard and an empty one pass, and one that fails does not. -/
def GuardEvaluator.eval (jmespath : JmesPath) (expr : Option String)
    (data : WorkflowInstanceData) : Bool :=
  match expr with
  | none => true
  | some expr =>
    if expr.isEmpty then true
    else
      let env := Json.object
        [("context", data.context),
          ("participants", .object
            (data.participants.map fun p => (p.1, .object [("did", .string p.2.did)]))),
          ("artifacts", data.artifacts)]
      match jmespath expr env with
      | some result => isTruthy result
      | none => false

/-! ## Actions -/

/-- The value of a field of a JSON object. -/
def lookupField (fields : List (String × Json)) (key : String) : Option Json :=
  (fields.find? fun p => p.1 = key).map Prod.snd

/-- `Map::insert`: an old value of the key is replaced. -/
def insertField (fields : List (String × Json)) (key : String) (value : Json) :
    List (String × Json) :=
  if (lookupField fields key).isSome then
    fields.map fun p => if p.1 = key then (key, value) else p
  else fields ++ [(key, value)]

/-- Every entry of `source` is inserted. -/
def insertFields (fields source : List (String × Json)) : List (String × Json) :=
  source.foldl (fun fields p => insertField fields p.1 p.2) fields

def mergeJson (target source : Json) : Json :=
  match target, source with
  | .object fields, .object new => .object (insertFields fields new)
  | _, _ => target

/-- Context passed to an action handler during execution. -/
structure ActionContext where
  template : WorkflowTemplate
  instance_ : WorkflowInstanceData
  action : ActionDef
  input : Option Json

/-- Result returned by an action handler. -/
structure ActionResult where
  artifacts : Option Json
  contextMerge : Option Json
  messageId : Option String

def ActionResult.default : ActionResult := ⟨none, none, none⟩

/-- The handlers by `typeURI`, with what a call of each gives. -/
abbrev ActionRegistry := String → Option (ActionContext → Except WorkflowError ActionResult)

def ActionRegistry.execute (registry : ActionRegistry) (action : ActionDef)
    (ctx : ActionContext) : Except WorkflowError ActionResult :=
  match registry action.typeUri with
  | none => .error (.actionHandlerNotFound action.typeUri)
  | some handler => handler ctx

/-- The fields of `staticInput`; a sole key `merge` is a wrapper. -/
def LocalStateSetAction.base : Option Json → List (String × Json)
  | some (.object [("merge", inner)]) =>
    match inner with
    | .object fields => fields
    | _ => []
  | some (.object fields) => fields
  | _ => []

/-- Built-in action: merges `staticInput` and the input into the instance context. -/
def LocalStateSetAction.execute (ctx : ActionContext) : Except WorkflowError ActionResult :=
  let merged := insertFields [] (LocalStateSetAction.base ctx.action.staticInput)
  let merged := match ctx.input with
    | some (.object fields) => insertFields merged fields
    | _ => merged
  .ok ⟨none, if merged.isEmpty then none else some (.object merged), none⟩

def ActionRegistry.new : ActionRegistry := fun typeUri =>
  if typeUri = "https://didcomm.org/workflow/actions/state:set@1" then
    some LocalStateSetAction.execute
  else none

end Idiom.Workflow
