import WorkflowRules.Engine.Cascade
import WorkflowRules.Engine.Management
import WorkflowRules.Http.ContentType
import WorkflowRules.Http.Target

/-!
# The HTTP interface

A request is looked at from the outside in: the target and its method, the names in the path, the
type of the body, the text of the body, its shape; only then does the engine see it. Whatever the
engine refuses is answered with the status and the body of the error.
-/

namespace WorkflowRules.Http

open Json (Reader FieldList)

/-- A request. -/
structure Request where
  method : Method
  uri : String
  contentType : Option String
  body : String
deriving DecidableEq, Repr

/-- The body of a response. -/
inductive Body where
  | empty
  | text (s : String)
  | json (v : Json)

/-- A response. -/
structure Response where
  status : Nat
  body : Body
  /-- The methods that the target has, when that is the answer. -/
  allow : List String := []

namespace Response

/-- A response that is nothing but its status. -/
def bare (status : Nat) : Response := { status, body := .empty }

/-- A response with a JSON body. -/
def json (status : Nat) (v : Json) : Response := { status, body := .json v }

/-- The response that reports an error. -/
def ofError (e : AutomationError) : Response := json e.status e.body

end Response

/-- What answers a request. -/
abbrev Handler := Operation Engine Response

/-- Answers with the value of an operation. -/
def answering {α : Type} (status : Nat) (write : α → Json) (x : Operation Engine α) : Handler := do
  match ← Operation.attempt x with
  | .ok a => return .json status (write a)
  | .error e => return .ofError e

/-- Reads the body of a request, and uses what was read. -/
def withBody {α : Type} (r : Reader α) (request : Request) (use : α → Handler) : Handler :=
  if !request.contentType.any ContentType.isJson then pure (.bare 415)
  else
    match r.ofText request.body with
    | .error .notJson => pure (.bare 400)
    | .error .wrongShape => pure (.bare 422)
    | .ok a => use a

/-! ## Bodies -/

/-- What an instance is created from. -/
structure NewInstance where
  entityId : String
  data : Json
  actorId : Option String

/-- Reads what an instance is created from. -/
def NewInstance.reader : Reader NewInstance :=
  .record
    (.cons (.required "entity_id" .string) <|
      .cons (.defaulted "data" .any .null) <|
      .cons (.defaulted "actor_id" (.option .string) none) .nil)
    fun (entityId, data, actorId, ()) => ⟨entityId, data, actorId⟩

/-- What a transition is fired with. -/
structure NewTransition where
  event : String
  actorId : Option String
  data : Json.Fields

/-- Reads what a transition is fired with. -/
def NewTransition.reader : Reader NewTransition :=
  .record
    (.cons (.required "event" .string) <|
      .cons (.defaulted "actor_id" (.option .string) none) <|
      .cons (.defaulted "data" .fields []) .nil)
    fun (event, actorId, data, ()) => ⟨event, actorId, data⟩

/-- Reads whether a rule is to be enabled. -/
def switchReader : Reader Bool :=
  .record (.cons (.required "enabled" .bool) .nil) fun (enabled, ()) => enabled

/-- A list under a name. -/
def listing {α : Type} (name : String) (write : α → Json) (xs : List α) : Json :=
  .ofFields [(name, .array (xs.map write))]

/-- A message. -/
def messageJson (text : String) : Json := .ofFields [("message", .string text)]

/-- What the list of workflows tells about a definition. -/
def summary (d : Definition) : Json :=
  .ofFields
    [("name", .string d.name), ("entity_type", .string d.entityType),
      ("initial_state", .string d.initialState), ("states", .ofNat d.states.toList.length),
      ("transitions", .ofNat d.transitions.length)]

/-! ## Operations -/

/-- The value of an operation, which has to be there. -/
def orNotFound {α : Type} (what : String) (x : Operation Engine (Option α)) :
    Operation Engine α := do
  match ← x with
  | some a => return a
  | none => .fail (.notFound what)

/-- Registers a definition under the name in the path. -/
def putWorkflow (name : String) (request : Request) : Handler :=
  withBody Definition.reader request fun d =>
    answering 200
      (fun () => .ofFields
        [("name", .string name),
          ("message", .string ("Workflow '" ++ name ++ "' registered successfully"))])
      (Engine.defineWorkflow { d with name })

/-- Removes a definition. -/
def deleteWorkflow (name : String) : Handler :=
  answering 200 (fun () => messageJson "Workflow deleted successfully") do
    if ← Engine.removeWorkflow name then return ()
    else .fail (Engine.workflowNotFound name)

/-- Creates an instance. -/
def postInstance (workflow : String) (request : Request) : Handler :=
  withBody NewInstance.reader request fun n =>
    answering 201 Instance.toJson (Engine.createInstance workflow n.entityId n.data n.actorId)

/-- Fires a transition. -/
def postTransition (workflow entityId : String) (request : Request) : Handler :=
  withBody NewTransition.reader request fun n =>
    answering 200 Instance.toJson
      (Engine.fire workflow entityId n.event ⟨n.actorId, n.data, .root⟩)

/-- Tells whether a transition would be allowed. -/
def getTransition (workflow entityId event : String) : Handler :=
  answering 200
    (fun allowed => .ofFields [("event", .string event), ("allowed", .bool allowed)])
    (Engine.canTransition workflow entityId event .empty)

/-- Creates a rule. -/
def postRule (request : Request) : Handler :=
  withBody Rule.reader request fun r => answering 201 Rule.toJson (Engine.createRule r)

/-- Enables or disables a rule. -/
def putSwitch (name : String) (request : Request) : Handler :=
  withBody switchReader request fun enabled =>
    answering 200 Rule.toJson (Engine.setEnabled name enabled)

/-- There is no such rule. -/
def ruleMissing (name : String) : String := "rule '" ++ name ++ "'"

/-- Removes a rule. -/
def deleteRule (name : String) : Handler :=
  answering 200 (fun () => messageJson "Rule deleted successfully") do
    if ← Engine.removeRule name then return ()
    else .fail (.notFound (ruleMissing name))

/-- Considers the rules that an event triggers. -/
def postEvent (name : String) (request : Request) : Handler :=
  withBody .any request fun payload =>
    answering 200 (fun records => .array (records.map RuleExecution.toJson))
      (Engine.onEvent name payload)

/-- Answers a request for something to be looked at. -/
def get : Target → Handler
  | .health => pure { status := 200, body := .text "ok" }
  | .workflows => answering 200 (listing "workflows" summary) (.view Engine.listWorkflows)
  | .workflow name => answering 200 Definition.toJson (Engine.lookup name)
  | .instances w => answering 200 (listing "instances" Instance.toJson) (Engine.listInstances w)
  | .instance w e =>
    answering 200 Instance.toJson
      (orNotFound (InstanceKey.describe (w, e)) (Engine.getInstance w e))
  | .history w e =>
    answering 200 (fun entries => .array (entries.map HistoryEntry.toJson))
      (orNotFound (InstanceKey.describe (w, e)) (Engine.getHistory w e))
  | .transitions w e =>
    answering 200 (fun ts => .array (ts.map AvailableTransition.toJson))
      (Engine.availableTransitions w e)
  | .transition w e t => getTransition w e t
  | .rules => answering 200 (listing "rules" Rule.toJson) (.view Engine.listRules)
  | .rule name =>
    answering 200 Rule.toJson (orNotFound (ruleMissing name) (.view (·.getRule? name)))
  | .ruleSwitch _ | .event _ => pure (.bare 405)

/-- Answers a request with a method that its target has. -/
def respond (method : Method) (target : Target) (request : Request) : Handler :=
  match method, target with
  | .get, target => get target
  | .put, .workflow name => putWorkflow name request
  | .delete, .workflow name => deleteWorkflow name
  | .post, .instances w => postInstance w request
  | .post, .transitions w e => postTransition w e request
  | .post, .rules => postRule request
  | .put, .ruleSwitch name => putSwitch name request
  | .delete, .rule name => deleteRule name
  | .post, .event name => postEvent name request
  | _, _ => pure (.bare 405)

/-- Leaves out the body that `HEAD` does not want. -/
def forMethod (method : Method) (response : Response) : Response :=
  if method = .head then { response with body := .empty } else response

/-- Answers a request. -/
def handle (request : Request) : Handler :=
  match Target.ofPath? (Target.pathOf request.uri) with
  | none => pure (.bare 404)
  | some written =>
    let method := request.method.answering
    if written.methods.contains method then
      match written.decode? with
      | none => pure (forMethod request.method (.bare 400))
      | some target => do
        let response ← respond method target request
        return forMethod request.method response
    else pure { status := 405, body := .empty, allow := written.allowed }

end WorkflowRules.Http
