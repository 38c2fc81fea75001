import WorkflowRules.Text.Percent
import WorkflowRules.Text.Split

/-!
# Targets of requests

A path names a target; some of its segments are names of workflows, entities, events or rules. Paths
are compared segment by segment as they are written. A name at the end of a path is not empty, while
a name in the middle may be. Only when the target is known are the names decoded.

What follows a question mark or a number sign is no part of the path.
-/

namespace WorkflowRules.Http

open Text (splitText percentDecode?)

/-- The methods that some target has, and all others. -/
inductive Method where
  | get
  | head
  | post
  | put
  | delete
  | other
deriving DecidableEq, Repr

namespace Method

/-- The method with a given name. -/
def named (name : String) : Method :=
  if name = "GET" then .get
  else if name = "HEAD" then .head
  else if name = "POST" then .post
  else if name = "PUT" then .put
  else if name = "DELETE" then .delete
  else .other

/-- The method whose answer decides: that of `HEAD` is the answer of `GET` without its body. -/
def answering : Method → Method
  | .head => .get
  | m => m

end Method

/-- What a path names. -/
inductive Target where
  | health
  | workflows
  | workflow (name : String)
  | instances (workflow : String)
  | instance (workflow entityId : String)
  | history (workflow entityId : String)
  | transitions (workflow entityId : String)
  | transition (workflow entityId event : String)
  | rules
  | rule (name : String)
  | ruleSwitch (name : String)
  | event (name : String)
deriving DecidableEq, Repr

namespace Target

/-- The path without query and fragment. -/
def pathOf (uri : String) : String :=
  String.ofList (uri.toList.takeWhile fun c => c ≠ '?' && c ≠ '#')

/-- A target that is named by its last segment, which is not empty. -/
def lastNamed (name : String) (target : Target) : Option Target :=
  if name.isEmpty then none else some target

/-- The target that the segments below `api` name. -/
def ofSegments? : List String → Option Target
  | ["workflows"] => some .workflows
  | ["workflows", w] => lastNamed w (.workflow w)
  | ["workflows", w, "instances"] => some (.instances w)
  | ["workflows", w, "instances", e] => lastNamed e (.instance w e)
  | ["workflows", w, "instances", e, "history"] => some (.history w e)
  | ["workflows", w, "instances", e, "transitions"] => some (.transitions w e)
  | ["workflows", w, "instances", e, "transitions", t] => lastNamed t (.transition w e t)
  | ["rules"] => some .rules
  | ["rules", r] => lastNamed r (.rule r)
  | ["rules", r, "enabled"] => some (.ruleSwitch r)
  | ["events", n] => lastNamed n (.event n)
  | _ => none

/-- The target that a path names, with its names as they are written. -/
def ofPath? (path : String) : Option Target :=
  match splitText '/' path with
  | ["", "healthz"] => some .health
  | "" :: "api" :: segments => ofSegments? segments
  | _ => none

/-- Changes every name of a target; `none` when that fails for one of them. -/
def mapNames? (f : String → Option String) : Target → Option Target
  | .health => some .health
  | .workflows => some .workflows
  | .workflow w => (f w).map .workflow
  | .instances w => (f w).map .instances
  | .instance w e => do return .instance (← f w) (← f e)
  | .history w e => do return .history (← f w) (← f e)
  | .transitions w e => do return .transitions (← f w) (← f e)
  | .transition w e t => do return .transition (← f w) (← f e) (← f t)
  | .rules => some .rules
  | .rule r => (f r).map .rule
  | .ruleSwitch r => (f r).map .ruleSwitch
  | .event n => (f n).map .event

/-- The target with its names decoded; `none` when one of them is not UTF-8. -/
def decode? : Target → Option Target := mapNames? percentDecode?

/-- The methods of a target. -/
def methods : Target → List Method
  | .health | .workflows | .instance .. | .history .. | .transition .. => [.get]
  | .workflow _ => [.delete, .get, .put]
  | .instances _ | .transitions .. | .rules => [.get, .post]
  | .rule _ => [.delete, .get]
  | .ruleSwitch _ => [.put]
  | .event _ => [.post]

/-- The names of the methods of a target, in ascending order. `HEAD` comes with `GET`. -/
def allowed (t : Target) : List String :=
  t.methods.flatMap fun
    | .get => ["GET", "HEAD"]
    | .post => ["POST"]
    | .put => ["PUT"]
    | .delete => ["DELETE"]
    | .head | .other => []

end Target

end WorkflowRules.Http
