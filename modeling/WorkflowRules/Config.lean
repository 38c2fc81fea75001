import WorkflowRules.Json.Record
import WorkflowRules.Text.Digits
import WorkflowRules.Text.WhiteSpace

/-!
# Configuration

The configuration says where the server listens, where the database is, and how the engine treats
cascades, several matching rules, and ambiguous definitions. Every setting has a default and an
environment variable. A variable whose value makes no sense counts as not set.
-/

namespace WorkflowRules

open Json (Reader FieldList)
open Text (parseNat? trim)

/-- How several matching rules of one event are treated. -/
inductive MatchMode where
  /-- Every matching rule runs. -/
  | fanOut
  /-- No rule is considered after the first one that matches. -/
  | firstMatch
deriving DecidableEq, Repr

namespace MatchMode

/-- The name of a mode. -/
def name : MatchMode → String
  | .fanOut => "fan_out"
  | .firstMatch => "first_match"

/-- Reads a mode from JSON. -/
def reader : Reader MatchMode := .cases [("fan_out", .fanOut), ("first_match", .firstMatch)]

/-- Reads a mode from a setting, in any case and with or without the underscore. -/
def ofSetting? (s : String) : Option MatchMode :=
  let word := String.ofList ((trim s.toList).map Char.toLower)
  if word = "fan_out" ∨ word = "fanout" then some .fanOut
  else if word = "first_match" ∨ word = "firstmatch" then some .firstMatch
  else none

end MatchMode

/-- How the engine works. -/
structure EngineConfig where
  /-- Events further away from the start of their chain are dropped. -/
  maxCascadeDepth : Nat := 8
  matchMode : MatchMode := .fanOut
  /-- Whether definitions in which an event leaves a state twice are refused. -/
  strictTransitions : Bool := false
deriving DecidableEq, Repr

namespace EngineConfig

/-- The greatest limit that can be set. -/
def maxLimit : Nat := Nat.pow 2 32 - 1

/-- The fields of the settings of the engine. -/
def fields : FieldList [Nat, MatchMode, Bool] :=
  .cons (.required "max_cascade_depth" (.nat maxLimit)) <|
  .cons (.required "rule_match_mode" MatchMode.reader) <|
  .cons (.required "strict_transitions" .bool) .nil

/-- Reads the settings of the engine. -/
def reader : Reader EngineConfig :=
  .record fields fun (maxCascadeDepth, matchMode, strictTransitions, ()) =>
    { maxCascadeDepth, matchMode, strictTransitions }

/-- The JSON value of the settings of the engine. -/
def toJson (c : EngineConfig) : Json :=
  .ofFields
    [("max_cascade_depth", .ofNat c.maxCascadeDepth),
      ("rule_match_mode", .string c.matchMode.name),
      ("strict_transitions", .bool c.strictTransitions)]

end EngineConfig

/-- The whole configuration. -/
structure Config where
  host : String := "0.0.0.0"
  port : Nat := 3004
  databaseUrl : String := "sqlite://data/automation.db"
  engine : EngineConfig := {}
deriving DecidableEq, Repr

namespace Config

/-- The fields of the address. -/
def serverFields : FieldList [String, Nat] :=
  .cons (.required "host" .string) <|
  .cons (.required "port" (.nat (Nat.pow 2 16 - 1))) .nil

/-- The fields of the database. -/
def databaseFields : FieldList [String] :=
  .cons (.required "url" .string) .nil

/-- The fields of the configuration. -/
def fields : FieldList [String × Nat, String, EngineConfig] :=
  .cons (.required "server" (.record serverFields fun (host, port, ()) => (host, port))) <|
  .cons (.required "database" (.record databaseFields fun (url, ()) => url)) <|
  .cons (.required "engine" EngineConfig.reader) .nil

/-- Reads a configuration. -/
def reader : Reader Config :=
  .record fields fun ((host, port), databaseUrl, engine, ()) =>
    { host, port, databaseUrl, engine }

/-- The JSON value of a configuration. -/
def toJson (c : Config) : Json :=
  .ofFields
    [("server", .ofFields [("host", .string c.host), ("port", .ofNat c.port)]),
      ("database", .ofFields [("url", .string c.databaseUrl)]),
      ("engine", c.engine.toJson)]

end Config

/-- The settings of the engine in an environment. -/
def EngineConfig.ofEnvironment (env : String → Option String) : EngineConfig :=
  let defaults : EngineConfig := {}
  { maxCascadeDepth :=
      ((env "AUTOMATION_MAX_CASCADE_DEPTH").bind (parseNat? (maxLimit + 1))).getD
        defaults.maxCascadeDepth
    matchMode :=
      ((env "AUTOMATION_RULE_MATCH_MODE").bind MatchMode.ofSetting?).getD defaults.matchMode
    strictTransitions :=
      (env "AUTOMATION_STRICT_TRANSITIONS").any
        (["1", "true", "TRUE", "yes"].contains ·) }

/-- The configuration in an environment. -/
def Config.ofEnvironment (env : String → Option String) : Config :=
  let defaults : Config := {}
  { host := (env "AUTOMATION_HOST").getD defaults.host
    port := ((env "AUTOMATION_PORT").bind (parseNat? (Nat.pow 2 16))).getD defaults.port
    databaseUrl := (env "AUTOMATION_DATABASE_URL").getD defaults.databaseUrl
    engine := .ofEnvironment env }

end WorkflowRules
