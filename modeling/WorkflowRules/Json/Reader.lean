import WorkflowRules.Json.Scan

/-!
# Readers

A `Reader α` reads an `α` from a scan. It fails in one of two ways: the text is not JSON, or it is
JSON of another shape. A reader takes the parts of a scan in the order of the text, so of several
problems the first one is reported.

An `Origin` says where a scan comes from. A scan of a text may nest only so many containers; a scan
of a value sets no limit. The few rules that depend on the origin are those of arrays that are too
long for a record, and of enumerations.
-/

namespace WorkflowRules.Json

/-- Why nothing could be read. -/
inductive ReadError where
  /-- The text is not JSON, or nests too deeply. -/
  | notJson
  /-- The JSON has another shape. -/
  | wrongShape
deriving DecidableEq, Repr

/-- Where a scan comes from. -/
inductive Origin where
  /-- From a text, with room for so many more containers. -/
  | text (room : Nat)
  /-- From a value that is complete already. -/
  | value
deriving DecidableEq, Repr

/-- The room that is left in a scan of this origin. -/
def Origin.room : Origin → Scan.Room
  | .text room => some room
  | .value => none

/-- The origin inside a container. -/
def Origin.enter : Origin → Except ReadError Origin
  | .text 0 => .error .notJson
  | .text (n + 1) => .ok (.text n)
  | .value => .ok .value

/-- Reads an `α` from a scan of a given origin. -/
abbrev Reader (α : Type) := Origin → Scan → Except ReadError α

namespace Reader

/-- Why a scan is not of the kind that was asked for. -/
def mismatch : Scan → ReadError
  | .fault | .number none | .string none => .notJson
  | _ => .wrongShape

/-- Reads any value. -/
def any : Reader Json := fun origin scan =>
  match scan.toValue? origin.room with
  | some v => .ok v
  | none => .error .notJson

/-- Skips a value. -/
def skip : Reader Unit := fun _ scan =>
  if scan.skippable then .ok () else .error .notJson

/-- Reads a text. -/
def string : Reader String := fun _ scan =>
  match scan with
  | .string (some s) => .ok s
  | scan => .error (mismatch scan)

/-- Reads a truth value. -/
def bool : Reader Bool := fun _ scan =>
  match scan with
  | .bool b => .ok b
  | scan => .error (mismatch scan)

/-- Reads an integer between two bounds, written without point and exponent. -/
def int (low high : Int) : Reader Int := fun _ scan =>
  match scan with
  | .number (some (.integer n _)) =>
    if low ≤ n ∧ n ≤ high then .ok n else .error .wrongShape
  | scan => .error (mismatch scan)

/-- Reads a natural number up to a bound. -/
def nat (high : Nat) : Reader Nat := fun origin scan =>
  (int 0 high origin scan).map Int.toNat

/-- Reads null as nothing. -/
def option {α : Type} (r : Reader α) : Reader (Option α) := fun origin scan =>
  match scan with
  | .null => .ok none
  | scan => (r origin scan).map some

/-- Reads a text that has to be of some form. -/
def parsed {α : Type} (parse? : String → Option α) : Reader α := fun origin scan =>
  match string origin scan with
  | .error e => .error e
  | .ok s =>
    match parse? s with
    | some a => .ok a
    | none => .error .wrongShape

/-- Reads the items of an array one by one. -/
def items {α : Type} (r : Reader α) (origin : Origin) (ending : Ending) :
    List Scan → Except ReadError (List α)
  | [] => if ending = .closed then .ok [] else .error .notJson
  | v :: rest => do
    let a ← r origin v
    let as ← items r origin ending rest
    return a :: as

/-- Reads an array of any length. -/
def list {α : Type} (r : Reader α) : Reader (List α) := fun origin scan =>
  match scan with
  | .array vs ending => do items r (← origin.enter) ending vs
  | scan => .error (mismatch scan)

/-- Reads the fields of an object with any names. -/
def fieldsOf (origin : Origin) (ending : Ending) (before : Fields) :
    List (Option String × Scan) → Except ReadError Fields
  | [] => if ending = .closed then .ok before else .error .notJson
  | (none, _) :: _ => .error .notJson
  | (some n, v) :: rest => do
    let v ← any origin v
    fieldsOf origin ending (before.insert n v) rest

/-- Reads an object with any fields. -/
def fields : Reader Fields := fun origin scan =>
  match scan with
  | .object fs ending => do fieldsOf (← origin.enter) ending [] fs
  | scan => .error (mismatch scan)

/-- The case with a given name. -/
def caseNamed {α : Type} (cases : List (String × α)) (name : String) : Except ReadError α :=
  match cases.find? (·.1 == name) with
  | some c => .ok c.2
  | none => .error .wrongShape

/-- Reads the case of an enumeration from an object whose one field names it and holds null. -/
def caseField {α : Type} (cases : List (String × α)) (origin : Origin) (ending : Ending) :
    List (Option String × Scan) → Except ReadError α
  | [] =>
    match origin with
    | .value => .error .wrongShape
    | .text _ => .error .notJson
  | (none, _) :: _ => .error .notJson
  | (some n, v) :: rest => do
    let a ← caseNamed cases n
    match v with
    | .null =>
      if rest.isEmpty && ending == .closed then return a
      else
        match origin with
        | .value => throw .wrongShape
        | .text _ => throw .notJson
    | v => throw (mismatch v)

/--
Reads one of several named cases: its name, or an object with that name as its only key and null
as the value. In a text, anything that is neither a string nor an object counts as not JSON.
-/
def cases {α : Type} (cs : List (String × α)) : Reader α := fun origin scan =>
  match scan with
  | .string (some s) => caseNamed cs s
  | .object fs ending => do caseField cs (← origin.enter) ending fs
  | scan =>
    match origin with
    | .value => .error (mismatch scan)
    | .text _ => .error .notJson

/-- Reads from a value that is complete already. -/
def ofValue {α : Type} (r : Reader α) (v : Json) : Except ReadError α :=
  r .value (.ofValue v)

/-- Reads from a text, after which only white space may follow. -/
def ofText {α : Type} (r : Reader α) (s : String) : Except ReadError α :=
  let document := Document.ofText s
  match r (.text maxDepth) document.value with
  | .error e => .error e
  | .ok a => if document.complete then .ok a else .error .notJson

end Reader

end WorkflowRules.Json
