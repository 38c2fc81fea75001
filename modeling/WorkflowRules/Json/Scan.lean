import WorkflowRules.Json.Token

/-!
# Scans: what is met when a JSON text is read from left to right

A `Scan` is the tree of a text up to the first place where the text stops being JSON. Everything
before that place is kept, so whoever reads a record from it meets the problems of shape and the
problems of form in the order of the text, and the first one decides.

* `Scan.fault` stands where a value should have started;
* the `ending` of an array or object tells whether its closing bracket was reached;
* keys and repeated keys are kept as they are written.

`Scan.ofValue` is the scan of a value that was never a text: it has no fault, and every
container is closed.

## Termination

The tree is built by `assemble`, one token at a time, with the containers that are still open on a
stack. There is no recursion into the text.
-/

namespace WorkflowRules.Json

/-- How a container ends. -/
inductive Ending where
  /-- With its closing bracket. -/
  | closed
  /-- The text stops being JSON inside the container. -/
  | broken
deriving DecidableEq, Repr

/-- The tree of a text up to its first fault. -/
inductive Scan where
  | fault
  | null
  | bool (b : Bool)
  | number (value : Option Number)
  | string (value : Option String)
  | array (items : List Scan) (ending : Ending)
  | object (fields : List (Option String × Scan)) (ending : Ending)

/-- A whole text: its first value, and whether only white space follows. -/
structure Document where
  value : Scan
  complete : Bool

namespace Scan

/-- A container that is still open; its parts are listed newest first. -/
inductive Frame where
  /-- Between the items of an array. -/
  | array (items : List Scan)
  /-- Between the fields of an object. -/
  | object (fields : List (Option String × Scan))
  /-- Inside an object, where the value of a key is read. -/
  | field (fields : List (Option String × Scan)) (key : Option String)

/-- What may come next. -/
inductive Expecting where
  | value
  /-- A value, or the end of an array that has just begun. -/
  | firstItem
  /-- A key, or the end of an object that has just begun. -/
  | firstKey
  | key
  | colon (key : Option String)
  /-- A comma, or the end of the innermost container. -/
  | separator

/-- Closes the containers around a value in which the text broke off. -/
def unwind (v : Scan) : List Frame → Scan
  | [] => v
  | .array items :: outer => unwind (.array (v :: items).reverse .broken) outer
  | .object fields :: outer => unwind (.object fields.reverse .broken) outer
  | .field fields key :: outer => unwind (.object ((key, v) :: fields).reverse .broken) outer

/-- The tree of a text that breaks off between two parts of the innermost container. -/
def breakOff : List Frame → Scan
  | [] => .fault
  | .array items :: outer => unwind (.array items.reverse .broken) outer
  | .object fields :: outer => unwind (.object fields.reverse .broken) outer
  | .field fields key :: outer => unwind (.object ((key, .fault) :: fields).reverse .broken) outer

/-- What has been read so far, and what may follow. -/
inductive Progress where
  | open (stack : List Frame) (next : Expecting)
  | done (v : Scan)

/-- Puts a complete value into the innermost container. -/
def place (v : Scan) : List Frame → Progress
  | [] => .done v
  | .array items :: outer => .open (.array (v :: items) :: outer) .separator
  | .field fields key :: outer => .open (.object ((key, v) :: fields) :: outer) .separator
  | .object fields :: outer => .open (.object fields :: outer) .separator

/-- Reads one token where a value may start; `none` when none does. -/
def startValue? (stack : List Frame) : Token → Option Progress
  | .openArray => some (.open (.array [] :: stack) .firstItem)
  | .openObject => some (.open (.object [] :: stack) .firstKey)
  | .null => some (place .null stack)
  | .bool b => some (place (.bool b) stack)
  | .number n => some (place (.number n) stack)
  | .string s => some (place (.string s) stack)
  | _ => none

/-- The key of the next field of the innermost object. -/
def startField (key : Option String) : List Frame → List Frame
  | .object fields :: outer => .field fields key :: outer
  | stack => stack

/-- Closes the innermost container. -/
def close? (object : Bool) : List Frame → Option Progress
  | .array items :: outer =>
    if object then none else some (place (.array items.reverse .closed) outer)
  | .object fields :: outer =>
    if object then some (place (.object fields.reverse .closed) outer) else none
  | _ => none

/-- What a comma in the innermost container leads to. -/
def afterComma : List Frame → Expecting
  | .object _ :: _ => .key
  | _ => .value

/-- Reads one token; the left side is the tree of a text that breaks off at this token. -/
def step (stack : List Frame) (next : Expecting) (t : Token) : Except Scan Progress :=
  match next with
  | .value =>
    match startValue? stack t with
    | some p => .ok p
    | none => .error (unwind .fault stack)
  | .firstItem =>
    match t with
    | .closeArray => (close? false stack).elim (.error (breakOff stack)) .ok
    | t =>
      match startValue? stack t with
      | some p => .ok p
      | none => .error (unwind .fault stack)
  | .firstKey =>
    match t with
    | .string key => .ok (.open (startField key stack) (.colon key))
    | .closeObject => (close? true stack).elim (.error (breakOff stack)) .ok
    | _ => .error (breakOff stack)
  | .key =>
    match t with
    | .string key => .ok (.open (startField key stack) (.colon key))
    | _ => .error (breakOff stack)
  | .colon _ =>
    match t with
    | .colon => .ok (.open stack .value)
    | _ => .error (unwind .fault stack)
  | .separator =>
    match t with
    | .comma => .ok (.open stack (afterComma stack))
    | .closeArray => (close? false stack).elim (.error (breakOff stack)) .ok
    | .closeObject => (close? true stack).elim (.error (breakOff stack)) .ok
    | _ => .error (breakOff stack)

/-- The tree of a text that ends too early. -/
def atEnd (stack : List Frame) : Expecting → Scan
  | .value | .firstItem | .colon _ => unwind .fault stack
  | .firstKey | .key | .separator => breakOff stack

/-- Builds the tree of a list of tokens. -/
def assemble (stack : List Frame) (next : Expecting) : List Token → Document
  | [] => ⟨atEnd stack next, false⟩
  | t :: rest =>
    match step stack next t with
    | .error v => ⟨v, false⟩
    | .ok (.done v) => ⟨v, rest.isEmpty⟩
    | .ok (.open stack next) => assemble stack next rest

mutual

/-- The scan of a value that was never a text. -/
def ofValue : Json → Scan
  | .null => .null
  | .bool b => .bool b
  | .number n => .number (some n)
  | .string s => .string (some s)
  | .array items => .array (ofItems items) .closed
  | .object fields => .object (ofFields fields) .closed

/-- The scans of the items of an array. -/
def ofItems : List Json → List Scan
  | [] => []
  | v :: rest => ofValue v :: ofItems rest

/-- The scans of the fields of an object. -/
def ofFields : List (String × Json) → List (Option String × Scan)
  | [] => []
  | (n, v) :: rest => (some n, ofValue v) :: ofFields rest

end

mutual

/-- Whether a value may be skipped: nothing in it is broken. -/
def skippable : Scan → Bool
  | .fault => false
  | .array items ending => ending == .closed && skippableItems items
  | .object fields ending => ending == .closed && skippableFields fields
  | _ => true

/-- Whether every item may be skipped. -/
def skippableItems : List Scan → Bool
  | [] => true
  | v :: rest => skippable v && skippableItems rest

/-- Whether the value of every field may be skipped. -/
def skippableFields : List (Option String × Scan) → Bool
  | [] => true
  | (_, v) :: rest => skippable v && skippableFields rest

end

/-- How many more containers may be nested; `none` sets no limit. -/
abbrev Room := Option Nat

/-- The room inside a container, if there is room for one. -/
def Room.enter? : Room → Option Room
  | none => some none
  | some 0 => none
  | some (n + 1) => some (some n)

mutual

/--
The value of a scan with no more nested containers than there is room for, in which nothing is
broken, too large or half a surrogate pair. Of fields with one name the last counts.
-/
def toValue? (room : Room) : Scan → Option Json
  | .fault => none
  | .null => some .null
  | .bool b => some (.bool b)
  | .number n => n.map .number
  | .string s => s.map .string
  | .array items ending =>
    match room.enter?, ending with
    | some inner, .closed => (toItems? inner items).map .array
    | _, _ => none
  | .object fields ending =>
    match room.enter?, ending with
    | some inner, .closed => (toFields? inner [] fields).map .object
    | _, _ => none

/-- The values of the items of an array. -/
def toItems? (room : Room) : List Scan → Option (List Json)
  | [] => some []
  | v :: rest =>
    match toValue? room v, toItems? room rest with
    | some v, some vs => some (v :: vs)
    | _, _ => none

/-- The values of the fields of an object, added to those before them. -/
def toFields? (room : Room) (before : Fields) : List (Option String × Scan) → Option Fields
  | [] => some before
  | (none, _) :: _ => none
  | (some n, v) :: rest =>
    match toValue? room v with
    | some v => toFields? room (before.insert n v) rest
    | none => none

end

end Scan

/-- The scan of a JSON text. -/
def Document.ofText (s : String) : Document :=
  Scan.assemble [] .value (tokens s.toList)

/-- How many containers may be nested in a text. -/
def maxDepth : Nat := 127

/-- The value of a JSON text; `none` when the text is not JSON. -/
def parse? (s : String) : Option Json :=
  let document := Document.ofText s
  if document.complete then document.value.toValue? (some maxDepth) else none

end WorkflowRules.Json
