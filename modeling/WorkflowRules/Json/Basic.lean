import WorkflowRules.Number.Binary64

/-!
# JSON values

A number is an integer of at most 64 bits or a finite binary64 number. An object is a list of
fields in strictly ascending order of their names, and names are ordered by code point; `insert`
keeps that order, so equal objects are equal lists.

`same` is equality of values as the program sees it: numbers are the same when they have one kind
and one value, so `1` and `1.0` differ and both zeros of binary64 agree.
-/

namespace WorkflowRules

open Number (Binary64)

/-- The least integer that a JSON number holds as an integer. -/
def Json.minInteger : Int := -Int.pow 2 63

/-- The greatest integer that a JSON number holds as an integer. -/
def Json.maxInteger : Int := Int.pow 2 64 - 1

/-- A JSON number. -/
inductive Json.Number where
  | integer (n : Int) (inRange : Json.minInteger ≤ n ∧ n ≤ Json.maxInteger)
  | float (x : Binary64)
deriving DecidableEq

/-- A JSON value. -/
inductive Json where
  | null
  | bool (b : Bool)
  | number (n : Json.Number)
  | string (s : String)
  | array (items : List Json)
  | object (fields : List (String × Json))

namespace Json

/-- The fields of an object, in ascending order of their names. -/
abbrev Fields := List (String × Json)

/-! ## Numbers -/

/-- An integer as a number; one that 64 bits cannot hold becomes the nearest binary64 number. -/
def Number.ofInt (n : Int) : Number :=
  if h : minInteger ≤ n ∧ n ≤ maxInteger then .integer n h
  else .float ((Binary64.ofInt? n).getD .zero)

/-- Equality of numbers of one kind. -/
def Number.same : Number → Number → Bool
  | .integer m _, .integer n _ => m == n
  | .float x, .float y => x.orderKey == y.orderKey
  | _, _ => false

/-- The number as a binary64 number, rounded where needed. -/
def Number.toFloat : Number → Binary64
  | .integer n _ => (Binary64.ofInt? n).getD .zero
  | .float x => x

/-! ## Objects -/

namespace Fields

/-- The value of a field. -/
def get? (name : String) : Fields → Option Json
  | [] => none
  | (n, v) :: rest => if n = name then some v else get? name rest

/-- Adds a field in its place; a field of that name gives way. -/
def insert (name : String) (value : Json) : Fields → Fields
  | [] => [(name, value)]
  | (n, v) :: rest =>
    if name = n then (name, value) :: rest
    else if name < n then (name, value) :: (n, v) :: rest
    else (n, v) :: insert name value rest

/-- Fields given in any order, put in order; of two with one name the later counts. -/
def ofList (fields : List (String × Json)) : Fields :=
  fields.foldl (fun fs field => insert field.1 field.2 fs) []

theorem get?_insert_self (name : String) (value : Json) (fs : Fields) :
    get? name (insert name value fs) = some value := by
  induction fs with
  | nil => simp [insert, get?]
  | cons field rest ih =>
    obtain ⟨n, v⟩ := field
    unfold insert
    by_cases h : name = n
    · simp [h, get?]
    · by_cases hlt : name < n
      · simp [h, hlt, get?]
      · simp [h, hlt, get?, Ne.symm h, ih]

theorem get?_insert_of_ne {name other : String} (value : Json) (fs : Fields) (h : other ≠ name) :
    get? other (insert name value fs) = get? other fs := by
  induction fs with
  | nil => simp [insert, get?, Ne.symm h]
  | cons field rest ih =>
    obtain ⟨n, v⟩ := field
    unfold insert
    by_cases hn : name = n
    · subst hn
      simp [get?, Ne.symm h]
    · by_cases hlt : name < n
      · simp [hn, hlt, get?, Ne.symm h]
      · simp only [hn, hlt, if_false, get?, ih]

end Fields

/-- The object with the given fields. -/
def ofFields (fields : List (String × Json)) : Json := .object (Fields.ofList fields)

/-- The integer `n` as a JSON value. -/
def ofInt (n : Int) : Json := .number (Number.ofInt n)

/-- The natural number `n` as a JSON value. -/
def ofNat (n : Nat) : Json := ofInt n

/-- The list of texts as a JSON array. -/
def ofStrings (ss : List String) : Json := .array (ss.map .string)

/-- A text, or null when there is none. -/
def ofOption : Option String → Json
  | none => .null
  | some s => .string s

/-- The text that a string holds. -/
def text? : Json → Option String
  | .string s => some s
  | _ => none

/-! ## Equality -/

mutual

/-- Equality of values; numbers of different kinds differ. -/
def same : Json → Json → Bool
  | .null, .null => true
  | .bool a, .bool b => a == b
  | .number m, .number n => m.same n
  | .string s, .string t => s == t
  | .array xs, .array ys => sameItems xs ys
  | .object fs, .object gs => sameFields fs gs
  | _, _ => false

/-- Equality of arrays, item by item. -/
def sameItems : List Json → List Json → Bool
  | [], [] => true
  | x :: xs, y :: ys => same x y && sameItems xs ys
  | _, _ => false

/-- Equality of objects, field by field in their common order. -/
def sameFields : List (String × Json) → List (String × Json) → Bool
  | [], [] => true
  | (m, x) :: fs, (n, y) :: gs => m == n && same x y && sameFields fs gs
  | _, _ => false

end

end Json

end WorkflowRules
