import WorkflowRules.Text.Percent
import WorkflowRules.Text.Split
import WorkflowRules.Text.Utf8

/-!
# Addresses of databases

The address of a database is a URL: a scheme, a path, and parameters after a question mark. The path
may be percent encoded. The path `:memory:` and the parameter `mode=memory` stand for a database in
memory. An unknown parameter, or a value that a parameter does not take, makes the address unusable.

What is opened in the end is a `Target`. A path that begins with `file:` is a URI in its turn, with
an encoding and parameters of its own, unless the address says how the file is to be handled
(`immutable` or `vfs`): then the path is the name of a file as it stands. A byte zero cannot be
part of a name. Where an encoding hides one, the name ends there.
-/

namespace WorkflowRules.Store

open Text (occurs splitText percentDecode? percentBytes utf8Bytes decodeLossy)

/-- What a file may be opened for. Each kind allows what the kinds before it allow. -/
inductive Access where
  | read
  /-- Reading and writing a file that exists. -/
  | write
  /-- Reading and writing; a file that is missing is created. -/
  | create
deriving DecidableEq, Repr

namespace Access

/-- The place of a kind of access among all kinds. -/
def rank : Access → Nat
  | .read => 0
  | .write => 1
  | .create => 2

/-- The kind of access with a given name. -/
def named? (name : String) : Option Access :=
  if name = "ro" then some .read
  else if name = "rw" then some .write
  else if name = "rwc" then some .create
  else none

end Access

/-- Where a database is kept. -/
inductive Medium where
  /-- In memory, where everything is allowed. -/
  | memory
  | file (access : Access)
deriving DecidableEq, Repr

/-- Whether a medium may be changed to a file with the given access. -/
def Medium.allows : Medium → Access → Bool
  | .memory, _ => true
  | .file held, wanted => wanted.rank ≤ held.rank

/-- What is opened. -/
structure Target where
  /-- The name of a file, in bytes. -/
  name : List UInt8
  medium : Medium
  /-- The file layer to use, when it is not the usual one. -/
  layer : Option String := none
  /-- The file whose permissions a new file takes over. -/
  pattern : Option (List UInt8) := none
deriving DecidableEq, Repr

namespace Target

/-- A text of a URI decoded, up to the first byte zero. -/
def decodePart (bytes : List UInt8) : List UInt8 :=
  (percentBytes bytes).takeWhile (· ≠ 0)

/-- What is before the first occurrence of a byte, and what is after it. -/
def cut (separator : UInt8) (bytes : List UInt8) : List UInt8 × List UInt8 :=
  (bytes.takeWhile (· ≠ separator), (bytes.dropWhile (· ≠ separator)).drop 1)

/-- The parts of bytes between separators. -/
def parts (separator : UInt8) : List UInt8 → List (List UInt8)
  | [] => [[]]
  | b :: rest =>
    if b = separator then [] :: parts separator rest
    else
      match parts separator rest with
      | [] => [[b]]
      | first :: others => (b :: first) :: others

/-- The parameters of a URI with their values; one without a name is passed over. -/
def parameters (query : List UInt8) : List (List UInt8 × List UInt8) :=
  ((parts '&'.toUInt8 query).map fun part =>
    let (name, value) := cut '='.toUInt8 part
    (decodePart name, decodePart value)).filter fun p => p.1 ≠ []

/-- Applies one parameter of a URI; `none` when it does not take the value. -/
def withParameter? (t : Target) (name : String) (value : List UInt8) : Option Target :=
  if name = "vfs" then some { t with layer := some (decodeLossy value) }
  else if name = "cache" then
    if ["shared", "private"].contains (decodeLossy value) then some t else none
  else if name = "mode" then
    if decodeLossy value = "memory" then some { t with medium := .memory }
    else do
      let access ← Access.named? (decodeLossy value)
      if t.medium.allows access then some { t with medium := .file access } else none
  else if name = "modeof" then some { t with pattern := t.pattern.getD value }
  else some t

/-- Applies the parameters of a URI one after the other. -/
def withParameters? (t : Target) : List (List UInt8 × List UInt8) → Option Target
  | [] => some t
  | p :: rest => (withParameter? t (decodeLossy p.1) p.2).bind (withParameters? · rest)

/-- What follows an authority, which is either empty or that of the local host. -/
def afterAuthority? (bytes : List UInt8) : Option (List UInt8) :=
  match (utf8Bytes "//").isPrefixOf bytes with
  | false => some bytes
  | true =>
    let rest := bytes.drop 2
    let authority := rest.takeWhile (· ≠ '/'.toUInt8)
    if authority = [] ∨ authority = utf8Bytes "localhost" then
      some (rest.dropWhile (· ≠ '/'.toUInt8))
    else none

/-- The target of a URI without its scheme, on the medium that the address asks for. -/
def ofUri? (medium : Medium) (bytes : List UInt8) : Option Target := do
  let (path, query) := cut '?'.toUInt8 ((← afterAuthority? bytes).takeWhile (· ≠ '#'.toUInt8))
  let t : Target := { name := decodePart path, medium }
  t.withParameters? (parameters query)

end Target

/-- A parsed address. -/
structure Address where
  path : String
  medium : Medium := .file .create
  /-- Whether the file is said never to change. -/
  immutable : Bool := false
  /-- The file layer to use, when it is not the usual one. -/
  layer : Option String := none
deriving DecidableEq, Repr

namespace Address

/-- The scheme with which addresses begin, in its long form. -/
def longScheme : String := "sqlite://"

/-- The short form of the scheme. -/
def shortScheme : String := "sqlite:"

/-- What follows a scheme, if the text begins with it. -/
def afterScheme? (scheme : String) (cs : List Char) : Option (List Char) :=
  if scheme.toList.isPrefixOf cs then some (cs.drop scheme.toList.length) else none

/-- What is left when a scheme is taken away as often as the text begins with it. -/
def withoutScheme (scheme : String) : Nat → List Char → List Char
  | 0, cs => cs
  | n + 1, cs =>
    match afterScheme? scheme cs with
    | some rest => withoutScheme scheme n rest
    | none => cs

/-- The address without its schemes. -/
def body (url : String) : List Char :=
  let cs := url.toList
  withoutScheme shortScheme cs.length (withoutScheme longScheme cs.length cs)

/-- The part before the first question mark, and the part after it. -/
def splitQuery (cs : List Char) : String × Option String :=
  match cs.dropWhile (· ≠ '?') with
  | [] => (String.ofList cs, none)
  | _ :: query => (String.ofList (cs.takeWhile (· ≠ '?')), some (String.ofList query))

/-- The parameters of a query. -/
def parameters (query : String) : List (String × String) :=
  let decode (cs : List Char) : String :=
    decodeLossy
      (percentBytes (utf8Bytes (String.ofList (cs.map fun c => if c = '+' then ' ' else c))))
  ((splitText '&' query).filter (· ≠ "")).map fun p =>
    let cs := p.toList
    (decode (cs.takeWhile (· ≠ '=')), decode ((cs.dropWhile (· ≠ '=')).drop 1))

/-- Allows reading only; a database in memory stays there. -/
def readOnly (a : Address) : Address :=
  match a.medium with
  | .memory => a
  | .file _ => { a with medium := .file .read }

/-- Applies one parameter. -/
def withParameter? (a : Address) (name value : String) : Option Address :=
  if name = "mode" then
    if value = "ro" then some a.readOnly
    else if value = "rw" ∨ value = "rwc" then some a
    else if value = "memory" then some { a with medium := .memory }
    else none
  else if name = "cache" then
    if value = "private" ∨ value = "shared" then some a else none
  else if name = "immutable" then
    if value = "true" ∨ value = "1" then some { a with immutable := true }
    else if value = "false" ∨ value = "0" then some { a with immutable := false }
    else none
  else if name = "vfs" then some { a with layer := some value }
  else none

/-- Applies parameters one after the other. -/
def withParameters? (a : Address) : List (String × String) → Option Address
  | [] => some a
  | p :: rest => (withParameter? a p.1 p.2).bind (withParameters? · rest)

/-- Parses an address. -/
def parse? (url : String) : Option Address := do
  let (path, query) := splitQuery (body url)
  let a ← if path = ":memory:" then some { path := "", medium := .memory }
    else (percentDecode? path).map fun path => { path }
  match query with
  | none => return a
  | some q => a.withParameters? (parameters q)

/-- What an address leads to. -/
def target? (a : Address) : Option Target :=
  let bytes := utf8Bytes a.path
  let untilZero (s : String) : String := String.ofList (s.toList.takeWhile fun c => c.toNat ≠ 0)
  if a.immutable ∨ a.layer.isSome then
    some
      { name := bytes.takeWhile (· ≠ 0), medium := a.medium, layer := a.layer.map untilZero }
  else if bytes.contains 0 then none
  else
    match (utf8Bytes "file:").isPrefixOf bytes with
    | true => Target.ofUri? a.medium (bytes.drop 5)
    | false => some { name := bytes, medium := a.medium }

/-- The path whose directory is created before the address is used. -/
def directoryPath? (url : String) : Option String := do
  let rest ← (afterScheme? longScheme url.toList).orElse fun _ => afterScheme? shortScheme url.toList
  let path := (splitQuery rest).1
  if path = "" ∨ occurs ":memory:".toList path.toList then none else some path

end Address

end WorkflowRules.Store
