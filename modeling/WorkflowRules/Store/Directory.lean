import WorkflowRules.Collection.SortBy
import WorkflowRules.Store.Address

/-!
# Opening a database

A database in a file is opened in two steps. First the directory of the path as it is written in the
address is made, with all directories above it; then the file that the address leads to is opened,
and created if it is missing. A file is only created in a directory that exists.

The file system is a tree below the working directory. What lies outside of it is not part of the
model: the directories above exist and hold no files, and below them anything can be made. Names are
bytes; names and paths have a greatest length.
-/

namespace WorkflowRules.Store

open Text (utf8Bytes decodeLossy)

/-- A name in the file system. -/
abbrev FileName := List UInt8

/-- The greatest length of a name. -/
def maxNameBytes : Nat := 255

/-- A place in the file system. -/
inductive Place where
  /-- The names on the way from the working directory. -/
  | inside (names : List FileName)
  /-- The names on the way from the root or from a directory above the working directory. -/
  | outside (names : List FileName)
deriving DecidableEq, Repr

namespace Place

/-- The place that one name leads to. -/
def step (place : Place) (name : FileName) : Place :=
  match place with
  | .outside names =>
    if name = utf8Bytes ".." then .outside names.dropLast else .outside (names ++ [name])
  | .inside names =>
    if name = utf8Bytes ".." then (if names.isEmpty then .outside [] else .inside names.dropLast)
    else .inside (names ++ [name])

/-- The place above a place. -/
def above : Place → Place
  | .outside names => .outside names.dropLast
  | .inside names => .inside names.dropLast

end Place

/-- The length of names that are written one after the other, each after a slash. -/
def writtenBytes (names : List FileName) : Nat := (names.map fun n => n.length + 1).foldr (· + ·) 0

/-- A path: where it starts, and the names that follow. -/
structure FilePath where
  start : Place
  names : List FileName
deriving DecidableEq, Repr

namespace FilePath

/-- The path that bytes denote; empty names and single points lead nowhere. -/
def ofBytes (bytes : List UInt8) : FilePath :=
  { start := if ['/'.toUInt8].isPrefixOf bytes then .outside [] else .inside []
    names := (Target.parts '/'.toUInt8 bytes).filter fun n => n ≠ [] && n ≠ utf8Bytes "." }

/-- The place that a path leads to. -/
def place (p : FilePath) : Place := p.names.foldl Place.step p.start

/-- The path without its last name. -/
def parent (p : FilePath) : FilePath := { p with names := p.names.dropLast }

/-- The greatest length of the path of a database, from the root of the file system. -/
def maxBytes : Nat := 504

/-- The length that is taken for the path of the working directory. -/
def workingBytes : Nat := 16

/-- The place that the path of a database leads to, if the path is not too long. -/
def databasePlace? (p : FilePath) : Option Place :=
  if p.names.all (·.length ≤ maxNameBytes) then
    match p.place with
    | .outside names => some (.outside names)
    | .inside names =>
      if workingBytes + writtenBytes names ≤ maxBytes then some (.inside names) else none
  else none

end FilePath

/-- The directories and files below the working directory. -/
structure Directory where
  directories : List (List FileName)
  files : List (List FileName)
deriving DecidableEq, Repr

/-- What is at a place. -/
inductive Kind where
  | directory
  | file
  | missing
deriving DecidableEq, Repr

namespace Directory

/-- A directory with some empty files. -/
def ofFiles (names : List String) : Directory := ⟨[], names.map fun n => [utf8Bytes n]⟩

/-- What is at a place; the working directory exists, and every directory outside of it. -/
def kind (d : Directory) : Place → Kind
  | .outside _ => .directory
  | .inside names =>
    if names.isEmpty || d.directories.contains names then .directory
    else if d.files.contains names then .file
    else .missing

/-- Adds a directory. -/
def addDirectory (d : Directory) : Place → Directory
  | .outside _ => d
  | .inside names => { d with directories := d.directories ++ [names] }

/-- Adds an empty file. -/
def addFile (d : Directory) : Place → Directory
  | .outside _ => d
  | .inside names => { d with files := d.files ++ [names] }

/-- Makes every missing directory on a way; tells whether a directory is at its end. -/
def makeAll (d : Directory) (place : Place) : List FileName → Directory × Bool
  | [] => (d, true)
  | name :: rest =>
    let next := place.step name
    if maxNameBytes < name.length then (d, false)
    else
      match d.kind next with
      | .directory => makeAll d next rest
      | .file => (d, false)
      | .missing => makeAll (d.addDirectory next) next rest

/-- The greatest length of the path of a directory that is made. -/
def maxDirectoryBytes : Nat := 4095

/-- Makes the directory of a path; nothing is made when the path of the directory is no path. -/
def makeParent (d : Directory) (path : String) : Directory × Bool :=
  let parent := (FilePath.ofBytes (utf8Bytes path)).parent
  if parent.names.any (·.contains 0) || maxDirectoryBytes < writtenBytes parent.names then
    (d, false)
  else d.makeAll parent.start parent.names

/-- Opens a file, and creates it if it is missing and may be created. -/
def openFile (d : Directory) (access : Access) (place : Place) : Directory × Bool :=
  match place with
  | .outside names => (d, !names.isEmpty && access = .create)
  | .inside _ =>
    match d.kind place with
    | .directory => (d, false)
    | .file => (d, true)
    | .missing =>
      if access = .create && d.kind place.above = .directory then (d.addFile place, true)
      else (d, false)

/-- Opens what a target names in the file system; the empty name is that of a temporary file. -/
def openNamed (d : Directory) (t : Target) : Directory × Bool :=
  let patternExists :=
    t.pattern.all fun p => p ≠ [] && d.kind (FilePath.ofBytes p).place ≠ .missing
  match t.medium with
  | .memory => (d, true)
  | .file access =>
    if t.name = [] ∨ t.name = utf8Bytes ":memory:" then (d, true)
    else
      match (FilePath.ofBytes t.name).databasePlace?, patternExists with
      | some place, true => d.openFile access place
      | _, _ => (d, false)

/-- The file layer that keeps every file in memory. -/
def memoryLayer : String := "memdb"

/-- The file layers that work on the file system. -/
def fileLayers : List String := ["unix", "unix-none", "unix-dotfile", "unix-excl"]

/-- Opens a target. -/
def openTarget (d : Directory) (t : Target) : Directory × Bool :=
  match t.layer with
  | none => d.openNamed t
  | some layer =>
    if layer = memoryLayer then (d, true)
    else if fileLayers.contains layer then d.openNamed t
    else (d, false)

/-- Opens the database at an address; tells whether it is open. -/
def connect (d : Directory) (url : String) : Directory × Bool :=
  let prepared :=
    match Address.directoryPath? url with
    | none => (d, true)
    | some path => d.makeParent path
  if prepared.2 then
    match (Address.parse? url).bind Address.target? with
    | none => (prepared.1, false)
    | some t => prepared.1.openTarget t
  else prepared

/-- Everything in the tree, in ascending order; a slash follows the name of a directory. -/
def listing (d : Directory) : List String :=
  let path (names : List FileName) : String := "/".intercalate (names.map decodeLossy)
  sortBy id (d.directories.map (path · ++ "/") ++ d.files.map path)

end Directory

end WorkflowRules.Store
