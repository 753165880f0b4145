import HackAssembler.Files.Basic

/-! # File stores

Directories and files by the names that lead to them. A path is followed from the root or from
the working directory, and every name on the way has to be a directory. -/
namespace HackAssembler

inductive Entry
  | directory
  | file (bytes : ByteArray)

structure Store where
  entries : List (List String × Entry)
  workingDirectory : List String

namespace Store

/-- The root is always there. -/
def entry? (store : Store) (place : List String) : Option Entry :=
  if place.isEmpty then some .directory else store.entries.lookup place

def put (store : Store) (place : List String) (entry : Entry) : Store :=
  { store with entries := (place, entry) :: store.entries.filter (·.1 != place) }

def maxNameBytes : Nat := 255

def maxPathBytes : Nat := 4095

/-- The place that one name leads to from a directory. -/
def step (place : List String) (name : String) : Except FileFault (List String) :=
  if name == "" || name == "." then .ok place
  else if name == ".." then .ok place.dropLast
  else if name.utf8ByteSize > maxNameBytes then .error .nameTooLong
  else .ok (place ++ [name])

/-- Follows names that all have to be directories. -/
def walk (store : Store) (place : List String) : List String → Except FileFault (List String)
  | [] => .ok place
  | name :: rest =>
    match step place name with
    | .error fault => .error fault
    | .ok place =>
      match store.entry? place with
      | some .directory => walk store place rest
      | some (.file _) => .error .notDirectory
      | none => .error .notFound

/-- The place that a path names, where nothing need be yet. -/
def place (store : Store) (path : String) : Except FileFault (List String) := do
  if path.toList.contains '\x00' then throw .invalidName
  if path.isEmpty then throw .notFound
  if path.utf8ByteSize > maxPathBytes then throw .nameTooLong
  let parts := Path.parts path
  let start := if path.startsWith "/" then [] else store.workingDirectory
  let directory ← store.walk start parts.dropLast
  step directory (parts.getLastD "")

def read (store : Store) (path : String) : Except FileFault String := do
  match store.entry? (← store.place path) with
  | none => throw .notFound
  | some .directory => throw .isDirectory
  | some (.file bytes) =>
    match String.fromUTF8? bytes with
    | some text => return text
    | none => throw .invalidText

/-- A store that could not be written to is left as it was. -/
def write (store : Store) (path text : String) : Except FileFault Store := do
  let place ← store.place path
  match store.entry? place with
  | some .directory => throw .isDirectory
  | _ => return store.put place (.file text.toUTF8)

end Store

end HackAssembler
