import HackAssembler.Text.Split

/-! # Files

Files are read and written whole, as text, and every access can fail. A path names a file by the
parts between its slashes. -/
namespace HackAssembler

inductive FileFault
  | notFound
  | notDirectory
  | isDirectory
  | nameTooLong
  | invalidName
  | invalidText
  /-- A fault that is known only by its description. -/
  | other (description : String)
  deriving DecidableEq

def FileFault.message : FileFault → String
  | notFound => "No such file or directory (os error 2)"
  | notDirectory => "Not a directory (os error 20)"
  | isDirectory => "Is a directory (os error 21)"
  | nameTooLong => "File name too long (os error 36)"
  | invalidName => "file name contained an unexpected NUL byte"
  | invalidText => "stream did not contain valid UTF-8"
  | other description => description

/-- What a computation needs in order to read and write files. -/
class FileAccess (m : Type → Type) where
  readText (path : String) : m (Except FileFault String)
  writeText (path text : String) : m (Except FileFault Unit)

end HackAssembler

namespace HackAssembler.Path

open Text

/-- The parts between the slashes. A path that begins with a slash has an empty first part. -/
def parts (path : String) : List String :=
  (splitOn '/' path.toList).map String.ofList

/-- Takes slashes, and the dots that stand for the directory before them, off the end of a path
given in reverse. -/
def trimEnd : List Char → List Char
  | '/' :: rest => trimEnd rest
  | '.' :: '/' :: rest => trimEnd rest
  | ['.'] => []
  | rest => rest

/-- The last name of a path and what comes before it, all in reverse. A path that ends at the
root, at the current directory or at a parent directory has no last name. -/
def lastName? (path : List Char) : Option (List Char × List Char) :=
  let trimmed := trimEnd path
  let name := trimmed.takeWhile (· != '/')
  if name.isEmpty || name == ['.', '.'] then none
  else some (name, trimmed.dropWhile (· != '/'))

/-- What stands before and behind the last dot of a name, in reverse. A name whose only dot is
its first character has no extension. -/
def splitExtension (name : List Char) : List Char × List Char :=
  match name.dropWhile (· != '.') with
  | '.' :: c :: rest => (c :: rest, name.takeWhile (· != '.'))
  | _ => (name, [])

/-- The length of the old extension is taken off the path before its last name is looked up
again: what is left of two dots and an extension is a parent directory, which has no name. -/
def dropExtension (path : List Char) : List Char :=
  match lastName? path with
  | none => path
  | some (name, _) => path.drop (splitExtension name).2.length

/-- Replaces the extension of the last name, or adds one; what follows the name is dropped. A
path without a last name gets no extension. -/
def withExtension (extension path : String) : String :=
  let shortened := dropExtension path.toList.reverse
  match lastName? shortened with
  | none => String.ofList shortened.reverse
  | some (name, directory) =>
    String.ofList (directory.reverse ++ (splitExtension name).1.reverse) ++ "." ++ extension

end HackAssembler.Path
