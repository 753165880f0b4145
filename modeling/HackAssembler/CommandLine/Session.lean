import HackAssembler.CommandLine.Run
import HackAssembler.Files.System

/-! # Sessions

A run against some files, with what it printed on either stream. -/
namespace HackAssembler.CommandLine

structure Session (F : Type := Store) where
  store : F
  stdout : String
  stderr : String

namespace Session

variable {F : Type}

def ofStore (store : F) : Session F :=
  ⟨store, "", ""⟩

def print (session : Session F) (text : String) : Stream → Session F
  | .stdout => { session with stdout := session.stdout ++ text }
  | .stderr => { session with stderr := session.stderr ++ text }

instance : Terminal (StateM (Session F)) where
  print stream text := modify fun session => session.print text stream

variable [FileSystem F]

instance : FileAccess (StateM (Session F)) where
  readText path := return FileSystem.read (← get).store path
  writeText path text := do
    match FileSystem.write (← get).store path text with
    | .ok store =>
      modify fun session => { session with store }
      return .ok ()
    | .error fault => return .error fault

/-- The exit status for some arguments, and the session after the run. -/
def execute (store : F) (arguments : List String) : ExitStatus × Session F :=
  match Options.ofArguments arguments with
  | none => (.misuse, ofStore store)
  | some options => (run options : StateM (Session F) ExitStatus).run (ofStore store)

end Session

end HackAssembler.CommandLine
