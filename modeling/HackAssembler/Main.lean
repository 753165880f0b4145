import HackAssembler.CommandLine.Run

/-! # The assembler as a program -/
namespace HackAssembler

open CommandLine

/-- The fault that an error of the system stands for. -/
def FileFault.ofError : IO.Error → FileFault
  | .noFileOrDirectory .. => .notFound
  | .inappropriateType _ 21 _ => .isDirectory
  | .inappropriateType _ 20 _ => .notDirectory
  | error => .other (toString error)

instance : Terminal IO where
  print
    | .stdout, text => IO.print text
    | .stderr, text => IO.eprint text

instance : FileAccess IO where
  readText path := do
    try
      match String.fromUTF8? (← IO.FS.readBinFile ⟨path⟩) with
      | some text => return .ok text
      | none => return .error .invalidText
    catch error => return .error (.ofError error)
  writeText path text := do
    try
      IO.FS.writeFile ⟨path⟩ text
      return .ok ()
    catch error => return .error (.ofError error)

def usage : String :=
  "Usage: assembler [--console] [--dump] [--output FILE] [--symbols FILE] INPUT"

end HackAssembler

open HackAssembler CommandLine in
def main (arguments : List String) : IO UInt32 := do
  match Options.ofArguments arguments with
  | none =>
    IO.eprintln usage
    return ExitStatus.misuse.code
  | some options => return (← run options).code
