import HackAssembler.CommandLine.Options
import HackAssembler.Output.MemorySink
import HackAssembler.Report.Diagnostic
import HackAssembler.Report.Listing
import HackAssembler.Symbol.Table

/-! # Runs of the assembler

What a run reads, prints and writes. In console mode the standard output carries the words
alone, and the report of progress goes to the other stream. -/
namespace HackAssembler.CommandLine

open Assembly Output Report Text

inductive ExitStatus
  | success
  | failure
  /-- The arguments could not be understood. -/
  | misuse
  deriving DecidableEq

def ExitStatus.code : ExitStatus → UInt32
  | success => 0
  | failure => 1
  | misuse => 2

/-- What keeps a run from succeeding. -/
inductive RunError
  | assembly (error : Assembly.Error)
  | fileRead (path : String) (fault : FileFault)
  | fileWrite (path : String) (fault : FileFault)
  deriving DecidableEq

namespace RunError

def message : RunError → String
  | assembly error => error.message
  | fileRead path _ => "Failed to open file: " ++ path
  | fileWrite path _ => "Failed to write file: " ++ path

def pos? : RunError → Option Nat
  | assembly error => error.pos?
  | fileRead _ _ | fileWrite _ _ => none

end RunError

/-- The stream that tells how a run goes on. -/
def Options.progress (options : Options) : Stream :=
  if options.console then .stderr else .stdout

/-- The file that a program is written to, up to its extension. -/
def Options.target (options : Options) : String :=
  options.output.getD options.input

variable {m : Type → Type} [Monad m] [Terminal m] [FileAccess m]

def printStyled (stream : Stream) (lines : List Styled) : m Unit :=
  lines.forM fun line => stream.printLine line.render

def printDiagnostic (diagnostic : Diagnostic) : m Unit :=
  printStyled .stderr diagnostic.lines

/-- Says what went wrong, and where in the source. -/
def printError (options : Options) (code : String) (error : RunError) : m Unit :=
  printDiagnostic ⟨.error, error.message, options.input, error.pos?.map (locate code)⟩

/-- Writes the labels and variables to the file that is to have them. -/
def exportSymbols (options : Options) (table : SymbolTable) : m (Except RunError Unit) := do
  match options.symbols with
  | none => return .ok ()
  | some path =>
    options.progress.printLine "3. Export Symbols"
    options.progress.printLine ("  > " ++ path)
    match ← FileAccess.writeText path table.toYaml with
    | .ok () => return .ok ()
    | .error fault => return .error (.fileWrite path fault)

/-- Hands the program over, and what is asked for beside it. -/
def assembleInto {σ : Type} [Sink m σ] (options : Options) (code : String) (sink : σ) :
    m (Except RunError Unit) := do
  match ← deliver (Emission.ofSource code) sink with
  | (.error error, _) => return .error (.assembly error)
  | (.ok table, sink) =>
    let binary := Buffer.contents sink
    if binary.isEmpty then
      printDiagnostic ⟨.warning, s!"No instructions in `{options.input}`", options.input, none⟩
    if options.dump then
      printStyled options.progress (listing binary table)
    exportSymbols options table

/-- Assembles a source for the console or for a file. -/
def assembleSource (options : Options) (code : String) : m (Except RunError Unit) := do
  options.progress.printLine "2. Resolve Labels & Generate Binary"
  if options.console then assembleInto options code ConsoleSink.empty
  else
    let sink := FileSink.ofPath options.target
    options.progress.printLine ("  > " ++ sink.path)
    assembleInto options code sink

def run (options : Options) : m ExitStatus := do
  options.progress.printLine "Hack Assembler"
  options.progress.printLine "1. Read File"
  options.progress.printLine ("  < " ++ options.input)
  match ← FileAccess.readText options.input with
  | .error fault =>
    printError options "" (.fileRead options.input fault)
    return .failure
  | .ok code =>
    match ← assembleSource options code with
    | .error error =>
      printError options code error
      return .failure
    | .ok () =>
      printStyled options.progress [[.strong .green "Finished"]]
      return .success

end HackAssembler.CommandLine
