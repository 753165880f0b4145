import HackAssembler.Assembly.Emission
import HackAssembler.Files.Basic

/-! # Sinks

A sink takes the words of a program one line at a time, keeps what it was given, and is finished
once when the program is complete. A file sink holds the program back until then, so that a program
with errors leaves no file behind. The file is written once; a write that failed is tried again by
the next finish. -/
namespace HackAssembler.Output

open Assembly

/-- Keeps everything that was written to it. -/
class Buffer (σ : Type) where
  contents : σ → String

class Sink (m : Type → Type) (σ : Type) extends Buffer σ where
  write (text : String) (sink : σ) : m σ
  finish (sink : σ) : m (Except FileFault Unit × σ)

def writeLine {m : Type → Type} [Monad m] {σ : Type} [Sink m σ] (line : String) (sink : σ) : m σ :=
  Sink.write line sink >>= Sink.write "\n"

/-- Writes the words of an emission, and finishes the sink unless the emission broke off. -/
def deliver {m : Type → Type} [Monad m] {σ : Type} [Sink m σ] (emission : Emission) (sink : σ) :
    m (Except Error SymbolTable × σ) := do
  let sink ← emission.words.foldlM (fun sink word => writeLine word.text sink) sink
  match emission.outcome with
  | .error error => return (.error error, sink)
  | .ok table =>
    match ← Sink.finish sink with
    | (.ok (), sink) => return (.ok table, sink)
    | (.error fault, sink) => return (.error (.sink fault), sink)

/-! ### Files -/

/-- The extension of assembled programs. -/
def programExtension : String := "hack"

structure FileSink where
  path : String
  text : String
  written : Bool
  deriving DecidableEq

namespace FileSink

/-- Any extension of `path` gives way to that of programs. -/
def ofPath (path : String) : FileSink :=
  ⟨Path.withExtension programExtension path, "", false⟩

def finish {m : Type → Type} [Monad m] [FileAccess m] (sink : FileSink) :
    m (Except FileFault Unit × FileSink) := do
  if sink.written then return (.ok (), sink)
  match ← FileAccess.writeText sink.path sink.text with
  | .ok () => return (.ok (), { sink with written := true })
  | .error fault => return (.error fault, sink)

instance {m : Type → Type} [Monad m] [FileAccess m] : Sink m FileSink where
  contents sink := sink.text
  write text sink := pure { sink with text := sink.text ++ text }
  finish sink := sink.finish

end FileSink

end HackAssembler.Output
