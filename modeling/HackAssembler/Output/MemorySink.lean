import HackAssembler.Output.Sink

/-! # Sinks in memory

A memory sink keeps the program and does nothing else. A console sink also prints it on the standard
output as it comes. -/
namespace HackAssembler

inductive Stream
  | stdout
  | stderr
  deriving DecidableEq

/-- What a computation needs in order to print. -/
class Terminal (m : Type → Type) where
  print (stream : Stream) (text : String) : m Unit

def Stream.printLine {m : Type → Type} [Terminal m] (stream : Stream) (line : String) : m Unit :=
  Terminal.print stream (line ++ "\n")

namespace Output

structure MemorySink where
  text : String
  deriving DecidableEq

def MemorySink.empty : MemorySink := ⟨""⟩

instance {m : Type → Type} [Monad m] : Sink m MemorySink where
  contents sink := sink.text
  write text sink := pure ⟨sink.text ++ text⟩
  finish sink := pure (.ok (), sink)

structure ConsoleSink where
  text : String
  deriving DecidableEq

def ConsoleSink.empty : ConsoleSink := ⟨""⟩

instance {m : Type → Type} [Monad m] [Terminal m] : Sink m ConsoleSink where
  contents sink := sink.text
  write text sink := do
    Terminal.print .stdout text
    return ⟨sink.text ++ text⟩
  finish sink := pure (.ok (), sink)

end Output

end HackAssembler
