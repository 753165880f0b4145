import HackAssembler.Files.Basic
import HackAssembler.Instruction.Basic
import HackAssembler.Source.Lexer
import HackAssembler.Symbol.Table

/-! # Assembly errors

What can be wrong with a source, and where. -/
namespace HackAssembler

open Instruction Source

namespace Assembly

/-- What has to stand in a place. -/
inductive Expectation
  | token (kind : Kind)
  /-- The operand of a load. -/
  | operand
  deriving DecidableEq

def Expectation.describe : Expectation → String
  | token kind => kind.describe
  | operand => "symbol or number"

inductive SourceFault
  | unexpectedToken (expected : Expectation) (found : Kind)
  | statementStart (found : Kind)
  | valueTooLarge (operand : String)
  | mnemonic (error : MnemonicError)
  | label (error : LabelError)
  deriving DecidableEq

def SourceFault.message : SourceFault → String
  | unexpectedToken expected found => s!"Expected {expected.describe}, but got {found.describe}"
  | statementStart found => s!"A statement can't start with {found.describe}"
  | valueTooLarge operand => s!"Value exceeds the maximum of {maxLoad}: `{operand}`"
  | mnemonic error => error.message
  | label error => error.message

inductive Error
  | lexical (error : LexError)
  | source (fault : SourceFault) (pos : Nat)
  /-- The words could not be handed over. -/
  | sink (fault : FileFault)
  deriving DecidableEq

namespace Error

def message : Error → String
  | lexical error => "Lexer error: " ++ error.message
  | source fault _ => "Parser error: " ++ fault.message
  | sink fault => "Emitter error: " ++ fault.message

/-- The offset in the source that the error points at. -/
def pos? : Error → Option Nat
  | lexical error => some error.pos
  | source _ pos => some pos
  | sink _ => none

end Error

/-- The error for a token in whose place another is expected. -/
def unexpected (expected : Expectation) (found : Kind) (pos : Nat) : Error :=
  .source (.unexpectedToken expected found) pos

end Assembly

end HackAssembler
