import HackAssembler.Instruction.Word
import HackAssembler.Symbol.Table
import HackAssembler.Text.Line
import HackAssembler.Text.Numeral

/-! # Listings

A listing shows each line of a binary beside the instruction it decodes to, and then the
symbols of the program. -/
namespace HackAssembler.Report

open Text

/-- Reads a binary numeral of a word, which may have a plus sign. -/
def readWord? (line : List Char) : Option Word :=
  let digits :=
    match line with
    | '+' :: digits => digits
    | digits => digits
  if digits.isEmpty then none else (readNumeral 2 0xFFFF digits).map (BitVec.ofNat 16)

/-- The instruction that a line of a binary stands for. -/
def decodeLine? (line : List Char) : Option Instruction :=
  match readWord? line with
  | none => none
  | some word => (Instruction.decode word).toOption

def rule : String :=
  String.ofList (List.replicate 25 '-' ++ '+' :: List.replicate 30 '-')

/-- Marks a line that is no instruction. -/
def unknownMark : Styled :=
  [.strong .red "??"]

def wordRow (address : Nat) (line : List Char) : Styled :=
  .plain ("[" ++ hexadecimal 4 address ++ "] " ++ String.ofList line ++ " | ") ::
    ((decodeLine? line).elim unknownMark Instruction.styled)

/-- Labels stand in parentheses, as they are declared. -/
def symbolName (symbol : Binding) : Styled :=
  match symbol.kind with
  | .variable => [.colored .cyan symbol.name]
  | _ => [.colored .green ("(" ++ symbol.name ++ ")")]

def symbolRow (symbol : Binding) : Styled :=
  .plain (rightAligned 6 symbol.address ++ "  0x" ++ hexadecimal 4 symbol.address ++ "        | ")
    :: symbolName symbol

/-- The rows of a binary between two rules, and a row for each label and variable. -/
def listing (binary : String) (symbols : SymbolTable) : List Styled :=
  [.plain rule] :: ((rows binary.toList).mapIdx wordRow ++
    [.plain rule] :: symbols.user.map symbolRow)

end HackAssembler.Report
