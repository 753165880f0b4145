import HackAssembler.Assembly.Error
import HackAssembler.Instruction.Word
import HackAssembler.Source.Line
import HackAssembler.Text.Numeral

/-! # Statements

An instruction as the source writes it, with operands still to be looked up. Reading one gives
back what follows it on its line, which has to be the newline. -/
namespace HackAssembler.Assembly

open Instruction Source Text

/-- What a load is written with. -/
inductive Value
  | literal (digits : String)
  | symbol (name : String)
  deriving DecidableEq

def Value.text : Value → String
  | literal digits => digits
  | symbol name => name

/-- The number that a value stands for, if a load can hold it. -/
def Value.resolve (table : SymbolTable) : Value → Option (Nat × SymbolTable)
  | .literal digits => (readNumeral 10 maxLoad digits.toList).map (·, table)
  | .symbol name =>
    let (address, table) := table.resolve name
    if address ≤ maxLoad then some (address, table) else none

inductive Statement
  | load (value : Value) (pos : Nat)
  | compute (dest : Destination) (comp : Computation) (jump : Option Jump)
  deriving DecidableEq

/-- A mnemonic error at the place of the mnemonic. -/
def located {α : Type} (pos : Nat) : Except MnemonicError α → Except Error α
  | .ok value => .ok value
  | .error error => .error (.source (.mnemonic error) pos)

namespace Statement

/-- Behind a semicolon the next token gives the jump, whichever it is. -/
def readJump (dest : Destination) (comp : Computation) : Line → Except Error (Statement × Line)
  | .token ⟨.semicolon, _⟩ (.token jump rest) => do
    let jump ← located jump.pos (Jump.read jump.lexeme.text)
    return (compute dest comp (some jump), rest)
  | .token ⟨.semicolon, _⟩ (.newline pos) => do
    let jump ← located pos (Jump.read "")
    return (compute dest comp (some jump), .newline pos)
  | .token ⟨.semicolon, _⟩ (.fault error) => .error (.lexical error)
  | rest => .ok (compute dest comp none, rest)

/-- Behind the equal sign that follows a destination. The computation is checked before the
destination. -/
def readAssigned (dest : String) (pos : Nat) : Line → Except Error (Statement × Line)
  | .token ⟨.fragment word, wordPos⟩ rest => do
    let comp ← located wordPos (Computation.read word)
    let dest ← located pos (Destination.read dest)
    readJump dest comp rest
  | .token found _ => .error (unexpected (.token .fragment) found.lexeme.kind found.pos)
  | .newline newline => .error (unexpected (.token .fragment) .newline newline)
  | .fault error => .error (.lexical error)

/-- Behind the word with which a computing line begins. -/
def readCompute (word : String) (pos : Nat) : Line → Except Error (Statement × Line)
  | .token ⟨.equal, _⟩ rest => readAssigned word pos rest
  | rest => do
    let comp ← located pos (Computation.read word)
    readJump .none comp rest

/-- Behind the sign with which a loading line begins. -/
def readLoad : Line → Except Error (Statement × Line)
  | .token ⟨.symbol name, pos⟩ rest => .ok (load (.symbol name) pos, rest)
  | .token ⟨.number digits, pos⟩ rest => .ok (load (.literal digits) pos, rest)
  | .token found _ => .error (unexpected .operand found.lexeme.kind found.pos)
  | .newline newline => .error (unexpected .operand .newline newline)
  | .fault error => .error (.lexical error)

/-- The statement of a line, unless the line is blank or declares a label. -/
def ofLine : Line → Except Error (Option (Statement × Line))
  | .newline _ => .ok none
  | .fault error => .error (.lexical error)
  | .token ⟨.openParen, _⟩ _ => .ok none
  | .token ⟨.atSign, _⟩ rest => some <$> readLoad rest
  | .token ⟨.fragment word, pos⟩ rest => some <$> readCompute word pos rest
  | .token found _ => .error (.source (.statementStart found.lexeme.kind) found.pos)

/-- The instruction of a statement. Looking a symbol up may bind it. -/
def resolve (table : SymbolTable) : Statement → Except Error (Instruction × SymbolTable)
  | .load value pos =>
    match value.resolve table with
    | some (number, table) => .ok (.load (BitVec.ofNat 16 number), table)
    | none => .error (.source (.valueTooLarge value.text) pos)
  | .compute dest comp jump => .ok (.compute dest comp jump, table)

end Statement

/-- Nothing may follow a statement on its line. -/
def requireNewline : Line → Except Error Unit
  | .newline _ => .ok ()
  | .fault error => .error (.lexical error)
  | .token found _ => .error (unexpected (.token .newline) found.lexeme.kind found.pos)

end HackAssembler.Assembly
