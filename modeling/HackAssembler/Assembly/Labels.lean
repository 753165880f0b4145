import HackAssembler.Assembly.Error
import HackAssembler.Source.Line

/-! # Label declarations

The first reading of a source binds each declared label to the number of instructions before
it. Of an instruction line it looks at the first token only; a declaration has to be whole. -/
namespace HackAssembler.Assembly

open Source

/-- What the first reading sees in a line. -/
inductive Outline
  | blank
  | instruction
  | label (name : String) (pos : Nat)
  deriving DecidableEq

/-- Behind the name and the parenthesis of a declaration the line must end. -/
def Outline.ofLabelEnd (name : String) (pos : Nat) : Line → Except Error Outline
  | .newline _ => .ok (.label name pos)
  | .fault error => .error (.lexical error)
  | .token found _ => .error (unexpected (.token .newline) found.lexeme.kind found.pos)

/-- Behind the name of a declaration its parenthesis must close. -/
def Outline.ofLabelName (name : String) (pos : Nat) (ahead : Option LexError) :
    Line → Except Error Outline
  | .token ⟨.closeParen, _⟩ rest => ofLabelEnd name pos rest
  | .token found rest =>
    match rest.startFault with
    | some error => .error (.lexical error)
    | none => .error (unexpected (.token .closeParen) found.lexeme.kind found.pos)
  | .newline newline =>
    match ahead with
    | some error => .error (.lexical error)
    | none => .error (unexpected (.token .closeParen) .newline newline)
  | .fault error => .error (.lexical error)

/-- Behind the opening parenthesis of a declaration its name must come. -/
def Outline.ofLabel (ahead : Option LexError) : Line → Except Error Outline
  | .token found rest =>
    match rest.startFault with
    | some error => .error (.lexical error)
    | none =>
      match found.lexeme with
      | .symbol name => ofLabelName name found.pos ahead rest
      | other => .error (unexpected (.token .symbol) other.kind found.pos)
  | .newline newline =>
    match ahead with
    | some error => .error (.lexical error)
    | none => .error (unexpected (.token .symbol) .newline newline)
  | .fault error => .error (.lexical error)

/-- A token is judged when the one behind it has been read, so a fault there comes first;
`ahead` is the fault with which the next line begins. -/
def Outline.ofLine (ahead : Option LexError) : Line → Except Error Outline
  | .newline _ => .ok .blank
  | .fault error => .error (.lexical error)
  | .token first rest =>
    match rest.startFault with
    | some error => .error (.lexical error)
    | none =>
      match first.lexeme with
      | .atSign | .fragment _ =>
        match rest.fault? with
        | some error => .error (.lexical error)
        | none => .ok .instruction
      | .openParen => ofLabel ahead rest
      | other => .error (.source (.statementStart other.kind) first.pos)

/-- The fault with which the first of some lines begins. -/
def startFault (lines : List Line) : Option LexError :=
  lines.head?.bind Line.startFault

/-- Binds the labels of all lines, where `address` instructions came before the first. -/
def bindLabels (table : SymbolTable) (address : Nat) : List Line → Except Error SymbolTable
  | [] => .ok table
  | line :: rest =>
    match Outline.ofLine (startFault rest) line with
    | .error error => .error error
    | .ok .blank => bindLabels table address rest
    | .ok .instruction => bindLabels table (address + 1) rest
    | .ok (.label name pos) =>
      match table.declareLabel name address with
      | .error error => .error (.source (.label error) pos)
      | .ok table => bindLabels table address rest

end HackAssembler.Assembly
