import HackAssembler.Source.Lexer

/-! # Lines of tokens

The tokens of a source, cut at its newlines. A line is its tokens one after the other and then
either the newline that ends it or the fault that keeps the rest from being read. -/
namespace HackAssembler.Source

inductive Line
  | newline (pos : Nat)
  | fault (error : LexError)
  | token (head : Token) (rest : Line)
  deriving DecidableEq

namespace Line

/-- Puts tokens in front of a line, the last of them at the head of the list. -/
def prepend (reversed : List Token) (line : Line) : Line :=
  reversed.foldl (fun rest head => .token head rest) line

/-- The fault at the very start of a line. -/
def startFault : Line → Option LexError
  | fault error => some error
  | _ => none

/-- The fault that ends a line. -/
def fault? : Line → Option LexError
  | newline _ => none
  | fault error => some error
  | token _ rest => rest.fault?

/-- The tokens of a line, its newline left out. -/
def tokens : Line → List Token
  | newline _ => []
  | fault _ => []
  | token head rest => head :: rest.tokens

/-- Cuts tokens at the newlines; a fault behind them ends the last line. -/
def cut (tokens : List Token) (broken : Option LexError) : List Line :=
  go [] [] tokens
where
  go (done : List Line) (seen : List Token) : List Token → List Line
    | [] =>
      match broken with
      | some error => (prepend seen (.fault error) :: done).reverse
      | none => done.reverse
    | head :: rest =>
      match head.lexeme with
      | .newline => go (prepend seen (.newline head.pos) :: done) [] rest
      | .endOfInput => go done seen rest
      | _ => go done (head :: seen) rest

/-- The lines of a source, up to the first fault. -/
def ofSource (code : String) : List Line :=
  let scanned := (Lexer.ofString code).cursor.scan
  cut scanned.1 scanned.2

end Line

end HackAssembler.Source
