import HackAssembler.Text.Split

/-! # Lines of a text

Two readings of a text as lines. `pieces` cuts at every newline and keeps the rest as it is;
`rows` are the lines one prints, each without its line ending. -/
namespace HackAssembler.Text

/-- What stands between the newlines: one piece more than there are newlines. -/
def pieces (text : List Char) : List (List Char) :=
  splitOn '\n' text

/-- A row ends with a newline, or a carriage return and a newline; only the last row may lack
its ending, and then keeps a carriage return. -/
def rows (text : List Char) : List (List Char) :=
  go [] [] text
where
  go (done : List (List Char)) (seen : List Char) : List Char → List (List Char)
    | [] => (if seen.isEmpty then done else seen.reverse :: done).reverse
    | c :: rest =>
      if c = '\n' then
        let row := if seen.head? = some '\r' then seen.tail else seen
        go (row.reverse :: done) [] rest
      else go done (c :: seen) rest

/-- Drops the carriage returns at the end of a piece. -/
def trimReturns (piece : List Char) : List Char :=
  (piece.reverse.dropWhile (· == '\r')).reverse

/-- A place in a text: line and column count from zero. -/
structure Location where
  line : Nat
  column : Nat
  text : String
  deriving DecidableEq

/-- The place of the character with offset `pos`. A newline belongs to the line it ends, and
an offset past the end is placed behind the last line. -/
def locate (code : String) (pos : Nat) : Location :=
  go 0 pos (pieces code.toList)
where
  go (line pos : Nat) : List (List Char) → Location
    -- Not reached: a text has at least one piece.
    | [] => ⟨line, pos, ""⟩
    | [last] => ⟨line, min pos last.length, String.ofList (trimReturns last)⟩
    | piece :: rest =>
      if pos ≤ piece.length then ⟨line, pos, String.ofList (trimReturns piece)⟩
      else go (line + 1) (pos - (piece.length + 1)) rest

end HackAssembler.Text
