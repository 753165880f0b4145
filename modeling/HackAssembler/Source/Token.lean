/-! # Tokens

The lexical units of an assembly source. -/
namespace HackAssembler.Source

inductive Kind
  | endOfInput
  | newline
  | atSign
  | openParen
  | closeParen
  | equal
  | semicolon
  | symbol
  | number
  | fragment
  deriving DecidableEq

namespace Kind

def all : List Kind :=
  [endOfInput, newline, atSign, openParen, closeParen, equal, semicolon, symbol, number, fragment]

/-- How a message names the kind. -/
def describe : Kind → String
  | endOfInput => "end of input"
  | newline => "newline"
  | atSign => "`@`"
  | openParen => "`(`"
  | closeParen => "`)`"
  | equal => "`=`"
  | semicolon => "`;`"
  | symbol => "symbol"
  | number => "number"
  | fragment => "computation"

end Kind

/-- A fragment is a word that names a destination, a computation or a jump. -/
inductive Lexeme
  | endOfInput
  | newline
  | atSign
  | openParen
  | closeParen
  | equal
  | semicolon
  | symbol (name : String)
  | number (digits : String)
  | fragment (word : String)
  deriving DecidableEq

namespace Lexeme

def kind : Lexeme → Kind
  | endOfInput => .endOfInput
  | newline => .newline
  | atSign => .atSign
  | openParen => .openParen
  | closeParen => .closeParen
  | equal => .equal
  | semicolon => .semicolon
  | symbol _ => .symbol
  | number _ => .number
  | fragment _ => .fragment

/-- The word a token carries; punctuation carries none. -/
def text : Lexeme → String
  | symbol name => name
  | number digits => digits
  | fragment word => word
  | _ => ""

end Lexeme

/-- A lexeme and the offset of its first character. -/
structure Token where
  lexeme : Lexeme
  pos : Nat
  deriving DecidableEq

end HackAssembler.Source
