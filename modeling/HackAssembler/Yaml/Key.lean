import HackAssembler.Text.Numeral
import HackAssembler.Yaml.Plain

/-! # Mapping keys

A key is written plain where that reads back as the same text, else between single quotes, else
between double quotes with escapes. A key with newlines is a literal block if it can be one. -/
namespace HackAssembler.Yaml

open Text

def isBreak (c : Char) : Bool :=
  c == '\n' || c == '\r' || c == '\u0085' || c == '\u2028' || c == '\u2029'

/-- Printable characters need no escape. Tabs are not among them. -/
def isPrintable (c : Char) : Bool :=
  let n := c.toNat
  n == 0x0A || (0x20 ≤ n && n ≤ 0x7E) || (0xA0 ≤ n && n ≤ 0xD7FF) ||
    (0xE000 ≤ n && n ≤ 0xFFFD && n != 0xFEFF) || 0x10000 ≤ n

/-- Blanks, breaks and the null character keep an indicator apart from what follows. -/
def isGap (c : Char) : Bool :=
  c == ' ' || c == '\t' || c == '\x00' || isBreak c

def atGap : List Char → Bool
  | [] => true
  | c :: _ => isGap c

/-- A colon before a gap, or a number sign behind one, ends a plain scalar. -/
def hasInnerIndicator : List Char → Bool
  | [] => false
  | c :: rest =>
    if (c == ':' && atGap rest) || (isGap c && rest.head? = some '#') then true
    else hasInnerIndicator rest

def indicators : List Char :=
  ['#', ',', '[', ']', '{', '}', '&', '*', '!', '|', '>', '\'', '"', '%', '@', '`']

/-- Beginnings that have a meaning of their own. -/
def startsWithIndicator : List Char → Bool
  | [] => false
  | '-' :: '-' :: '-' :: _ => true
  | '.' :: '.' :: '.' :: _ => true
  | c :: rest => indicators.contains c || ((c == '?' || c == ':' || c == '-') && atGap rest)

/-- Whether a character of the first class is followed at once by one of the second. -/
def hasPair (first second : Char → Bool) : List Char → Bool
  | [] => false
  | c :: rest => if first c && rest.head?.any second then true else hasPair first second rest

def isSpace (c : Char) : Bool :=
  c == ' '

def plainAllowed (key : List Char) : Bool :=
  !(startsWithIndicator key || hasInnerIndicator key || key.head?.any isSpace ||
    key.getLast?.any isSpace || key.any fun c => isBreak c || !isPrintable c)

def singleAllowed (key : List Char) : Bool :=
  key.all isPrintable && !hasPair isSpace isBreak key && !hasPair isBreak isSpace key

def literalAllowed (key : List Char) : Bool :=
  key.all isPrintable && !hasPair isSpace isBreak key && !key.getLast?.any isSpace

inductive KeyStyle
  | plain
  | single
  | double
  | literal
  deriving DecidableEq

def KeyStyle.ofKey (key : String) : KeyStyle :=
  let chars := key.toList
  if chars.contains '\n' then if literalAllowed chars then literal else double
  else if !needsQuotes key && plainAllowed chars then plain
  else if singleAllowed chars then single
  else double

/-- Between double quotes: a letter where there is one, else the code point. -/
def escape (c : Char) : String :=
  match c with
  | '\x00' => "\\0"
  | '\x07' => "\\a"
  | '\x08' => "\\b"
  | '\t' => "\\t"
  | '\n' => "\\n"
  | '\x0b' => "\\v"
  | '\x0c' => "\\f"
  | '\r' => "\\r"
  | '\x1b' => "\\e"
  | '"' => "\\\""
  | '\\' => "\\\\"
  | '\u0085' => "\\N"
  | '\u2028' => "\\L"
  | '\u2029' => "\\P"
  | c =>
    if isPrintable c then c.toString
    else if c.toNat ≤ 0xFF then "\\x" ++ hexadecimal 2 c.toNat
    else if c.toNat ≤ 0xFFFF then "\\u" ++ hexadecimal 4 c.toNat
    else "\\U" ++ hexadecimal 8 c.toNat

/-- Continuation lines inside a key are set in by two. -/
def indented (atLineStart : Bool) (key : List Char) : List Char :=
  go [] atLineStart key
where
  go (written : List Char) (atLineStart : Bool) : List Char → List Char
    | [] => written.reverse
    | c :: rest =>
      if isBreak c then go (c :: written) true rest
      else if atLineStart then go (c :: ' ' :: ' ' :: written) false rest
      else go (c :: written) false rest

/-- A quote inside single quotes is written twice. -/
def singleQuoted (key : List Char) : List Char :=
  let body := indented false (key.flatMap fun c => if c == '\'' then ['\'', '\''] else [c])
  let gap := if key.getLast?.any isBreak then [' ', ' '] else []
  '\'' :: body ++ gap ++ ['\'']

def doubleQuoted (key : List Char) : List Char :=
  '"' :: key.flatMap (fun c => (escape c).toList) ++ ['"']

/-- A block says whether its first line begins with a gap, and how many newlines end it. -/
def literalHeader (key : List Char) : List Char :=
  let indentation := if key.head?.any fun c => isSpace c || isBreak c then ['2'] else []
  let ending :=
    match key.reverse with
    | [] => ['-']
    | [last] => if isBreak last then ['+'] else ['-']
    | last :: previous :: _ =>
      if !isBreak last then ['-'] else if isBreak previous then ['+'] else []
  '|' :: indentation ++ ending ++ ['\n']

/-- The key as it stands in the document, with whatever ends its line if that belongs to it. -/
def keyText (key : String) : String :=
  let chars := key.toList
  match KeyStyle.ofKey key with
  | .plain => key
  | .single => String.ofList (singleQuoted chars)
  | .double => String.ofList (doubleQuoted chars)
  | .literal => String.ofList (literalHeader chars ++ indented true chars)

/-- Long keys and keys of several lines are announced by a question mark. -/
def isComplex (key : String) : Bool :=
  key.utf8ByteSize > 128 || key.toList.any isBreak

/-- A key together with the indicators that lead to the block mapping it stands for. -/
def keyLines (key : String) : String :=
  if isComplex key then
    let gap :=
      if KeyStyle.ofKey key = .literal && key.toList.getLast?.any isBreak then "" else "\n"
    "? " ++ keyText key ++ gap ++ ": "
  else keyText key ++ ":\n  "

end HackAssembler.Yaml
