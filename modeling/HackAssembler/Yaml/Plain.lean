import HackAssembler.Text.Numeral

/-! # Plain scalars that are not text

A plain scalar may read as nothing, a truth value or a number. Text spelled like one of these
has to be quoted. -/
namespace HackAssembler.Yaml

open Text

def readsAsNull (scalar : String) : Bool :=
  ["", "null", "Null", "NULL", "~"].contains scalar

def readsAsBool (scalar : String) : Bool :=
  ["true", "True", "TRUE", "false", "False", "FALSE"].contains scalar

def isSign (c : Char) : Bool :=
  c == '+' || c == '-'

def isDigit (c : Char) : Bool :=
  '0' ≤ c && c ≤ '9'

def dropSign : List Char → List Char
  | [] => []
  | c :: rest => if isSign c then rest else c :: rest

/-- Digits behind a leading zero make no number, but are quoted like one. -/
def isPaddedNumeral (scalar : List Char) : Bool :=
  match dropSign scalar with
  | '0' :: rest => !rest.isEmpty && rest.all isDigit
  | _ => false

/-- A numeral of at least one digit, with a radix mark if it is not decimal. -/
def readsAsNatural (limit : Nat) (numeral : List Char) : Bool :=
  let reads (radix : Nat) (digits : List Char) : Bool :=
    !digits.isEmpty && (readNumeral radix limit digits).isSome
  match numeral with
  | '0' :: 'x' :: digits => reads 16 digits
  | '0' :: 'o' :: digits => reads 8 digits
  | '0' :: 'b' :: digits => reads 2 digits
  | digits => reads 10 digits

/-- Natural numbers of up to 128 bits. -/
def naturalLimit : Nat := Nat.pow 2 128 - 1

/-- A negative number has its sign among its 128 bits. -/
def negativeLimit : Nat := Nat.pow 2 127

def readsAsInteger (scalar : List Char) : Bool :=
  !isPaddedNumeral scalar &&
    match scalar with
    | '-' :: numeral => readsAsNatural negativeLimit numeral
    | '+' :: numeral => readsAsNatural naturalLimit numeral
    | numeral => readsAsNatural naturalLimit numeral

/-- The least number that is too large for a double. -/
def doubleLimit : Nat := Nat.pow 2 1024 - Nat.pow 2 970

/-- Exponents grow no more once they have passed sixteen bits. -/
def exponentValue (digits : List Char) : Nat :=
  digits.foldl
    (fun value c => if value < 0x10000 then 10 * value + (c.toNat - '0'.toNat) else value) 0

/-- Whether the digits before and after a decimal point, shifted by an exponent, stay below the
range of doubles. The limit has 309 digits before the point. -/
def isFinite (whole fraction : List Char) (exponent : Int) : Bool :=
  let digits := (whole ++ fraction).dropWhile (· == '0')
  let order : Int := digits.length - fraction.length + exponent
  if digits.isEmpty || order < 309 then true
  else if order > 309 then false
  else
    let leading := digits.take 309
    let leading := leading ++ List.replicate (309 - leading.length) '0'
    (readNumeral 10 (doubleLimit - 1) leading).isSome

/-- What follows the digits of a decimal number: nothing, or the letter of an exponent, perhaps
a sign, and digits. -/
def exponent? : List Char → Option Int
  | [] => some 0
  | c :: rest =>
    let digits := dropSign rest
    if (c == 'e' || c == 'E') && !digits.isEmpty && digits.all isDigit then
      let value : Int := exponentValue digits
      some (if rest.head? = some '-' then -value else value)
    else none

/-- A decimal number within the range of doubles: digits with a point anywhere among them, at
least one digit, and perhaps an exponent. -/
def readsAsDecimal (unsigned : List Char) : Bool :=
  let (whole, rest) := unsigned.span isDigit
  let (fraction, rest) :=
    match rest with
    | '.' :: rest => rest.span isDigit
    | rest => ([], rest)
  if whole.isEmpty && fraction.isEmpty then false
  else
    match exponent? rest with
    | some exponent => isFinite whole fraction exponent
    | none => false

def readsAsFloat (scalar : List Char) : Bool :=
  let unsigned := dropSign scalar
  [".inf", ".Inf", ".INF"].contains (String.ofList unsigned) ||
    [".nan", ".NaN", ".NAN"].contains (String.ofList scalar) ||
    readsAsDecimal unsigned

/-- Whether a plain scalar would not be read back as text. -/
def needsQuotes (scalar : String) : Bool :=
  let chars := scalar.toList
  readsAsNull scalar || readsAsBool scalar || isPaddedNumeral chars || readsAsInteger chars ||
    readsAsFloat chars

end HackAssembler.Yaml
