/-! # Numerals

Reading a numeral in a radix up to a limit, and writing numbers with a least width. Main
statement: the bounded reading gives the value of the numeral exactly when it is within the
limit. -/
namespace HackAssembler.Text

/-- The value of `c` as a digit, letters of either case counting from ten. -/
def digitValue? (radix : Nat) (c : Char) : Option Nat :=
  let value :=
    if '0' ≤ c ∧ c ≤ '9' then c.toNat - '0'.toNat
    else if 'a' ≤ c ∧ c ≤ 'z' then c.toNat - 'a'.toNat + 10
    else if 'A' ≤ c ∧ c ≤ 'Z' then c.toNat - 'A'.toNat + 10
    else radix
  if value < radix then some value else none

/-- The number `digits` stand for when each of them is a digit and the number is at most
`limit`. The running value never grows past the limit, so long numerals cost no more than
their length. -/
def readNumeral (radix limit : Nat) (digits : List Char) : Option Nat :=
  go 0 digits
where
  go (value : Nat) : List Char → Option Nat
    | [] => some value
    | c :: rest =>
      match digitValue? radix c with
      | none => none
      | some d =>
        let value := radix * value + d
        if value ≤ limit then go value rest else none

/-- The number that digits stand for, whatever its size. -/
def numeralValue? (radix : Nat) (digits : List Char) : Option Nat :=
  go 0 digits
where
  go (value : Nat) : List Char → Option Nat
    | [] => some value
    | c :: rest => (digitValue? radix c).bind fun d => go (radix * value + d) rest

theorem le_of_numeralValue?_go {radix value result : Nat} {digits : List Char} (hradix : 0 < radix)
    (h : numeralValue?.go radix value digits = some result) : value ≤ result := by
  induction digits generalizing value with
  | nil =>
    rw [numeralValue?.go, Option.some.injEq] at h
    omega
  | cons c rest ih =>
    obtain ⟨d, _, hrest⟩ := Option.bind_eq_some_iff.1 h
    have := ih hrest
    have := Nat.le_mul_of_pos_left value hradix
    omega

theorem readNumeral_go {radix limit value : Nat} (digits : List Char) (hradix : 0 < radix)
    (hvalue : value ≤ limit) :
    readNumeral.go radix limit value digits =
      (numeralValue?.go radix value digits).filter (· ≤ limit) := by
  induction digits generalizing value with
  | nil => simp [readNumeral.go, numeralValue?.go, Option.filter, hvalue]
  | cons c rest ih =>
    rw [readNumeral.go, numeralValue?.go]
    cases digitValue? radix c with
    | none => rfl
    | some d =>
      by_cases h : radix * value + d ≤ limit
      · simp [h, ih h]
      · simp only [if_neg h, Option.bind_some]
        symm
        rw [Option.filter_eq_none_iff]
        intro result hresult
        have := le_of_numeralValue?_go hradix hresult
        simp only [decide_eq_true_eq]
        omega

theorem readNumeral_eq {radix limit : Nat} (digits : List Char) (hradix : 0 < radix) :
    readNumeral radix limit digits = (numeralValue? radix digits).filter (· ≤ limit) :=
  readNumeral_go digits hradix (Nat.zero_le limit)

/-- Fills `text` up to `width` characters from the left. -/
def padLeft (fill : Char) (width : Nat) (text : String) : String :=
  String.ofList (List.replicate (width - text.length) fill) ++ text

/-- Upper-case hexadecimal of at least `width` digits. -/
def hexadecimal (width n : Nat) : String :=
  padLeft '0' width (String.ofList ((Nat.toDigits 16 n).map Char.toUpper))

/-- Decimal, blanks in front up to `width` characters. -/
def rightAligned (width n : Nat) : String :=
  padLeft ' ' width (toString n)

end HackAssembler.Text
