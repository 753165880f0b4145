import HackAssembler.Instruction.Word
import HackAssembler.Source.Lexer
import HackAssembler.Text.Numeral
import Mathlib.Algebra.Order.Ring.Nat

/-! # Values of numerals

The bounded reading of a run of decimal digits gives the number that the digits stand for, and
the text of a word is the binary numeral of the word, filled up to sixteen digits. -/
namespace HackAssembler.Text

open Source

/-- The binary numeral of a number, of at least `width` digits; a greater number has more. -/
def binaryNumeral (width value : Nat) : String :=
  padLeft '0' width (String.ofList (Nat.toDigits 2 value))

theorem isDigit_eq (c : Char) : isDigit c = c.isDigit := by
  simp only [isDigit, Char.isDigit, Char.le_def]

theorem isDigit_of_mem_toDigits {value : Nat} {c : Char} (h : c ∈ Nat.toDigits 10 value) :
    isDigit c = true := by
  rw [isDigit_eq]
  exact Nat.isDigit_of_mem_toDigits (by decide) (by decide) h

theorem digitValue?_of_isDigit {c : Char} (h : isDigit c = true) :
    digitValue? 10 c = some (c.toNat - '0'.toNat) := by
  simp only [isDigit, Bool.and_eq_true, decide_eq_true_eq] at h
  have hupper : c.toNat ≤ '9'.toNat := h.2
  have hvalue : c.toNat - '0'.toNat < 10 := by
    have : '9'.toNat = 57 := rfl
    have : '0'.toNat = 48 := rfl
    omega
  simp only [digitValue?, if_pos h, if_pos hvalue]

theorem numeralValue?_go_digits {digits : List Char} (h : ∀ c ∈ digits, isDigit c = true)
    (value : Nat) :
    numeralValue?.go 10 value digits = some (Nat.ofDigitChars 10 digits value) := by
  induction digits generalizing value with
  | nil => rfl
  | cons c rest ih =>
    rw [List.forall_mem_cons] at h
    rw [numeralValue?.go, digitValue?_of_isDigit h.1, Option.bind_some, ih h.2,
      Nat.ofDigitChars_cons]

/-- Digits are read as the number they stand for, unless it is above the limit. -/
theorem readNumeral_digits {digits : List Char} (limit : Nat)
    (h : ∀ c ∈ digits, isDigit c = true) :
    readNumeral 10 limit digits =
      if Nat.ofDigitChars 10 digits 0 ≤ limit then some (Nat.ofDigitChars 10 digits 0)
      else none := by
  rw [readNumeral_eq digits (by decide), numeralValue?, numeralValue?_go_digits h]
  by_cases hle : Nat.ofDigitChars 10 digits 0 ≤ limit <;> simp [Option.filter, hle]

theorem binaryDigit (value : Nat) :
    (value % 2).digitChar = if value.testBit 0 then '1' else '0' := by
  rcases Nat.mod_two_eq_zero_or_one value with h | h <;> simp [Nat.testBit_zero, h]

/-- The last digit is the remainder by two, and the digits before it are those of the half. -/
theorem map_testBit_succ (width value : Nat) :
    (List.range (width + 1)).map
        (fun i => if value.testBit (width + 1 - 1 - i) then '1' else '0') =
      ((List.range width).map fun i => if (value / 2).testBit (width - 1 - i) then '1' else '0')
        ++ [(value % 2).digitChar] := by
  rw [List.range_succ, List.map_append, binaryDigit]
  simp only [List.map_cons, List.map_nil, Nat.add_sub_cancel, Nat.sub_self]
  congr 1
  refine List.map_congr_left fun i hi => ?_
  have hplace : width - 1 - i + 1 = width - i := by
    have := List.mem_range.mp hi
    omega
  rw [Nat.testBit_div_two, hplace]

/-- The digits of a number that fits into `width` places are its bits, the highest first. -/
theorem padded_toDigits_two {width value : Nat} (hwidth : 0 < width) (h : value < 2 ^ width) :
    List.replicate (width - (Nat.toDigits 2 value).length) '0' ++ Nat.toDigits 2 value =
      (List.range width).map fun i => if value.testBit (width - 1 - i) then '1' else '0' := by
  induction width, hwidth using Nat.le_induction generalizing value with
  | base =>
    have hdigit := Nat.toDigits_of_lt_base (b := 2) (n := value) (by simpa using h)
    have hmod : value % 2 = value := Nat.mod_eq_of_lt (by simpa using h)
    have := binaryDigit value
    rw [hmod] at this
    simp [hdigit, this, List.range_succ]
  | succ width hwidth ih =>
    have hhalf : value / 2 < 2 ^ width := by
      rw [Nat.pow_succ] at h
      omega
    rw [map_testBit_succ, ← ih hhalf]
    rcases Nat.lt_or_ge value 2 with hsmall | hlarge
    · have hzero : value / 2 = 0 := by omega
      have hmod : value % 2 = value := Nat.mod_eq_of_lt hsmall
      rw [hzero, hmod, Nat.toDigits_of_lt_base hsmall, Nat.toDigits_zero]
      simp only [List.length_cons, List.length_nil, Nat.add_sub_cancel]
      rw [← List.replicate_succ', Nat.sub_add_cancel hwidth]
    · rw [Nat.toDigits_of_base_le (by decide) hlarge, List.length_append, ← List.append_assoc]
      simp

end HackAssembler.Text

namespace HackAssembler.Word

open Text

theorem text_eq_binaryNumeral (word : Word) : word.text = binaryNumeral 16 word.toNat := by
  have h := padded_toDigits_two (show 0 < 16 by decide) word.isLt
  rw [binaryNumeral, padLeft, String.length_ofList, ← String.ofList_append, h, text]
  congr 1

theorem mem_text {word : Word} {c : Char} (h : c ∈ word.text.toList) : c = '0' ∨ c = '1' := by
  simp only [text, String.toList_ofList, List.mem_map] at h
  obtain ⟨i, _, rfl⟩ := h
  split
  · exact .inr rfl
  · exact .inl rfl

end HackAssembler.Word
