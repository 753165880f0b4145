import HackAssembler.Proofs.Numerals
import Mathlib.Data.List.Basic

/-! # Numerals in other radixes

Binary numerals are read from nothing but binary digits, as the number that these stand for. A
hexadecimal numeral reads as the number that it was written for, and has zeros in front only to fill
its width. -/
namespace HackAssembler.Text

/-! ### Binary numerals -/

structure IsBinary (digits : List Char) (value : Nat) : Prop where
  ne_nil : digits ≠ []
  digit : ∀ c ∈ digits, c = '0' ∨ c = '1'
  value : Nat.ofDigitChars 2 digits 0 = value

/-- Binary digits with a plus sign in front of them or without one. -/
def IsNumeral (line : List Char) (value : Nat) : Prop :=
  ∃ digits, (line = digits ∨ line = '+' :: digits) ∧ IsBinary digits value

theorem digitValue?_two (c : Char) :
    digitValue? 2 c = if c = '0' then some 0 else if c = '1' then some 1 else none := by
  by_cases hzero : c = '0'
  · subst hzero
    decide
  by_cases hone : c = '1'
  · subst hone
    decide
  rw [if_neg hzero, if_neg hone, digitValue?, if_neg]
  have hzero : c.toNat ≠ '0'.toNat := fun h => hzero (Char.toNat_inj.mp h)
  have hone : c.toNat ≠ '1'.toNat := fun h => hone (Char.toNat_inj.mp h)
  have h0 : '0'.toNat = 48 := rfl
  have h1 : '1'.toNat = 49 := rfl
  split
  · next h =>
    have : '0'.toNat ≤ c.toNat := h.1
    omega
  · split
    · omega
    · split <;> omega

theorem numeralValue?_go_two {digits : List Char} {value result : Nat} :
    numeralValue?.go 2 value digits = some result ↔
      (∀ c ∈ digits, c = '0' ∨ c = '1') ∧ Nat.ofDigitChars 2 digits value = result := by
  induction digits generalizing value with
  | nil => simp [numeralValue?.go]
  | cons c digits ih =>
    rw [numeralValue?.go, digitValue?_two, Nat.ofDigitChars_cons, List.forall_mem_cons]
    by_cases hzero : c = '0'
    · simp [hzero, ih]
    by_cases hone : c = '1'
    · simp [hone, ih]
    simp [hzero, hone]

theorem not_isBinary_plus {digits : List Char} {value : Nat} :
    ¬ IsBinary ('+' :: digits) value := by
  intro h
  have := h.digit '+' List.mem_cons_self
  revert this
  decide

/-! ### Hexadecimal numerals -/

/-- A numeral in upper-case hexadecimal. Only a numeral of the least width may begin with zeros. -/
structure IsHexadecimal (width n : Nat) (numeral : String) : Prop where
  digit : ∀ c ∈ numeral.toList, c ∈ "0123456789ABCDEF".toList
  value : numeralValue? 16 numeral.toList = some n
  width_le : width ≤ numeral.length
  head_ne : width < numeral.length → numeral.toList.head? ≠ some '0'

theorem numeralValue?_go_concat (radix value : Nat) (digits : List Char) (c : Char) :
    numeralValue?.go radix value (digits ++ [c]) =
      (numeralValue?.go radix value digits).bind fun value =>
        (digitValue? radix c).map (radix * value + ·) := by
  induction digits generalizing value with
  | nil => cases h : digitValue? radix c <;> simp [numeralValue?.go, h]
  | cons first digits ih =>
    rw [List.cons_append, numeralValue?.go, numeralValue?.go]
    cases digitValue? radix first with
    | none => rfl
    | some digit => exact ih _

def upperDigits (n : Nat) : List Char :=
  (Nat.toDigits 16 n).map Char.toUpper

theorem upperDigits_of_lt {n : Nat} (h : n < 16) : upperDigits n = [n.digitChar.toUpper] := by
  rw [upperDigits, Nat.toDigits_of_lt_base h, List.map_singleton]

theorem upperDigits_of_le {n : Nat} (h : 16 ≤ n) :
    upperDigits n = upperDigits (n / 16) ++ [(n % 16).digitChar.toUpper] := by
  rw [upperDigits, Nat.toDigits_of_base_le (by decide) h, List.map_append, List.map_singleton]
  rfl

theorem digit_upperDigits (n : Nat) : ∀ c ∈ upperDigits n, c ∈ "0123456789ABCDEF".toList := by
  have hdigit : ∀ d < 16, d.digitChar.toUpper ∈ "0123456789ABCDEF".toList := by decide
  induction n using Nat.strongRecOn with
  | ind n ih =>
    by_cases h : n < 16
    · rw [upperDigits_of_lt h]
      simpa using hdigit n h
    · rw [upperDigits_of_le (Nat.le_of_not_lt h), List.forall_mem_append]
      exact ⟨ih _ (by omega), by simpa using hdigit _ (Nat.mod_lt n (by decide))⟩

theorem value_upperDigits (n : Nat) : numeralValue? 16 (upperDigits n) = some n := by
  have hdigit : ∀ d < 16, digitValue? 16 d.digitChar.toUpper = some d := by decide
  induction n using Nat.strongRecOn with
  | ind n ih =>
    by_cases h : n < 16
    · simp [upperDigits_of_lt h, numeralValue?, numeralValue?.go, hdigit n h]
    · have hrest := ih (n / 16) (by omega)
      rw [numeralValue?] at hrest
      rw [upperDigits_of_le (Nat.le_of_not_lt h), numeralValue?, numeralValue?_go_concat, hrest,
        Option.bind_some, hdigit _ (Nat.mod_lt n (by decide)), Option.map_some, Nat.div_add_mod]

theorem head_upperDigits {n : Nat} (hn : 0 < n) : (upperDigits n).head? ≠ some '0' := by
  have hdigit : ∀ d < 16, 0 < d → d.digitChar.toUpper ≠ '0' := by decide
  induction n using Nat.strongRecOn with
  | ind n ih =>
    by_cases h : n < 16
    · rw [upperDigits_of_lt h]
      simpa using hdigit n h hn
    · have hne : upperDigits (n / 16) ≠ [] := by simp [upperDigits]
      rw [upperDigits_of_le (Nat.le_of_not_lt h), List.head?_append_of_ne_nil _ hne]
      exact ih _ (by omega) (by omega)

theorem value_zeros_append (count : Nat) (digits : List Char) :
    numeralValue? 16 (List.replicate count '0' ++ digits) = numeralValue? 16 digits := by
  induction count with
  | zero => rfl
  | succ count ih => exact ih

theorem toList_hexadecimal (width n : Nat) :
    (hexadecimal width n).toList =
      List.replicate (width - (upperDigits n).length) '0' ++ upperDigits n := by
  simp [hexadecimal, padLeft, upperDigits]

/-- A number that fits into the width has no more digits than that. -/
theorem length_hexadecimal {width n : Nat} (hwidth : 0 < width) (h : n < 16 ^ width) :
    (hexadecimal width n).length = width := by
  have hdigits : (upperDigits n).length ≤ width := by
    rw [upperDigits, List.length_map]
    exact (Nat.length_toDigits_le_iff (by decide) hwidth).mpr h
  rw [← String.length_toList, toList_hexadecimal, List.length_append, List.length_replicate]
  omega

theorem isHexadecimal_hexadecimal {width : Nat} (hwidth : 0 < width) (n : Nat) :
    IsHexadecimal width n (hexadecimal width n) := by
  have hlist := toList_hexadecimal width n
  have hlength : (hexadecimal width n).length =
      width - (upperDigits n).length + (upperDigits n).length := by
    rw [← String.length_toList, hlist, List.length_append, List.length_replicate]
  constructor
  · rw [hlist, List.forall_mem_append]
    refine ⟨fun c hc => ?_, digit_upperDigits n⟩
    rw [List.eq_of_mem_replicate hc]
    decide
  · rw [hlist, value_zeros_append, value_upperDigits]
  · omega
  · intro h
    have hfill : width - (upperDigits n).length = 0 := by omega
    rw [hlist, hfill, List.replicate_zero, List.nil_append]
    refine head_upperDigits (Nat.pos_of_ne_zero ?_)
    rintro rfl
    rw [upperDigits_of_lt (by decide)] at hlength
    simp only [List.length_singleton] at hlength
    omega

end HackAssembler.Text

namespace HackAssembler.Word

open Text

theorem isBinary_text (word : Word) : IsBinary word.text.toList word.toNat where
  ne_nil h := by
    have := word.length_text
    rw [← String.length_toList, h] at this
    cases this
  digit c := mem_text
  value := by
    rw [text_eq_binaryNumeral, binaryNumeral, padLeft]
    simp [Nat.ofDigitChars_append, Nat.ofDigitChars_toDigits]

end HackAssembler.Word
