import HackAssembler.Instruction.Computation
import HackAssembler.Instruction.Destination
import HackAssembler.Instruction.Jump
import HackAssembler.Text.Styled

/-! # Instructions

The two instructions of the Hack computer and their written forms. -/
namespace HackAssembler

open Instruction Text

inductive Instruction
  /-- Loads a value into the address register. -/
  | load (value : BitVec 16)
  /-- Computes, stores the result and possibly jumps. -/
  | compute (dest : Destination) (comp : Computation) (jump : Option Jump)
  deriving DecidableEq

namespace Instruction

/-- The greatest value that fits into a load instruction. -/
def maxLoad : Nat := 0x7FFF

/-- The written form in colours: values yellow, destinations blue, computations red and jumps
green. -/
def styled : Instruction → Styled
  | load value => [.colored .red "@", .colored .yellow (toString value.toNat)]
  | compute dest comp jump =>
    (if dest.isEmpty then [] else [.colored .blue dest.text, .plain "="]) ++
      [.colored .red comp.text] ++
      (match jump with
        | none => []
        | some jump => [.plain ";", .colored .green jump.text])

/-- The written form: `@value` or `dest=comp;jump`. -/
def text : Instruction → String
  | load value => "@" ++ toString value.toNat
  | compute dest comp jump =>
    (if dest.isEmpty then "" else dest.text ++ "=") ++ comp.text ++
      (match jump with
        | none => ""
        | some jump => ";" ++ jump.text)

theorem plainText_styled (inst : Instruction) : inst.styled.plainText = inst.text := by
  rcases inst with value | ⟨dest, comp, jump⟩
  · simp [styled, text, Styled.plainText, Span.colored]
  · by_cases h : dest.isEmpty <;> cases jump <;>
      simp [styled, text, Styled.plainText, Span.colored, Span.plain, h, String.append_assoc]

end Instruction

end HackAssembler
