import HackAssembler.Instruction.Register

/-! # Computations

What the arithmetic unit makes of the data register and a second operand, which is the
address register or the memory word. -/
namespace HackAssembler.Instruction

/-- The second operand of a computation. -/
inductive Operand
  | a
  | m
  deriving DecidableEq

def Operand.letter : Operand → String
  | a => "A"
  | m => "M"

/-- Where an operand `y` is given, the computation takes it beside the data register. -/
inductive Computation
  | zero
  | one
  | minusOne
  | d
  | notD
  | negD
  | dPlusOne
  | dMinusOne
  | operand (y : Operand)
  | notOperand (y : Operand)
  | negOperand (y : Operand)
  | operandPlusOne (y : Operand)
  | operandMinusOne (y : Operand)
  | dPlus (y : Operand)
  | dMinus (y : Operand)
  | operandMinusD (y : Operand)
  | dAnd (y : Operand)
  | dOr (y : Operand)
  deriving DecidableEq

namespace Computation

def withOperand (y : Operand) : List Computation :=
  [operand y, notOperand y, negOperand y, operandPlusOne y, operandMinusOne y, dPlus y, dMinus y,
    operandMinusD y, dAnd y, dOr y]

def all : List Computation :=
  [zero, one, minusOne, d, notD, negD, dPlusOne, dMinusOne] ++ withOperand .a ++ withOperand .m

def operand? : Computation → Option Operand
  | zero | one | minusOne | d | notD | negD | dPlusOne | dMinusOne => none
  | operand y | notOperand y | negOperand y | operandPlusOne y | operandMinusOne y | dPlus y
  | dMinus y | operandMinusD y | dAnd y | dOr y => some y

def text : Computation → String
  | zero => "0"
  | one => "1"
  | minusOne => "-1"
  | d => "D"
  | notD => "!D"
  | negD => "-D"
  | dPlusOne => "D+1"
  | dMinusOne => "D-1"
  | operand y => y.letter
  | notOperand y => "!" ++ y.letter
  | negOperand y => "-" ++ y.letter
  | operandPlusOne y => y.letter ++ "+1"
  | operandMinusOne y => y.letter ++ "-1"
  | dPlus y => "D+" ++ y.letter
  | dMinus y => "D-" ++ y.letter
  | operandMinusD y => y.letter ++ "-D"
  | dAnd y => "D&" ++ y.letter
  | dOr y => "D|" ++ y.letter

/-- The six control bits of the arithmetic unit. -/
def code : Computation → BitVec 6
  | zero => 0b101010
  | one => 0b111111
  | minusOne => 0b111010
  | d => 0b001100
  | notD => 0b001101
  | negD => 0b001111
  | dPlusOne => 0b011111
  | dMinusOne => 0b001110
  | operand _ => 0b110000
  | notOperand _ => 0b110001
  | negOperand _ => 0b110011
  | operandPlusOne _ => 0b110111
  | operandMinusOne _ => 0b110010
  | dPlus _ => 0b000010
  | dMinus _ => 0b010011
  | operandMinusD _ => 0b000111
  | dAnd _ => 0b000000
  | dOr _ => 0b010101

/-- Set when the operand is the memory word. -/
def readsMemory (comp : Computation) : Bool :=
  comp.operand? = some .m

def memoryBit (comp : Computation) : BitVec 1 :=
  BitVec.ofBool comp.readsMemory

def read (text : String) : Except MnemonicError Computation :=
  match all.find? (·.text == text) with
  | some comp => .ok comp
  | none => .error (.computation text)

/-- The computation with the given memory bit and control bits. -/
def ofBits? (memoryBit code : Nat) : Option Computation :=
  all.find? fun comp => comp.memoryBit.toNat == memoryBit && comp.code.toNat == code

theorem mem_all (comp : Computation) : comp ∈ all := by
  rcases comp with _ | _ | _ | _ | _ | _ | _ | _ | y | y | y | y | y | y | y | y | y | y <;>
    first | decide | (cases y <;> decide)

theorem ofBits?_code (comp : Computation) :
    ofBits? comp.memoryBit.toNat comp.code.toNat = some comp := by
  revert comp
  have h : ∀ comp ∈ all, ofBits? comp.memoryBit.toNat comp.code.toNat = some comp := by decide
  exact fun comp => h comp (mem_all comp)

end Computation

end HackAssembler.Instruction
