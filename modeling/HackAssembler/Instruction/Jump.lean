import HackAssembler.Instruction.Register

/-! # Jumps

The condition on a computed value under which the program goes on elsewhere. -/
namespace HackAssembler.Instruction

inductive Jump
  | greater
  | equal
  | greaterOrEqual
  | less
  | notEqual
  | lessOrEqual
  | always
  deriving DecidableEq

namespace Jump

def all : List Jump := [greater, equal, greaterOrEqual, less, notEqual, lessOrEqual, always]

def text : Jump → String
  | greater => "JGT"
  | equal => "JEQ"
  | greaterOrEqual => "JGE"
  | less => "JLT"
  | notEqual => "JNE"
  | lessOrEqual => "JLE"
  | always => "JMP"

/-- The bits say of less, equal and greater whether they jump. -/
def code : Jump → BitVec 3
  | greater => 0b001
  | equal => 0b010
  | greaterOrEqual => 0b011
  | less => 0b100
  | notEqual => 0b101
  | lessOrEqual => 0b110
  | always => 0b111

/-- The jump field of an instruction; without a jump no condition is set. -/
def field : Option Jump → BitVec 3
  | none => 0
  | some jump => jump.code

def ofBits? (bits : BitVec 3) : Option Jump :=
  all.find? (·.code == bits)

def read (text : String) : Except MnemonicError Jump :=
  match all.find? (·.text == text) with
  | some jump => .ok jump
  | none => .error (.jump text)

theorem mem_all (jump : Jump) : jump ∈ all := by
  cases jump <;> decide

@[simp] theorem ofBits?_field (jump : Option Jump) : ofBits? (field jump) = jump := by
  rcases jump with _ | jump
  · rfl
  · cases jump <;> rfl

theorem field_ofBits? : ∀ bits : BitVec 3, field (ofBits? bits) = bits := by
  decide

end Jump

end HackAssembler.Instruction
