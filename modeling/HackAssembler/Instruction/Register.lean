/-! # Registers

The address register, the memory word it points at, and the data register. A letter that names none
of them is one of the spellings that cannot be read in an instruction. -/
namespace HackAssembler.Instruction

/-- A spelling that names nothing of its kind. -/
inductive MnemonicError
  | computation (text : String)
  | destination (text : String)
  | jump (text : String)
  | register (letter : Char)
  deriving DecidableEq

def MnemonicError.message : MnemonicError → String
  | computation text => s!"Unknown computation: `{text}`"
  | destination text => s!"Destination registers not valid: `{text}`"
  | jump text => s!"Unknown jump: `{text}`"
  | register letter => s!"Unknown reg name: {letter}"

inductive Register
  | a
  | m
  | d
  deriving DecidableEq

namespace Register

/-- In the order in which a destination names them. -/
def all : List Register := [a, m, d]

def letter : Register → Char
  | a => 'A'
  | m => 'M'
  | d => 'D'

/-- The register's flag in the three destination bits, which stand in the order A, D, M. -/
def flag : Register → BitVec 3
  | a => 0b100
  | d => 0b010
  | m => 0b001

def read (letter : Char) : Except MnemonicError Register :=
  match all.find? (·.letter == letter) with
  | some register => .ok register
  | none => .error (.register letter)

theorem mem_all (r : Register) : r ∈ all := by
  cases r <;> decide

end Register

end HackAssembler.Instruction
