import HackAssembler.Instruction.Basic

/-! # Machine words

The sixteen bits of an instruction. A load is a zero followed by its fifteen-bit value; a
computation is three ones, the memory bit, six control bits, three destination bits and three
jump bits. Main statement: an encoded computation decodes to itself. -/
namespace HackAssembler

abbrev Word := BitVec 16

namespace Word

/-- The bits as sixteen characters, the most significant first. -/
def text (word : Word) : String :=
  String.ofList ((List.range 16).map fun i => if word.getMsbD i then '1' else '0')

theorem length_text (word : Word) : word.text.length = 16 := by
  simp [text]

end Word

namespace Instruction

/-- A word that is no instruction. -/
inductive DecodeError
  /-- The word begins with a one, but not with three of them. -/
  | unknownClass (word : Word)
  | unknownComputation (word : Word)
  deriving DecidableEq

def DecodeError.message : DecodeError → String
  | unknownClass word => "Invalid C-instruction prefix: " ++ word.text
  | unknownComputation word => "Unknown computation bits: " ++ word.text

def encode : Instruction → Word
  | load value => 0#1 ++ value.setWidth 15
  | compute dest comp jump => 0b111#3 ++ comp.memoryBit ++ comp.code ++ dest.bits ++ Jump.field jump

def decode (word : Word) : Except DecodeError Instruction :=
  if word.getLsbD 15 = false then .ok (load word)
  else if word.extractLsb' 13 3 ≠ 0b111#3 then .error (.unknownClass word)
  else
    match Computation.ofBits? (word.extractLsb' 12 1).toNat (word.extractLsb' 6 6).toNat with
    | none => .error (.unknownComputation word)
    | some comp =>
      .ok (compute (.ofBits (word.extractLsb' 3 3)) comp (Jump.ofBits? (word.extractLsb' 0 3)))

section Fields
variable (dest : Destination) (comp : Computation) (jump : Option Jump)

theorem jumpField_encode : (encode (compute dest comp jump)).extractLsb' 0 3 = Jump.field jump :=
  BitVec.extractLsb'_append_eq_right

theorem destField_encode : (encode (compute dest comp jump)).extractLsb' 3 3 = dest.bits :=
  (BitVec.extractLsb'_append_eq_of_le (by decide)).trans BitVec.extractLsb'_append_eq_right

theorem codeField_encode : (encode (compute dest comp jump)).extractLsb' 6 6 = comp.code :=
  ((BitVec.extractLsb'_append_eq_of_le (by decide)).trans
    (BitVec.extractLsb'_append_eq_of_le (by decide))).trans BitVec.extractLsb'_append_eq_right

theorem memoryField_encode : (encode (compute dest comp jump)).extractLsb' 12 1 = comp.memoryBit :=
  (((BitVec.extractLsb'_append_eq_of_le (by decide)).trans
    (BitVec.extractLsb'_append_eq_of_le (by decide))).trans
      (BitVec.extractLsb'_append_eq_of_le (by decide))).trans BitVec.extractLsb'_append_eq_right

theorem classField_encode : (encode (compute dest comp jump)).extractLsb' 13 3 = 0b111#3 :=
  (((BitVec.extractLsb'_append_eq_of_le (by decide)).trans
    (BitVec.extractLsb'_append_eq_of_le (by decide))).trans
      (BitVec.extractLsb'_append_eq_of_le (by decide))).trans BitVec.extractLsb'_append_eq_left

end Fields

theorem decode_encode_compute (dest : Destination) (comp : Computation) (jump : Option Jump) :
    decode (encode (compute dest comp jump)) = .ok (compute dest comp jump) := by
  have hclass := classField_encode dest comp jump
  have htop : (encode (compute dest comp jump)).getLsbD 15 = true := by
    have h := congrArg (·.getLsbD 2) hclass
    simpa using h
  simp [decode, htop, hclass, memoryField_encode, codeField_encode, destField_encode,
    jumpField_encode, Computation.ofBits?_code]

end Instruction

end HackAssembler
