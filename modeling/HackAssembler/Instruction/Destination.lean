import HackAssembler.Instruction.Register

/-! # Destinations

The set of registers that receive the result of a computation. It is written with the letters
A, M, D in this order, and its bits stand in the order A, D, M. -/
namespace HackAssembler.Instruction

structure Destination where
  a : Bool
  m : Bool
  d : Bool
  deriving DecidableEq

namespace Destination

def none : Destination := ⟨false, false, false⟩

def contains (dest : Destination) : Register → Bool
  | .a => dest.a
  | .m => dest.m
  | .d => dest.d

def isEmpty (dest : Destination) : Bool :=
  !(dest.a || dest.m || dest.d)

def bits (dest : Destination) : BitVec 3 :=
  BitVec.ofBool dest.a ++ BitVec.ofBool dest.d ++ BitVec.ofBool dest.m

def ofBits (bits : BitVec 3) : Destination where
  a := bits.getLsbD 2
  m := bits.getLsbD 0
  d := bits.getLsbD 1

def letters (dest : Destination) : List Char :=
  (Register.all.filter dest.contains).map Register.letter

def text (dest : Destination) : String :=
  String.ofList dest.letters

/-- Takes `letter` off the front if it stands there. -/
def takeLetter (letter : Char) : List Char → Bool × List Char
  | [] => (false, [])
  | c :: rest => if c = letter then (true, rest) else (false, c :: rest)

/-- Each letter at most once, in order, nothing else, and at least one of them. -/
def ofLetters? (letters : List Char) : Option Destination :=
  let (a, letters) := takeLetter 'A' letters
  let (m, letters) := takeLetter 'M' letters
  let (d, letters) := takeLetter 'D' letters
  if letters.isEmpty && (a || m || d) then some ⟨a, m, d⟩ else Option.none

def read (text : String) : Except MnemonicError Destination :=
  match ofLetters? text.toList with
  | some dest => .ok dest
  | Option.none => .error (.destination text)

@[simp] theorem ofBits_bits (dest : Destination) : ofBits dest.bits = dest := by
  rcases dest with ⟨_ | _, _ | _, _ | _⟩ <;> rfl

theorem bits_ofBits : ∀ bits : BitVec 3, (ofBits bits).bits = bits := by
  decide

end Destination

end HackAssembler.Instruction
