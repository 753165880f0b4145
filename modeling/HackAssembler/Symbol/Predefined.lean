/-! # Predefined symbols

Names that every program may use without declaring them. -/
namespace HackAssembler

inductive Predefined
  | sp
  | lcl
  | arg
  | this
  | that
  | screen
  | kbd
  /-- One of the first sixteen memory words. -/
  | ram (index : Fin 16)
  deriving DecidableEq

namespace Predefined

def all : List Predefined :=
  [sp, lcl, arg, this, that, screen, kbd] ++ (List.finRange 16).map ram

def name : Predefined → String
  | sp => "SP"
  | lcl => "LCL"
  | arg => "ARG"
  | this => "THIS"
  | that => "THAT"
  | screen => "SCREEN"
  | kbd => "KBD"
  | ram index => "R" ++ toString index.val

def address : Predefined → Nat
  | sp => 0
  | lcl => 1
  | arg => 2
  | this => 3
  | that => 4
  | screen => 0x4000
  | kbd => 0x6000
  | ram index => index.val

def ofName? (name : String) : Option Predefined :=
  all.find? (·.name == name)

end Predefined

end HackAssembler
