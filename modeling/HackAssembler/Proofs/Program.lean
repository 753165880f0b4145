import HackAssembler.Assembly.Statement
import Mathlib.Data.List.Basic
import Mathlib.Data.List.TakeWhile

/-! # Programs

What the lines of a program mean, said of the program as a whole: which names its labels and
variables are, which address each name stands for, and which instruction a line is. -/
namespace HackAssembler.Assembly

open Source Instruction

abbrev Program := List (List Lexeme)

/-- An instruction line begins with an `@` or with a fragment. -/
def isInstruction : List Lexeme → Bool
  | .atSign :: _ | .fragment _ :: _ => true
  | _ => false

def declared? : List Lexeme → Option String
  | [.openParen, .symbol name, .closeParen] => some name
  | _ => none

def operand? : List Lexeme → Option String
  | [.atSign, .symbol name] => some name
  | _ => none

theorem declared?_eq_some_iff {line : List Lexeme} {name : String} :
    declared? line = some name ↔ line = [.openParen, .symbol name, .closeParen] := by
  unfold declared?
  split <;> simp_all

theorem operand?_eq_some_iff {line : List Lexeme} {name : String} :
    operand? line = some name ↔ line = [.atSign, .symbol name] := by
  unfold operand?
  split <;> simp_all

namespace Program

def labels (program : Program) : List String :=
  program.filterMap declared?

def operands (program : Program) : List String :=
  program.filterMap operand?

/-- How many instruction lines come before the declaration of a label. -/
def labelAddress (program : Program) (name : String) : Nat :=
  (program.takeWhile fun line => declared? line ≠ some name).countP isInstruction

def isVariable (program : Program) (name : String) : Bool :=
  (Predefined.ofName? name).isNone && name ∉ program.labels

/-- The variables among the operands of some lines, each once, in the order of first use. -/
def variablesOf (program seen : Program) : List String :=
  (seen.operands.filter program.isVariable).eraseDups

/-- A variable comes as many words behind the first one as there are variables used before its
own first use. -/
def variableAddress (program : Program) (name : String) : Nat :=
  SymbolTable.firstVariable +
    (program.variablesOf (program.takeWhile fun line => operand? line ≠ some name)).length

def address (program : Program) (name : String) : Nat :=
  match Predefined.ofName? name with
  | some symbol => symbol.address
  | none =>
    if name ∈ program.labels then program.labelAddress name else program.variableAddress name

@[simp] theorem labels_nil : labels [] = [] := rfl

@[simp] theorem operands_nil : operands [] = [] := rfl

theorem labels_append (first second : Program) :
    labels (first ++ second) = labels first ++ labels second :=
  List.filterMap_append

theorem operands_append (first second : Program) :
    operands (first ++ second) = operands first ++ operands second :=
  List.filterMap_append

theorem labels_cons (line : List Lexeme) (rest : Program) :
    labels (line :: rest) = (declared? line).toList ++ labels rest := by
  rw [labels, List.filterMap_cons]
  cases declared? line <;> rfl

theorem operands_cons (line : List Lexeme) (rest : Program) :
    operands (line :: rest) = (operand? line).toList ++ operands rest := by
  rw [operands, List.filterMap_cons]
  cases operand? line <;> rfl

theorem labels_append_blank (program : Program) : labels (program ++ [[]]) = labels program := by
  rw [labels_append]
  exact List.append_nil _

theorem operands_append_blank (program : Program) :
    operands (program ++ [[]]) = operands program := by
  rw [operands_append]
  exact List.append_nil _

/-- Where a list holds an end, what is taken up to the end does not go beyond the list. -/
theorem takeWhile_append_of_mem {α : Type} {p : α → Bool} {first : List α} {x : α}
    (hmem : x ∈ first) (hx : p x = false) (second : List α) :
    (first ++ second).takeWhile p = first.takeWhile p := by
  rw [List.takeWhile_append, if_neg]
  intro hall
  have hprefix := (List.takeWhile_prefix p).eq_of_length hall
  rw [← hprefix] at hmem
  simp [List.mem_takeWhile_imp hmem] at hx

theorem labelAddress_append_left {first second : Program} {name : String}
    (h : name ∈ first.labels) :
    labelAddress (first ++ second) name = first.labelAddress name := by
  obtain ⟨line, hline, hname⟩ := List.mem_filterMap.mp h
  rw [labelAddress, labelAddress, takeWhile_append_of_mem hline (by simp [hname])]

theorem labelAddress_append_right {first second : Program} {name : String}
    (h : name ∉ first.labels) :
    labelAddress (first ++ second) name =
      first.countP isInstruction + second.labelAddress name := by
  have hfirst : ∀ line ∈ first, decide (declared? line ≠ some name) = true := fun line hline =>
    decide_eq_true fun hname => h (List.mem_filterMap.mpr ⟨line, hline, hname⟩)
  rw [labelAddress, labelAddress, List.takeWhile_append_of_pos hfirst, List.countP_append]

/-- A label has the count of the instructions before it for its address. -/
theorem labelAddress_eq {seen rest : Program} {line : List Lexeme} {name : String}
    (hline : declared? line = some name) (hseen : name ∉ seen.labels) :
    labelAddress (seen ++ line :: rest) name = seen.countP isInstruction := by
  rw [labelAddress_append_right hseen, labelAddress, List.takeWhile_cons]
  simp [hline]

/-- Up to the first use of a name, nothing uses it. -/
theorem variableAddress_eq {seen rest : Program} {line : List Lexeme} {name : String}
    (hline : operand? line = some name) (hseen : name ∉ seen.operands) :
    variableAddress (seen ++ line :: rest) name =
      SymbolTable.firstVariable + (variablesOf (seen ++ line :: rest) seen).length := by
  have hbefore : ∀ line ∈ seen, decide (operand? line ≠ some name) = true := by
    intro line hmem
    refine decide_eq_true fun h => hseen ?_
    exact List.mem_filterMap.mpr ⟨line, hmem, h⟩
  rw [variableAddress, List.takeWhile_append_of_pos hbefore, List.takeWhile_cons]
  simp [hline]

@[simp] theorem variablesOf_nil (program : Program) : program.variablesOf [] = [] := rfl

theorem mem_variablesOf {program seen : Program} {name : String} :
    name ∈ program.variablesOf seen ↔ name ∈ seen.operands ∧ program.isVariable name = true := by
  rw [variablesOf, List.mem_eraseDups, List.mem_filter]

theorem isVariable_iff {program : Program} {name : String} :
    program.isVariable name = true ↔ Predefined.ofName? name = none ∧ name ∉ program.labels := by
  simp [isVariable]

/-- A line adds its operand to the variables if that is a variable not used before. -/
theorem variablesOf_append (program seen : Program) (line : List Lexeme) :
    program.variablesOf (seen ++ [line]) =
      program.variablesOf seen ++
        (operand? line).toList.filter fun name =>
          program.isVariable name && name ∉ program.variablesOf seen := by
  rw [variablesOf, operands_append, operands_cons, operands_nil, List.append_nil,
    List.filter_append, List.eraseDups_append]
  cases operand? line with
  | none => simp [variablesOf]
  | some name =>
    by_cases hname : program.isVariable name = true
    · by_cases hseen : name ∈ seen.operands <;>
        simp [variablesOf, List.removeAll, List.eraseDups_cons, hname, hseen]
    · simp [variablesOf, hname]

theorem takeWhile_append_blank (program : Program) (p : List Lexeme → Bool) :
    (program ++ [[]]).takeWhile p = program.takeWhile p ∨
      (program ++ [[]]).takeWhile p = program.takeWhile p ++ [[]] := by
  rw [List.takeWhile_append]
  split
  · next hall =>
    rw [(List.takeWhile_prefix p).eq_of_length hall]
    by_cases h : p [] = true <;> simp [h]
  · exact .inl rfl

theorem variablesOf_append_blank (program seen : Program) :
    variablesOf (program ++ [[]]) (seen ++ [[]]) = variablesOf program seen := by
  have hvariable : isVariable (program ++ [[]]) = isVariable program := by
    funext name
    rw [isVariable, isVariable, labels_append_blank]
  rw [variablesOf, variablesOf, hvariable, operands_append_blank]

theorem labelAddress_append_blank (program : Program) :
    labelAddress (program ++ [[]]) = labelAddress program := by
  funext name
  rw [labelAddress, labelAddress]
  rcases takeWhile_append_blank program fun line => declared? line ≠ some name with h | h
  all_goals rw [h]
  simp [isInstruction]

theorem variableAddress_append_blank (program : Program) :
    variableAddress (program ++ [[]]) = variableAddress program := by
  funext name
  have hvariables (seen : Program) :
      variablesOf (program ++ [[]]) seen = variablesOf program seen := by
    rw [← variablesOf_append_blank program seen, variablesOf, variablesOf, operands_append_blank]
  rw [variableAddress, variableAddress, hvariables]
  rcases takeWhile_append_blank program fun line => operand? line ≠ some name with h | h
  all_goals rw [h]
  rw [variablesOf, operands_append_blank, variablesOf]

theorem address_append_blank (program : Program) (name : String) :
    address (program ++ [[]]) name = address program name := by
  rw [address, address, labels_append_blank, labelAddress_append_blank,
    variableAddress_append_blank]

end Program

/-- How a computing line is written, the destination and the jump where there are any. -/
def computeLine (dest : Option String) (comp : String) (jump : Option String) : List Lexeme :=
  (dest.elim [] fun dest => [.fragment dest, .equal]) ++
    .fragment comp :: jump.elim [] fun jump => [.semicolon, .fragment jump]

def destText (dest : Destination) : Option String :=
  if dest.isEmpty then none else some dest.text

/-- The instruction that a line of a program is, whose values have to fit into a load. -/
inductive Denotes (program : Program) : List Lexeme → Instruction → Prop
  | literal {digits : String} (hdigits : ∀ c ∈ digits.toList, isDigit c = true)
      (hfits : Nat.ofDigitChars 10 digits.toList 0 ≤ maxLoad) :
      Denotes program [.atSign, .number digits]
        (.load (BitVec.ofNat 16 (Nat.ofDigitChars 10 digits.toList 0)))
  | symbol {name : String} (hfits : program.address name ≤ maxLoad) :
      Denotes program [.atSign, .symbol name] (.load (BitVec.ofNat 16 (program.address name)))
  | compute (dest : Destination) (comp : Computation) (jump : Option Jump) :
      Denotes program (computeLine (destText dest) comp.text (jump.map Jump.text))
        (.compute dest comp jump)

theorem isInstruction_computeLine (dest : Option String) (comp : String) (jump : Option String) :
    isInstruction (computeLine dest comp jump) = true := by
  cases dest <;> rfl

theorem operand?_computeLine (dest : Option String) (comp : String) (jump : Option String) :
    operand? (computeLine dest comp jump) = none := by
  cases dest <;> cases jump <;> rfl

theorem Denotes.isInstruction {program : Program} {line : List Lexeme} {inst : Instruction}
    (h : Denotes program line inst) : isInstruction line = true := by
  cases h with
  | literal => rfl
  | symbol => rfl
  | compute dest comp jump => exact isInstruction_computeLine _ _ _

/-- Of the program a line sees only the address of its operand. -/
theorem Denotes.congr_operand {first second : Program} {line : List Lexeme} {inst : Instruction}
    (h : ∀ name, operand? line = some name → first.address name = second.address name)
    (hline : Denotes first line inst) : Denotes second line inst := by
  cases hline with
  | literal hdigits hfits => exact .literal hdigits hfits
  | @symbol name hfits =>
    rw [h name rfl] at hfits ⊢
    exact .symbol hfits
  | compute dest comp jump => exact .compute dest comp jump

theorem Denotes.congr {first second : Program}
    (h : ∀ name, first.address name = second.address name) {line : List Lexeme}
    {inst : Instruction} (hline : Denotes first line inst) : Denotes second line inst :=
  hline.congr_operand fun name _ => h name

theorem isInstruction_of_declared? {line : List Lexeme} {name : String}
    (h : declared? line = some name) : isInstruction line = false := by
  rw [declared?_eq_some_iff.mp h]
  rfl

theorem declared?_of_isInstruction {line : List Lexeme} (h : isInstruction line = true) :
    declared? line = none := by
  rw [Option.eq_none_iff_forall_ne_some]
  intro name hname
  rw [isInstruction_of_declared? hname] at h
  cases h

end HackAssembler.Assembly
