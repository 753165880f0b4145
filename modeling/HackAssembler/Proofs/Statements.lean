import HackAssembler.Proofs.FirstReading
import HackAssembler.Proofs.Mnemonics
import HackAssembler.Proofs.Numerals

/-! # Statements and how they are written

A statement is read from a whole line exactly when the line is the written form of the
statement, and it resolves to the instruction that the line denotes in its program. -/
namespace HackAssembler.Assembly

open Source Instruction Text

theorem requireNewline_eq_ok {line : Line} (h : requireNewline line = .ok ()) :
    ∃ pos, line = .newline pos := by
  cases line with
  | newline pos => exact ⟨pos, rfl⟩
  | fault error => cases h
  | token head rest => cases h

theorem located_of_ok {α : Type} {result : Except MnemonicError α} {value : α}
    (h : result = .ok value) (pos : Nat) : located pos result = .ok value := by
  rw [h]
  rfl

/-- Reading goes on behind a mnemonic only if the mnemonic can be read. -/
theorem exists_of_located_bind {α β : Type} {pos : Nat} {result : Except MnemonicError α}
    {next : α → Except Error β} {read : β} (h : (located pos result >>= next) = .ok read) :
    ∃ value, result = .ok value ∧ next value = .ok read := by
  cases result with
  | error error => cases h
  | ok value => exact ⟨value, rfl, h⟩

section Lexed
variable {rest : List Lexeme}

theorem lexed_of_fragment {word : String} (h : Lexed (.fragment word :: rest)) : Lexed rest := by
  cases h with
  | fragment hrest => exact hrest
  | punctuation h => simp at h

theorem lexed_of_equal (h : Lexed (.equal :: rest)) : Lexed rest := by
  cases h with
  | punctuation _ hrest => exact hrest

/-- Whatever stands behind a semicolon and carries the word of a jump is a fragment, or a symbol
that a parenthesis closes. -/
theorem lexeme_of_lexed_jump {lexeme : Lexeme} {jump : Jump}
    (h : Lexed (.semicolon :: lexeme :: rest)) (hjump : lexeme.text = jump.text) :
    lexeme = .fragment jump.text ∨
      lexeme = .symbol jump.text ∧ ∃ behind, rest = .closeParen :: behind := by
  have hne : jump.text ≠ "" := by cases jump <;> simp [Jump.text]
  cases h with
  | punctuation _ hrest =>
    cases hrest with
    | number => exact absurd hjump.symm hne
    | operand => exact absurd hjump.symm hne
    | name => exact .inr ⟨congrArg Lexeme.symbol hjump, _, rfl⟩
    | fragment => exact .inl (congrArg Lexeme.fragment hjump)
    | punctuation h =>
      have hempty : lexeme.text = "" := by
        simp only [List.mem_cons, List.not_mem_nil, or_false] at h
        rcases h with rfl | rfl | rfl | rfl <;> rfl
      exact absurd (hjump.symm.trans hempty) hne

end Lexed

namespace Statement

def jumpLexemes (jump : Option Jump) : List Lexeme :=
  jump.elim [] fun jump => [.semicolon, .fragment jump.text]

theorem computeLine_eq (dest : Destination) (comp : Computation) (jump : Option Jump) :
    computeLine (destText dest) comp.text (jump.map Jump.text) =
      (if dest.isEmpty then [] else [.fragment dest.text, .equal]) ++
        .fragment comp.text :: jumpLexemes jump := by
  cases jump <;> by_cases h : dest.isEmpty = true <;> simp [computeLine, destText, jumpLexemes, h]

inductive Written : Statement → List Lexeme → Prop
  | literal {digits : String} (hdigits : ∀ c ∈ digits.toList, isDigit c = true) (pos : Nat) :
      Written (.load (.literal digits) pos) [.atSign, .number digits]
  | symbol (name : String) (pos : Nat) :
      Written (.load (.symbol name) pos) [.atSign, .symbol name]
  | compute (dest : Destination) (comp : Computation) (jump : Option Jump) :
      Written (.compute dest comp jump)
        (computeLine (destText dest) comp.text (jump.map Jump.text))

/-- What a jump is read from, and what follows it. A parenthesis behind the jump makes a symbol
of its word. -/
inductive JumpBegins : Option Jump → List Lexeme → List Lexeme → Prop
  | written (jump : Option Jump) (rest : List Lexeme) :
      JumpBegins jump (jumpLexemes jump ++ rest) rest
  | closed (jump : Jump) (rest : List Lexeme) :
      JumpBegins (some jump) (.semicolon :: .symbol jump.text :: .closeParen :: rest)
        (.closeParen :: rest)

inductive Begins : Statement → List Lexeme → List Lexeme → Prop
  | literal {digits : String} (hdigits : ∀ c ∈ digits.toList, isDigit c = true) (pos : Nat)
      (rest : List Lexeme) :
      Begins (.load (.literal digits) pos) (.atSign :: .number digits :: rest) rest
  | symbol (name : String) (pos : Nat) (rest : List Lexeme) :
      Begins (.load (.symbol name) pos) (.atSign :: .symbol name :: rest) rest
  | compute (dest : Destination) (comp : Computation) {jump : Option Jump}
      {tail rest : List Lexeme} (hjump : JumpBegins jump tail rest) :
      Begins (.compute dest comp jump)
        ((if dest.isEmpty then [] else [.fragment dest.text, .equal]) ++
          .fragment comp.text :: tail)
        rest

section Forward
variable {line after : Line} {statement : Statement}

theorem begins_of_readJump {dest : Destination} {comp : Computation}
    (h : readJump dest comp line = .ok (statement, after)) (hlexed : Lexed line.lexemes) :
    ∃ jump, statement = .compute dest comp jump ∧
      JumpBegins jump line.lexemes after.lexemes := by
  unfold readJump at h
  split at h
  · next found rest =>
    obtain ⟨jump, hjump, h⟩ := exists_of_located_bind h
    cases h
    refine ⟨some jump, rfl, ?_⟩
    simp only [Line.lexemes_token] at hlexed ⊢
    rcases lexeme_of_lexed_jump hlexed (Jump.read_eq_ok_iff.mp hjump).symm with
      hfound | ⟨hfound, behind, hrest⟩
    · rw [hfound]
      exact .written (some jump) _
    · rw [hfound, hrest]
      exact .closed jump behind
  · next pos =>
    obtain ⟨jump, hjump, _⟩ := exists_of_located_bind h
    have hempty := Jump.read_eq_ok_iff.mp hjump
    cases jump <;> simp [Jump.text] at hempty
  · cases h
  · cases h
    exact ⟨none, rfl, .written none _⟩

theorem begins_of_readAssigned {dest : String} {start : Nat}
    (h : readAssigned dest start line = .ok (statement, after)) (hlexed : Lexed line.lexemes) :
    Begins statement (.fragment dest :: .equal :: line.lexemes) after.lexemes := by
  unfold readAssigned at h
  split at h
  · next word wordPos rest =>
    obtain ⟨comp, hcomp, h⟩ := exists_of_located_bind h
    obtain ⟨destination, hdest, h⟩ := exists_of_located_bind h
    obtain ⟨jump, rfl, hjump⟩ := begins_of_readJump h (lexed_of_fragment hlexed)
    obtain ⟨hne, rfl⟩ := Destination.read_eq_ok_iff.mp hdest
    have hbegins := Begins.compute destination comp hjump
    rw [hne, Computation.read_eq_ok_iff.mp hcomp] at hbegins
    exact hbegins
  · cases h
  · cases h
  · cases h

theorem begins_of_readCompute {word : String} {start : Nat}
    (h : readCompute word start line = .ok (statement, after)) (hlexed : Lexed line.lexemes) :
    Begins statement (.fragment word :: line.lexemes) after.lexemes := by
  unfold readCompute at h
  split at h
  · exact begins_of_readAssigned h (lexed_of_equal hlexed)
  · obtain ⟨comp, hcomp, h⟩ := exists_of_located_bind h
    obtain ⟨jump, rfl, hjump⟩ := begins_of_readJump h hlexed
    have hbegins := Begins.compute .none comp hjump
    rw [Computation.read_eq_ok_iff.mp hcomp] at hbegins
    exact hbegins

theorem begins_of_readLoad (h : readLoad line = .ok (statement, after))
    (hlexed : Lexed (.atSign :: line.lexemes)) :
    Begins statement (.atSign :: line.lexemes) after.lexemes := by
  unfold readLoad at h
  split at h
  · cases h
    exact .symbol _ _ _
  · cases h
    cases hlexed with
    | number hdigits => exact .literal hdigits _ _
    | punctuation h => simp at h
  · cases h
  · cases h
  · cases h

/-- A statement that is read from a line stands at the beginning of the line. -/
theorem begins_of_ofLine (h : ofLine line = .ok (some (statement, after)))
    (hlexed : Lexed line.lexemes) : Begins statement line.lexemes after.lexemes := by
  have hmap {read : Except Error (Statement × Line)}
      (h : some <$> read = .ok (some (statement, after))) : read = .ok (statement, after) := by
    cases read with
    | error => cases h
    | ok => simpa [Functor.map, Except.map] using h
  unfold ofLine at h
  split at h
  · cases h
  · cases h
  · cases h
  · exact begins_of_readLoad (hmap h) hlexed
  · exact begins_of_readCompute (hmap h) (lexed_of_fragment hlexed)
  · cases h

/-- A statement with nothing behind it is written in its line. -/
theorem Begins.written {line : List Lexeme} (h : Begins statement line []) :
    Written statement line := by
  cases h with
  | literal hdigits pos => exact .literal hdigits pos
  | symbol name pos => exact .symbol name pos
  | @compute dest comp jump tail _ hjump =>
    generalize hrest : ([] : List Lexeme) = rest at hjump
    cases hjump with
    | written =>
      subst hrest
      rw [List.append_nil, ← computeLine_eq]
      exact .compute dest comp jump
    | closed => cases hrest

end Forward

section Backward
variable {line : Line} (hfault : line.fault? = none)
include hfault

theorem exists_readJump {jump : Option Jump} (h : line.lexemes = jumpLexemes jump)
    (dest : Destination) (comp : Computation) :
    ∃ pos, readJump dest comp line = .ok (.compute dest comp jump, .newline pos) := by
  cases jump with
  | none =>
    obtain ⟨pos, rfl⟩ := Line.exists_newline hfault h
    exact ⟨pos, rfl⟩
  | some jump =>
    obtain ⟨_, behind, rfl, hbehind⟩ := Line.exists_token h
    obtain ⟨jumpPos, last, rfl, hlast⟩ := Line.exists_token hbehind
    have hlastFault := Line.fault?_rest (Line.fault?_rest hfault)
    obtain ⟨pos, rfl⟩ := Line.exists_newline hlastFault hlast
    refine ⟨pos, ?_⟩
    simp only [readJump, Lexeme.text, located_of_ok (Jump.read_text jump)]
    rfl

theorem exists_readCompute {dest : Destination} {comp : Computation} {jump : Option Jump}
    (h : line.lexemes = computeLine (destText dest) comp.text (jump.map Jump.text)) :
    ∃ pos, ofLine line = .ok (some (.compute dest comp jump, .newline pos)) := by
  rw [computeLine_eq] at h
  by_cases hdest : dest.isEmpty = true
  · rw [if_pos hdest, List.nil_append] at h
    obtain ⟨start, behind, rfl, hbehind⟩ := Line.exists_token h
    obtain ⟨pos, hjump⟩ := exists_readJump (Line.fault?_rest hfault) hbehind .none comp
    refine ⟨pos, ?_⟩
    rw [ofLine, readCompute, located_of_ok (Computation.read_text comp)]
    · rw [Destination.eq_none_of_isEmpty hdest]
      exact congrArg (some <$> ·) hjump
    · rintro equalPos rest rfl
      cases jump <;> simp [jumpLexemes] at hbehind
  · rw [if_neg hdest, List.cons_append, List.cons_append, List.nil_append] at h
    obtain ⟨start, behind, rfl, hbehind⟩ := Line.exists_token h
    obtain ⟨_, assigned, rfl, hassigned⟩ := Line.exists_token hbehind
    obtain ⟨compPos, tail, rfl, htail⟩ := Line.exists_token hassigned
    have htailFault := Line.fault?_rest (Line.fault?_rest (Line.fault?_rest hfault))
    obtain ⟨pos, hjump⟩ := exists_readJump htailFault htail dest comp
    refine ⟨pos, ?_⟩
    have hdestination : Destination.read dest.text = .ok dest :=
      Destination.read_eq_ok_iff.mpr ⟨by simpa using hdest, rfl⟩
    rw [ofLine, readCompute, readAssigned, located_of_ok (Computation.read_text comp),
      located_of_ok hdestination]
    exact congrArg (some <$> ·) hjump

theorem exists_readLiteral {digits : String} (h : line.lexemes = [.atSign, .number digits]) :
    ∃ start pos, ofLine line = .ok (some (.load (.literal digits) start, .newline pos)) := by
  obtain ⟨_, behind, rfl, hbehind⟩ := Line.exists_token h
  obtain ⟨start, last, rfl, hlast⟩ := Line.exists_token hbehind
  obtain ⟨pos, rfl⟩ := Line.exists_newline (Line.fault?_rest (Line.fault?_rest hfault)) hlast
  exact ⟨start, pos, rfl⟩

theorem exists_readSymbol {name : String} (h : line.lexemes = [.atSign, .symbol name]) :
    ∃ start pos, ofLine line = .ok (some (.load (.symbol name) start, .newline pos)) := by
  obtain ⟨_, behind, rfl, hbehind⟩ := Line.exists_token h
  obtain ⟨start, last, rfl, hlast⟩ := Line.exists_token hbehind
  obtain ⟨pos, rfl⟩ := Line.exists_newline (Line.fault?_rest (Line.fault?_rest hfault)) hlast
  exact ⟨start, pos, rfl⟩

end Backward

theorem resolve_literal {digits : String} (hdigits : ∀ c ∈ digits.toList, isDigit c = true)
    (table : SymbolTable) (pos : Nat) :
    (load (.literal digits) pos).resolve table =
      if Nat.ofDigitChars 10 digits.toList 0 ≤ maxLoad then
        .ok (.load (BitVec.ofNat 16 (Nat.ofDigitChars 10 digits.toList 0)), table)
      else .error (.source (.valueTooLarge digits) pos) := by
  simp only [resolve, Value.resolve, readNumeral_digits maxLoad hdigits, Value.text]
  by_cases h : Nat.ofDigitChars 10 digits.toList 0 ≤ maxLoad <;> simp [h]

theorem resolve_symbol {name : String} {address : Nat} {table next : SymbolTable}
    (h : table.resolve name = (address, next)) (pos : Nat) :
    (load (.symbol name) pos).resolve table =
      if address ≤ maxLoad then .ok (.load (BitVec.ofNat 16 address), next)
      else .error (.source (.valueTooLarge name) pos) := by
  simp only [resolve, Value.resolve, h, Value.text]
  by_cases hfits : address ≤ maxLoad <;> simp [hfits]

theorem ofLine_ne_none {line : Line} (h : isInstruction line.lexemes = true) :
    ofLine line ≠ .ok none := by
  intro hread
  -- only an instruction line begins with an `@` or with a fragment
  unfold ofLine at hread
  split at hread
  · cases h
  · cases hread
  · cases h
  · next rest => cases hload : readLoad rest <;> rw [hload] at hread <;> cases hread
  · next word pos rest =>
    cases hcompute : readCompute word pos rest <;> rw [hcompute] at hread <;> cases hread
  · cases hread

theorem Written.denotes {statement : Statement} {line : List Lexeme}
    (h : Written statement line) {seen rest : Program} {table next : SymbolTable}
    {inst : Instruction}
    (htable : Tracks (seen ++ line :: rest) (seen ++ line :: rest) seen table)
    (hresolve : statement.resolve table = .ok (inst, next)) :
    Denotes (seen ++ line :: rest) line inst := by
  cases h with
  | literal hdigits start =>
    rw [resolve_literal hdigits] at hresolve
    split at hresolve
    · next hfits =>
      cases hresolve
      exact .literal hdigits hfits
    · cases hresolve
  | symbol name start =>
    have huse : operand? [.atSign, .symbol name] = some name := rfl
    obtain ⟨after, haddress, _⟩ := htable.resolve huse
    rw [resolve_symbol haddress] at hresolve
    split at hresolve
    · next hfits =>
      cases hresolve
      exact .symbol hfits
    · cases hresolve
  | compute dest comp jump =>
    cases hresolve
    exact .compute dest comp jump

end Statement

end HackAssembler.Assembly
