import HackAssembler.Proofs.BareText
import HackAssembler.Proofs.LineErrors
import HackAssembler.Proofs.Translation

/-! # What is emitted in front of an error

The second reading stops at the first line that denotes no instruction. By then the words of the
instruction lines before it have been emitted, and the word of the line itself only if the line
begins with a whole instruction and goes on behind that. -/
namespace HackAssembler.Assembly

open Source Instruction Text

/-! ### Another line in the place of one -/

namespace Program

section Replace
variable {seen rest : Program} {line other : List Lexeme}
  (hline : declared? line = none) (hother : declared? other = none)
include hline hother

theorem labels_replace : labels (seen ++ line :: rest) = labels (seen ++ other :: rest) := by
  rw [labels_append, labels_append, labels_cons, labels_cons, hline, hother]

theorem isVariable_replace :
    isVariable (seen ++ line :: rest) = isVariable (seen ++ other :: rest) := by
  funext name
  rw [isVariable, isVariable, labels_replace hline hother]

theorem variablesOf_replace (used : Program) :
    variablesOf (seen ++ line :: rest) used = variablesOf (seen ++ other :: rest) used := by
  rw [variablesOf, variablesOf, isVariable_replace hline hother]

/-- The count of instructions does not see which instruction a line is. -/
theorem labelAddress_replace (hcount : isInstruction line = isInstruction other) :
    labelAddress (seen ++ line :: rest) = labelAddress (seen ++ other :: rest) := by
  funext name
  rw [labelAddress, labelAddress, List.takeWhile_append, List.takeWhile_append]
  split
  · rw [List.takeWhile_cons_of_pos (by simp [hline]), List.takeWhile_cons_of_pos (by simp [hother]),
      List.countP_append, List.countP_append, List.countP_cons, List.countP_cons, hcount]
  · rfl

/-- A variable that is used before a line has its address from the lines before. -/
theorem variableAddress_replace {name : String} (hname : name ∈ seen.operands) :
    variableAddress (seen ++ line :: rest) name = variableAddress (seen ++ other :: rest) name := by
  obtain ⟨used, hused, hoperand⟩ := List.mem_filterMap.mp hname
  rw [variableAddress, variableAddress, takeWhile_append_of_mem hused (by simp [hoperand]),
    takeWhile_append_of_mem hused (by simp [hoperand]), variablesOf_replace hline hother]

end Replace

end Program

/-- The table of the lines before a line does not see which instruction the line is. -/
theorem Tracks.replace {seen rest : Program} {line other : List Lexeme} {table : SymbolTable}
    (h : Tracks (seen ++ line :: rest) (seen ++ line :: rest) seen table)
    (hline : isInstruction line = true) (hother : isInstruction other = true) :
    Tracks (seen ++ other :: rest) (seen ++ other :: rest) seen table := by
  have hfree := declared?_of_isInstruction hline
  have hfree' := declared?_of_isInstruction hother
  have hlabels : Program.labels (seen ++ line :: rest) = Program.labels (seen ++ other :: rest) :=
    Program.labels_replace hfree hfree'
  have hvariables : Program.variablesOf (seen ++ line :: rest) seen =
      Program.variablesOf (seen ++ other :: rest) seen :=
    Program.variablesOf_replace hfree hfree' seen
  have hlabel : labelBinding (seen ++ line :: rest) = labelBinding (seen ++ other :: rest) := by
    funext name
    rw [labelBinding, labelBinding,
      Program.labelAddress_replace hfree hfree' (hline.trans hother.symm)]
  have hvariable : (Program.variablesOf (seen ++ other :: rest) seen).map
        (variableBinding (seen ++ line :: rest)) =
      (Program.variablesOf (seen ++ other :: rest) seen).map
        (variableBinding (seen ++ other :: rest)) := by
    refine List.map_congr_left fun name hname => ?_
    rw [variableBinding, variableBinding,
      Program.variableAddress_replace hfree hfree' (Program.mem_variablesOf.mp hname).1]
  constructor
  · rw [h.bindings, hlabels, hlabel, hvariables, hvariable]
  · rw [h.nextVariable, hvariables]

/-! ### The line at which the second reading stops -/

/-- How the second reading stops at a line, and the words that it still emits there. -/
inductive Stops (before : Program) : List Lexeme → Program → Error → List String → Prop
  | within {line : List Lexeme} {after : Program} {error : Error}
      (herror : ∀ found pos, error ≠ unexpected (.token .newline) found pos) :
      Stops before line after error []
  /-- Of what is written in front of `found` it does not matter that a parenthesis may have made
  a symbol of the jump. -/
  | behind {complete instruction extra : List Lexeme} {found : Lexeme} {after : Program}
      {word : String} (hwritten : complete.map Lexeme.written = instruction.map Lexeme.written)
      (hinstruction : isInstruction instruction = true)
      (hword : Encodes (before ++ instruction :: after) instruction word) (pos : Nat) :
      Stops before (complete ++ found :: extra) after
        (unexpected (.token .newline) found.kind pos) [word]

/-- What is emitted of a program whose second reading ends with an error: the words of the
instruction lines before the first one that denotes nothing, and what is emitted there. -/
inductive Interrupted (program : Program) (error : Error) (words : List String) : Prop
  | intro {before after : Program} {line : List Lexeme} {emitted own : List String}
      (hprogram : program = before ++ line :: after) (hwords : words = emitted ++ own)
      (hbefore : List.Forall₂ (Encodes program) (before.filter isInstruction) emitted)
      (hline : isInstruction line = true) (hdenotes : ∀ inst, ¬Denotes program line inst)
      (hstops : Stops before line after error own) : Interrupted program error words

namespace Statement

theorem Written.isInstruction {statement : Statement} {line : List Lexeme}
    (h : Written statement line) : isInstruction line = true := by
  cases h with
  | literal => rfl
  | symbol => rfl
  | compute dest comp jump => exact isInstruction_computeLine _ _ _

theorem JumpBegins.exists_written {jump : Option Jump} {tail rest : List Lexeme}
    (h : JumpBegins jump tail rest) :
    ∃ complete, tail = complete ++ rest ∧
      complete.map Lexeme.written = (jumpLexemes jump).map Lexeme.written := by
  cases h with
  | written => exact ⟨jumpLexemes jump, rfl, rfl⟩
  | closed jump behind => exact ⟨[.semicolon, .symbol jump.text], rfl, rfl⟩

/-- What a statement is read from has the characters of its written form. -/
theorem Begins.exists_written {statement : Statement} {line rest : List Lexeme}
    (h : Begins statement line rest) :
    ∃ complete instruction, line = complete ++ rest ∧ Written statement instruction ∧
      complete.map Lexeme.written = instruction.map Lexeme.written := by
  cases h with
  | literal hdigits pos => exact ⟨[.atSign, .number _], _, rfl, .literal hdigits pos, rfl⟩
  | symbol name pos => exact ⟨[.atSign, .symbol name], _, rfl, .symbol name pos, rfl⟩
  | @compute dest comp jump tail _ hjump =>
    obtain ⟨complete, rfl, hcomplete⟩ := hjump.exists_written
    refine ⟨(if dest.isEmpty then [] else [.fragment dest.text, .equal]) ++
      .fragment comp.text :: complete, _, by simp, .compute dest comp jump, ?_⟩
    rw [computeLine_eq, List.map_append, List.map_append, List.map_cons, List.map_cons, hcomplete]

end Statement

theorem StatementError.ne_missingNewline {places : List Nat} {error : Error}
    (h : StatementError places error) (found : Kind) (pos : Nat) :
    error ≠ unexpected (.token .newline) found pos := by
  obtain ⟨hfault, _⟩ := h
  cases hfault <;> rintro ⟨⟩

section Step
variable {line : Line} {lines : List Line} {seen program : Program} {table : SymbolTable}

theorem exists_stops (words : Array Word) (hfault : line.fault? = none)
    (hlexed : Lexed line.lexemes) (hinstruction : isInstruction line.lexemes = true)
    (hdenotes : ∀ inst, ¬Denotes (seen ++ line.lexemes :: program) line.lexemes inst)
    (htable : Tracks (seen ++ line.lexemes :: program) (seen ++ line.lexemes :: program) seen
      table) :
    ∃ (error : Error) (own : List Word),
      emit table words (line :: lines) = ⟨words ++ own.toArray, .error error⟩ ∧
      LateError line error ∧ Stops seen line.lexemes program error (own.map Word.text) := by
  have hread := Statement.yields_ofLine hfault (.inr (.inl hinstruction))
  rw [emit]
  split
  · next error herror =>
    have hstatement := hread.of_error herror
    exact ⟨error, [], by simp, .statement hstatement, .within hstatement.ne_missingNewline⟩
  · next hnone => exact absurd hnone (Statement.ofLine_ne_none hinstruction)
  · next statement after hline =>
    have hbegins := Statement.begins_of_ofLine hline hlexed
    have hleaves := hread.of_ok hline _ rfl
    split
    · next error herror =>
      have hlate := lateError_of_resolve hleaves herror
      obtain ⟨value, pos, _, rfl⟩ := Statement.error_of_resolve herror
      refine ⟨.source (.valueTooLarge value.text) pos, [], by simp, hlate, .within ?_⟩
      rintro found pos ⟨⟩
    · next inst next hresolve =>
      split
      · next error herror =>
        have hlate := lateError_of_requireNewline hleaves herror
        obtain ⟨found, behind, rfl, rfl⟩ := error_of_requireNewline hleaves.fault herror
        obtain ⟨complete, instruction, hcomplete, hwritten, hspelled⟩ := hbegins.exists_written
        have htable := htable.replace hinstruction hwritten.isInstruction
        refine ⟨unexpected (.token .newline) found.lexeme.kind found.pos, [inst.encode],
          by simp, hlate, ?_⟩
        rw [hcomplete]
        exact .behind hspelled hwritten.isInstruction
          (hwritten.denotes htable hresolve).encodes found.pos
      · next hend =>
        obtain ⟨pos, rfl⟩ := requireNewline_eq_ok hend
        exact absurd (hbegins.written.denotes htable hresolve) (hdenotes inst)

end Step

/-- The second reading of lines that ends with an error, where `seen` are the lines before. -/
theorem exists_interrupted {lines : List Line} {table : SymbolTable} {error : Error}
    (seen : Program) (words : Array Word)
    (hlines : ∀ line ∈ lines, line.fault? = none ∧ Outlined line.lexemes)
    (hlexed : ∀ line ∈ lines, Lexed line.lexemes)
    (htable : Tracks (seen ++ lines.map Line.lexemes) (seen ++ lines.map Line.lexemes) seen table)
    (h : (emit table words lines).outcome = .error error) :
    ∃ (before : List Line) (line : Line) (after : List Line) (insts : List Instruction)
      (own : List Word), lines = before ++ line :: after ∧
      (emit table words lines).words = words ++ ((insts.map encode) ++ own).toArray ∧
      List.Forall₂ (Denotes (seen ++ lines.map Line.lexemes))
        ((before.map Line.lexemes).filter isInstruction) insts ∧
      isInstruction line.lexemes = true ∧
      (∀ inst, ¬Denotes (seen ++ lines.map Line.lexemes) line.lexemes inst) ∧
      LateError line error ∧
      Stops (seen ++ before.map Line.lexemes) line.lexemes (after.map Line.lexemes) error
        (own.map Word.text) := by
  induction lines generalizing seen table words with
  | nil => cases h
  | cons line rest ih =>
    obtain ⟨⟨hfault, houtlined⟩, hrest⟩ := List.forall_mem_cons.mp hlines
    obtain ⟨hlexedLine, hlexedRest⟩ := List.forall_mem_cons.mp hlexed
    rw [List.map_cons] at htable ⊢
    by_cases hgood : isInstruction line.lexemes = true →
        ∃ inst, Denotes (seen ++ line.lexemes :: rest.map Line.lexemes) line.lexemes inst
    · obtain ⟨next, first, hnext, hfirst, hstep⟩ :=
        emit_pass rest words hfault houtlined hgood htable
      rw [hstep] at h ⊢
      rw [List.append_cons] at hnext
      obtain ⟨before, bad, after, insts, own, rfl, hwords, hbefore, hstop⟩ :=
        ih _ _ hrest hlexedRest hnext h
      rw [← List.append_cons] at hbefore hstop
      refine ⟨line :: before, bad, after, first ++ insts, own, rfl, by rw [hwords]; simp, ?_, ?_⟩
      · have hinsts : List.Forall₂ _ (_ ++ _) (_ ++ _) := List.rel_append hfirst hbefore
        rwa [← List.filter_append, List.singleton_append] at hinsts
      · rwa [List.map_cons, List.append_cons seen line.lexemes (before.map Line.lexemes)]
    · obtain ⟨hinstruction, hdenotes⟩ := Classical.not_imp.mp hgood
      obtain ⟨error', own, hemit, hlate, hstops⟩ := exists_stops words hfault hlexedLine
        hinstruction (not_exists.mp hdenotes) htable
      rw [hemit] at h ⊢
      cases h
      refine ⟨[], line, rest, [], own, rfl, by simp, .nil, hinstruction, not_exists.mp hdenotes,
        hlate, ?_⟩
      rwa [List.map_nil, List.append_nil]

/-! ### The source as a program -/

theorem Encodes.congr {first second : Program}
    (h : ∀ name, first.address name = second.address name) {line : List Lexeme} {word : String}
    (hline : Encodes first line word) : Encodes second line word := by
  cases hline with
  | literal hfits => exact .literal hfits
  | @symbol name hfits =>
    rw [h name] at hfits ⊢
    exact .symbol hfits
  | compute hcontrol hcondition => exact .compute hcontrol hcondition

theorem Stops.append_blank {before after : Program} {line : List Lexeme} {error : Error}
    {own : List String} (h : Stops before line after error own) :
    Stops before line (after ++ [[]]) error own := by
  cases h with
  | within herror => exact .within herror
  | @behind complete instruction extra found after word hwritten hinstruction hword pos =>
    refine .behind hwritten hinstruction (hword.congr fun name => ?_) pos
    rw [← List.cons_append, ← List.append_assoc, Program.address_append_blank]

theorem Bound.interrupted {code : String} {program : Program} {table : SymbolTable} {error : Error}
    (hbound : Bound code program table)
    (h : (emit table.restartVariables #[] (Line.ofSource code)).outcome = .error error) :
    ∃ tokens, (Lexer.ofString code).tokens = .ok tokens ∧
      Interrupted (lexemeLines tokens) error
        ((emit table.restartVariables #[] (Line.ofSource code)).words.toList.map Word.text) := by
  obtain ⟨⟨tokens, htokens, hlines⟩, _⟩ := lines_of_reads hbound.reads
  have htracks := hbound.tracks
  rw [← hbound.lexemes] at htracks
  obtain ⟨before, line, after, insts, own, hsplit, hwords, hbefore, hline, hdenotes, _, hstops⟩ :=
    exists_interrupted [] #[] hbound.outlined hbound.lexed htracks h
  rw [List.nil_append, hbound.lexemes] at hbefore hdenotes
  have hprogram : program = before.map Line.lexemes ++ line.lexemes :: after.map Line.lexemes := by
    rw [← hbound.lexemes, hsplit, List.map_append, List.map_cons]
  have haddress (name : String) :
      program.address name = Program.address (program ++ [[]]) name :=
    (Program.address_append_blank program name).symm
  refine ⟨tokens, htokens, ?_⟩
  rw [hlines]
  refine @Interrupted.intro _ _ _ (before.map Line.lexemes) (after.map Line.lexemes ++ [[]])
    line.lexemes (insts.map fun inst => inst.encode.text) (own.map Word.text)
    (by rw [hprogram]; simp) (by rw [hwords]; simp) ?_ hline (fun inst hinst => ?_)
    hstops.append_blank
  · rw [List.forall₂_map_right_iff]
    exact hbefore.imp fun _ _ hinst => hinst.encodes.congr haddress
  · exact hdenotes inst (hinst.congr fun name => (haddress name).symm)

end HackAssembler.Assembly
