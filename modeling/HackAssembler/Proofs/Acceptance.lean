import HackAssembler.Proofs.SecondReading

/-! # Which sources assemble

Well-formed programs, said of the lexemes of their lines. The main theorem states that a source
assembles exactly when it can be read and its lines are a well-formed program. -/
namespace HackAssembler.Assembly

open Source Instruction

/-- The registers A, M and D, each at most once, in this order, and at least one of them. -/
def destinations : List String := ["A", "M", "D", "AM", "AD", "MD", "AMD"]

def computations : List String :=
  ["0", "1", "-1", "D", "A", "M", "!D", "!A", "!M", "-D", "-A", "-M", "D+1", "A+1", "M+1", "D-1",
    "A-1", "M-1", "D+A", "D+M", "D-A", "D-M", "A-D", "M-D", "D&A", "D&M", "D|A", "D|M"]

def jumps : List String := ["JGT", "JEQ", "JGE", "JLT", "JNE", "JLE", "JMP"]

inductive Shape : List Lexeme → Prop
  | blank : Shape []
  | label (name : String) : Shape [.openParen, .symbol name, .closeParen]
  | literal (digits : String) : Shape [.atSign, .number digits]
  | operand (name : String) : Shape [.atSign, .symbol name]
  | compute {dest jump : Option String} {comp : String} (hdest : ∀ text ∈ dest, text ∈ destinations)
      (hcomp : comp ∈ computations) (hjump : ∀ text ∈ jump, text ∈ jumps) :
      Shape (computeLine dest comp jump)

structure WellFormedLine (program : Program) (line : List Lexeme) : Prop where
  shape : Shape line
  literal_le : ∀ digits, line = [.atSign, .number digits] →
    Nat.ofDigitChars 10 digits.toList 0 ≤ 32767
  operand_le : ∀ name, operand? line = some name → program.address name ≤ 32767

structure WellFormed (program : Program) : Prop where
  shape : ∀ line ∈ program, Shape line
  labels_nodup : program.labels.Nodup
  labels_not_predefined : ∀ name ∈ program.labels, Predefined.ofName? name = none
  literal_le : ∀ digits, [.atSign, .number digits] ∈ program →
    Nat.ofDigitChars 10 digits.toList 0 ≤ 32767
  operand_le : ∀ name ∈ program.operands, program.address name ≤ 32767

theorem text_mem_computations (comp : Computation) : comp.text ∈ computations := by
  have h : ∀ comp ∈ Computation.all, comp.text ∈ computations := by decide
  exact h comp (Computation.mem_all comp)

theorem exists_computation {text : String} (h : text ∈ computations) :
    ∃ comp : Computation, comp.text = text := by
  have hall : ∀ text ∈ computations, ∃ comp ∈ Computation.all, comp.text = text := by decide
  obtain ⟨comp, _, hcomp⟩ := hall text h
  exact ⟨comp, hcomp⟩

theorem mem_jumps {jump : Option Jump} : ∀ text ∈ jump.map Jump.text, text ∈ jumps := by
  rcases jump with _ | jump
  · simp
  · cases jump <;> decide

theorem exists_jump {text : Option String} (h : ∀ jump ∈ text, jump ∈ jumps) :
    ∃ jump : Option Jump, jump.map Jump.text = text := by
  cases text with
  | none => exact ⟨none, rfl⟩
  | some text =>
    have hall : ∀ text ∈ jumps, ∃ jump ∈ Jump.all, jump.text = text := by decide
    obtain ⟨jump, _, hjump⟩ := hall text (h text rfl)
    exact ⟨some jump, congrArg some hjump⟩

theorem mem_destinations {dest : Destination} : ∀ text ∈ destText dest, text ∈ destinations := by
  rcases dest with ⟨_ | _, _ | _, _ | _⟩ <;> decide

theorem exists_destination {text : Option String} (h : ∀ dest ∈ text, dest ∈ destinations) :
    ∃ dest, destText dest = text := by
  cases text with
  | none => exact ⟨.none, rfl⟩
  | some text =>
    have htext := h text rfl
    simp only [destinations, List.mem_cons, List.not_mem_nil, or_false] at htext
    rcases htext with rfl | rfl | rfl | rfl | rfl | rfl | rfl
    · exact ⟨⟨true, false, false⟩, by decide⟩
    · exact ⟨⟨false, true, false⟩, by decide⟩
    · exact ⟨⟨false, false, true⟩, by decide⟩
    · exact ⟨⟨true, true, false⟩, by decide⟩
    · exact ⟨⟨true, false, true⟩, by decide⟩
    · exact ⟨⟨false, true, true⟩, by decide⟩
    · exact ⟨⟨true, true, true⟩, by decide⟩

variable {program : Program} {line : List Lexeme}

theorem Denotes.shape {inst : Instruction} (h : Denotes program line inst) : Shape line := by
  cases h with
  | literal => exact .literal _
  | symbol => exact .operand _
  | compute dest comp jump =>
    exact .compute mem_destinations (text_mem_computations comp) mem_jumps

theorem Denotes.literal_le {digits : String} {inst : Instruction}
    (h : Denotes program [.atSign, .number digits] inst) :
    Nat.ofDigitChars 10 digits.toList 0 ≤ maxLoad := by
  generalize hline : [Lexeme.atSign, .number digits] = line at h
  cases h with
  | literal _ hfits =>
    cases hline
    exact hfits
  | symbol => cases hline
  | compute dest comp jump => cases hdest : destText dest <;> simp [computeLine, hdest] at hline

theorem Denotes.operand_le {name : String} {inst : Instruction}
    (h : Denotes program [.atSign, .symbol name] inst) : program.address name ≤ maxLoad := by
  generalize hline : [Lexeme.atSign, .symbol name] = line at h
  cases h with
  | literal => cases hline
  | symbol hfits =>
    cases hline
    exact hfits
  | compute dest comp jump => cases hdest : destText dest <;> simp [computeLine, hdest] at hline

theorem Shape.outlined (h : Shape line) : Outlined line := by
  cases h with
  | blank => exact .inl rfl
  | label name => exact .inr (.inr ⟨name, rfl⟩)
  | literal => exact .inr (.inl rfl)
  | operand => exact .inr (.inl rfl)
  | compute => exact .inr (.inl (isInstruction_computeLine _ _ _))

theorem exists_denotes_iff (hinstruction : isInstruction line = true) (hlexed : Lexed line) :
    (∃ inst, Denotes program line inst) ↔ WellFormedLine program line := by
  constructor
  · rintro ⟨inst, h⟩
    refine ⟨h.shape, fun digits hline => ?_, fun name hline => ?_⟩
    · subst hline
      exact h.literal_le
    · rw [operand?_eq_some_iff] at hline
      subst hline
      exact h.operand_le
  · rintro ⟨hshape, hliteral, hoperand⟩
    cases hshape with
    | blank => cases hinstruction
    | label => cases hinstruction
    | literal digits =>
      cases hlexed with
      | number hdigits => exact ⟨_, .literal hdigits (hliteral digits rfl)⟩
      | punctuation h => simp at h
    | operand name => exact ⟨_, .symbol (hoperand name rfl)⟩
    | compute hdest hcomp hjump =>
      obtain ⟨dest, rfl⟩ := exists_destination hdest
      obtain ⟨comp, rfl⟩ := exists_computation hcomp
      obtain ⟨jump, rfl⟩ := exists_jump hjump
      exact ⟨_, .compute dest comp jump⟩

theorem WellFormed.wellFormedLine (h : WellFormed program) (hline : line ∈ program) :
    WellFormedLine program line where
  shape := h.shape line hline
  literal_le digits heq := h.literal_le digits (heq ▸ hline)
  operand_le name hname := h.operand_le name (List.mem_filterMap.mpr ⟨line, hline, hname⟩)

theorem exists_denotes_of_forall₂ {lines : List (List Lexeme)} {insts : List Instruction}
    (h : List.Forall₂ (Denotes program) lines insts) :
    ∀ line ∈ lines, ∃ inst, Denotes program line inst := by
  induction h with
  | nil => simp
  | cons hline _ ih => exact List.forall_mem_cons.mpr ⟨⟨_, hline⟩, ih⟩

theorem forall₂_of_exists_denotes {lines : List (List Lexeme)}
    (h : ∀ line ∈ lines, ∃ inst, Denotes program line inst) :
    ∃ insts, List.Forall₂ (Denotes program) lines insts := by
  induction lines with
  | nil => exact ⟨[], .nil⟩
  | cons line rest ih =>
    obtain ⟨⟨inst, hinst⟩, hrest⟩ := List.forall_mem_cons.mp h
    obtain ⟨insts, hinsts⟩ := ih hrest
    exact ⟨inst :: insts, .cons hinst hinsts⟩

theorem Assembles.operand_le {insts : List Instruction} (h : Assembles program insts)
    {name : String} (hname : name ∈ program.operands) : program.address name ≤ maxLoad := by
  obtain ⟨line, hline, hoperand⟩ := List.mem_filterMap.mp hname
  rw [operand?_eq_some_iff] at hoperand
  subst hoperand
  obtain ⟨inst, hinst⟩ :=
    exists_denotes_of_forall₂ h.denotes _ (List.mem_filter.mpr ⟨hline, rfl⟩)
  exact hinst.operand_le

theorem wellFormed_iff (hlexed : ∀ line ∈ program, Lexed line) :
    WellFormed program ↔ ∃ insts, Assembles program insts := by
  constructor
  · intro h
    have hinst : ∀ line ∈ program.filter isInstruction, ∃ inst, Denotes program line inst := by
      intro line hline
      obtain ⟨hmem, hinstruction⟩ := List.mem_filter.mp hline
      exact (exists_denotes_iff hinstruction (hlexed line hmem)).mpr (h.wellFormedLine hmem)
    obtain ⟨insts, hinsts⟩ := forall₂_of_exists_denotes hinst
    exact ⟨insts, fun line hline => (h.shape line hline).outlined,
      ⟨h.labels_nodup, h.labels_not_predefined⟩, hinsts⟩
  · rintro ⟨insts, houtlined, ⟨hnodup, hfree⟩, hdenotes⟩
    have hinst (line : List Lexeme) (hline : line ∈ program)
        (hinstruction : isInstruction line = true) : ∃ inst, Denotes program line inst :=
      exists_denotes_of_forall₂ hdenotes line (List.mem_filter.mpr ⟨hline, hinstruction⟩)
    refine ⟨fun line hline => ?_, hnodup, hfree, fun digits hline => ?_, fun name hname => ?_⟩
    · rcases houtlined line hline with rfl | hinstruction | ⟨name, hname⟩
      · exact .blank
      · obtain ⟨inst, h⟩ := hinst line hline hinstruction
        exact h.shape
      · rw [declared?_eq_some_iff.mp hname]
        exact .label name
    · obtain ⟨inst, h⟩ := hinst _ hline rfl
      exact h.literal_le
    · exact Assembles.operand_le ⟨houtlined, ⟨hnodup, hfree⟩, hdenotes⟩ hname

/-- A source assembles exactly when the lexer reads it and its lines are a well-formed program. -/
theorem assemble_succeeds_iff (code : String) :
    (∃ output, assemble code = .ok output) ↔
      ∃ tokens, (Lexer.ofString code).tokens = .ok tokens ∧ WellFormed (lexemeLines tokens) := by
  have hblank {program : Program} (h : ∀ line ∈ program, Lexed line) :
      ∀ line ∈ program ++ [[]], Lexed line := by
    rw [List.forall_mem_append]
    exact ⟨h, by simpa using Lexed.nil⟩
  constructor
  · rintro ⟨output, h⟩
    obtain ⟨program, insts, hreads, hprogram, _⟩ := assemble_eq_ok_iff.mp h
    obtain ⟨⟨tokens, htokens, hlines⟩, _⟩ := lines_of_reads hreads
    refine ⟨tokens, htokens, ?_⟩
    rw [hlines, wellFormed_iff (hblank (lexed_of_reads hreads))]
    exact ⟨insts, assembles_append_blank_iff.mpr hprogram⟩
  · rintro ⟨tokens, htokens, hwell⟩
    obtain ⟨program, hreads⟩ := exists_reads_of_tokens htokens
    obtain ⟨⟨tokens', htokens', hlines⟩, _⟩ := lines_of_reads hreads
    obtain rfl : tokens' = tokens := Except.ok.inj (htokens'.symm.trans htokens)
    rw [hlines, wellFormed_iff (hblank (lexed_of_reads hreads))] at hwell
    obtain ⟨insts, hprogram⟩ := hwell
    exact ⟨_, assemble_eq_ok_iff.mpr
      ⟨program, insts, hreads, assembles_append_blank_iff.mp hprogram, rfl⟩⟩

end HackAssembler.Assembly
