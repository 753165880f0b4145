import HackAssembler.Proofs.Acceptance
import HackAssembler.Proofs.Disassembly
import HackAssembler.Proofs.Translation
import Mathlib.Data.List.Induction
import Mathlib.Data.List.Nodup

/-! # The final symbol table

What the table holds when a source has been assembled: the predefined symbols, the labels and the
variables, each name once. Every operand was emitted as the address that the table still holds for
its name, so no binding made early is changed later. -/
namespace HackAssembler

theorem Predefined.ofName?_eq_none_iff {name : String} :
    Predefined.ofName? name = none ↔ name ∉ Predefined.all.map Predefined.name := by
  rw [Predefined.ofName?, List.find?_eq_none]
  simp

namespace Assembly

open Source Instruction Text

namespace Program

variable {program seen rest : Program}

theorem nodup_variablesOf (program seen : Program) : (program.variablesOf seen).Nodup := by
  induction seen using List.reverseRecOn with
  | nil => exact List.nodup_nil
  | append_singleton seen line ih =>
    rw [variablesOf_append]
    cases operand? line with
    | none => simpa using ih
    | some name =>
      rw [Option.toList_some, List.filter_cons, List.filter_nil]
      split
      · next hnew =>
        simp only [Bool.and_eq_true, decide_eq_true_eq] at hnew
        exact List.nodup_append'.mpr ⟨ih, List.nodup_singleton name, by simpa using hnew.2⟩
      · simpa using ih

theorem map_variableBinding (seen rest : Program) :
    (variablesOf (seen ++ rest) seen).map (variableBinding (seen ++ rest)) =
      (variablesOf (seen ++ rest) seen).mapIdx fun i name =>
        ⟨name, .variable, SymbolTable.firstVariable + i⟩ := by
  induction seen using List.reverseRecOn generalizing rest with
  | nil => rfl
  | append_singleton seen line ih =>
    have hwhole : seen ++ [line] ++ rest = seen ++ line :: rest := by simp
    rw [hwhole, variablesOf_append, List.map_append, ih, List.mapIdx_append]
    congr 1
    cases hline : operand? line with
    | none => rfl
    | some name =>
      rw [Option.toList_some, List.filter_cons, List.filter_nil]
      split
      · next hnew =>
        simp only [Bool.and_eq_true, decide_eq_true_eq] at hnew
        have hunused : name ∉ operands seen := fun hmem =>
          hnew.2 (mem_variablesOf.mpr ⟨hmem, hnew.1⟩)
        simp [variableBinding, variableAddress_eq hline hunused]
      · rfl

end Program

namespace Tracks

variable {program declared used : Program} {table : SymbolTable}

theorem names_eq (h : Tracks program declared used table) :
    table.bindings.toList.map (·.name) =
      Predefined.all.map Predefined.name ++ declared.labels ++ program.variablesOf used := by
  rw [h.bindings, List.map_append, List.map_append, List.map_map, List.map_map, List.map_map]
  simp [Function.comp_def, Predefined.binding, labelBinding, variableBinding]

theorem nodup_names (h : Tracks program program used table) (hlabels : program.LabelsFresh) :
    (table.bindings.toList.map (·.name)).Nodup := by
  rw [h.names_eq]
  have hvariable {name : String} (hname : name ∈ program.variablesOf used) :=
    Program.isVariable_iff.mp (Program.mem_variablesOf.mp hname).2
  refine List.nodup_append'.mpr ⟨List.nodup_append'.mpr ⟨by decide, hlabels.nodup, ?_⟩,
    Program.nodup_variablesOf program used, ?_⟩
  · intro name hpredefined hlabel
    exact Predefined.ofName?_eq_none_iff.mp (hlabels.not_predefined name hlabel) hpredefined
  · intro name hbound hname
    rcases List.mem_append.mp hbound with hpredefined | hlabel
    · exact Predefined.ofName?_eq_none_iff.mp (hvariable hname).1 hpredefined
    · exact (hvariable hname).2 hlabel

theorem address?_of_used (h : Tracks program program used table) {name : String}
    (hname : name ∈ used.operands) : table.address? name = some (program.address name) := by
  cases hbound : table.get? name with
  | some binding => rw [SymbolTable.address?, hbound, Option.map_some, h.address_of_bound hbound]
  | none =>
    obtain ⟨hpredefined, hlabel, hvariable⟩ := h.get?_eq_none_iff.mp hbound
    exact absurd (Program.mem_variablesOf.mpr
      ⟨hname, Program.isVariable_iff.mpr ⟨hpredefined, hlabel⟩⟩) hvariable

theorem append_blank (h : Tracks program program program table) :
    Tracks (program ++ [[]]) (program ++ [[]]) (program ++ [[]]) table := by
  have hvariables := Program.variablesOf_append_blank program program
  constructor
  · have hlabel : labelBinding (program ++ [[]]) = labelBinding program := by
      funext name
      rw [labelBinding, labelBinding, Program.labelAddress_append_blank]
    have hvariable : variableBinding (program ++ [[]]) = variableBinding program := by
      funext name
      rw [variableBinding, variableBinding, Program.variableAddress_append_blank]
    rw [h.bindings, hvariables, Program.labels_append_blank, hlabel, hvariable]
  · rw [h.nextVariable, hvariables]

end Tracks

def predefinedTable : List (String × Nat) :=
  [("SP", 0), ("LCL", 1), ("ARG", 2), ("THIS", 3), ("THAT", 4), ("SCREEN", 16384),
    ("KBD", 24576)] ++ (List.range 16).map fun i => ("R" ++ toString i, i)

theorem map_binding_eq_predefinedTable :
    Predefined.all.map Predefined.binding =
      predefinedTable.map fun entry => ⟨entry.1, .predefined, entry.2⟩ := by
  decide +kernel

structure Describes (program : Program) (table : SymbolTable) : Prop where
  bindings : table.bindings.toList =
    predefinedTable.map (fun entry => ⟨entry.1, .predefined, entry.2⟩) ++
      program.labels.map (fun name => ⟨name, .label, program.labelAddress name⟩) ++
        (program.variablesOf program).mapIdx fun i name => ⟨name, .variable, 16 + i⟩
  nodup : (table.bindings.toList.map (·.name)).Nodup
  variable_free : ∀ name ∈ program.variablesOf program,
    Predefined.ofName? name = none ∧ name ∉ program.labels
  variable_le : ∀ binding ∈ table.bindings.toList,
    binding.kind = .variable → binding.address ≤ 32767

/-- The word of a line is the address that the table holds for the operand of the line, if that
is a name. -/
def Loads (table : SymbolTable) (line : List Lexeme) (word : String) : Prop :=
  ∀ name, operand? line = some name →
    ∃ address, table.address? name = some address ∧ word = binaryNumeral 16 address

section Described
variable {program : Program} {table : SymbolTable} {insts : List Instruction}

theorem Tracks.describes (h : Tracks program program program table)
    (hprogram : Assembles program insts) : Describes program table where
  bindings := by
    have hvariables := Program.map_variableBinding program []
    rw [List.append_nil] at hvariables
    rw [h.bindings, hvariables, map_binding_eq_predefinedTable]
    rfl
  nodup := h.nodup_names hprogram.labelsFresh
  variable_free name hname := Program.isVariable_iff.mp (Program.mem_variablesOf.mp hname).2
  variable_le binding hbinding hkind := by
    rw [h.bindings, List.mem_append, List.mem_append] at hbinding
    rcases hbinding with (hpredefined | hlabel) | hvariable
    · obtain ⟨symbol, _, rfl⟩ := List.mem_map.mp hpredefined
      cases hkind
    · obtain ⟨name, _, rfl⟩ := List.mem_map.mp hlabel
      cases hkind
    · obtain ⟨name, hname, rfl⟩ := List.mem_map.mp hvariable
      obtain ⟨hused, hvariable⟩ := Program.mem_variablesOf.mp hname
      obtain ⟨hpredefined, hlabel⟩ := Program.isVariable_iff.mp hvariable
      have hfits := hprogram.operand_le hused
      simp only [Program.address, hpredefined, hlabel, if_false] at hfits
      exact hfits

/-- The word of a line that uses a name is the address of the name. -/
theorem Encodes.word_eq {line : List Lexeme} {word name : String} (h : Encodes program line word)
    (hline : operand? line = some name) : word = binaryNumeral 16 (program.address name) := by
  cases h with
  | literal => cases hline
  | symbol =>
    cases hline
    rfl
  | compute =>
    rw [operand?_computeLine] at hline
    cases hline

theorem Tracks.loads (h : Tracks program program program table)
    (hinsts : List.Forall₂ (Denotes program) (program.filter isInstruction) insts) :
    List.Forall₂ (Loads table) (program.filter isInstruction)
      (insts.map fun inst => inst.encode.text) := by
  have hlines := (List.forall₂_and_left _ _).mpr
    ⟨fun line hline => (List.mem_filter.mp hline).1, hinsts⟩
  rw [List.forall₂_map_right_iff]
  refine hlines.imp fun line inst hline name hname => ?_
  obtain ⟨hmem, hinst⟩ := hline
  exact ⟨program.address name, h.address?_of_used (List.mem_filterMap.mpr ⟨line, hmem, hname⟩),
    hinst.encodes.word_eq hname⟩

end Described

/-! ### A label behind many instructions -/

/-- A label that nothing uses, behind `n` instructions. -/
def labelBehind (n : Nat) : String :=
  "\n".intercalate (List.replicate n "0" ++ ["(END)"])

def labelBehindProgram (n : Nat) : Program :=
  List.replicate n [.fragment "0"] ++ [[.openParen, .symbol "END", .closeParen]]

theorem labels_labelBehindProgram (n : Nat) : (labelBehindProgram n).labels = ["END"] := by
  have hzeros : Program.labels (List.replicate n [.fragment "0"]) = [] := by
    simp [Program.labels, declared?]
  rw [labelBehindProgram, Program.labels_append, hzeros]
  rfl

theorem labelAddress_labelBehindProgram (n : Nat) :
    (labelBehindProgram n).labelAddress "END" = n := by
  rw [labelBehindProgram, Program.labelAddress_eq rfl]
  · simp [List.countP_replicate, isInstruction]
  · simp [Program.labels, declared?]

theorem reads_labelBehind (n : Nat) :
    List.Forall₂ Reads (pieces (labelBehind n).toList) (labelBehindProgram n) := by
  have hzero : Reads "0".toList [.fragment "0"] := reads_text (.compute .none .zero none)
  have hend : Reads "(END)".toList [.openParen, .symbol "END", .closeParen] :=
    .punctuation (by decide) rfl
      (@Reads.name 'E' ['N', 'D'] [] _ ⟨rfl, by decide, rfl, by decide⟩ rfl rfl
        (.punctuation (by decide) rfl .nil))
  have hpieces : pieces (labelBehind n).toList =
      List.replicate n "0".toList ++ ["(END)".toList] := by
    rw [labelBehind, String.toList_intercalate, List.map_append, List.map_replicate]
    refine pieces_intercalate (by simp) fun line hline => ?_
    rcases List.mem_append.mp hline with h | h
    · rw [List.eq_of_mem_replicate h]
      decide
    · rw [List.mem_singleton.mp h]
      decide
  rw [hpieces, labelBehindProgram]
  exact List.rel_append (List.forall₂_iff_get.mpr ⟨by simp, fun i _ _ => by simpa using hzero⟩)
    (.cons hend .nil)

theorem assembles_labelBehind (n : Nat) :
    Assembles (labelBehindProgram n) (List.replicate n (.compute .none .zero none)) := by
  have hzero : Denotes (labelBehindProgram n) [.fragment "0"] (.compute .none .zero none) :=
    .compute .none .zero none
  constructor
  · rw [labelBehindProgram, List.forall_mem_append]
    refine ⟨fun line hline => ?_, by simp [Outlined, declared?]⟩
    rw [List.eq_of_mem_replicate hline]
    exact .inr (.inl rfl)
  · constructor
    · rw [labels_labelBehindProgram]
      exact List.nodup_singleton _
    · rw [labels_labelBehindProgram]
      decide
  · have hfilter : (labelBehindProgram n).filter isInstruction =
        List.replicate n [.fragment "0"] := by
      simp [labelBehindProgram, isInstruction]
    rw [hfilter]
    exact List.forall₂_iff_get.mpr ⟨by simp, fun i _ _ => by simpa using hzero⟩

/-- A label may lie where no load can reach it. -/
theorem exists_labelBehind (n : Nat) :
    ∃ table, symbols (labelBehind n) = .ok table ∧
      ⟨"END", .label, n⟩ ∈ table.bindings.toList := by
  obtain ⟨table, htable, hsource⟩ :=
    Emission.exists_ofSource (reads_labelBehind n) (assembles_labelBehind n)
  refine ⟨table, by rw [symbols, hsource], ?_⟩
  rw [htable.bindings, labels_labelBehindProgram]
  simp [labelBinding, labelAddress_labelBehindProgram]

/-- The table of a source without errors holds the predefined symbols, the labels and the
variables, and each operand is emitted as the address that the table holds for it. The address of
a label that is never used has no bound. -/
theorem symbols_describe_program :
    (∀ (code : String) (table : SymbolTable), symbols code = .ok table →
      ∃ tokens words, (Lexer.ofString code).tokens = .ok tokens ∧
        assemble code = .ok (String.join (words.map (· ++ "\n"))) ∧
        (∀ word ∈ words, word.length = 16 ∧ ∀ c ∈ word.toList, c = '0' ∨ c = '1') ∧
        Describes (lexemeLines tokens) table ∧
        List.Forall₂ (Loads table) ((lexemeLines tokens).filter isInstruction) words) ∧
    ∀ n, ∃ table, symbols (labelBehind n) = .ok table ∧
      ⟨"END", .label, n⟩ ∈ table.bindings.toList := by
  refine ⟨fun code table h => ?_, exists_labelBehind⟩
  obtain ⟨program, insts, hreads, hprogram⟩ := Emission.exists_assembles h
  obtain ⟨final, hfinal, hsource⟩ := Emission.exists_ofSource hreads hprogram
  obtain ⟨⟨tokens, htokens, hlines⟩, _⟩ := lines_of_reads hreads
  obtain rfl : final = table := by simpa only [symbols, hsource, Except.ok.injEq] using h
  have hblank := assembles_append_blank_iff.mpr hprogram
  refine ⟨tokens, insts.map fun inst => inst.encode.text, htokens, ?_, ?_, ?_, ?_⟩
  · rw [assemble_eq_ok_iff]
    exact ⟨program, insts, hreads, hprogram, by simp [binary_eq_join, Function.comp_def]⟩
  · rw [List.forall_mem_map]
    exact fun inst _ => ⟨Word.length_text _, fun c => Word.mem_text⟩
  · rw [hlines]
    exact hfinal.append_blank.describes hblank
  · rw [hlines]
    exact hfinal.append_blank.loads hblank.denotes

/-- A source with two variables, a label that is used before its declaration and a register. -/
def countUp : String :=
  "@END\n0;JMP\n@step\nD=M\n@count\nM=D+M\n@R1\n(END)\n@step"

theorem symbols_describe_countUp :
    ∃ table, symbols countUp = .ok table ∧
      ∃ tokens words, (Lexer.ofString countUp).tokens = .ok tokens ∧
        assemble countUp = .ok (String.join (words.map (· ++ "\n"))) ∧
        (∀ word ∈ words, word.length = 16 ∧ ∀ c ∈ word.toList, c = '0' ∨ c = '1') ∧
        Describes (lexemeLines tokens) table ∧
        List.Forall₂ (Loads table) ((lexemeLines tokens).filter isInstruction) words := by
  have hok : (symbols countUp).toBool = true := by decide +kernel
  cases h : symbols countUp with
  | error error =>
    rw [h] at hok
    cases hok
  | ok table => exact ⟨table, rfl, symbols_describe_program.1 countUp table h⟩

end Assembly

end HackAssembler
