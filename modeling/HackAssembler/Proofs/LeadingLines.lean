import HackAssembler.Proofs.JoinedTexts
import HackAssembler.Proofs.SourcePrograms
import HackAssembler.Proofs.Translation
import Mathlib.Data.List.Nodup

/-! # The leading lines of a program

Lines behind a program can change what the names in it stand for only by declaring one of them as
a label. If they do not, the program assembles by itself, to the first words of the whole, and its
names have the same addresses there. -/
namespace HackAssembler.Assembly

open Source Instruction Text

namespace Program

section Append
variable {first second : Program} {name : String}

/-- The names that the second program does not declare are variables of both or of none. -/
theorem isVariable_append (h : name ∉ second.labels) :
    isVariable (first ++ second) name = first.isVariable name := by
  simp [isVariable, labels_append, h]

variable (hfresh : ∀ name ∈ first.operands, name ∉ second.labels)
include hfresh

theorem variablesOf_append_left {seen : Program} (hseen : ∀ line ∈ seen, line ∈ first) :
    variablesOf (first ++ second) seen = first.variablesOf seen := by
  rw [variablesOf, variablesOf, List.filter_congr]
  intro name hname
  obtain ⟨line, hline, hoperand⟩ := List.mem_filterMap.mp hname
  exact isVariable_append (hfresh name (List.mem_filterMap.mpr ⟨line, hseen line hline, hoperand⟩))

theorem variableAddress_append_left (h : name ∈ first.operands) :
    variableAddress (first ++ second) name = first.variableAddress name := by
  obtain ⟨line, hline, hname⟩ := List.mem_filterMap.mp h
  rw [variableAddress, variableAddress, takeWhile_append_of_mem hline (by simp [hname]),
    variablesOf_append_left hfresh fun line => (List.takeWhile_subset _ ·)]

theorem address_append_left (h : name ∈ first.operands) :
    address (first ++ second) name = first.address name := by
  have hlabels : name ∈ labels (first ++ second) ↔ name ∈ first.labels := by
    simp [labels_append, hfresh name h]
  rw [address, address, variableAddress_append_left hfresh h]
  simp only [hlabels]
  cases Predefined.ofName? name with
  | some symbol => rfl
  | none =>
    by_cases hlabel : name ∈ first.labels
    · simp [hlabel, labelAddress_append_left hlabel]
    · simp [hlabel]

end Append

end Program

section Prefix
variable {first second : Program} {insts : List Instruction}
  (hfresh : ∀ name ∈ first.operands, name ∉ second.labels)
include hfresh

theorem Assembles.leading (h : Assembles (first ++ second) insts) :
    ∃ front back, insts = front ++ back ∧ Assembles first front := by
  have hinsts := h.denotes
  rw [List.filter_append] at hinsts
  obtain ⟨front, back, rfl, hfront, -⟩ := forall₂_append_inv hinsts
  refine ⟨front, back, rfl, fun line hline => h.outlined line (List.mem_append_left _ hline),
    h.labelsFresh.of_append, ?_⟩
  have hlines := (List.forall₂_and_left _ _).mpr
    ⟨fun line hline => (List.mem_filter.mp hline).1, hfront⟩
  refine hlines.imp fun line inst hline => hline.2.congr_operand fun name hname => ?_
  exact Program.address_append_left hfresh (List.mem_filterMap.mpr ⟨line, hline.1, hname⟩)

/-- The labels and variables of leading lines are bound in the table of the whole program as they
are in their own. -/
theorem Tracks.get?_leading {table joined : SymbolTable}
    (htable : Tracks first first first table) (hlabels : (first ++ second : Program).LabelsFresh)
    (hjoined : Tracks (first ++ second) (first ++ second) (first ++ second) joined)
    {binding : Binding} (hbinding : binding ∈ table.user) :
    joined.get? binding.name = some binding := by
  rw [htable.user_eq, List.mem_append] at hbinding
  rw [hjoined.get?_eq]
  rcases hbinding with hlabel | hvariable
  · obtain ⟨name, hname, rfl⟩ := List.mem_map.mp hlabel
    have hmem : name ∈ Program.labels (first ++ second) := by simp [Program.labels_append, hname]
    simp [labelBinding, hlabels.not_predefined name hmem, hmem,
      Program.labelAddress_append_left hname]
  · obtain ⟨name, hname, rfl⟩ := List.mem_map.mp hvariable
    obtain ⟨hused, hvariable⟩ := Program.mem_variablesOf.mp hname
    obtain ⟨hpredefined, hlabel⟩ := Program.isVariable_iff.mp hvariable
    have hnot : name ∉ Program.labels (first ++ second) := by
      simp [Program.labels_append, hlabel, hfresh name hused]
    have hmem : name ∈ Program.variablesOf (first ++ second) (first ++ second) := by
      rw [Program.mem_variablesOf, Program.isVariable_append (hfresh name hused)]
      simp [Program.operands_append, hused, hvariable]
    have haddress := Program.variableAddress_append_left hfresh hused
    simp [variableBinding, hpredefined, hnot, hmem, haddress]

end Prefix

/-- The labels behind leading lines are bound behind the instructions of those. -/
theorem Tracks.get?_behind {first second : Program} {joined : SymbolTable}
    (hjoined : Tracks (first ++ second) (first ++ second) (first ++ second) joined)
    (hlabels : (first ++ second : Program).LabelsFresh) {name : String}
    (hname : name ∈ second.labels) :
    joined.get? name =
      some ⟨name, .label, first.countP isInstruction + second.labelAddress name⟩ := by
  have hmem : name ∈ Program.labels (first ++ second) := by simp [Program.labels_append, hname]
  have hfirst : name ∉ first.labels := fun h => by
    have hnodup := hlabels.nodup
    rw [Program.labels_append] at hnodup
    exact List.disjoint_of_nodup_append hnodup h hname
  rw [hjoined.get?_eq]
  simp [labelBinding, hlabels.not_predefined name hmem, hmem,
    Program.labelAddress_append_right hfirst]

/-- Leading lines of a source that assembles, behind which no label is declared that they use,
assemble to the first words of the source. Their symbols have the kinds and addresses that they
have in the whole, where the labels behind them lie behind their instructions. -/
theorem assemble_leading {a b output : String} (h : assemble (a ++ "\n" ++ b) = .ok output)
    (hfresh : ∀ name ∈ (programOf b).labels, name ∉ (programOf a).operands) :
    ∃ front back table joined, assemble a = .ok front ∧ output = front ++ back ∧
      symbols a = .ok table ∧ symbols (a ++ "\n" ++ b) = .ok joined ∧
      (∀ binding ∈ table.user, joined.get? binding.name = some binding) ∧
      ∀ name ∈ (programOf b).labels, ∃ address,
        joined.get? name = some ⟨name, .label, address⟩ ∧
          (programOf a).countP isInstruction ≤ address := by
  obtain ⟨whole, insts, hreads, hprogram, rfl⟩ := assemble_eq_ok_iff.mp h
  have hsource := hreads
  rw [Lexer.toList_join, pieces_append_newline] at hsource
  obtain ⟨first, second, rfl, hfirst, hsecond⟩ := forall₂_append_inv hsource
  rw [programOf_eq hfirst, programOf_eq hsecond] at *
  have hused : ∀ name ∈ Program.operands first, name ∉ Program.labels second :=
    fun name hname hlabel => hfresh name hlabel hname
  obtain ⟨front, back, rfl, hleading⟩ := hprogram.leading hused
  obtain ⟨table, htable, ha⟩ := Emission.exists_ofSource hfirst hleading
  obtain ⟨joined, hjoined, hboth⟩ := Emission.exists_ofSource hreads hprogram
  refine ⟨binary (front.map encode).toArray, binary (back.map encode).toArray, table, joined,
    assemble_eq_ok_iff.mpr ⟨first, front, hfirst, hleading, rfl⟩, ?_, by rw [symbols, ha],
    by rw [symbols, hboth], fun binding => htable.get?_leading hused hprogram.labelsFresh hjoined,
    fun name hname => ⟨_, hjoined.get?_behind hprogram.labelsFresh hname, Nat.le_add_right _ _⟩⟩
  simp [binary_eq_join, String.join_append]

/-- A loop with a variable, in front of another label and of loads of an old and a new variable. -/
theorem assemble_leading_loop :
    (∀ name ∈ (programOf "(END)\n@stop\n@i").labels,
        name ∉ (programOf "(LOOP)\n@i\n@LOOP\n0;JMP").operands) ∧
      ∃ front back table joined, assemble "(LOOP)\n@i\n@LOOP\n0;JMP" = .ok front ∧
        "0000000000010000\n0000000000000000\n1110101010000111\n" ++
            "0000000000010001\n0000000000010000\n" = front ++ back ∧
        symbols "(LOOP)\n@i\n@LOOP\n0;JMP" = .ok table ∧
        symbols ("(LOOP)\n@i\n@LOOP\n0;JMP" ++ "\n" ++ "(END)\n@stop\n@i") = .ok joined ∧
        (∀ binding ∈ table.user, joined.get? binding.name = some binding) ∧
        ∀ name ∈ (programOf "(END)\n@stop\n@i").labels, ∃ address,
          joined.get? name = some ⟨name, .label, address⟩ ∧
            (programOf "(LOOP)\n@i\n@LOOP\n0;JMP").countP isInstruction ≤ address := by
  have h : assemble ("(LOOP)\n@i\n@LOOP\n0;JMP" ++ "\n" ++ "(END)\n@stop\n@i") = .ok
      ("0000000000010000\n0000000000000000\n1110101010000111\n" ++
        "0000000000010001\n0000000000010000\n") := by
    decide +kernel
  have hfresh : ∀ name ∈ (programOf "(END)\n@stop\n@i").labels,
      name ∉ (programOf "(LOOP)\n@i\n@LOOP\n0;JMP").operands := by
    decide +kernel
  exact ⟨hfresh, assemble_leading h hfresh⟩

end HackAssembler.Assembly
