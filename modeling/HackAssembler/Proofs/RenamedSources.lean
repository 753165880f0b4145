import HackAssembler.Proofs.Acceptance
import HackAssembler.Proofs.Respelling
import HackAssembler.Proofs.SourcePrograms

/-! # Sources with new names

A text in which names are spelled anew reads as the lines with the new names. So a source in which
other names stand for the same things assembles to the same words as before. -/
namespace HackAssembler.Assembly

open Source Instruction Text

/-- Predefined symbols keep their names. -/
def renamed (new : String → String) (name : String) : String :=
  if (Predefined.ofName? name).isSome then name else new name

def renameSource (new : String → String) (code : String) : String :=
  String.ofList (respell (renamed new) (Lexer.ofString code).cursor.scan.1 code.toList)

def Program.userNames (program : Program) : List String :=
  program.names.filter fun name => Predefined.ofName? name = none

/-- Different names for the labels and variables of a program, all of which a source can give to
labels and variables. -/
structure NewNames (program : Program) (new : String → String) : Prop where
  injective : ∀ first ∈ program.userNames, ∀ second ∈ program.userNames, new first = new second →
    first = second
  isName : ∀ name ∈ program.userNames, isName (new name) = true
  not_predefined : ∀ name ∈ program.userNames, Predefined.ofName? (new name) = none

theorem isName_predefined : ∀ symbol ∈ Predefined.all, isName symbol.name = true := by
  decide +kernel

section NewNames
variable {program : Program} {new : String → String} {name : String}

theorem renamed_of_predefined {symbol : Predefined} (h : Predefined.ofName? name = some symbol) :
    renamed new name = name := by
  simp [renamed, h]

theorem renamed_of_user (h : Predefined.ofName? name = none) : renamed new name = new name := by
  simp [renamed, h]

theorem Program.mem_userNames (hname : name ∈ program.names)
    (h : Predefined.ofName? name = none) : name ∈ program.userNames := by
  simp [userNames, hname, h]

variable (h : NewNames program new)
include h

theorem NewNames.ofName?_renamed (hname : name ∈ program.names) :
    Predefined.ofName? (renamed new name) = Predefined.ofName? name := by
  cases hpredefined : Predefined.ofName? name with
  | some symbol => rw [renamed_of_predefined hpredefined, hpredefined]
  | none =>
    rw [renamed_of_user hpredefined]
    exact h.not_predefined name (Program.mem_userNames hname hpredefined)

theorem NewNames.keepsApart : program.KeepsApart (renamed new) where
  predefined _ := h.ofName?_renamed
  injective first hfirst second hsecond heq := by
    have hsame := h.ofName?_renamed hfirst
    rw [heq, h.ofName?_renamed hsecond] at hsame
    cases hpredefined : Predefined.ofName? first with
    | some symbol =>
      rwa [renamed_of_predefined hpredefined,
        renamed_of_predefined (hsame.trans hpredefined)] at heq
    | none =>
      have hother := hsame.trans hpredefined
      rw [renamed_of_user hpredefined, renamed_of_user hother] at heq
      exact h.injective first (Program.mem_userNames hfirst hpredefined) second
        (Program.mem_userNames hsecond hother) heq

theorem NewNames.isName_renamed (hname : name ∈ program.names) :
    Source.isName (renamed new name) = true := by
  cases hpredefined : Predefined.ofName? name with
  | some symbol =>
    rw [renamed_of_predefined hpredefined]
    have hsymbol : symbol.name = name := by simpa using List.find?_some hpredefined
    exact hsymbol ▸ isName_predefined symbol (List.mem_of_find?_eq_some hpredefined)
  | none =>
    rw [renamed_of_user hpredefined]
    exact h.isName name (Program.mem_userNames hname hpredefined)

end NewNames

section Source
variable {program : Program} {new : String → String} {code : String}

/-- Symbols stand nowhere else than in declarations and in loads. -/
theorem Shape.mem_names {line : List Lexeme} (h : Shape line) (hline : line ∈ program)
    {name : String} (hname : .symbol name ∈ line) : name ∈ program.names := by
  cases h with
  | blank => cases hname
  | label other =>
    obtain rfl : name = other := by simpa using hname
    exact Program.mem_names_of_label (List.mem_filterMap.mpr ⟨_, hline, rfl⟩)
  | literal => simp at hname
  | operand other =>
    obtain rfl : name = other := by simpa using hname
    exact Program.mem_names_of_operand (List.mem_filterMap.mpr ⟨_, hline, rfl⟩)
  | @compute dest jump comp => cases dest <;> cases jump <;> simp [computeLine] at hname

theorem reads_renameSource (hreads : List.Forall₂ Reads (pieces code.toList) program)
    (hnew : ∀ line ∈ program, ∀ name, .symbol name ∈ line → isName (renamed new name) = true) :
    List.Forall₂ Reads (pieces (renameSource new code).toList) (program.rename (renamed new)) := by
  obtain ⟨tokens, last, text, hrun, hrespells, hrenamed⟩ :=
    exists_respelled hreads (pieces_ne_nil code.toList) hnew 0
  rw [unlines_pieces] at hrun
  have hscan : (Lexer.ofString code).cursor.scan = _ := hrun.scan_eq
  rw [intercalate_pieces] at hrespells
  have hend : Respells (renamed new) 0 code.toList (tokens ++ [⟨.endOfInput, last⟩]) text := by
    simpa using hrespells.append (.sign (by simp) (.nil _ _ []))
  have htext : (renameSource new code).toList = text := by
    rw [renameSource, String.toList_ofList, hscan]
    simpa using hend [] [] rfl
  rwa [htext]

theorem Tracks.ofName?_of_user {table : SymbolTable} (h : Tracks program program program table)
    (hlabels : program.LabelsFresh) {binding : Binding} (hbinding : binding ∈ table.user) :
    Predefined.ofName? binding.name = none := by
  rw [h.user_eq, List.mem_append] at hbinding
  rcases hbinding with hlabel | hvariable
  · obtain ⟨name, hname, rfl⟩ := List.mem_map.mp hlabel
    exact hlabels.not_predefined name hname
  · obtain ⟨name, hname, rfl⟩ := List.mem_map.mp hvariable
    exact (Program.isVariable_iff.mp (Program.mem_variablesOf.mp hname).2).1

end Source

/-- A source that assembles also does so with other names for its labels and variables, and to the
same words. Its symbols are the same ones under the new names. -/
theorem assemble_rename {code output : String} {new : String → String}
    (h : assemble code = .ok output) (hnew : NewNames (programOf code) new) :
    ∃ table table', assemble (renameSource new code) = .ok output ∧
      programOf (renameSource new code) = (programOf code).rename (renamed new) ∧
      symbols code = .ok table ∧ symbols (renameSource new code) = .ok table' ∧
      table'.bindings.toList = table.bindings.toList.map (Binding.rename new) := by
  obtain ⟨program, insts, hreads, hprogram, rfl⟩ := assemble_eq_ok_iff.mp h
  rw [programOf_eq hreads] at *
  have hshape := ((wellFormed_iff (lexed_of_reads hreads)).mpr ⟨insts, hprogram⟩).shape
  have hreads' := reads_renameSource hreads fun line hline name hname =>
    hnew.isName_renamed ((hshape line hline).mem_names hline hname)
  have hprogram' := hprogram.rename hnew.keepsApart
  obtain ⟨table, htable, hsource⟩ := Emission.exists_ofSource hreads hprogram
  obtain ⟨table', htable', hsource'⟩ := Emission.exists_ofSource hreads' hprogram'
  refine ⟨table, table', assemble_eq_ok_iff.mpr ⟨_, insts, hreads', hprogram', rfl⟩,
    programOf_eq hreads', by rw [symbols, hsource], by rw [symbols, hsource'], ?_⟩
  rw [htable.bindings_rename hnew.keepsApart htable']
  refine List.map_congr_left fun binding hbinding => ?_
  by_cases hkind : binding.kind = .predefined
  · simp [Binding.rename, hkind]
  · have huser : binding ∈ table.user := by simp [SymbolTable.user, hbinding, hkind]
    have hname := htable.ofName?_of_user hprogram.labelsFresh huser
    simp [Binding.rename, hkind, renamed_of_user hname]

def trade : String → String
  | "LOOP" => "i"
  | "i" => "LOOP"
  | name => name

/-- A label and a variable trade their names; a predefined symbol and a jump keep theirs. -/
theorem assemble_rename_trade :
    renameSource trade "(LOOP)\n@i\n@SP\n@LOOP //i\n0;JMP" =
        "(i)\n@LOOP\n@SP\n@i //i\n0;JMP" ∧
      NewNames (programOf "(LOOP)\n@i\n@SP\n@LOOP //i\n0;JMP") trade ∧
      ∃ table table',
        assemble (renameSource trade "(LOOP)\n@i\n@SP\n@LOOP //i\n0;JMP") =
          .ok ("0000000000010000\n0000000000000000\n" ++
            "0000000000000000\n1110101010000111\n") ∧
        programOf (renameSource trade "(LOOP)\n@i\n@SP\n@LOOP //i\n0;JMP") =
          (programOf "(LOOP)\n@i\n@SP\n@LOOP //i\n0;JMP").rename (renamed trade) ∧
        symbols "(LOOP)\n@i\n@SP\n@LOOP //i\n0;JMP" = .ok table ∧
        symbols (renameSource trade "(LOOP)\n@i\n@SP\n@LOOP //i\n0;JMP") = .ok table' ∧
        table'.bindings.toList = table.bindings.toList.map (Binding.rename trade) := by
  have h : assemble "(LOOP)\n@i\n@SP\n@LOOP //i\n0;JMP" =
      .ok ("0000000000010000\n0000000000000000\n" ++
        "0000000000000000\n1110101010000111\n") := by
    decide +kernel
  have hnew : NewNames (programOf "(LOOP)\n@i\n@SP\n@LOOP //i\n0;JMP") trade :=
    ⟨by decide +kernel, by decide +kernel, by decide +kernel⟩
  exact ⟨by decide +kernel, hnew, assemble_rename h hnew⟩

end HackAssembler.Assembly
