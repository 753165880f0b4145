import HackAssembler.Proofs.FinalTable

/-! # Programs with new names

Names are told apart and compared with the predefined ones, and nothing else is done with them. So a
program in which other names stand for the names has the same addresses, as long as different names
stay different and no predefined symbol comes in or goes. -/
namespace HackAssembler

def Binding.rename (new : String → String) (binding : Binding) : Binding :=
  if binding.kind = .predefined then binding else { binding with name := new binding.name }

namespace Source

def Lexeme.rename (new : String → String) : Lexeme → Lexeme
  | .symbol name => .symbol (new name)
  | lexeme => lexeme

section Lexeme
variable {new : String → String} {lexeme : Lexeme}

theorem Lexeme.rename_eq_symbol_iff {name : String} :
    lexeme.rename new = .symbol name ↔ ∃ old, lexeme = .symbol old ∧ new old = name := by
  cases lexeme <;> simp [rename]

/-- Only symbols change. -/
theorem Lexeme.rename_eq_iff {other : Lexeme} (h : ∀ name, other ≠ .symbol name) :
    lexeme.rename new = other ↔ lexeme = other := by
  cases lexeme with
  | symbol name => simp [rename, (h _).symm]
  | _ => rfl

end Lexeme

def renameLine (new : String → String) (line : List Lexeme) : List Lexeme :=
  line.map (Lexeme.rename new)

end Source

namespace Assembly

open Source Instruction

section Line
variable (new : String → String)

theorem declared?_renameLine (line : List Lexeme) :
    declared? (renameLine new line) = (declared? line).map new := by
  ext name
  rw [declared?_eq_some_iff, Option.map_eq_some_iff]
  simp only [declared?_eq_some_iff, renameLine, List.map_eq_cons_iff, List.map_eq_nil_iff]
  constructor
  · rintro ⟨first, _, rfl, hfirst, second, _, rfl, hsecond, third, _, rfl, hthird, rfl⟩
    obtain ⟨old, rfl, rfl⟩ := Lexeme.rename_eq_symbol_iff.mp hsecond
    rw [Lexeme.rename_eq_iff (by simp)] at hfirst hthird
    exact ⟨old, by rw [hfirst, hthird], rfl⟩
  · rintro ⟨old, rfl, rfl⟩
    exact ⟨_, _, rfl, rfl, _, _, rfl, rfl, _, _, rfl, rfl, rfl⟩

theorem operand?_renameLine (line : List Lexeme) :
    operand? (renameLine new line) = (operand? line).map new := by
  ext name
  rw [operand?_eq_some_iff, Option.map_eq_some_iff]
  simp only [operand?_eq_some_iff, renameLine, List.map_eq_cons_iff, List.map_eq_nil_iff]
  constructor
  · rintro ⟨first, _, rfl, hfirst, second, _, rfl, hsecond, rfl⟩
    obtain ⟨old, rfl, rfl⟩ := Lexeme.rename_eq_symbol_iff.mp hsecond
    rw [Lexeme.rename_eq_iff (by simp)] at hfirst
    exact ⟨old, by rw [hfirst], rfl⟩
  · rintro ⟨old, rfl, rfl⟩
    exact ⟨_, _, rfl, rfl, _, _, rfl, rfl, rfl⟩

theorem isInstruction_renameLine (line : List Lexeme) :
    isInstruction (renameLine new line) = isInstruction line := by
  cases line with
  | nil => rfl
  | cons first rest => cases first <;> rfl

theorem renameLine_computeLine (dest : Option String) (comp : String) (jump : Option String) :
    renameLine new (computeLine dest comp jump) = computeLine dest comp jump := by
  cases dest <;> cases jump <;> rfl

end Line

namespace Program

def names (program : Program) : List String :=
  program.labels ++ program.operands

def rename (new : String → String) (program : Program) : Program :=
  program.map (renameLine new)

/-- Different names of a program stay different, and the predefined ones are those that were. -/
structure KeepsApart (new : String → String) (program : Program) : Prop where
  injective : ∀ first ∈ program.names, ∀ second ∈ program.names, new first = new second →
    first = second
  predefined : ∀ name ∈ program.names, Predefined.ofName? (new name) = Predefined.ofName? name

section Rename
variable {program : Program} {new : String → String} {name : String}

theorem mem_names_of_label (h : name ∈ program.labels) : name ∈ program.names :=
  List.mem_append_left _ h

theorem mem_names_of_operand (h : name ∈ program.operands) : name ∈ program.names :=
  List.mem_append_right _ h

theorem labels_rename (new : String → String) (program : Program) :
    (program.rename new).labels = program.labels.map new := by
  rw [labels, rename, List.filterMap_map, labels, List.map_filterMap]
  exact List.filterMap_congr fun line _ => declared?_renameLine new line

theorem filter_isInstruction_rename (new : String → String) (program : Program) :
    (program.rename new).filter isInstruction =
      (program.filter isInstruction).map (renameLine new) := by
  rw [rename, List.filter_map]
  congr 2
  exact funext (isInstruction_renameLine new)

variable (h : KeepsApart new program)
include h

theorem KeepsApart.eq_iff {other : String} (hname : name ∈ program.names)
    (hother : other ∈ program.names) : new other = new name ↔ other = name :=
  ⟨h.injective other hother name hname, congrArg new⟩

theorem KeepsApart.mem_labels_rename (hname : name ∈ program.names) :
    new name ∈ (program.rename new).labels ↔ name ∈ program.labels := by
  rw [labels_rename, List.mem_map]
  constructor
  · rintro ⟨other, hother, heq⟩
    rwa [← (h.eq_iff hname (mem_names_of_label hother)).mp heq]
  · exact fun hlabel => ⟨name, hlabel, rfl⟩

/-- The lines in front of the one that a name is looked for in are the same lines. -/
theorem KeepsApart.takeWhile_rename {find? : List Lexeme → Option String}
    (hfind : ∀ line, find? (renameLine new line) = (find? line).map new)
    (hnames : ∀ line ∈ program, ∀ found, find? line = some found → found ∈ program.names)
    (hname : name ∈ program.names) :
    (program.rename new).takeWhile (fun line => find? line ≠ some (new name)) =
      (program.takeWhile fun line => find? line ≠ some name).map (renameLine new) := by
  rw [rename, List.takeWhile_map]
  congr 1
  have hsame : ∀ line ∈ program, (find? (renameLine new line) ≠ some (new name)) =
      (find? line ≠ some name) := by
    intro line hline
    rw [hfind]
    cases hfound : find? line with
    | none => simp
    | some found => simp [h.eq_iff hname (hnames line hline found hfound)]
  clear hnames
  revert hsame
  generalize program = lines
  intro hsame
  induction lines with
  | nil => rfl
  | cons line lines ih =>
    obtain ⟨hline, hlines⟩ := List.forall_mem_cons.mp hsame
    rw [List.takeWhile_cons, List.takeWhile_cons, ih hlines]
    simp [hline]

theorem KeepsApart.labelAddress_rename (hname : name ∈ program.names) :
    (program.rename new).labelAddress (new name) = program.labelAddress name := by
  have hnames (line : List Lexeme) (hline : line ∈ program) (found : String)
      (hfound : declared? line = some found) : found ∈ program.names :=
    mem_names_of_label (List.mem_filterMap.mpr ⟨line, hline, hfound⟩)
  rw [labelAddress, h.takeWhile_rename (declared?_renameLine new) hnames hname, List.countP_map,
    labelAddress]
  exact List.countP_congr fun line _ => by simp [isInstruction_renameLine]

theorem KeepsApart.isVariable_rename (hname : name ∈ program.names) :
    (program.rename new).isVariable (new name) = program.isVariable name := by
  simp [isVariable, h.predefined name hname, h.mem_labels_rename hname]

theorem KeepsApart.variablesOf_rename {seen : Program}
    (hseen : ∀ name ∈ seen.operands, name ∈ program.names) :
    (program.rename new).variablesOf (seen.rename new) = (program.variablesOf seen).map new := by
  induction seen using List.reverseRecOn with
  | nil => rfl
  | append_singleton seen line ih =>
    have hlast : rename new (seen ++ [line]) = rename new seen ++ [renameLine new line] := by
      simp [rename]
    rw [operands_append, List.forall_mem_append] at hseen
    rw [hlast, variablesOf_append, variablesOf_append, List.map_append, ih hseen.1,
      operand?_renameLine]
    congr 1
    cases hname : operand? line with
    | none => rfl
    | some name =>
      have hmem : name ∈ program.names := hseen.2 name (by simp [operands_cons, hname])
      have hold : new name ∈ (program.variablesOf seen).map new ↔
          name ∈ program.variablesOf seen := by
        rw [List.mem_map]
        refine ⟨?_, fun hold => ⟨name, hold, rfl⟩⟩
        rintro ⟨other, hother, heq⟩
        rwa [← (h.eq_iff hmem (hseen.1 other (mem_variablesOf.mp hother).1)).mp heq]
      simp only [Option.map_some, Option.toList_some, List.filter_cons, List.filter_nil,
        h.isVariable_rename hmem, hold]
      split <;> rfl

theorem KeepsApart.variableAddress_rename (hname : name ∈ program.names) :
    (program.rename new).variableAddress (new name) = program.variableAddress name := by
  have hnames (line : List Lexeme) (hline : line ∈ program) (found : String)
      (hfound : operand? line = some found) : found ∈ program.names :=
    mem_names_of_operand (List.mem_filterMap.mpr ⟨line, hline, hfound⟩)
  rw [variableAddress, h.takeWhile_rename (operand?_renameLine new) hnames hname, ← rename,
    h.variablesOf_rename, List.length_map, variableAddress]
  intro found hfound
  obtain ⟨line, hline, hoperand⟩ := List.mem_filterMap.mp hfound
  exact hnames line (List.takeWhile_subset _ hline) found hoperand

theorem KeepsApart.address_rename (hname : name ∈ program.names) :
    (program.rename new).address (new name) = program.address name := by
  rw [address, address, h.predefined name hname, h.labelAddress_rename hname,
    h.variableAddress_rename hname]
  simp only [h.mem_labels_rename hname]

theorem KeepsApart.labelsFresh_rename (hlabels : program.LabelsFresh) :
    (program.rename new).LabelsFresh := by
  constructor
  · rw [labels_rename]
    exact hlabels.nodup.map_on fun first hfirst second hsecond =>
      h.injective first (mem_names_of_label hfirst) second (mem_names_of_label hsecond)
  · rw [labels_rename, List.forall_mem_map]
    exact fun name hname =>
      (h.predefined name (mem_names_of_label hname)).trans (hlabels.not_predefined name hname)

end Rename

end Program

section Rename
variable {program : Program} {new : String → String} (h : program.KeepsApart new)
include h

theorem Denotes.rename {line : List Lexeme} {inst : Instruction} (hline : line ∈ program)
    (hinst : Denotes program line inst) :
    Denotes (program.rename new) (renameLine new line) inst := by
  cases hinst with
  | literal hdigits hfits => exact .literal hdigits hfits
  | @symbol name hfits =>
    have hname : name ∈ program.names :=
      Program.mem_names_of_operand (List.mem_filterMap.mpr ⟨_, hline, rfl⟩)
    rw [← h.address_rename hname] at hfits ⊢
    exact .symbol hfits
  | compute dest comp jump =>
    rw [renameLine_computeLine]
    exact .compute dest comp jump

theorem Assembles.rename {insts : List Instruction} (hprogram : Assembles program insts) :
    Assembles (program.rename new) insts := by
  refine ⟨?_, h.labelsFresh_rename hprogram.labelsFresh, ?_⟩
  · rw [Program.rename, List.forall_mem_map]
    intro line hline
    rcases hprogram.outlined line hline with rfl | hinstruction | ⟨name, hname⟩
    · exact .inl rfl
    · exact .inr (.inl ((isInstruction_renameLine new line).trans hinstruction))
    · exact .inr (.inr ⟨new name, by rw [declared?_renameLine, hname]; rfl⟩)
  · rw [Program.filter_isInstruction_rename, List.forall₂_map_left_iff]
    have hlines := (List.forall₂_and_left _ _).mpr
      ⟨fun line hline => (List.mem_filter.mp hline).1, hprogram.denotes⟩
    exact hlines.imp fun line inst hline => hline.2.rename h hline.1

/-- The table of a program with new names is the old one under the new names. -/
theorem Tracks.bindings_rename {table renamed : SymbolTable}
    (htable : Tracks program program program table)
    (hrenamed : Tracks (program.rename new) (program.rename new) (program.rename new) renamed) :
    renamed.bindings.toList = table.bindings.toList.map (Binding.rename new) := by
  have hlabel : ∀ name ∈ program.labels, labelBinding (program.rename new) (new name) =
      (labelBinding program name).rename new := by
    intro name hname
    have haddress := h.labelAddress_rename (Program.mem_names_of_label hname)
    simp [labelBinding, Binding.rename, haddress]
  have hvariable : ∀ name ∈ program.variablesOf program,
      variableBinding (program.rename new) (new name) =
        (variableBinding program name).rename new := by
    intro name hname
    have haddress := h.variableAddress_rename
      (Program.mem_names_of_operand (Program.mem_variablesOf.mp hname).1)
    simp [variableBinding, Binding.rename, haddress]
  have hvariables : (program.rename new).variablesOf (program.rename new) =
      (program.variablesOf program).map new :=
    h.variablesOf_rename fun name => Program.mem_names_of_operand
  rw [hrenamed.bindings, htable.bindings, hvariables, Program.labels_rename]
  simp only [List.map_append, List.map_map]
  congr 1
  · congr 1
    exact List.map_congr_left hlabel
  · exact List.map_congr_left hvariable

end Rename

end Assembly

end HackAssembler
