import HackAssembler.Proofs.Program

/-! # What a symbol table holds

While a program is read, its table holds the predefined symbols, then the labels declared so far,
then the variables used so far, all with the addresses that the names have in the whole program.
One lemma says what a declaration adds to the table and one what a use adds. -/
namespace HackAssembler

def Predefined.binding (symbol : Predefined) : Binding :=
  ⟨symbol.name, .predefined, symbol.address⟩

namespace SymbolTable

theorem initial_bindings :
    initial.bindings.toList = Predefined.all.map Predefined.binding := by
  decide +kernel

theorem initial_nextVariable : initial.nextVariable = firstVariable := by
  decide +kernel

theorem get?_eq_find? (table : SymbolTable) (name : String) :
    table.get? name = table.bindings.toList.find? (·.name == name) := by
  rw [get?_eq, Array.find?_toList]

variable {table : SymbolTable} {name : String}

theorem declareLabel_of_unbound (h : table.get? name = none) (address : Nat) :
    table.declareLabel name address = .ok (table.push ⟨name, .label, address⟩ h) := by
  unfold declareLabel
  split <;> simp_all

theorem get?_eq_none_of_declareLabel {address : Nat} {after : SymbolTable}
    (h : table.declareLabel name address = .ok after) : table.get? name = none := by
  unfold declareLabel at h
  split at h <;> simp_all

theorem resolve_of_bound {binding : Binding} (h : table.get? name = some binding) :
    table.resolve name = (binding.address, table) := by
  unfold resolve
  split <;> simp_all

theorem resolve_of_unbound (h : table.get? name = none) :
    table.resolve name =
      (table.nextVariable,
        { table.push ⟨name, .variable, table.nextVariable⟩ h with
          nextVariable := table.nextVariable + 1 }) := by
  unfold resolve
  split <;> simp_all

end SymbolTable

namespace Assembly

open Source

theorem find?_map_named {bind : String → Binding} (hbind : ∀ name, (bind name).name = name)
    (names : List String) (name : String) :
    (names.map bind).find? (·.name == name) = if name ∈ names then some (bind name) else none := by
  induction names with
  | nil => rfl
  | cons first rest ih =>
    rw [List.map_cons, List.find?_cons, hbind, ih]
    by_cases h : first = name
    · simp [h]
    · have hne : (first == name) = false := by simpa using h
      simp [hne, Ne.symm h]

def labelBinding (program : Program) (name : String) : Binding :=
  ⟨name, .label, program.labelAddress name⟩

def variableBinding (program : Program) (name : String) : Binding :=
  ⟨name, .variable, program.variableAddress name⟩

/-- The table of a program of which the lines `declared` have been read for their labels, and
the lines `used` for their operands. -/
structure Tracks (program declared used : Program) (table : SymbolTable) : Prop where
  bindings : table.bindings.toList =
    Predefined.all.map Predefined.binding ++ declared.labels.map (labelBinding program) ++
      (program.variablesOf used).map (variableBinding program)
  nextVariable : table.nextVariable =
    SymbolTable.firstVariable + (program.variablesOf used).length

namespace Tracks

variable {program declared used seen rest : Program} {table : SymbolTable} {line : List Lexeme}
  {name : String}

theorem initial (program : Program) : Tracks program [] [] SymbolTable.initial where
  bindings := by simpa using SymbolTable.initial_bindings
  nextVariable := SymbolTable.initial_nextVariable

theorem get?_eq (h : Tracks program declared used table) (name : String) :
    table.get? name =
      (((Predefined.ofName? name).map Predefined.binding).or
        (if name ∈ declared.labels then some (labelBinding program name) else none)).or
        (if name ∈ program.variablesOf used then some (variableBinding program name)
          else none) := by
  have hnames : Predefined.ofName? name = Predefined.all.find? (·.name == name) := rfl
  rw [SymbolTable.get?_eq_find?, h.bindings, List.find?_append, List.find?_append,
    find?_map_named (fun _ => rfl), find?_map_named (fun _ => rfl), List.find?_map, hnames]
  rfl

theorem get?_eq_none_iff (h : Tracks program declared used table) :
    table.get? name = none ↔
      Predefined.ofName? name = none ∧ name ∉ declared.labels ∧
        name ∉ program.variablesOf used := by
  rw [h.get?_eq]
  simp [and_assoc]

theorem address_of_bound (h : Tracks program program used table) {binding : Binding}
    (hbound : table.get? name = some binding) : binding.address = program.address name := by
  rw [h.get?_eq] at hbound
  rw [Program.address]
  cases hpredefined : Predefined.ofName? name with
  | some symbol =>
    rw [hpredefined] at hbound
    cases hbound
    rfl
  | none =>
    simp only [hpredefined, Option.map_none, Option.none_or] at hbound
    by_cases hlabel : name ∈ program.labels
    · simp only [hlabel, if_true, Option.some_or, Option.some.injEq] at hbound
      simp [← hbound, hlabel, labelBinding]
    · simp only [hlabel, if_false, Option.none_or] at hbound
      split at hbound
      · cases hbound
        simp [hlabel, variableBinding]
      · cases hbound

/-- A declaration of a name that is not bound binds it to its address in the program. -/
theorem declare (h : Tracks (seen ++ line :: rest) seen [] table)
    (hline : declared? line = some name) (hunbound : table.get? name = none) :
    Tracks (seen ++ line :: rest) (seen ++ [line]) []
      (table.push ⟨name, .label, seen.countP isInstruction⟩ hunbound) where
  bindings := by
    have hnew := (h.get?_eq_none_iff.mp hunbound).2.1
    have hbinding : labelBinding (seen ++ line :: rest) name =
        ⟨name, .label, seen.countP isInstruction⟩ := by
      rw [labelBinding, Program.labelAddress_eq hline hnew]
    rw [SymbolTable.push, Array.toList_push, h.bindings, Program.labels_append,
      Program.labels_cons, hline, ← hbinding]
    simp
  nextVariable := h.nextVariable

theorem skip_declared (h : Tracks program seen used table) (hline : declared? line = none) :
    Tracks program (seen ++ [line]) used table where
  bindings := by
    have hlabels : Program.labels (seen ++ [line]) = Program.labels seen := by
      rw [Program.labels_append, Program.labels_cons, hline]
      exact List.append_nil _
    rw [hlabels, h.bindings]
  nextVariable := h.nextVariable

theorem skip_used (h : Tracks program declared seen table) (hline : operand? line = none) :
    Tracks program declared (seen ++ [line]) table := by
  have hvariables : program.variablesOf (seen ++ [line]) = program.variablesOf seen := by
    rw [Program.variablesOf_append, hline]
    exact List.append_nil _
  constructor
  · rw [hvariables, h.bindings]
  · rw [hvariables, h.nextVariable]

/-- An operand that is bound already resolves to its address, and nothing new is bound. -/
theorem resolve_bound {whole : Program} {binding : Binding} (h : Tracks whole whole seen table)
    (hline : operand? line = some name) (hbound : table.get? name = some binding) :
    table.resolve name = (whole.address name, table) ∧
      Tracks whole whole (seen ++ [line]) table := by
  have hold : (whole.isVariable name && decide (name ∉ whole.variablesOf seen)) = false := by
    have hne : table.get? name ≠ none := by simp [hbound]
    rw [Ne, h.get?_eq_none_iff] at hne
    simp only [Program.isVariable, Bool.and_eq_false_iff, decide_eq_false_iff_not,
      Option.isNone_eq_false_iff, Option.isSome_iff_ne_none]
    tauto
  have hvariables : whole.variablesOf (seen ++ [line]) = whole.variablesOf seen := by
    rw [Program.variablesOf_append, hline, Option.toList_some, List.filter_cons, hold]
    exact List.append_nil _
  constructor
  · rw [SymbolTable.resolve_of_bound hbound, h.address_of_bound hbound]
  · constructor
    · rw [hvariables, h.bindings]
    · rw [hvariables, h.nextVariable]

/-- An operand that is not bound yet becomes the next variable. -/
theorem resolve_unbound (h : Tracks (seen ++ line :: rest) (seen ++ line :: rest) seen table)
    (hline : operand? line = some name) (hunbound : table.get? name = none) :
    ∃ after, table.resolve name = (Program.address (seen ++ line :: rest) name, after) ∧
      Tracks (seen ++ line :: rest) (seen ++ line :: rest) (seen ++ [line]) after := by
  obtain ⟨hpredefined, hlabel, hnew⟩ := h.get?_eq_none_iff.mp hunbound
  have hvariable : Program.isVariable (seen ++ line :: rest) name = true := by
    simp [Program.isVariable, hpredefined, hlabel]
  have hunused : name ∉ seen.operands := fun hmem =>
    hnew (Program.mem_variablesOf.mpr ⟨hmem, hvariable⟩)
  have hvariables : Program.variablesOf (seen ++ line :: rest) (seen ++ [line]) =
      Program.variablesOf (seen ++ line :: rest) seen ++ [name] := by
    rw [Program.variablesOf_append, hline, Option.toList_some,
      List.filter_cons_of_pos (by simp [hvariable, hnew]), List.filter_nil]
  have hnext : Program.variableAddress (seen ++ line :: rest) name = table.nextVariable := by
    rw [Program.variableAddress_eq hline hunused, h.nextVariable]
  have haddress : Program.address (seen ++ line :: rest) name = table.nextVariable := by
    rw [Program.address, hpredefined, ← hnext]
    simp only [hlabel, if_false]
  refine ⟨_, (SymbolTable.resolve_of_unbound hunbound).trans (by rw [haddress]), ?_⟩
  constructor
  · simp only [SymbolTable.push, Array.toList_push, h.bindings, hvariables]
    simp [variableBinding, hnext]
  · simp only [hvariables, h.nextVariable, List.length_append, List.length_singleton,
      Nat.add_assoc]

theorem resolve (h : Tracks (seen ++ line :: rest) (seen ++ line :: rest) seen table)
    (hline : operand? line = some name) :
    ∃ after, table.resolve name = (Program.address (seen ++ line :: rest) name, after) ∧
      Tracks (seen ++ line :: rest) (seen ++ line :: rest) (seen ++ [line]) after := by
  cases hbound : table.get? name with
  | some binding => exact ⟨table, h.resolve_bound hline hbound⟩
  | none => exact h.resolve_unbound hline hbound

theorem user_eq (h : Tracks program declared used table) :
    table.user = declared.labels.map (labelBinding program) ++
      (program.variablesOf used).map (variableBinding program) := by
  have hpredefined :
      (Predefined.all.map Predefined.binding).filter (·.kind ≠ .predefined) = [] := by
    rw [List.filter_eq_nil_iff, List.forall_mem_map]
    simp [Predefined.binding]
  have hlabels : (declared.labels.map (labelBinding program)).filter (·.kind ≠ .predefined) =
      declared.labels.map (labelBinding program) := by
    rw [List.filter_eq_self, List.forall_mem_map]
    simp [labelBinding]
  have hvariables : ((program.variablesOf used).map (variableBinding program)).filter
      (·.kind ≠ .predefined) = (program.variablesOf used).map (variableBinding program) := by
    rw [List.filter_eq_self, List.forall_mem_map]
    simp [variableBinding]
  rw [SymbolTable.user, h.bindings, List.filter_append, List.filter_append, hpredefined, hlabels,
    hvariables, List.nil_append]

end Tracks

end Assembly

end HackAssembler
