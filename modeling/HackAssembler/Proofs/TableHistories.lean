import HackAssembler.Proofs.FinalTable

/-! # Histories of a symbol table

What holds of a symbol table after any operations on the initial one, in any order. Bindings are
only ever added, and one kind of step numbers the variables: since the last restart they have been
numbered one after the other. -/
namespace HackAssembler.SymbolTable

open Assembly

inductive Operation
  | declare (name : String) (address : Nat)
  | resolve (name : String)
  | get (name : String)
  | restart
  deriving DecidableEq

inductive Answer
  | declared (outcome : Except LabelError Unit)
  | resolved (address : Nat)
  | found (binding : Option Binding)
  | restarted
  deriving DecidableEq

/-- The answer to an operation, and the table that it leaves. If a label cannot be declared, that is
the table as it was. -/
def perform (table : SymbolTable) : Operation → Answer × SymbolTable
  | .declare name address =>
    match table.declareLabel name address with
    | .ok after => (.declared (.ok ()), after)
    | .error error => (.declared (.error error), table)
  | .resolve name => (.resolved (table.resolve name).1, (table.resolve name).2)
  | .get name => (.found (table.get? name), table)
  | .restart => (.restarted, table.restartVariables)

def after (table : SymbolTable) (history : List Operation) : SymbolTable :=
  history.foldl (fun table operation => (table.perform operation).2) table

@[simp] theorem after_nil (table : SymbolTable) : table.after [] = table := rfl

theorem after_append (table : SymbolTable) (history more : List Operation) :
    table.after (history ++ more) = (table.after history).after more :=
  List.foldl_append

theorem after_concat (table : SymbolTable) (history : List Operation) (operation : Operation) :
    table.after (history ++ [operation]) = ((table.after history).perform operation).2 :=
  after_append table history [operation]

/-! ### One operation -/

section Step
variable {table next : SymbolTable} {operation : Operation} {answer : Answer}

/-- What an operation answers and leaves, by what its name is bound to. -/
inductive Step (table : SymbolTable) : Operation → Answer → SymbolTable → Prop
  | refused {name : String} {address : Nat} {binding : Binding}
      (hbound : table.get? name = some binding) :
      Step table (.declare name address)
        (.declared (.error (if binding.kind = .predefined then .shadowsPredefined name
          else .redefined name))) table
  | declared {name : String} {address : Nat} (hunbound : table.get? name = none) :
      Step table (.declare name address) (.declared (.ok ()))
        (table.push ⟨name, .label, address⟩ hunbound)
  | bound {name : String} {binding : Binding} (hbound : table.get? name = some binding) :
      Step table (.resolve name) (.resolved binding.address) table
  | allotted {name : String} (hunbound : table.get? name = none) :
      Step table (.resolve name) (.resolved table.nextVariable)
        { table.push ⟨name, .variable, table.nextVariable⟩ hunbound with
          nextVariable := table.nextVariable + 1 }
  | found (name : String) : Step table (.get name) (.found (table.get? name)) table
  | restarted : Step table .restart .restarted table.restartVariables

theorem declareLabel_of_bound {name : String} {binding : Binding}
    (h : table.get? name = some binding) (address : Nat) :
    table.declareLabel name address =
      .error (if binding.kind = .predefined then .shadowsPredefined name else .redefined name) := by
  unfold declareLabel
  split <;> simp_all

theorem step_perform (table : SymbolTable) (operation : Operation) :
    Step table operation (table.perform operation).1 (table.perform operation).2 := by
  cases operation with
  | declare name address =>
    cases h : table.get? name with
    | none =>
      simp only [perform, declareLabel_of_unbound h]
      exact .declared h
    | some binding =>
      simp only [perform, declareLabel_of_bound h]
      exact .refused h
  | resolve name =>
    cases h : table.get? name with
    | none =>
      simp only [perform, resolve_of_unbound h]
      exact .allotted h
    | some binding =>
      simp only [perform, resolve_of_bound h]
      exact .bound h
  | get name => exact .found name
  | restart => exact .restarted

/-- Whatever is done, at most one binding is added, of a name that was not bound. -/
theorem Step.bindings_eq (h : Step table operation answer next) :
    next.bindings.toList = table.bindings.toList ∨
      ∃ binding : Binding, table.get? binding.name = none ∧ binding.kind ≠ .predefined ∧
        (binding.kind = .variable → binding.address = table.nextVariable) ∧
        next.bindings.toList = table.bindings.toList ++ [binding] := by
  cases h with
  | refused | bound | found | restarted => exact .inl rfl
  | declared hunbound =>
    exact .inr ⟨_, hunbound, SymbolKind.noConfusion, SymbolKind.noConfusion, Array.toList_push⟩
  | allotted hunbound =>
    exact .inr ⟨_, hunbound, SymbolKind.noConfusion, fun _ => rfl, Array.toList_push⟩

end Step

/-! ### What every table keeps -/

/-- The predefined bindings come first, no name is bound twice, and the words below the first
variable are never given to a variable. -/
structure Kept (table : SymbolTable) : Prop where
  nodup : (table.bindings.toList.map (·.name)).Nodup
  predefined : ∃ user : List Binding, table.bindings.toList =
      predefinedTable.map (fun entry => ⟨entry.1, .predefined, entry.2⟩) ++ user ∧
    ∀ binding ∈ user, binding.kind ≠ .predefined
  variable_ge : ∀ binding ∈ table.bindings.toList,
    binding.kind = .variable → firstVariable ≤ binding.address
  nextVariable_ge : firstVariable ≤ table.nextVariable

theorem get?_eq_none_iff {table : SymbolTable} {name : String} :
    table.get? name = none ↔ name ∉ table.bindings.toList.map (·.name) := by
  rw [get?_eq_find?, List.find?_eq_none]
  simp

theorem kept_initial : Kept initial where
  nodup := by
    rw [initial_bindings]
    decide +kernel
  predefined := by
    refine ⟨[], ?_, by simp⟩
    rw [initial_bindings, map_binding_eq_predefinedTable, List.append_nil]
  variable_ge := by
    rw [initial_bindings, List.forall_mem_map]
    intro symbol _ hkind
    cases hkind
  nextVariable_ge := by
    rw [initial_nextVariable]

section Kept
variable {table next : SymbolTable} {operation : Operation} {answer : Answer} {name : String}

theorem Step.nextVariable_ge (h : Step table operation answer next)
    (htable : firstVariable ≤ table.nextVariable) : firstVariable ≤ next.nextVariable := by
  cases h with
  | refused | declared | bound | found => exact htable
  | allotted => exact Nat.le_succ_of_le htable
  | restarted => exact Nat.le_refl _

theorem Step.kept (h : Step table operation answer next) (htable : Kept table) : Kept next := by
  have hnext := h.nextVariable_ge htable.nextVariable_ge
  rcases h.bindings_eq with hsame | ⟨binding, hunbound, huser, haddress, hadded⟩
  · constructor
    · rw [hsame]
      exact htable.nodup
    · rw [hsame]
      exact htable.predefined
    · rw [hsame]
      exact htable.variable_ge
    · exact hnext
  · constructor
    · rw [hadded, List.map_append]
      apply htable.nodup.append (List.nodup_singleton _)
      simpa using get?_eq_none_iff.mp hunbound
    · obtain ⟨user, hbindings, hkinds⟩ := htable.predefined
      refine ⟨user ++ [binding], by rw [hadded, hbindings, List.append_assoc], ?_⟩
      rw [List.forall_mem_append]
      exact ⟨hkinds, by simpa using huser⟩
    · rw [hadded, List.forall_mem_append]
      refine ⟨htable.variable_ge, ?_⟩
      rw [List.forall_mem_singleton]
      intro hkind
      rw [haddress hkind]
      exact htable.nextVariable_ge
    · exact hnext

theorem kept_after (htable : Kept table) (history : List Operation) :
    Kept (table.after history) := by
  induction history generalizing table with
  | nil => exact htable
  | cons operation history ih => exact ih ((step_perform table operation).kept htable)

/-- What is bound under a name is the one binding of that name. -/
theorem Kept.get?_eq_some_iff (htable : Kept table) {binding : Binding} :
    table.get? name = some binding ↔ binding ∈ table.bindings.toList ∧ binding.name = name := by
  rw [get?_eq_find?]
  constructor
  · intro h
    exact ⟨List.mem_of_find?_eq_some h, by simpa using List.find?_some h⟩
  · rintro ⟨hmem, rfl⟩
    cases hfind : table.bindings.toList.find? (·.name == binding.name) with
    | none =>
      rw [List.find?_eq_none] at hfind
      exact absurd BEq.rfl (hfind binding hmem)
    | some found =>
      have hname : found.name = binding.name := by simpa using List.find?_some hfind
      rw [List.inj_on_of_nodup_map htable.nodup (List.mem_of_find?_eq_some hfind) hmem hname]

theorem Kept.predefined_iff (htable : Kept table) {binding : Binding}
    (hmem : binding ∈ table.bindings.toList) :
    binding.kind = .predefined ↔ binding.name ∈ predefinedTable.map (·.1) := by
  obtain ⟨user, hbindings, hkinds⟩ := htable.predefined
  have hnodup := htable.nodup
  rw [hbindings, List.map_append, List.nodup_append', List.map_map] at hnodup
  rw [hbindings, List.mem_append, List.mem_map] at hmem
  rcases hmem with ⟨entry, hentry, rfl⟩ | huser
  · simpa using ⟨entry.2, hentry⟩
  · have hfree := List.disjoint_right.mp hnodup.2.2 (List.mem_map_of_mem huser)
    exact iff_of_false (hkinds binding huser) hfree

end Kept

/-! ### Bindings are only added -/

theorem bindings_prefix_after (table : SymbolTable) (history : List Operation) :
    table.bindings.toList <+: (table.after history).bindings.toList := by
  induction history generalizing table with
  | nil => exact List.prefix_refl _
  | cons operation history ih =>
    apply List.IsPrefix.trans _ (ih _)
    rcases (step_perform table operation).bindings_eq with hsame | ⟨binding, -, -, -, hadded⟩
    · exact hsame ▸ List.prefix_refl _
    · exact hadded ▸ List.prefix_append _ _

theorem get?_after {table : SymbolTable} {name : String} {binding : Binding}
    (h : table.get? name = some binding) (history : List Operation) :
    (table.after history).get? name = some binding := by
  obtain ⟨added, hadded⟩ := bindings_prefix_after table history
  rw [get?_eq_find?] at h
  rw [get?_eq_find?, ← hadded, List.find?_append, h, Option.some_or]

/-! ### The numbers of the variables -/

def variableAddresses (bindings : List Binding) : List Nat :=
  (bindings.filter (·.kind = .variable)).map (·.address)

/-- Behind the bindings `old` come the bindings `new`, whose variables are numbered one after the
other, and the next number is the one behind theirs. -/
structure Numbered (old new : List Binding) (table : SymbolTable) : Prop where
  bindings : table.bindings.toList = old ++ new
  addresses : variableAddresses new =
    List.range' firstVariable (variableAddresses new).length
  nextVariable : table.nextVariable = firstVariable + (variableAddresses new).length

theorem numbered_of_nextVariable {table : SymbolTable} (h : table.nextVariable = firstVariable) :
    Numbered table.bindings.toList [] table where
  bindings := (List.append_nil _).symm
  addresses := rfl
  nextVariable := h

section Numbered
variable {old new : List Binding} {table next : SymbolTable} {operation : Operation}
  {answer : Answer}

theorem Numbered.declared (h : Numbered old new table) {binding : Binding}
    (hkind : binding.kind ≠ .variable) (hadded : next.bindings = table.bindings.push binding)
    (hnext : next.nextVariable = table.nextVariable) : Numbered old (new ++ [binding]) next := by
  have hsame : variableAddresses (new ++ [binding]) = variableAddresses new := by
    simp [variableAddresses, hkind]
  constructor
  · rw [hadded, Array.toList_push, h.bindings, List.append_assoc]
  · rw [hsame]
    exact h.addresses
  · rw [hsame, hnext]
    exact h.nextVariable

theorem Numbered.allotted (h : Numbered old new table) {name : String}
    (hadded : next.bindings = table.bindings.push ⟨name, .variable, table.nextVariable⟩)
    (hnext : next.nextVariable = table.nextVariable + 1) :
    Numbered old (new ++ [⟨name, .variable, table.nextVariable⟩]) next := by
  have hone : variableAddresses (new ++ [⟨name, .variable, table.nextVariable⟩]) =
      variableAddresses new ++ [table.nextVariable] := by
    simp [variableAddresses]
  constructor
  · rw [hadded, Array.toList_push, h.bindings, List.append_assoc]
  · rw [hone, List.length_append, List.length_singleton, List.range'_concat, Nat.one_mul,
      ← h.addresses, h.nextVariable]
  · rw [hone, hnext, h.nextVariable, List.length_append, List.length_singleton, Nat.add_assoc]

/-- An operation numbers on, unless it is a restart behind a variable. -/
theorem Step.numbered (hstep : Step table operation answer next) (h : Numbered old new table)
    (hrestart : operation = .restart → variableAddresses new = []) :
    ∃ more, Numbered old more next := by
  cases hstep with
  | refused | bound | found => exact ⟨new, h⟩
  | declared => exact ⟨_, h.declared SymbolKind.noConfusion rfl rfl⟩
  | allotted => exact ⟨_, h.allotted rfl rfl⟩
  | restarted =>
    refine ⟨new, h.bindings, h.addresses, ?_⟩
    rw [hrestart rfl]
    rfl

/-- Up to the next restart the variables are numbered one after the other. -/
theorem exists_numbered (h : Numbered old new table) {history : List Operation}
    (hrestart : .restart ∉ history) : ∃ more, Numbered old more (table.after history) := by
  induction history generalizing table new with
  | nil => exact ⟨new, h⟩
  | cons operation history ih =>
    rw [List.mem_cons, not_or] at hrestart
    obtain ⟨hoperation, hhistory⟩ := hrestart
    obtain ⟨more, hmore⟩ := (step_perform table operation).numbered h
      fun heq => absurd heq.symm hoperation
    exact ih hmore hhistory

end Numbered

/-- No variable is there when the numbering is restarted. -/
def RestartsEarly (history : List Operation) : Prop :=
  ∀ before behind, history = before ++ .restart :: behind →
    ∀ binding ∈ (initial.after before).bindings.toList, binding.kind ≠ .variable

/-- Restarts that come before every variable make no difference to the numbers. -/
theorem exists_numbered_of_restartsEarly {history : List Operation} (h : RestartsEarly history) :
    ∃ new, Numbered initial.bindings.toList new (initial.after history) := by
  -- Whether a restart is early depends on what is in front of it, so the last operation is the one
  -- that is taken off.
  induction history using List.reverseRecOn with
  | nil => exact ⟨[], numbered_of_nextVariable initial_nextVariable⟩
  | append_singleton history operation ih =>
    have hbefore : RestartsEarly history := by
      rintro before behind rfl
      exact h before (behind ++ [operation]) (by simp)
    obtain ⟨new, hnew⟩ := ih hbefore
    rw [after_concat]
    apply (step_perform _ operation).numbered hnew
    rintro rfl
    have hnone := h history [] rfl
    rw [hnew.bindings, List.forall_mem_append] at hnone
    rw [variableAddresses, List.filter_eq_nil_iff.mpr (by simpa using hnone.2), List.map_nil]

/-! ### What a table answers -/

/-- A declaration is refused for a name that is bound, with the reason that the binding gives, and
then nothing changes; an operand that is bound has the address of its binding, and nothing changes
either; a name that is not bound is bound behind all others. -/
structure Answers (table : SymbolTable) : Prop where
  declare_error_iff : ∀ name address error,
    (table.perform (.declare name address)).1 = .declared (.error error) ↔
      error = .shadowsPredefined name ∧ name ∈ predefinedTable.map (·.1) ∨
      error = .redefined name ∧ ∃ binding ∈ table.bindings.toList, binding.name = name ∧
        (binding.kind = .label ∨ binding.kind = .variable)
  declare_error : ∀ name address error,
    (table.perform (.declare name address)).1 = .declared (.error error) →
      (table.perform (.declare name address)).2 = table
  declare_ok : ∀ name address, (table.perform (.declare name address)).1 = .declared (.ok ()) →
    (table.perform (.declare name address)).2.bindings.toList =
      table.bindings.toList ++ [⟨name, .label, address⟩]
  resolve_bound : ∀ binding ∈ table.bindings.toList,
    table.perform (.resolve binding.name) = (.resolved binding.address, table)
  resolve_unbound : ∀ name, name ∉ table.bindings.toList.map (·.name) → ∃ address,
    (table.perform (.resolve name)).1 = .resolved address ∧
      (table.perform (.resolve name)).2.bindings.toList =
        table.bindings.toList ++ [⟨name, .variable, address⟩]
  get : ∀ name, table.perform (.get name) =
    (.found (table.bindings.toList.find? (·.name == name)), table)

section Answers
variable {table : SymbolTable} {name : String}

theorem perform_declare_of_bound {binding : Binding} (h : table.get? name = some binding)
    (address : Nat) : table.perform (.declare name address) =
      (.declared (.error (if binding.kind = .predefined then .shadowsPredefined name
        else .redefined name)), table) := by
  simp only [perform, declareLabel_of_bound h]

theorem perform_declare_of_unbound (h : table.get? name = none) (address : Nat) :
    table.perform (.declare name address) =
      (.declared (.ok ()), table.push ⟨name, .label, address⟩ h) := by
  simp only [perform, declareLabel_of_unbound h]

/-- A name that is bound at all is predefined or bound by the user, and only one of the two. -/
theorem Kept.refusal_iff (htable : Kept table) {binding : Binding} {error : LabelError}
    (hbound : table.get? name = some binding) :
    (if binding.kind = .predefined then .shadowsPredefined name else .redefined name) = error ↔
      error = .shadowsPredefined name ∧ name ∈ predefinedTable.map (·.1) ∨
      error = .redefined name ∧ ∃ binding ∈ table.bindings.toList, binding.name = name ∧
        (binding.kind = .label ∨ binding.kind = .variable) := by
  obtain ⟨hmem, rfl⟩ := htable.get?_eq_some_iff.mp hbound
  have hpredefined := htable.predefined_iff hmem
  have huser : (∃ other ∈ table.bindings.toList, other.name = binding.name ∧
      (other.kind = .label ∨ other.kind = .variable)) ↔ ¬binding.kind = .predefined := by
    constructor
    · rintro ⟨other, hother, hname, hkind⟩
      have hsame : other = binding := List.inj_on_of_nodup_map htable.nodup hother hmem hname
      rw [hsame] at hkind
      rcases hkind with hkind | hkind <;> simp [hkind]
    · intro hkind
      refine ⟨binding, hmem, rfl, ?_⟩
      rcases hcase : binding.kind with _ | _ | _
      · exact absurd hcase hkind
      · exact .inl rfl
      · exact .inr rfl
  rw [huser, ← hpredefined]
  by_cases hkind : binding.kind = .predefined
  · simp [hkind, eq_comm]
  · simp [hkind, eq_comm]

theorem Kept.not_refused (htable : Kept table) (hunbound : table.get? name = none) :
    name ∉ predefinedTable.map (·.1) ∧ ∀ binding ∈ table.bindings.toList, binding.name ≠ name := by
  have hfree := get?_eq_none_iff.mp hunbound
  constructor
  · intro hmem
    obtain ⟨user, hbindings, -⟩ := htable.predefined
    apply hfree
    rw [hbindings, List.map_append, List.mem_append, List.map_map]
    exact .inl hmem
  · rintro binding hmem rfl
    exact hfree (List.mem_map_of_mem hmem)

theorem Kept.answers (htable : Kept table) : Answers table where
  declare_error_iff name address error := by
    cases h : table.get? name with
    | none =>
      obtain ⟨hpredefined, huser⟩ := htable.not_refused h
      rw [perform_declare_of_unbound h]
      constructor
      · intro heq
        cases heq
      · rintro (⟨-, hmem⟩ | ⟨-, binding, hmem, hname, -⟩)
        · exact absurd hmem hpredefined
        · exact absurd hname (huser binding hmem)
    | some binding =>
      rw [perform_declare_of_bound h, ← htable.refusal_iff h, Answer.declared.injEq,
        Except.error.injEq]
  declare_error name address error herror := by
    cases h : table.get? name with
    | none =>
      rw [perform_declare_of_unbound h] at herror
      cases herror
    | some binding => rw [perform_declare_of_bound h]
  declare_ok name address hok := by
    cases h : table.get? name with
    | none =>
      rw [perform_declare_of_unbound h]
      exact Array.toList_push
    | some binding =>
      rw [perform_declare_of_bound h] at hok
      cases hok
  resolve_bound binding hmem := by
    have hbound := htable.get?_eq_some_iff.mpr ⟨hmem, rfl⟩
    rw [perform, resolve_of_bound hbound]
  resolve_unbound name hname := by
    have hunbound := get?_eq_none_iff.mpr hname
    refine ⟨table.nextVariable, ?_⟩
    rw [perform, resolve_of_unbound hunbound]
    exact ⟨rfl, Array.toList_push⟩
  get name := by
    rw [perform, get?_eq_find?]

end Answers

/-- Whatever is done to the initial table, the predefined bindings come first, no name is bound
twice, and any further operation is answered as the bindings say and only adds to them. Up to the
next restart the variables are numbered from sixteen, and if no restart follows a variable, they all
are. -/
theorem histories_keep_bindings (history : List Operation) :
    Kept (initial.after history) ∧ Answers (initial.after history) ∧
      (∀ more, (initial.after history).bindings.toList <+:
          (initial.after (history ++ more)).bindings.toList ∧
        ∀ name binding, (initial.after history).get? name = some binding →
          (initial.after (history ++ more)).get? name = some binding) ∧
      (∀ during, history = [] ∨ history.getLast? = some .restart → .restart ∉ during →
        ∃ new count, (initial.after (history ++ during)).bindings.toList =
            (initial.after history).bindings.toList ++ new ∧
          variableAddresses new = List.range' 16 count) ∧
      (RestartsEarly history →
        (variableAddresses (initial.after history).bindings.toList).Nodup ∧
        ∃ count, variableAddresses (initial.after history).bindings.toList =
          List.range' 16 count) := by
  have hkept := kept_after kept_initial history
  refine ⟨hkept, hkept.answers, ?_, ?_, ?_⟩
  · intro more
    rw [after_append]
    exact ⟨bindings_prefix_after _ more, fun name binding h => get?_after h more⟩
  · intro during hstart hduring
    have hfirst : (initial.after history).nextVariable = firstVariable := by
      rcases hstart with rfl | hlast
      · exact initial_nextVariable
      · obtain ⟨before, rfl⟩ := List.getLast?_eq_some_iff.mp hlast
        rw [after_concat]
        rfl
    obtain ⟨new, hnew⟩ := exists_numbered (numbered_of_nextVariable hfirst) hduring
    rw [after_append]
    exact ⟨new, _, hnew.bindings, hnew.addresses⟩
  · intro hearly
    obtain ⟨new, hnew⟩ := exists_numbered_of_restartsEarly hearly
    have hvariables :
        variableAddresses (initial.after history).bindings.toList = variableAddresses new := by
      rw [hnew.bindings, variableAddresses, List.filter_append, List.map_append]
      have hnone : initial.bindings.toList.filter (·.kind = .variable) = [] := by
        rw [initial_bindings]
        decide +kernel
      rw [hnone]
      rfl
    rw [hvariables, hnew.addresses]
    exact ⟨List.nodup_range', _, rfl⟩

def restartedHistory : List Operation :=
  [.declare "LOOP" 4, .resolve "x", .declare "x" 7, .restart]

/-- Behind a restart the first number is given a second time, and before all variables a restart
makes no difference. -/
theorem histories_keep_bindings_restarted :
    (initial.after restartedHistory).perform (.declare "x" 7) =
        (.declared (.error (.redefined "x")), initial.after restartedHistory) ∧
      restartedHistory.getLast? = some .restart ∧
      variableAddresses (initial.after (restartedHistory ++
        [.resolve "R2", .resolve "y", .resolve "z"])).bindings.toList = [16, 16, 17] ∧
      (∃ new count, (initial.after (restartedHistory ++
          [.resolve "R2", .resolve "y", .resolve "z"])).bindings.toList =
            (initial.after restartedHistory).bindings.toList ++ new ∧
          variableAddresses new = List.range' 16 count) ∧
      RestartsEarly [.restart, .resolve "x"] ∧
      (variableAddresses (initial.after [.restart, .resolve "x"]).bindings.toList).Nodup := by
  have hanswers := (histories_keep_bindings restartedHistory).2.1
  have hrefused : ((initial.after restartedHistory).perform (.declare "x" 7)).1 =
      .declared (.error (.redefined "x")) := by
    decide +kernel
  have hlast : restartedHistory.getLast? = some .restart := rfl
  have hearly : RestartsEarly [.restart, .resolve "x"] := by
    rintro (_ | ⟨first, before⟩) behind h
    · rw [after_nil, initial_bindings, List.forall_mem_map]
      exact fun symbol _ => SymbolKind.noConfusion
    · simp [List.cons_eq_append_iff] at h
  exact ⟨Prod.ext hrefused (hanswers.declare_error _ _ _ hrefused), hlast, by decide +kernel,
    (histories_keep_bindings restartedHistory).2.2.2.1 _ (.inr hlast) (by decide), hearly,
    ((histories_keep_bindings [.restart, .resolve "x"]).2.2.2.2 hearly).1⟩

end HackAssembler.SymbolTable
