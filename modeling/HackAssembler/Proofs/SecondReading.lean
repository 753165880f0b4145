import HackAssembler.Assembly.Emission
import HackAssembler.Proofs.Statements

/-! # The second reading

With the labels of a program bound, the second reading emits the words of exactly the instructions
that the lines of the program denote, and fails when a line denotes none. -/
namespace HackAssembler.Assembly

open Source Instruction

section Step
variable {line : Line} {lines : List Line} {seen program : Program} {table final : SymbolTable}
  {words : Array Word} {inst : Instruction}

/-- An instruction line can be read and resolved when it denotes an instruction. -/
theorem exists_statement (hfault : line.fault? = none)
    (hinst : Denotes (seen ++ line.lexemes :: program) line.lexemes inst)
    (htable : Tracks (seen ++ line.lexemes :: program) (seen ++ line.lexemes :: program) seen
      table) :
    ∃ statement pos next, Statement.ofLine line = .ok (some (statement, .newline pos)) ∧
      statement.resolve table = .ok (inst, next) ∧
      Tracks (seen ++ line.lexemes :: program) (seen ++ line.lexemes :: program)
        (seen ++ [line.lexemes]) next := by
  generalize hwhole : seen ++ line.lexemes :: program = whole at hinst
  generalize hlexemes : line.lexemes = lexemes at hinst
  cases hinst with
  | literal hdigits hfits =>
    obtain ⟨start, pos, hread⟩ := Statement.exists_readLiteral hfault hlexemes
    have hline : operand? line.lexemes = none := by
      rw [hlexemes]
      rfl
    have hnext := htable.skip_used hline
    rw [hwhole, hlexemes] at hnext
    refine ⟨_, pos, table, hread, ?_, hnext⟩
    rw [Statement.resolve_literal hdigits, if_pos hfits]
  | @symbol name hfits =>
    obtain ⟨start, pos, hread⟩ := Statement.exists_readSymbol hfault hlexemes
    have hline : operand? line.lexemes = some name := by
      rw [hlexemes]
      rfl
    obtain ⟨next, hresolve, hnext⟩ := htable.resolve hline
    rw [hwhole] at hresolve hnext
    rw [hlexemes] at hnext
    refine ⟨_, pos, next, hread, ?_, hnext⟩
    rw [Statement.resolve_symbol hresolve, if_pos hfits]
  | compute dest comp jump =>
    obtain ⟨pos, hread⟩ := Statement.exists_readCompute hfault hlexemes
    have hline : operand? line.lexemes = none := by
      rw [hlexemes]
      exact operand?_computeLine _ _ _
    have hnext := htable.skip_used hline
    rw [hwhole, hlexemes] at hnext
    exact ⟨_, pos, table, hread, rfl, hnext⟩

theorem emit_step (lines : List Line) (words : Array Word) (hfault : line.fault? = none)
    (hinst : Denotes (seen ++ line.lexemes :: program) line.lexemes inst)
    (htable : Tracks (seen ++ line.lexemes :: program) (seen ++ line.lexemes :: program) seen
      table) :
    ∃ next, Tracks (seen ++ line.lexemes :: program) (seen ++ line.lexemes :: program)
        (seen ++ [line.lexemes]) next ∧
      emit table words (line :: lines) = emit next (words.push inst.encode) lines := by
  obtain ⟨statement, pos, next, hread, hresolve, hnext⟩ := exists_statement hfault hinst htable
  refine ⟨next, hnext, ?_⟩
  rw [emit, hread]
  simp only [hresolve, requireNewline]

theorem emit_skip (lines : List Line) (words : Array Word) (hfault : line.fault? = none)
    (houtlined : Outlined line.lexemes) (hline : isInstruction line.lexemes = false)
    (htable : Tracks (seen ++ line.lexemes :: program) (seen ++ line.lexemes :: program) seen
      table) :
    Tracks (seen ++ line.lexemes :: program) (seen ++ line.lexemes :: program)
        (seen ++ [line.lexemes]) table ∧
      emit table words (line :: lines) = emit table words lines := by
  rcases houtlined with hblank | hinstruction | ⟨name, hname⟩
  · obtain ⟨pos, rfl⟩ := Line.exists_newline hfault hblank
    exact ⟨htable.skip_used rfl, rfl⟩
  · rw [hline] at hinstruction
    cases hinstruction
  · rw [declared?_eq_some_iff] at hname
    refine ⟨htable.skip_used (by rw [hname]; rfl), ?_⟩
    obtain ⟨_, behind, rfl, hbehind⟩ := Line.exists_token hname
    rfl

/-- The second reading gets over a line that denotes an instruction if it has to be one. -/
theorem emit_pass (lines : List Line) (words : Array Word) (hfault : line.fault? = none)
    (houtlined : Outlined line.lexemes)
    (hinst : isInstruction line.lexemes = true →
      ∃ inst, Denotes (seen ++ line.lexemes :: program) line.lexemes inst)
    (htable : Tracks (seen ++ line.lexemes :: program) (seen ++ line.lexemes :: program) seen
      table) :
    ∃ next insts, Tracks (seen ++ line.lexemes :: program) (seen ++ line.lexemes :: program)
        (seen ++ [line.lexemes]) next ∧
      List.Forall₂ (Denotes (seen ++ line.lexemes :: program))
        ([line.lexemes].filter isInstruction) insts ∧
      emit table words (line :: lines) = emit next (words ++ (insts.map encode).toArray) lines := by
  by_cases hinstruction : isInstruction line.lexemes = true
  · obtain ⟨inst, hinst⟩ := hinst hinstruction
    obtain ⟨next, hnext, hstep⟩ := emit_step lines words hfault hinst htable
    refine ⟨next, [inst], hnext, ?_, by simpa using hstep⟩
    rw [List.filter_cons_of_pos hinstruction]
    exact .cons hinst .nil
  · obtain ⟨hnext, hstep⟩ :=
      emit_skip lines words hfault houtlined (by simpa using hinstruction) htable
    refine ⟨table, [], hnext, ?_, by simpa using hstep⟩
    rw [List.filter_cons_of_neg hinstruction]
    exact .nil

theorem exists_denotes (h : (emit table words (line :: lines)).outcome = .ok final)
    (hinstruction : isInstruction line.lexemes = true) (hlexed : Lexed line.lexemes)
    (htable : Tracks (seen ++ line.lexemes :: program) (seen ++ line.lexemes :: program) seen
      table) :
    ∃ inst, Denotes (seen ++ line.lexemes :: program) line.lexemes inst := by
  rw [emit] at h
  split at h
  · cases h
  · next hread => exact absurd hread (Statement.ofLine_ne_none hinstruction)
  · next statement after hread =>
    split at h
    · cases h
    · next inst next hresolve =>
      split at h
      · cases h
      · next hend =>
        obtain ⟨pos, rfl⟩ := requireNewline_eq_ok hend
        have hwritten := (Statement.begins_of_ofLine hread hlexed).written
        exact ⟨inst, hwritten.denotes htable hresolve⟩

end Step

section Run
variable {lines : List Line} {table final : SymbolTable} {words : Array Word}
  {insts : List Instruction}

/-- The second reading of lines that denote instructions, where `seen` are the lines before. -/
theorem exists_emit (seen : Program) (words : Array Word)
    (hlines : ∀ line ∈ lines, line.fault? = none ∧ Outlined line.lexemes)
    (hinsts : List.Forall₂ (Denotes (seen ++ lines.map Line.lexemes))
      ((lines.map Line.lexemes).filter isInstruction) insts)
    (htable : Tracks (seen ++ lines.map Line.lexemes) (seen ++ lines.map Line.lexemes) seen table) :
    ∃ final, Tracks (seen ++ lines.map Line.lexemes) (seen ++ lines.map Line.lexemes)
        (seen ++ lines.map Line.lexemes) final ∧
      emit table words lines = ⟨words ++ (insts.map encode).toArray, .ok final⟩ := by
  induction lines generalizing seen table words insts with
  | nil =>
    cases hinsts
    simp only [List.map_nil, List.append_nil] at htable ⊢
    exact ⟨table, htable, by simp [emit]⟩
  | cons line rest ih =>
    obtain ⟨⟨hfault, houtlined⟩, hrest⟩ := List.forall_mem_cons.mp hlines
    rw [List.map_cons] at htable hinsts ⊢
    by_cases hinstruction : isInstruction line.lexemes = true
    · rw [List.filter_cons_of_pos hinstruction] at hinsts
      cases hinsts with
      | @cons _ inst _ insts hinst hinsts =>
        obtain ⟨next, hnext, hstep⟩ := emit_step rest words hfault hinst htable
        rw [hstep]
        rw [List.append_cons] at hinsts hnext
        have hfinal := ih _ (words.push inst.encode) hrest hinsts hnext
        rw [← List.append_cons] at hfinal
        simpa using hfinal
    · rw [List.filter_cons_of_neg hinstruction] at hinsts
      obtain ⟨hnext, hstep⟩ :=
        emit_skip rest words hfault houtlined (by simpa using hinstruction) htable
      rw [hstep]
      rw [List.append_cons] at hinsts hnext
      have hfinal := ih _ words hrest hinsts hnext
      rwa [← List.append_cons] at hfinal

theorem exists_forall₂_denotes (seen : Program)
    (hlines : ∀ line ∈ lines, line.fault? = none ∧ Outlined line.lexemes)
    (hlexed : ∀ line ∈ lines, Lexed line.lexemes)
    (htable : Tracks (seen ++ lines.map Line.lexemes) (seen ++ lines.map Line.lexemes) seen table)
    (h : (emit table words lines).outcome = .ok final) :
    ∃ insts, List.Forall₂ (Denotes (seen ++ lines.map Line.lexemes))
      ((lines.map Line.lexemes).filter isInstruction) insts := by
  induction lines generalizing seen table words with
  | nil => exact ⟨[], .nil⟩
  | cons line rest ih =>
    obtain ⟨⟨hfault, houtlined⟩, hrest⟩ := List.forall_mem_cons.mp hlines
    obtain ⟨hlexedLine, hlexedRest⟩ := List.forall_mem_cons.mp hlexed
    rw [List.map_cons] at htable ⊢
    obtain ⟨next, own, hnext, hown, hstep⟩ := emit_pass rest words hfault houtlined
      (fun hinstruction => exists_denotes h hinstruction hlexedLine htable) htable
    rw [hstep] at h
    rw [List.append_cons] at hnext
    obtain ⟨behind, hbehind⟩ := ih _ hrest hlexedRest hnext h
    rw [← List.append_cons] at hbehind
    have hinsts : List.Forall₂ _ (_ ++ _) (_ ++ _) := List.rel_append hown hbehind
    rw [← List.filter_append, List.singleton_append] at hinsts
    exact ⟨own ++ behind, hinsts⟩

end Run

theorem Tracks.restartVariables {program declared : Program} {table : SymbolTable}
    (h : Tracks program declared [] table) :
    Tracks program declared [] table.restartVariables where
  bindings := h.bindings
  nextVariable := rfl

structure Assembles (program : Program) (insts : List Instruction) : Prop where
  outlined : ∀ line ∈ program, Outlined line
  labelsFresh : program.LabelsFresh
  denotes : List.Forall₂ (Denotes program) (program.filter isInstruction) insts

/-- A blank line at the end makes no difference. -/
theorem assembles_append_blank_iff {program : Program} {insts : List Instruction} :
    Assembles (program ++ [[]]) insts ↔ Assembles program insts := by
  have hlabels := Program.labels_append_blank program
  have hfilter : (program ++ [[]]).filter isInstruction = program.filter isInstruction := by
    rw [List.filter_append]
    exact List.append_nil _
  have haddress := Program.address_append_blank program
  constructor
  · rintro ⟨houtlined, ⟨hnodup, hfree⟩, hdenotes⟩
    rw [hlabels] at hnodup hfree
    rw [hfilter] at hdenotes
    exact ⟨fun line hline => houtlined line (List.mem_append_left _ hline), ⟨hnodup, hfree⟩,
      hdenotes.imp fun _ _ hline => hline.congr haddress⟩
  · rintro ⟨houtlined, ⟨hnodup, hfree⟩, hdenotes⟩
    refine ⟨?_, ⟨hlabels ▸ hnodup, hlabels ▸ hfree⟩, ?_⟩
    · rw [List.forall_mem_append]
      exact ⟨houtlined, by simp [Outlined]⟩
    · rw [hfilter]
      exact hdenotes.imp fun _ _ hline => hline.congr fun name => (haddress name).symm

section Source
variable {code : String} {program : Program}

/-- A source that reads as a well-formed program is emitted as the program's instructions. -/
theorem Emission.exists_ofSource (hreads : List.Forall₂ Reads (Text.pieces code.toList) program)
    {insts : List Instruction} (h : Assembles program insts) :
    ∃ final, Tracks program program program final ∧
      Emission.ofSource code = ⟨(insts.map encode).toArray, .ok final⟩ := by
  obtain ⟨_, hlexemes, hfault⟩ := lines_of_reads hreads
  obtain ⟨houtlined, hlabels, hdenotes⟩ := h
  have hlines : ∀ line ∈ Line.ofSource code, line.fault? = none ∧ Outlined line.lexemes :=
    fun line hline => ⟨hfault line hline,
      houtlined _ (hlexemes ▸ List.mem_map_of_mem hline)⟩
  subst hlexemes
  obtain ⟨table, hbind, htable⟩ := exists_bindLabels [] hlines hlabels (Tracks.initial _)
  obtain ⟨final, hfinal, hemit⟩ :=
    exists_emit [] #[] hlines hdenotes htable.restartVariables
  refine ⟨final, hfinal, ?_⟩
  rw [List.countP_nil] at hbind
  simp only [Emission.ofSource, hbind, hemit, Array.empty_append]

theorem lexed_of_reads {texts : List (List Char)} (h : List.Forall₂ Reads texts program) :
    ∀ line ∈ program, Lexed line := by
  induction h with
  | nil => simp
  | cons hline _ ih => exact List.forall_mem_cons.mpr ⟨hline.lexed, ih⟩

/-- What the first reading of a source establishes: which program the source is, and a table of
the labels of the program. -/
structure Bound (code : String) (program : Program) (table : SymbolTable) : Prop where
  reads : List.Forall₂ Reads (Text.pieces code.toList) program
  lexemes : (Line.ofSource code).map Line.lexemes = program
  outlined : ∀ line ∈ Line.ofSource code, line.fault? = none ∧ Outlined line.lexemes
  labelsFresh : program.LabelsFresh
  tracks : Tracks program program [] table.restartVariables

theorem exists_bound {table : SymbolTable}
    (h : bindLabels SymbolTable.initial 0 (Line.ofSource code) = .ok table) :
    ∃ program, Bound code program table := by
  have hinitial := Tracks.initial ((Line.ofSource code).map Line.lexemes)
  obtain ⟨hlines, hlabels⟩ := forall_outlined_of_bindLabels [] h hinitial Program.labelsFresh_nil
  obtain ⟨bound, hbound, htable⟩ := exists_bindLabels [] hlines hlabels hinitial
  obtain rfl : table = bound := Except.ok.inj (h.symm.trans hbound)
  obtain ⟨program, hprogram⟩ := exists_reads_of_lines fun line hline => (hlines line hline).1
  obtain ⟨_, rfl, _⟩ := lines_of_reads hprogram
  exact ⟨_, hprogram, rfl, hlines, hlabels, htable.restartVariables⟩

theorem Bound.lexed {table : SymbolTable} (h : Bound code program table) :
    ∀ line ∈ Line.ofSource code, Lexed line.lexemes := fun _ hline =>
  lexed_of_reads h.reads _ (h.lexemes ▸ List.mem_map_of_mem hline)

theorem Emission.exists_assembles {final : SymbolTable}
    (h : (Emission.ofSource code).outcome = .ok final) :
    ∃ program insts, List.Forall₂ Reads (Text.pieces code.toList) program ∧
      Assembles program insts := by
  rw [ofSource] at h
  split at h
  · cases h
  · next table hbind =>
    obtain ⟨program, hbound⟩ := exists_bound hbind
    have htracks := hbound.tracks
    rw [← hbound.lexemes] at htracks
    obtain ⟨insts, hinsts⟩ := exists_forall₂_denotes [] hbound.outlined hbound.lexed htracks h
    rw [List.nil_append, hbound.lexemes] at hinsts
    refine ⟨program, insts, hbound.reads, ?_, hbound.labelsFresh, hinsts⟩
    rw [← hbound.lexemes, List.forall_mem_map]
    exact fun line hline => (hbound.outlined line hline).2

/-- What a source assembles to. -/
theorem assemble_eq_ok_iff {output : String} :
    assemble code = .ok output ↔
      ∃ program insts, List.Forall₂ Reads (Text.pieces code.toList) program ∧
        Assembles program insts ∧ output = binary (insts.map encode).toArray := by
  have hassemble {emission : Emission} {final : SymbolTable}
      (h : Emission.ofSource code = emission) (hfinal : emission.outcome = .ok final) :
      assemble code = .ok (binary emission.words) := by
    simp only [assemble, h, hfinal, Except.map]
  constructor
  · intro h
    cases houtcome : (Emission.ofSource code).outcome with
    | error error =>
      simp only [assemble, houtcome, Except.map] at h
      cases h
    | ok final =>
      obtain ⟨program, insts, hreads, hprogram⟩ := Emission.exists_assembles houtcome
      obtain ⟨final, _, hsource⟩ := Emission.exists_ofSource hreads hprogram
      rw [hassemble hsource rfl] at h
      exact ⟨program, insts, hreads, hprogram, (Except.ok.inj h).symm⟩
  · rintro ⟨program, insts, hreads, hprogram, rfl⟩
    obtain ⟨final, _, hsource⟩ := Emission.exists_ofSource hreads hprogram
    exact hassemble hsource rfl

end Source

end HackAssembler.Assembly
