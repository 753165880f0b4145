import HackAssembler.Proofs.Delivery
import HackAssembler.Proofs.FileRuns

/-! # Runs on the console

What a run prints and leaves behind that was asked for the console. The standard output is the words
of the source, up to the first error, and nothing else: the report of progress, warnings, listings
and errors are printed on the other stream. -/
namespace HackAssembler.CommandLine

open Assembly Output Report Source Text

/-! ### What is printed beside the words -/

def Options.opening (options : Options) : List String :=
  ["Hack Assembler", "1. Read File", "  < " ++ options.input]

def generating : String := "2. Resolve Labels & Generate Binary"

def finished : String := Styled.render [.strong .green "Finished"]

def Options.warning (options : Options) (output : String) : List String :=
  if output.isEmpty then
    (Diagnostic.lines ⟨.warning, s!"No instructions in `{options.input}`", options.input, none⟩).map
      Styled.render
  else []

def Options.listed (options : Options) (output : String) (table : SymbolTable) : List String :=
  if options.dump then (listing output table).map Styled.render else []

def Options.exporting (options : Options) : List String :=
  match options.symbols with
  | none => []
  | some path => ["3. Export Symbols", "  > " ++ path]

def Options.assembled (options : Options) (output : String) (table : SymbolTable) : List String :=
  options.opening ++ generating ::
    (options.warning output ++ options.listed output table ++ options.exporting)

/-- How a run goes that was asked for the console, with the exit code, what it prints on the
standard output and on the other stream, and the files that it leaves. -/
inductive ConsoleRun {F : Type} [FileSystem F] (options : Options) (files : F) :
    UInt32 → String → String → F → Prop
  | unread {fault : FileFault} (hread : FileSystem.read files options.input = .error fault) :
      ConsoleRun options files 1 ""
        (lineText (options.opening ++
          RunError.report options "" (.fileRead options.input fault))) files
  | first {code : String} {error : Error} (hread : FileSystem.read files options.input = .ok code)
      (hfirst : bindLabels SymbolTable.initial 0 (Line.ofSource code) = .error error) :
      ConsoleRun options files 1 ""
        (lineText (options.opening ++ generating :: RunError.report options code (.assembly error)))
        files
  | second {code : String} {table : SymbolTable} {error : Error} {tokens : List Token}
      {words : List String} (hread : FileSystem.read files options.input = .ok code)
      (hfirst : bindLabels SymbolTable.initial 0 (Line.ofSource code) = .ok table)
      (hsecond : (emit table.restartVariables #[] (Line.ofSource code)).outcome = .error error)
      (htokens : (Lexer.ofString code).tokens = .ok tokens)
      (hwords : Interrupted (lexemeLines tokens) error words) :
      ConsoleRun options files 1 (lineText words)
        (lineText (options.opening ++ generating :: RunError.report options code (.assembly error)))
        files
  | unexported {code output path : String} {table : SymbolTable} {fault : FileFault}
      (hread : FileSystem.read files options.input = .ok code)
      (hassemble : assemble code = .ok output) (htable : symbols code = .ok table)
      (hpath : options.symbols = some path)
      (hwrite : FileSystem.write files path table.toYaml = .error fault) :
      ConsoleRun options files 1 output
        (lineText (options.assembled output table ++
          RunError.report options code (.fileWrite path fault))) files
  | finished {code output : String} {table : SymbolTable} {after : F}
      (hread : FileSystem.read files options.input = .ok code)
      (hassemble : assemble code = .ok output) (htable : symbols code = .ok table)
      (hexport : Exported options table files 0 after) :
      ConsoleRun options files 0 output
        (lineText (options.assembled output table ++ [CommandLine.finished])) after

/-! ### Delivery to the console -/

section Deliver
variable {F : Type} {files : F} {emission : Emission}

theorem performs_writeLine (line : String) (sink : ConsoleSink) (files : F) :
    Performs (writeLine line sink) files ⟨sink.text ++ (line ++ "\n")⟩ files [line] [] := by
  rintro session rfl
  rw [lineText_singleton, lineText_nil, String.append_empty, ← String.append_assoc,
    ← String.append_assoc]
  rfl

/-- The words are printed one after the other, and the sink keeps what has been printed. -/
theorem performs_words (words : List Word) (sink : ConsoleSink) (files : F) :
    Performs (words.foldlM (fun sink word => writeLine word.text sink) sink) files
      ⟨sink.text ++ lineText (words.map Word.text)⟩ files (words.map Word.text) [] := by
  induction words generalizing sink with
  | nil =>
    rw [List.map_nil, lineText_nil, String.append_empty]
    exact .pure files sink
  | cons word words ih =>
    rw [List.foldlM_cons, List.map_cons, lineText_cons, ← String.append_assoc]
    exact (performs_writeLine word.text sink files).bind (ih _)

theorem performs_wordsOf (words : Array Word) (files : F) :
    Performs (words.foldlM (fun sink word => writeLine word.text sink) ConsoleSink.empty) files
      ⟨lineText (words.toList.map Word.text)⟩ files (words.toList.map Word.text) [] := by
  have hwords := performs_words words.toList ConsoleSink.empty files
  rwa [Array.foldlM_toList, ConsoleSink.empty, String.empty_append] at hwords

theorem performs_deliver_of_error {error : Error} (h : emission.outcome = .error error) :
    Performs (deliver emission ConsoleSink.empty) files
      (.error error, ⟨lineText (emission.words.toList.map Word.text)⟩) files
      (emission.words.toList.map Word.text) [] := by
  rw [deliver, h]
  refine Performs.of_eq ?_ (List.append_nil _) rfl
  refine (performs_wordsOf _ files).bind ?_
  exact .pure files _

theorem performs_deliver_of_ok {table : SymbolTable} (h : emission.outcome = .ok table) :
    Performs (deliver emission ConsoleSink.empty) files
      (.ok table, ⟨lineText (emission.words.toList.map Word.text)⟩) files
      (emission.words.toList.map Word.text) [] := by
  rw [deliver, h]
  refine Performs.of_eq ?_ (List.append_nil _) rfl
  refine (performs_wordsOf _ files).bind ?_
  -- finishing the sink does nothing
  refine (Performs.pure files _).bind ?_
  exact .pure files _

end Deliver

/-! ### Runs -/

section Aside
variable {F : Type} {files after : F} {α : Type} {x : StateM (Session F) α} {result : α}
  {out err : List String} (h : Performs x files result after out err)
include h

theorem performs_opening (options : Options) :
    Performs (Stream.stderr.printLine "Hack Assembler" >>= fun _ =>
      Stream.stderr.printLine "1. Read File" >>= fun _ =>
      Stream.stderr.printLine ("  < " ++ options.input) >>= fun _ => x) files result after out
      (options.opening ++ err) :=
  (performs_printLine .stderr _ files).bind ((performs_printLine .stderr _ files).bind
    ((performs_printLine .stderr _ files).bind h))

theorem performs_warned (options : Options) (output : String) :
    Performs (if output.isEmpty = true then
        printDiagnostic
          ⟨.warning, s!"No instructions in `{options.input}`", options.input, none⟩ >>= fun _ => x
      else x) files result after out (options.warning output ++ err) := by
  rw [Options.warning]
  split
  · exact (performs_printDiagnostic _ files).bind h
  · exact h

theorem performs_listed (options : Options) (output : String) (table : SymbolTable) :
    Performs (if options.dump = true then
        printStyled .stderr (listing output table) >>= fun _ => x
      else x) files result after out (options.listed output table ++ err) := by
  rw [Options.listed]
  split
  · exact (performs_printStyled .stderr _ files).bind h
  · exact h

end Aside

section Run
variable {F : Type} [FileSystem F] {options : Options} {files after : F} {code : String}
  {table : SymbolTable} {out err : List String}

theorem performs_assembleInto_of_error {error : Error}
    (h : (Emission.ofSource code).outcome = .error error) :
    Performs (assembleInto options code ConsoleSink.empty) files (.error (.assembly error)) files
      (sent code) [] := by
  rw [assembleInto]
  refine Performs.of_eq ?_ (List.append_nil _) rfl
  refine (performs_deliver_of_error h).bind ?_
  exact .pure files _

theorem performs_exportSymbols_of_none (hpath : options.symbols = none) :
    Performs (exportSymbols options table) files (.ok ()) files [] options.exporting := by
  rw [Options.exporting, hpath]
  simp only [exportSymbols, hpath]
  exact .pure files _

variable (hconsole : options.console = true)
include hconsole

theorem progress_of_console : options.progress = .stderr := by
  rw [Options.progress, hconsole]
  rfl

theorem performs_exportSymbols_of_ok {path : String} (hpath : options.symbols = some path)
    (hwrite : FileSystem.write files path table.toYaml = .ok after) :
    Performs (exportSymbols options table) files (.ok ()) after [] options.exporting := by
  rw [Options.exporting, hpath]
  simp only [exportSymbols, hpath, progress_of_console hconsole]
  exact (performs_printLine .stderr _ files).bind ((performs_printLine .stderr _ files).bind
    ((performs_writeText_ok hwrite).bind (.pure after _)))

theorem performs_exportSymbols_of_error {path : String} {fault : FileFault}
    (hpath : options.symbols = some path)
    (hwrite : FileSystem.write files path table.toYaml = .error fault) :
    Performs (exportSymbols options table) files (.error (.fileWrite path fault)) files []
      options.exporting := by
  rw [Options.exporting, hpath]
  simp only [exportSymbols, hpath, progress_of_console hconsole]
  exact (performs_printLine .stderr _ files).bind ((performs_printLine .stderr _ files).bind
    ((performs_writeText_error hwrite).bind (.pure files _)))

/-- The warning and the listing are printed between the words and what is said of the symbols. -/
theorem performs_assembleInto_of_ok {result : Except RunError Unit}
    (h : (Emission.ofSource code).outcome = .ok table)
    (hexport : Performs (exportSymbols options table) files result after [] options.exporting) :
    Performs (assembleInto options code ConsoleSink.empty) files result after (sent code)
      (options.warning (lineText (sent code)) ++ options.listed (lineText (sent code)) table ++
        options.exporting) := by
  rw [assembleInto, progress_of_console hconsole, List.append_assoc]
  refine Performs.of_eq ?_ (List.append_nil _) rfl
  refine (performs_deliver_of_ok h).bind ?_
  exact performs_warned (performs_listed hexport options _ table) options _

theorem performs_assembleSource {result : Except RunError Unit}
    (h : Performs (assembleInto options code ConsoleSink.empty) files result after out err) :
    Performs (assembleSource options code) files result after out (generating :: err) := by
  rw [assembleSource, progress_of_console hconsole, hconsole]
  exact (performs_printLine .stderr _ files).bind h

/-- Nothing is left of a run that cannot read its source but what it says. -/
theorem performs_run_of_unread {fault : FileFault}
    (hread : FileSystem.read files options.input = .error fault) :
    Performs (run options) files .failure files []
      (options.opening ++ RunError.report options "" (.fileRead options.input fault)) := by
  have hfault := performs_readText options.input files
  rw [hread] at hfault
  rw [run, progress_of_console hconsole]
  refine performs_opening (hfault.bind ?_) options
  refine Performs.of_eq ?_ rfl (List.append_nil _)
  exact (performs_printError options "" _ files).bind (.pure files _)

variable (hread : FileSystem.read files options.input = .ok code)
include hread

theorem performs_run_of_error {error : RunError}
    (h : Performs (assembleSource options code) files (.error error) after out err) :
    Performs (run options) files .failure after out
      (options.opening ++ (err ++ RunError.report options code error)) := by
  have hcode := performs_readText options.input files
  rw [hread] at hcode
  rw [run, progress_of_console hconsole]
  refine performs_opening (hcode.bind ?_) options
  refine Performs.of_eq ?_ (List.append_nil _) (congrArg _ (List.append_nil _))
  exact h.bind ((performs_printError options code error after).bind (.pure after _))

theorem performs_run_of_ok
    (h : Performs (assembleSource options code) files (.ok ()) after out err) :
    Performs (run options) files .success after out (options.opening ++ (err ++ [finished])) := by
  have hcode := performs_readText options.input files
  rw [hread] at hcode
  rw [run, progress_of_console hconsole]
  refine performs_opening (hcode.bind ?_) options
  refine Performs.of_eq ?_ (List.append_nil _) (congrArg _ (List.append_nil _))
  exact h.bind ((performs_printStyled .stderr _ after).bind (.pure after _))

theorem performs_run_of_faulty {error : Error}
    (h : (Emission.ofSource code).outcome = .error error) :
    Performs (run options) files .failure files (sent code)
      (options.opening ++ ([generating] ++ RunError.report options code (.assembly error))) :=
  performs_run_of_error hconsole hread
    (performs_assembleSource hconsole (performs_assembleInto_of_error h))

variable (h : (Emission.ofSource code).outcome = .ok table)
include h

theorem performs_run_of_unexported {path : String} {fault : FileFault}
    (hpath : options.symbols = some path)
    (hwrite : FileSystem.write files path table.toYaml = .error fault) :
    Performs (run options) files .failure files (sent code)
      (options.assembled (lineText (sent code)) table ++
        RunError.report options code (.fileWrite path fault)) := by
  rw [Options.assembled, List.append_assoc]
  exact performs_run_of_error hconsole hread (performs_assembleSource hconsole
    (performs_assembleInto_of_ok hconsole h
      (performs_exportSymbols_of_error hconsole hpath hwrite)))

theorem performs_run_of_exported
    (hexport : Performs (exportSymbols options table) files (.ok ()) after [] options.exporting) :
    Performs (run options) files .success after (sent code)
      (options.assembled (lineText (sent code)) table ++ [finished]) := by
  rw [Options.assembled, List.append_assoc]
  exact performs_run_of_ok hconsole hread
    (performs_assembleSource hconsole (performs_assembleInto_of_ok hconsole h hexport))

end Run

section Outcome
variable {F : Type} [FileSystem F] {options : Options} {files : F} {code : String}
  (hconsole : options.console = true) (hread : FileSystem.read files options.input = .ok code)
include hconsole hread

/-- A run whose source has no errors prints all of its words. -/
theorem exists_run_of_assembled {table : SymbolTable}
    (h : (Emission.ofSource code).outcome = .ok table) :
    ∃ status after out err, Performs (run options) files status after out err ∧
      ConsoleRun options files status.code (lineText out) (lineText err) after := by
  have hassemble : assemble code = .ok (lineText (sent code)) := by
    have hbinary : assemble code = .ok (binary (Emission.ofSource code).words) := by
      simp only [assemble, h, Except.map]
    rw [hbinary, sends_sent.whole _ hbinary, join_lineTexts]
    rfl
  cases hpath : options.symbols with
  | none =>
    exact ⟨_, _, _, _, performs_run_of_exported hconsole hread h
      (performs_exportSymbols_of_none hpath), .finished hread hassemble h (.unasked hpath)⟩
  | some path =>
    cases hwrite : FileSystem.write files path table.toYaml with
    | ok after =>
      exact ⟨_, _, _, _, performs_run_of_exported hconsole hread h
        (performs_exportSymbols_of_ok hconsole hpath hwrite),
        .finished hread hassemble h (.written hpath hwrite)⟩
    | error fault =>
      exact ⟨_, _, _, _, performs_run_of_unexported hconsole hread h hpath hwrite,
        .unexported hread hassemble h hpath hwrite⟩

/-- A run whose source has an error prints the words in front of it. -/
theorem exists_run_of_faulty {error : Error} (h : (Emission.ofSource code).outcome = .error error) :
    ∃ status after out err, Performs (run options) files status after out err ∧
      ConsoleRun options files status.code (lineText out) (lineText err) after := by
  refine ⟨_, _, _, _, performs_run_of_faulty hconsole hread h, ?_⟩
  cases hfirst : bindLabels SymbolTable.initial 0 (Line.ofSource code) with
  | error fault =>
    obtain rfl : fault = error := by simpa [Emission.ofSource, hfirst] using h
    rw [sends_sent.first _ hfirst]
    exact .first hread hfirst
  | ok table =>
    have hsecond :
        (emit table.restartVariables #[] (Line.ofSource code)).outcome = .error error := by
      simpa only [Emission.ofSource, hfirst] using h
    obtain ⟨tokens, htokens, hwords⟩ := sends_sent.second _ _ hfirst hsecond
    exact .second hread hfirst hsecond htokens hwords

omit hread in
theorem exists_consoleRun (files : F) :
    ∃ status after out err, Performs (run options) files status after out err ∧
      ConsoleRun options files status.code (lineText out) (lineText err) after := by
  cases hread : FileSystem.read files options.input with
  | error fault =>
    exact ⟨_, _, _, _, performs_run_of_unread hconsole hread, .unread hread⟩
  | ok code =>
    cases h : (Emission.ofSource code).outcome with
    | error error => exact exists_run_of_faulty hconsole hread h
    | ok table => exact exists_run_of_assembled hconsole hread h

end Outcome

/-! ### What follows for the output and the files -/

section Follows
variable {F : Type} [FileSystem F] {options : Options} {files after : F} {status : UInt32}
  {stdout stderr : String}

/-- A source that can be assembled is printed whole, even if its symbols cannot be written. -/
theorem ConsoleRun.stdout_eq (h : ConsoleRun options files status stdout stderr after)
    {code output : String} (hread : FileSystem.read files options.input = .ok code)
    (hassemble : assemble code = .ok output) : stdout = output := by
  cases h with
  | unread hfault =>
    rw [hread] at hfault
    cases hfault
  | first hcode hfirst =>
    obtain rfl := Except.ok.inj (hread.symm.trans hcode)
    simp [assemble, Emission.ofSource, hfirst, Except.map] at hassemble
  | second hcode hfirst hsecond =>
    obtain rfl := Except.ok.inj (hread.symm.trans hcode)
    simp [assemble, Emission.ofSource, hfirst, hsecond, Except.map] at hassemble
  | unexported hcode houtput =>
    obtain rfl := Except.ok.inj (hread.symm.trans hcode)
    exact Except.ok.inj (houtput.symm.trans hassemble)
  | finished hcode houtput =>
    obtain rfl := Except.ok.inj (hread.symm.trans hcode)
    exact Except.ok.inj (houtput.symm.trans hassemble)

theorem ConsoleRun.lookup_eq (h : ConsoleRun options files status stdout stderr after)
    {place : FileSystem.Place F}
    (hsymbols : ∀ path ∈ options.symbols, FileSystem.place files path ≠ .ok place) :
    FileSystem.lookup after place = FileSystem.lookup files place := by
  cases h with
  | finished _ _ _ hexport => exact hexport.lookup_eq hsymbols
  | _ => rfl

end Follows

namespace Session

/-- A run on the console goes one of the ways that it can go. Its output is the whole program if the
source can be assembled, and it changes nothing but the symbols. -/
theorem execute_console {F : Type} [FileSystem F] (files : F) {arguments : List String}
    {options : Options} (h : Options.ofArguments arguments = some options)
    (hconsole : options.console = true) :
    ConsoleRun options files (execute files arguments).1.code (execute files arguments).2.stdout
        (execute files arguments).2.stderr (execute files arguments).2.store ∧
      (∀ code output, FileSystem.read files options.input = .ok code → assemble code = .ok output →
        (execute files arguments).2.stdout = output) ∧
      ∀ place, (∀ path ∈ options.symbols, FileSystem.place files path ≠ .ok place) →
        FileSystem.lookup (execute files arguments).2.store place =
          FileSystem.lookup files place := by
  obtain ⟨status, after, out, err, hperforms, hrun⟩ := exists_consoleRun hconsole files
  have hexecute : execute files arguments = (status, ⟨after, lineText out, lineText err⟩) := by
    rw [execute, h]
    simpa [ofStore] using hperforms (ofStore files) rfl
  rw [hexecute]
  exact ⟨hrun, fun _ _ => hrun.stdout_eq, fun _ => hrun.lookup_eq⟩

/-- The words of a program whose symbols cannot be written, with a listing beside them. -/
theorem execute_console_unexported :
    Options.ofArguments ["-cd", "-o", "b.hack", "-s", "symbols/a.yaml", "a.asm"] =
        some ⟨"a.asm", some "b.hack", some "symbols/a.yaml", true, true⟩ ∧
      (execute workFiles ["-cd", "-o", "b.hack", "-s", "symbols/a.yaml", "a.asm"]).1.code = 1 ∧
      (execute workFiles ["-cd", "-o", "b.hack", "-s", "symbols/a.yaml", "a.asm"]).2.stdout =
        "0000000000010000\n" ∧
      ConsoleRun ⟨"a.asm", some "b.hack", some "symbols/a.yaml", true, true⟩ workFiles
        (execute workFiles ["-cd", "-o", "b.hack", "-s", "symbols/a.yaml", "a.asm"]).1.code
        (execute workFiles ["-cd", "-o", "b.hack", "-s", "symbols/a.yaml", "a.asm"]).2.stdout
        (execute workFiles ["-cd", "-o", "b.hack", "-s", "symbols/a.yaml", "a.asm"]).2.stderr
        (execute workFiles ["-cd", "-o", "b.hack", "-s", "symbols/a.yaml", "a.asm"]).2.store := by
  have h : Options.ofArguments ["-cd", "-o", "b.hack", "-s", "symbols/a.yaml", "a.asm"] =
      some ⟨"a.asm", some "b.hack", some "symbols/a.yaml", true, true⟩ := by
    decide +kernel
  obtain ⟨hrun, -, -⟩ := execute_console workFiles h rfl
  exact ⟨h, by decide +kernel, by decide +kernel, hrun⟩

end Session

end HackAssembler.CommandLine
