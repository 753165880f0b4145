import HackAssembler.Proofs.Transcripts

/-! # Runs that write files

What a run leaves behind that was asked for files. The program is written when nothing can go wrong
with it any more, and the symbols are written behind it. Everything else that such a run does is to
print. -/
namespace HackAssembler.CommandLine

open Assembly Output Report Text

/-- Where the program goes: any extension of the output, or else of the input, gives way. -/
def Options.programPath (options : Options) : String :=
  Path.withExtension "hack" (options.output.getD options.input)

section Spec
variable {F : Type} [FileSystem F]

/-- How the symbols are written, if they are asked for, with the exit code and the files that this
leaves. -/
inductive Exported (options : Options) (table : SymbolTable) (files : F) : UInt32 → F → Prop
  | unasked (hpath : options.symbols = none) : Exported options table files 0 files
  | written {path : String} {after : F} (hpath : options.symbols = some path)
      (hwrite : FileSystem.write files path table.toYaml = .ok after) :
      Exported options table files 0 after
  | failed {path : String} {fault : FileFault} (hpath : options.symbols = some path)
      (hwrite : FileSystem.write files path table.toYaml = .error fault) :
      Exported options table files 1 files

/-- How a run goes that is to write files, with the exit code and the files that it leaves. -/
inductive FileRun (options : Options) (files : F) : UInt32 → F → Prop
  | unread {fault : FileFault} (hread : FileSystem.read files options.input = .error fault) :
      FileRun options files 1 files
  | faulty {code : String} {error : Error} (hread : FileSystem.read files options.input = .ok code)
      (hassemble : assemble code = .error error) : FileRun options files 1 files
  | failed {code output : String} {fault : FileFault}
      (hread : FileSystem.read files options.input = .ok code)
      (hassemble : assemble code = .ok output)
      (hwrite : FileSystem.write files options.programPath output = .error fault) :
      FileRun options files 1 files
  | written {code output : String} {table : SymbolTable} {between after : F} {status : UInt32}
      (hread : FileSystem.read files options.input = .ok code)
      (hassemble : assemble code = .ok output) (htable : symbols code = .ok table)
      (hwrite : FileSystem.write files options.programPath output = .ok between)
      (hexport : Exported options table between status after) : FileRun options files status after

/-- Nothing is wrong with the source, and all that is to be written can be written. -/
def Succeeds (options : Options) (files : F) : Prop :=
  ∃ code output table between, FileSystem.read files options.input = .ok code ∧
    assemble code = .ok output ∧ symbols code = .ok table ∧
    FileSystem.write files options.programPath output = .ok between ∧
    ∀ path ∈ options.symbols, ∃ after, FileSystem.write between path table.toYaml = .ok after

end Spec

/-! ### What is done to the files -/

section Leads
variable {F : Type} {α β : Type}

/-- From any session with the files `files`, whatever it has printed, a computation comes to
`result` and leaves the files `after`. -/
def Leads (x : StateM (Session F) α) (files : F) (result : α) (after : F) : Prop :=
  ∀ session : Session F, session.store = files →
    (x.run session).1 = result ∧ (x.run session).2.store = after

variable {files between after : F}

theorem Leads.pure (files : F) (result : α) :
    Leads (pure result : StateM (Session F) α) files result files :=
  fun _ hfiles => ⟨rfl, hfiles⟩

theorem Leads.bind {x : StateM (Session F) α} {next : α → StateM (Session F) β} {value : α}
    {result : β} (h : Leads x files value between)
    (hnext : Leads (next value) between result after) :
    Leads (x >>= next) files result after := by
  intro session hfiles
  obtain ⟨rfl, hbetween⟩ := h session hfiles
  exact hnext _ hbetween

theorem Performs.leads {x : StateM (Session F) α} {result : α} {out err : List String}
    (h : Performs x files result after out err) : Leads x files result after := by
  intro session hfiles
  rw [h session hfiles]
  exact ⟨rfl, rfl⟩

end Leads

/-! ### Delivery to a file -/

def holding (path text : String) : FileSink :=
  { FileSink.ofPath path with text }

theorem foldlM_writeLine_fileSink {m : Type → Type} [Monad m] [LawfulMonad m] [FileAccess m]
    (words : List Word) (sink : FileSink) :
    (words.foldlM (fun sink word => writeLine word.text sink) sink : m FileSink) =
      pure { sink with
        text := words.foldl (fun text word => text ++ word.text ++ "\n") sink.text } := by
  induction words generalizing sink with
  | nil => rfl
  | cons word words ih =>
    have hline : (writeLine word.text sink : m FileSink) =
        pure { sink with text := sink.text ++ word.text ++ "\n" } := by
      simp [writeLine, Sink.write]
    rw [List.foldlM_cons, hline, pure_bind, ih]
    rfl

/-- Writing to a file sink writes nothing to a file. -/
theorem foldlM_writeLine_ofPath {m : Type → Type} [Monad m] [LawfulMonad m] [FileAccess m]
    (words : Array Word) (path : String) :
    (words.foldlM (fun sink word => writeLine word.text sink) (FileSink.ofPath path) :
        m FileSink) = pure (holding path (binary words)) := by
  rw [← Array.foldlM_toList, foldlM_writeLine_fileSink, holding, binary, ← Array.foldl_toList]
  rfl

section Deliver
variable {F : Type} {files after : F} {emission : Emission}

variable [FileSystem F] {path text : String}

theorem leads_finish_failed {fault : FileFault}
    (h : FileSystem.write files (Path.withExtension "hack" path) text = .error fault) :
    Leads (FileSink.finish (holding path text)) files (.error fault, holding path text) files := by
  refine Leads.bind (performs_writeText_error h).leads ?_
  exact .pure files _

theorem leads_finish_written
    (h : FileSystem.write files (Path.withExtension "hack" path) text = .ok after) :
    Leads (FileSink.finish (holding path text)) files
      (.ok (), { holding path text with written := true }) after := by
  refine Leads.bind (performs_writeText_ok h).leads ?_
  exact .pure after _

theorem leads_deliver_faulty {error : Error} (h : emission.outcome = .error error) :
    Leads (deliver emission (FileSink.ofPath path)) files
      (.error error, holding path (binary emission.words)) files := by
  rw [deliver, foldlM_writeLine_ofPath, pure_bind, h]
  exact .pure files _

theorem leads_deliver_failed {table : SymbolTable} {fault : FileFault}
    (h : emission.outcome = .ok table)
    (hwrite : FileSystem.write files (Path.withExtension "hack" path) (binary emission.words) =
      .error fault) :
    Leads (deliver emission (FileSink.ofPath path)) files
      (.error (.sink fault), holding path (binary emission.words)) files := by
  rw [deliver, foldlM_writeLine_ofPath, pure_bind, h]
  refine (leads_finish_failed hwrite).bind ?_
  exact .pure files _

theorem leads_deliver_written {table : SymbolTable} (h : emission.outcome = .ok table)
    (hwrite : FileSystem.write files (Path.withExtension "hack" path) (binary emission.words) =
      .ok after) :
    Leads (deliver emission (FileSink.ofPath path)) files
      (.ok table, { holding path (binary emission.words) with written := true }) after := by
  rw [deliver, foldlM_writeLine_ofPath, pure_bind, h]
  refine (leads_finish_written hwrite).bind ?_
  exact .pure after _

end Deliver

/-! ### Runs -/

section Run
variable {F : Type} [FileSystem F] {options : Options} {files between after : F} {code : String}

def exitCode : Except RunError Unit → UInt32
  | .ok () => 0
  | .error _ => 1

theorem exists_exportSymbols (options : Options) (table : SymbolTable) (files : F) :
    ∃ result after, Exported options table files (exitCode result) after ∧
      ∀ dump, Leads (exportSymbols { options with dump } table) files result after := by
  cases hpath : options.symbols with
  | none =>
    refine ⟨.ok (), files, .unasked hpath, fun dump => ?_⟩
    simp only [exportSymbols]
    exact .pure files _
  | some path =>
    cases hwrite : FileSystem.write files path table.toYaml with
    | ok after =>
      refine ⟨.ok (), after, .written hpath hwrite, fun dump => ?_⟩
      simp only [exportSymbols]
      refine (performs_printLine _ _ files).leads.bind ?_
      refine (performs_printLine _ _ files).leads.bind ?_
      exact (performs_writeText_ok hwrite).leads.bind (.pure after _)
    | error fault =>
      refine ⟨.error (.fileWrite path fault), files, .failed hpath hwrite, fun dump => ?_⟩
      simp only [exportSymbols]
      refine (performs_printLine _ _ files).leads.bind ?_
      refine (performs_printLine _ _ files).leads.bind ?_
      exact (performs_writeText_error hwrite).leads.bind (.pure files _)

theorem leads_assembleInto_error {σ : Type} [Sink (StateM (Session F)) σ] {sink sink' : σ}
    {error : Error}
    (h : Leads (deliver (Emission.ofSource code) sink) files (.error error, sink') after) :
    Leads (assembleInto options code sink) files (.error (.assembly error)) after := by
  rw [assembleInto]
  exact h.bind (.pure after _)

/-- Warnings and listings are printed, and nothing else. -/
theorem leads_assembleInto_ok {σ : Type} [Sink (StateM (Session F)) σ] {sink sink' : σ}
    {table : SymbolTable} {result : Except RunError Unit}
    (h : Leads (deliver (Emission.ofSource code) sink) files (.ok table, sink') between)
    (hexport : Leads (exportSymbols options table) between result after) :
    Leads (assembleInto options code sink) files result after := by
  rw [assembleInto]
  refine h.bind ?_
  dsimp only
  -- The warning and the listing are asked for independently of each other.
  split
  · refine (performs_printDiagnostic _ between).leads.bind ?_
    split
    · exact (performs_printStyled _ _ between).leads.bind hexport
    · exact hexport
  · split
    · exact (performs_printStyled _ _ between).leads.bind hexport
    · exact hexport

theorem exists_assembleInto (hread : FileSystem.read files options.input = .ok code) :
    ∃ result after, FileRun options files (exitCode result) after ∧
      ∀ dump, Leads (assembleInto { options with dump } code (FileSink.ofPath options.target)) files
        result after := by
  cases houtcome : (Emission.ofSource code).outcome with
  | error error =>
    have hassemble : assemble code = .error error := by simp [assemble, houtcome, Except.map]
    have hdeliver : Leads (deliver (Emission.ofSource code) (FileSink.ofPath options.target)) files
        (.error error, _) files := leads_deliver_faulty houtcome
    exact ⟨.error (.assembly error), files, .faulty hread hassemble,
      fun _ => leads_assembleInto_error hdeliver⟩
  | ok table =>
    have hassemble : assemble code = .ok (binary (Emission.ofSource code).words) := by
      simp [assemble, houtcome, Except.map]
    cases hwrite : FileSystem.write files options.programPath
        (binary (Emission.ofSource code).words) with
    | error fault =>
      have hdeliver := leads_deliver_failed houtcome hwrite
      exact ⟨.error (.assembly (.sink fault)), files, .failed hread hassemble hwrite,
        fun _ => leads_assembleInto_error hdeliver⟩
    | ok between =>
      have hdeliver := leads_deliver_written houtcome hwrite
      obtain ⟨result, after, hexported, hexport⟩ := exists_exportSymbols options table between
      exact ⟨result, after, .written hread hassemble houtcome hwrite hexported,
        fun dump => leads_assembleInto_ok hdeliver (hexport dump)⟩

theorem leads_assembleSource (options : Options) (hfile : options.console = false)
    {result : Except RunError Unit}
    (h : Leads (assembleInto options code (FileSink.ofPath options.target)) files result after) :
    Leads (assembleSource options code) files result after := by
  rw [assembleSource, hfile]
  exact (performs_printLine _ _ files).leads.bind ((performs_printLine _ _ files).leads.bind h)

theorem leads_run_of_unread {fault : FileFault}
    (hread : FileSystem.read files options.input = .error fault) :
    Leads (run options) files .failure files := by
  have hfault := (performs_readText options.input files).leads
  rw [hread] at hfault
  rw [run]
  refine (performs_printLine _ _ files).leads.bind ((performs_printLine _ _ files).leads.bind
    ((performs_printLine _ _ files).leads.bind (hfault.bind ?_)))
  exact (performs_printError _ _ _ files).leads.bind (.pure files _)

theorem leads_run_of_read {result : Except RunError Unit}
    (hread : FileSystem.read files options.input = .ok code)
    (h : Leads (assembleSource options code) files result after) :
    Leads (run options) files (if result.isOk then .success else .failure) after := by
  have hcode := (performs_readText options.input files).leads
  rw [hread] at hcode
  rw [run]
  refine (performs_printLine _ _ files).leads.bind ((performs_printLine _ _ files).leads.bind
    ((performs_printLine _ _ files).leads.bind (hcode.bind (h.bind ?_))))
  cases result with
  | error error => exact (performs_printError _ _ error after).leads.bind (.pure after _)
  | ok done => exact (performs_printStyled _ _ after).leads.bind (.pure after _)

/-- A run to write files goes one of the ways that it can go, with a listing or without one. -/
theorem exists_run (hfile : options.console = false) (files : F) :
    ∃ status after, FileRun options files status.code after ∧
      ∀ dump, Leads (run { options with dump }) files status after := by
  cases hread : FileSystem.read files options.input with
  | error fault => exact ⟨.failure, files, .unread hread, fun dump => leads_run_of_unread hread⟩
  | ok code =>
    obtain ⟨result, after, hrun, hinto⟩ := exists_assembleInto hread
    refine ⟨_, after, ?_, fun dump => leads_run_of_read hread
      (leads_assembleSource { options with dump } hfile (hinto dump))⟩
    cases result <;> exact hrun

end Run

/-! ### What follows for the exit code and the files -/

section Outcome
variable {F : Type} [FileSystem F] {options : Options} {files after : F} {status : UInt32}

theorem Exported.status_eq_zero_iff {table : SymbolTable}
    (h : Exported options table files status after) :
    status = 0 ↔ ∀ path ∈ options.symbols, ∃ after,
      FileSystem.write files path table.toYaml = .ok after := by
  cases h with
  | unasked hpath => simp [hpath]
  | written hpath hwrite => simp [hpath, hwrite]
  | failed hpath hwrite => simp [hpath, hwrite]

theorem FileRun.status_eq_zero_iff (h : FileRun options files status after) :
    status = 0 ↔ Succeeds options files := by
  cases h with
  | unread hread => simp [Succeeds, hread]
  | faulty hread hassemble => simp [Succeeds, hread, hassemble]
  | failed hread hassemble hwrite => simp [Succeeds, hread, hassemble, hwrite]
  | written hread hassemble htable hwrite hexport =>
    rw [hexport.status_eq_zero_iff]
    simp [Succeeds, hread, hassemble, htable, hwrite]

theorem lookup_write_of_ne {path text : String} {place : FileSystem.Place F}
    (h : FileSystem.write files path text = .ok after)
    (hplace : FileSystem.place files path ≠ .ok place) :
    FileSystem.lookup after place = FileSystem.lookup files place := by
  obtain ⟨target, htarget, -, hother⟩ := FileSystem.lookup_write h
  exact hother place fun heq => hplace (heq ▸ htarget)

theorem Exported.lookup_eq {table : SymbolTable} {place : FileSystem.Place F}
    (h : Exported options table files status after)
    (hsymbols : ∀ path ∈ options.symbols, FileSystem.place files path ≠ .ok place) :
    FileSystem.lookup after place = FileSystem.lookup files place := by
  cases h with
  | unasked => rfl
  | written hpath hwrite => exact lookup_write_of_ne hwrite (hsymbols _ hpath)
  | failed => rfl

theorem FileRun.lookup_eq {place : FileSystem.Place F} (h : FileRun options files status after)
    (hprogram : FileSystem.place files options.programPath ≠ .ok place)
    (hsymbols : ∀ path ∈ options.symbols, FileSystem.place files path ≠ .ok place) :
    FileSystem.lookup after place = FileSystem.lookup files place := by
  cases h with
  | unread => rfl
  | faulty => rfl
  | failed => rfl
  | written _ _ _ hwrite hexport =>
    have hbetween : ∀ path ∈ options.symbols, FileSystem.place _ path ≠ .ok place :=
      fun path hpath hplace =>
        hsymbols path hpath ((FileSystem.place_write hwrite path place).mp hplace)
    rw [hexport.lookup_eq hbetween, lookup_write_of_ne hwrite hprogram]

/-- The symbols are written last, so that they are there if they were written at all. -/
theorem FileRun.lookup_symbols (h : FileRun options files status after) (hstatus : status = 0)
    {path : String} (hpath : options.symbols = some path) :
    ∃ code table target, FileSystem.read files options.input = .ok code ∧
      symbols code = .ok table ∧ FileSystem.place files path = .ok target ∧
      FileSystem.lookup after target = some (.file table.toYaml.toUTF8) := by
  cases h with
  | unread => exact absurd hstatus (by decide)
  | faulty => exact absurd hstatus (by decide)
  | failed => exact absurd hstatus (by decide)
  | written hread _ htable hwrite hexport =>
    cases hexport with
    | unasked hnone => cases hnone.symm.trans hpath
    | failed => exact absurd hstatus (by decide)
    | written hsome hexported =>
      obtain rfl := Option.some.inj (hsome.symm.trans hpath)
      obtain ⟨target, htarget, hentry, -⟩ := FileSystem.lookup_write hexported
      exact ⟨_, _, target, hread, htable, (FileSystem.place_write hwrite _ target).mp htarget,
        hentry⟩

end Outcome

namespace Session

/-- A run to write files goes one of the ways that it can go, and comes to a zero if all could be
written. It changes nothing but the program and the symbols, of which the symbols are what remains
if both go to one place. A listing changes neither the exit code nor the files. -/
theorem execute_files {F : Type} [FileSystem F] (files : F) {arguments : List String}
    {options : Options} (h : Options.ofArguments arguments = some options)
    (hfile : options.console = false) :
    FileRun options files (execute files arguments).1.code (execute files arguments).2.store ∧
      ((execute files arguments).1.code = 0 ↔ Succeeds options files) ∧
      (∀ place, FileSystem.place files options.programPath ≠ .ok place →
        (∀ path ∈ options.symbols, FileSystem.place files path ≠ .ok place) →
        FileSystem.lookup (execute files arguments).2.store place =
          FileSystem.lookup files place) ∧
      (∀ path, options.symbols = some path → (execute files arguments).1.code = 0 →
        ∃ code table target, FileSystem.read files options.input = .ok code ∧
          symbols code = .ok table ∧ FileSystem.place files path = .ok target ∧
          FileSystem.lookup (execute files arguments).2.store target =
            some (.file table.toYaml.toUTF8)) ∧
      ∀ others dump, Options.ofArguments others = some { options with dump } →
        (execute files others).1 = (execute files arguments).1 ∧
          (execute files others).2.store = (execute files arguments).2.store := by
  obtain ⟨status, after, hrun, hleads⟩ := exists_run hfile files
  have hexecute (others : List String) (dump : Bool)
      (hothers : Options.ofArguments others = some { options with dump }) :
      (execute files others).1 = status ∧ (execute files others).2.store = after := by
    rw [execute, hothers]
    exact hleads dump (ofStore files) rfl
  obtain ⟨hstatus, hafter⟩ := hexecute arguments options.dump h
  rw [hstatus, hafter]
  exact ⟨hrun, hrun.status_eq_zero_iff, fun place => hrun.lookup_eq,
    fun path hpath hzero => hrun.lookup_symbols hzero hpath, hexecute⟩

def workFiles : Store :=
  ⟨[(["work"], .directory), (["work", "a.asm"], .file "@x".toUTF8)], ["work"]⟩

/-- A program and its symbols, with a listing and without one. -/
theorem execute_files_listed :
    Options.ofArguments ["-d", "-s", "a.yaml", "a.asm"] =
        some ⟨"a.asm", none, some "a.yaml", false, true⟩ ∧
      (execute workFiles ["-d", "-s", "a.yaml", "a.asm"]).1.code = 0 ∧
      FileRun ⟨"a.asm", none, some "a.yaml", false, true⟩ workFiles
        (execute workFiles ["-d", "-s", "a.yaml", "a.asm"]).1.code
        (execute workFiles ["-d", "-s", "a.yaml", "a.asm"]).2.store ∧
      (execute workFiles ["a.asm", "-sa.yaml"]).2.store =
        (execute workFiles ["-d", "-s", "a.yaml", "a.asm"]).2.store ∧
      Store.read (execute workFiles ["a.asm", "-sa.yaml"]).2.store "a.hack" =
        .ok "0000000000010000\n" ∧
      Store.read (execute workFiles ["a.asm", "-sa.yaml"]).2.store "a.yaml" =
        .ok "x:\n  kind: variable\n  addr: 16\n" := by
  have h : Options.ofArguments ["-d", "-s", "a.yaml", "a.asm"] =
      some ⟨"a.asm", none, some "a.yaml", false, true⟩ := by
    decide +kernel
  have hothers : Options.ofArguments ["a.asm", "-sa.yaml"] =
      some ⟨"a.asm", none, some "a.yaml", false, false⟩ := by
    decide +kernel
  obtain ⟨hrun, -, -, -, hdump⟩ := execute_files workFiles h rfl
  exact ⟨h, by decide +kernel, hrun, (hdump _ false hothers).2, by decide +kernel,
    by decide +kernel⟩

end Session

end HackAssembler.CommandLine
