import HackAssembler.CommandLine.Session
import Mathlib.Data.List.Basic

/-! # Transcripts

What a computation prints, next to its result and the files that it leaves. The steps of a run print
whole lines, and a run prints the lines of its steps one after the other. -/
namespace HackAssembler

/-- What lines on one stream are on another: nothing, unless it is the same one. -/
def Stream.part : Stream → Stream → List String → List String
  | .stdout, .stdout, lines | .stderr, .stderr, lines => lines
  | _, _, _ => []

theorem Stream.part_cons (stream other : Stream) (line : String) (lines : List String) :
    stream.part other (line :: lines) = stream.part other [line] ++ stream.part other lines := by
  cases stream <;> cases other <;> rfl

namespace CommandLine

open Assembly Output Report Text

def lineText (lines : List String) : String :=
  String.join (lines.map (· ++ "\n"))

@[simp] theorem lineText_nil : lineText [] = "" := rfl

@[simp] theorem lineText_singleton (line : String) : lineText [line] = line ++ "\n" := by
  simp [lineText, String.join]

theorem lineText_cons (line : String) (lines : List String) :
    lineText (line :: lines) = line ++ "\n" ++ lineText lines := by
  simp [lineText, String.join_cons]

@[simp] theorem lineText_append (first second : List String) :
    lineText (first ++ second) = lineText first ++ lineText second := by
  rw [lineText, List.map_append, String.join_append]
  rfl

def RunError.report (options : Options) (code : String) (error : RunError) : List String :=
  let place := error.pos?.map (locate code)
  (Diagnostic.lines ⟨.error, error.message, options.input, place⟩).map Styled.render

section Performs
variable {F : Type} {α β : Type}

/-- From any session with the files `files`, whatever it has printed, a computation comes to
`result`, leaves the files `after` and prints these lines on the two streams. -/
def Performs (x : StateM (Session F) α) (files : F) (result : α) (after : F)
    (out err : List String) : Prop :=
  ∀ session : Session F, session.store = files →
    x.run session =
      (result, ⟨after, session.stdout ++ lineText out, session.stderr ++ lineText err⟩)

variable {files between after : F} {out err out' err' : List String}

theorem Performs.of_eq {x : StateM (Session F) α} {result : α}
    (h : Performs x files result after out err) (hout : out = out') (herr : err = err') :
    Performs x files result after out' err' := by
  rwa [← hout, ← herr]

theorem Performs.pure (files : F) (result : α) :
    Performs (pure result : StateM (Session F) α) files result files [] [] := by
  rintro session rfl
  rw [lineText_nil, String.append_empty, String.append_empty]
  rfl

theorem Performs.bind {x : StateM (Session F) α} {next : α → StateM (Session F) β} {value : α}
    {result : β} (h : Performs x files value between out err)
    (hnext : Performs (next value) between result after out' err') :
    Performs (x >>= next) files result after (out ++ out') (err ++ err') := by
  intro session hfiles
  rw [StateT.run_bind, h session hfiles]
  exact (hnext ⟨between, _, _⟩ rfl).trans (by simp [String.append_assoc])

theorem performs_printLine (stream : Stream) (line : String) (files : F) :
    Performs (stream.printLine line) files () files (stream.part .stdout [line])
      (stream.part .stderr [line]) := by
  rintro session rfl
  cases stream <;> simp [Stream.part, Stream.printLine, Terminal.print, Session.print] <;> rfl

theorem performs_printStyled (stream : Stream) (lines : List Styled) (files : F) :
    Performs (printStyled stream lines) files () files
      (stream.part .stdout (lines.map Styled.render))
      (stream.part .stderr (lines.map Styled.render)) := by
  induction lines with
  | nil => exact (Performs.pure files ()).of_eq (by cases stream <;> rfl) (by cases stream <;> rfl)
  | cons line lines ih =>
    have hstep : Performs (printStyled stream (line :: lines)) files () files _ _ :=
      (performs_printLine stream line.render files).bind ih
    exact hstep.of_eq (stream.part_cons _ _ _).symm (stream.part_cons _ _ _).symm

theorem performs_printDiagnostic (diagnostic : Diagnostic) (files : F) :
    Performs (printDiagnostic diagnostic) files () files []
      (diagnostic.lines.map Styled.render) :=
  performs_printStyled .stderr _ files

theorem performs_printError (options : Options) (code : String) (error : RunError) (files : F) :
    Performs (printError options code error) files () files [] (error.report options code) :=
  performs_printDiagnostic _ files

variable [FileSystem F] {path text : String}

theorem performs_readText (path : String) (files : F) :
    Performs (FileAccess.readText path) files (FileSystem.read files path) files [] [] := by
  rintro session rfl
  rw [lineText_nil, String.append_empty, String.append_empty]
  rfl

theorem run_writeText (path text : String) (session : Session F) :
    (FileAccess.writeText path text : StateM (Session F) (Except FileFault Unit)).run session =
      match FileSystem.write session.store path text with
      | .ok store => (.ok (), { session with store })
      | .error fault => (.error fault, session) := by
  simp only [FileAccess.writeText, StateT.run_bind, StateT.run_get, pure_bind]
  cases FileSystem.write session.store path text <;> rfl

theorem performs_writeText_ok (h : FileSystem.write files path text = .ok after) :
    Performs (FileAccess.writeText path text) files (.ok ()) after [] [] := by
  rintro session rfl
  rw [run_writeText, h]
  simp

theorem performs_writeText_error {fault : FileFault}
    (h : FileSystem.write files path text = .error fault) :
    Performs (FileAccess.writeText path text) files (.error fault) files [] [] := by
  rintro session rfl
  rw [run_writeText, h]
  simp

end Performs

end CommandLine

end HackAssembler
