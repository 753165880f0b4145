import HackAssembler.Text.Line
import HackAssembler.Text.Numeral
import HackAssembler.Text.Styled

/-! # Diagnostics

A message about a file, with the line it is about and a mark under the column. -/
namespace HackAssembler.Report

open Text

inductive Severity
  | error
  | warning
  deriving DecidableEq

def Severity.heading : Severity → Span
  | error => .strong .red "error"
  | warning => .strong .yellow "warn"

structure Diagnostic where
  severity : Severity
  message : String
  file : String
  location : Option Location
  deriving DecidableEq

namespace Diagnostic

/-- The file, with line and column counted from one. -/
def place (diagnostic : Diagnostic) : String :=
  match diagnostic.location with
  | none => diagnostic.file
  | some location => s!"{diagnostic.file}:{location.line + 1}:{location.column + 1}"

/-- The line itself, between an empty line and the mark. -/
def excerpt (location : Location) : List Styled :=
  let blanks := String.ofList (List.replicate location.column ' ')
  [[.plain "      ", .colored .blue "|"],
    [.plain " ", .colored .blue (rightAligned 4 (location.line + 1) ++ " |"),
      .plain (" " ++ location.text)],
    [.plain "      ", .colored .blue "|", .plain (" " ++ blanks), .strong .red "^"]]

def lines (diagnostic : Diagnostic) : List Styled :=
  [diagnostic.severity.heading, .plain (": " ++ diagnostic.message)] ::
    [.plain "     ", .colored .blue "-->", .plain " ", .underlined diagnostic.place] ::
    diagnostic.location.elim [] excerpt

end Diagnostic

end HackAssembler.Report
