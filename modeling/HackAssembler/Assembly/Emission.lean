import HackAssembler.Assembly.Labels
import HackAssembler.Assembly.Statement

/-! # Emission

The second reading of a source turns each instruction line into a word. What it makes of a
source is the words, up to the first error, and either that error or the final table. -/
namespace HackAssembler.Assembly

open Source

structure Emission where
  words : Array Word
  outcome : Except Error SymbolTable

/-- The words of some lines, behind the words of the lines before them. The word of a line is
emitted before the end of the line is looked at. -/
def emit (table : SymbolTable) (words : Array Word) : List Line → Emission
  | [] => ⟨words, .ok table⟩
  | line :: rest =>
    match Statement.ofLine line with
    | .error error => ⟨words, .error error⟩
    | .ok none => emit table words rest
    | .ok (some (statement, after)) =>
      match statement.resolve table with
      | .error error => ⟨words, .error error⟩
      | .ok (instruction, table) =>
        match requireNewline after with
        | .error error => ⟨words.push instruction.encode, .error error⟩
        | .ok () => emit table (words.push instruction.encode) rest

/-- Both readings of a source. Nothing is emitted if the first one fails. -/
def Emission.ofSource (code : String) : Emission :=
  let lines := Line.ofSource code
  match bindLabels SymbolTable.initial 0 lines with
  | .error error => ⟨#[], .error error⟩
  | .ok table => emit table.restartVariables #[] lines

/-- One line for each word. -/
def binary (words : Array Word) : String :=
  words.foldl (fun text word => text ++ word.text ++ "\n") ""

/-- The binary of a source that has no errors. -/
def assemble (code : String) : Except Error String :=
  let emission := Emission.ofSource code
  emission.outcome.map fun _ => binary emission.words

/-- The symbols of a source that has no errors. -/
def symbols (code : String) : Except Error SymbolTable :=
  (Emission.ofSource code).outcome

end HackAssembler.Assembly
