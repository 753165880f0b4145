import HackAssembler.Proofs.LexicalSoundness
import HackAssembler.Proofs.Pieces
import HackAssembler.Source.Line
import Mathlib.Data.List.Forall2

/-! # The lines of a source

A source that can be read is the lexemes of its lines, one line for each piece between its
newlines. If it cannot be read, one of its lines ends in the fault. -/
namespace HackAssembler.Source

open Text

def lexemeLines (tokens : List Token) : List (List Lexeme) :=
  ((tokens.map (·.lexeme)).filter (· ≠ .endOfInput)).splitOn .newline

namespace Line

def lexemes (line : Line) : List Lexeme :=
  line.tokens.map (·.lexeme)

theorem prepend_cons (head : Token) (seen : List Token) (line : Line) :
    prepend (head :: seen) line = prepend seen (.token head line) := rfl

theorem tokens_prepend (seen : List Token) (line : Line) :
    (prepend seen line).tokens = seen.reverse ++ line.tokens := by
  induction seen generalizing line with
  | nil => rfl
  | cons head seen ih => simp [prepend_cons, ih, tokens]

theorem fault?_prepend (seen : List Token) (line : Line) :
    (prepend seen line).fault? = line.fault? := by
  induction seen generalizing line with
  | nil => rfl
  | cons head seen ih => rw [prepend_cons, ih, fault?]

section Cut
variable (broken : Option LexError)

theorem cut_go_eq (done : List Line) (seen tokens : List Token) :
    cut.go broken done seen tokens = done.reverse ++ cut.go broken [] seen tokens := by
  induction tokens generalizing done seen with
  | nil => cases broken <;> simp [cut.go]
  | cons head rest ih =>
    rw [cut.go, cut.go]
    split
    · rw [ih, ih [_]]
      simp
    · exact ih done seen
    · exact ih done (head :: seen)

theorem cut_go_append (seen : List Token) {tokens : List Token}
    (h : ∀ token ∈ tokens, token.lexeme ≠ .newline ∧ token.lexeme ≠ .endOfInput)
    (rest : List Token) :
    cut.go broken [] seen (tokens ++ rest) = cut.go broken [] (tokens.reverse ++ seen) rest := by
  induction tokens generalizing seen with
  | nil => rfl
  | cons head tokens ih =>
    obtain ⟨hhead, htokens⟩ := List.forall_mem_cons.mp h
    rw [List.cons_append, cut.go, List.reverse_cons, List.append_assoc]
    split
    · next heq => exact absurd heq hhead.1
    · next heq => exact absurd heq hhead.2
    · exact ih (head :: seen) htokens

theorem cut_newline {tokens : List Token}
    (h : ∀ token ∈ tokens, token.lexeme ≠ .newline ∧ token.lexeme ≠ .endOfInput) (pos : Nat)
    (rest : List Token) :
    cut (tokens ++ ⟨.newline, pos⟩ :: rest) broken =
      prepend tokens.reverse (.newline pos) :: cut rest broken := by
  rw [cut, cut_go_append broken [] h, cut.go, cut_go_eq, List.append_nil]
  rfl

theorem fault_mem_cut (tokens : List Token) (error : LexError) :
    ∃ line ∈ cut tokens (some error), line.fault? = some error := by
  rw [cut]
  generalize ([] : List Token) = seen
  generalize hdone : ([] : List Line) = done
  clear hdone
  induction tokens generalizing done seen with
  | nil => exact ⟨prepend seen (.fault error), by simp [cut.go], by simp [fault?_prepend, fault?]⟩
  | cons head rest ih =>
    rw [cut.go]
    split <;> exact ih _ _

end Cut

end Line

namespace Cursor

/-- Lines either all read by the rules, or hold the fault that the lexer stops at. -/
theorem reads_or_run_error {lines : List (List Char)} (hlines : ∀ line ∈ lines, '\n' ∉ line)
    (pos : Nat) :
    (∃ read, List.Forall₂ Reads lines read) ∨
      ∃ tokens error, Run ⟨unlines lines, pos, false⟩ tokens (.error error) := by
  induction lines generalizing pos with
  | nil => exact .inl ⟨[], .nil⟩
  | cons line lines ih =>
    obtain ⟨hline, hlines⟩ := List.forall_mem_cons.mp hlines
    rw [unlines_cons]
    obtain ⟨tokens, error | last, hrun⟩ := exists_run ⟨line, pos, false⟩
    · exact .inr ⟨tokens, _, hrun.extend_of_error (unlines lines)⟩
    · rcases ih hlines (last + 1) with ⟨read, hread⟩ | ⟨tokens', error, hrun'⟩
      · exact .inl ⟨_, .cons ((reads_of_run hrun hline).1 rfl) hread⟩
      · exact .inr ⟨_, error, hrun.extend_of_ok hrun'⟩

/-- The tokens of lines that read by the rules, as a whole and cut into lines. -/
theorem run_of_forall₂_reads {lines : List (List Char)} {read : List (List Lexeme)}
    (h : List.Forall₂ Reads lines read) (pos : Nat) :
    ∃ tokens last, Run ⟨unlines lines, pos, false⟩ tokens (.ok last) ∧
      (tokens.map (·.lexeme)).splitOn .newline = read ++ [[]] ∧
      (∀ token ∈ tokens, token.lexeme ≠ .endOfInput) ∧
      (Line.cut (tokens ++ [⟨.endOfInput, last⟩]) none).map Line.lexemes = read ∧
      ∀ line ∈ Line.cut (tokens ++ [⟨.endOfInput, last⟩]) none, line.fault? = none := by
  induction h generalizing pos with
  | nil => exact ⟨[], pos, .done (next_nil pos), rfl, by simp, rfl, by simp [Line.cut, Line.cut.go]⟩
  | @cons line read lines _ hline _ ih =>
    obtain ⟨head, last, hhead, hlexemes⟩ := run_of_reads hline pos
    obtain ⟨tokens, last', hrun, hsplit, hend, hcut, hfault⟩ := ih (last + 1)
    have hne : ∀ token ∈ head, token.lexeme ≠ .newline ∧ token.lexeme ≠ .endOfInput :=
      fun token htoken => hline.ne _ (hlexemes ▸ List.mem_map_of_mem htoken)
    refine ⟨head ++ ⟨.newline, last⟩ :: tokens, last', ?_, ?_, ?_, ?_, ?_⟩
    · rw [unlines_cons]
      exact hhead.extend_of_ok hrun
    · rw [List.map_append, List.map_cons, hlexemes,
        List.splitOn_append_cons_self_of_not_mem (fun h => (hline.ne _ h).1 rfl), hsplit,
        List.cons_append]
    · simp only [List.mem_append, List.mem_cons]
      rintro token (htoken | rfl | htoken)
      · exact (hne token htoken).2
      · simp
      · exact hend token htoken
    · rw [List.append_assoc, List.cons_append, Line.cut_newline none hne, List.map_cons, hcut,
        Line.lexemes, Line.tokens_prepend, List.reverse_reverse, Line.tokens, List.append_nil,
        hlexemes]
    · rw [List.append_assoc, List.cons_append, Line.cut_newline none hne, List.forall_mem_cons]
      exact ⟨Line.fault?_prepend _ _, hfault⟩

end Cursor

theorem lines_of_reads {code : String} {read : List (List Lexeme)}
    (h : List.Forall₂ Reads (pieces code.toList) read) :
    (∃ tokens, (Lexer.ofString code).tokens = .ok tokens ∧ lexemeLines tokens = read ++ [[]]) ∧
      (Line.ofSource code).map Line.lexemes = read ∧
      ∀ line ∈ Line.ofSource code, line.fault? = none := by
  obtain ⟨tokens, last, hrun, hsplit, hend, hcut, hfault⟩ := Cursor.run_of_forall₂_reads h 0
  rw [unlines_pieces] at hrun
  have hscan := hrun.scan_eq
  simp only [Line.ofSource, Lexer.ofString, Lexer.tokens, Lexer.start, hscan]
  refine ⟨⟨_, rfl, ?_⟩, hcut, hfault⟩
  have hfilter : (tokens.map (·.lexeme)).filter (· ≠ .endOfInput) = tokens.map (·.lexeme) := by
    simpa using hend
  rw [lexemeLines, List.map_append, List.filter_append, hfilter]
  simpa using hsplit

/-- A source that cannot be read has a line that ends in the fault. -/
theorem fault_of_not_reads {code : String}
    (h : ¬∃ read, List.Forall₂ Reads (pieces code.toList) read) :
    ∃ error, (Lexer.ofString code).tokens = .error error ∧
      ∃ line ∈ Line.ofSource code, line.fault? = some error := by
  obtain ⟨tokens, error, hrun⟩ :=
    (Cursor.reads_or_run_error (fun _ => not_mem_of_mem_pieces) 0).resolve_left h
  rw [unlines_pieces] at hrun
  have hscan := hrun.scan_eq
  simp only [Line.ofSource, Lexer.ofString, Lexer.tokens, Lexer.start, hscan]
  exact ⟨error, rfl, Line.fault_mem_cut tokens error⟩

theorem exists_reads_of_tokens {code : String} {tokens : List Token}
    (h : (Lexer.ofString code).tokens = .ok tokens) :
    ∃ read, List.Forall₂ Reads (pieces code.toList) read := by
  by_contra hnot
  obtain ⟨error, herror, _⟩ := fault_of_not_reads hnot
  rw [herror] at h
  cases h

theorem exists_reads_of_lines {code : String}
    (h : ∀ line ∈ Line.ofSource code, line.fault? = none) :
    ∃ read, List.Forall₂ Reads (pieces code.toList) read := by
  by_contra hnot
  obtain ⟨error, _, line, hline, herror⟩ := fault_of_not_reads hnot
  rw [h line hline] at herror
  cases herror

end HackAssembler.Source
