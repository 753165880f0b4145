import HackAssembler.Proofs.LineByLine
import HackAssembler.Proofs.Program

/-! # The program of a source

Each piece of a source is lexed by itself. A piece that can be read gives the lexemes of its line,
and all pieces together give the program of the source. -/
namespace HackAssembler.Assembly

open Source Instruction Text

/-- The lexemes of a piece, unless the lexer stops at a fault in it. -/
def lexemesOf? (text : List Char) : Option (List Lexeme) :=
  match (Lexer.start text).scan with
  | (tokens, none) => some ((tokens.map (·.lexeme)).filter (· ≠ .endOfInput))
  | (_, some _) => none

def programOf (code : String) : Program :=
  (pieces code.toList).map fun text => (lexemesOf? text).getD []

section Text
variable {text : List Char} {start : Nat} {line : Line}

theorem lexemesOf?_eq_some_iff (htext : '\n' ∉ text) {lexemes : List Lexeme} :
    lexemesOf? text = some lexemes ↔ Reads text lexemes := by
  obtain ⟨tokens, outcome, hrun⟩ := Cursor.exists_run ⟨text, 0, false⟩
  have hfilter : (tokens.map (·.lexeme)).filter (· ≠ .endOfInput) = tokens.map (·.lexeme) := by
    rw [List.filter_eq_self, List.forall_mem_map]
    exact fun token htoken => by simpa using (hrun.ne htext token htoken).2
  rw [lexemesOf?, Lexer.start, hrun.scan_eq]
  constructor
  · intro h
    cases outcome with
    | error error => cases h
    | ok last =>
      have hreads := (Cursor.reads_of_run hrun htext).1 rfl
      simp only [List.map_append, List.filter_append, hfilter] at h
      simpa [← Option.some.inj h] using hreads
  · intro h
    obtain ⟨tokens', last, hrun', rfl⟩ := Cursor.run_of_reads h 0
    obtain ⟨rfl, rfl⟩ := hrun.unique hrun'
    simp only [List.map_append, List.filter_append, hfilter]
    simp

theorem lexemesOf?_of_fault (h : Line.OfText start text line) (htext : '\n' ∉ text)
    (hfault : line.fault? ≠ none) : lexemesOf? text = none := by
  rw [Option.eq_none_iff_forall_ne_some]
  intro lexemes hlexemes
  exact hfault (h.of_reads ((lexemesOf?_eq_some_iff htext).mp hlexemes)).1

theorem lexemesOf?_of_no_fault (h : Line.OfText start text line) (htext : '\n' ∉ text)
    (hfault : line.fault? = none) : lexemesOf? text = some line.lexemes :=
  (lexemesOf?_eq_some_iff htext).mpr (h.reads htext hfault)

end Text

theorem map_lexemesOf? {texts : List (List Char)} {program : Program}
    (h : List.Forall₂ Reads texts program) (htexts : ∀ text ∈ texts, '\n' ∉ text) :
    texts.map (fun text => (lexemesOf? text).getD []) = program := by
  induction h with
  | nil => rfl
  | cons hline _ ih =>
    obtain ⟨htext, htexts⟩ := List.forall_mem_cons.mp htexts
    rw [List.map_cons, ih htexts, (lexemesOf?_eq_some_iff htext).mpr hline]
    rfl

theorem programOf_eq {code : String} {program : Program}
    (h : List.Forall₂ Reads (pieces code.toList) program) : programOf code = program :=
  map_lexemesOf? h (@not_mem_of_mem_pieces code.toList)

/-! ### Lists that go together -/

theorem forall₂_append_inv {α β : Type} {R : α → β → Prop} {first second : List α} {image : List β}
    (h : List.Forall₂ R (first ++ second) image) :
    ∃ front back, image = front ++ back ∧ List.Forall₂ R first front ∧
      List.Forall₂ R second back :=
  ⟨image.take first.length, image.drop first.length, (List.take_append_drop _ _).symm,
    (List.forall₂_take_append _ _ _ h.flip).flip, (List.forall₂_drop_append _ _ _ h.flip).flip⟩

theorem exists_split_of_forall₂ {α β : Type} {R : α → β → Prop} {first second : List α} {x : α}
    {ys : List β} (h : List.Forall₂ R (first ++ x :: second) ys) :
    ∃ first' y second', ys = first' ++ y :: second' ∧ List.Forall₂ R first first' ∧ R x y ∧
      List.Forall₂ R second second' := by
  obtain ⟨first', _, rfl, hfirst, hrest⟩ := forall₂_append_inv h
  cases hrest with
  | cons hx hsecond => exact ⟨first', _, _, rfl, hfirst, hx, hsecond⟩

end HackAssembler.Assembly
