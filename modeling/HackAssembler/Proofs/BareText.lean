import HackAssembler.Proofs.LexicalGrammar

/-! # Lines without blanks and comments

What is left of a line when its comment and its blanks are taken away is the writing of its
lexemes, one after the other. -/
namespace HackAssembler.Source

open Text

/-- A line without its comment and its blanks. -/
def bare : List Char → List Char
  | [] => []
  | '/' :: '/' :: _ => []
  | c :: rest => if isBlank c then bare rest else c :: bare rest

def Lexeme.written : Lexeme → List Char
  | endOfInput => []
  | newline => ['\n']
  | atSign => ['@']
  | openParen => ['(']
  | closeParen => [')']
  | equal => ['=']
  | semicolon => [';']
  | symbol name => name.toList
  | number digits => digits.toList
  | fragment word => word.toList

/-- A character that neither is a blank nor can begin a comment. -/
structure IsSolid (c : Char) : Prop where
  not_blank : isBlank c = false
  not_slash : c ≠ '/'

theorem bare_cons {c : Char} {rest : List Char} (hblank : isBlank c = false)
    (hcomment : ¬(c = '/' ∧ rest.head? = some '/')) : bare (c :: rest) = c :: bare rest := by
  rw [bare, if_neg (by simp [hblank])]
  rintro tail rfl rfl
  exact hcomment ⟨rfl, rfl⟩

theorem bare_blank {c : Char} (hblank : isBlank c = true) (rest : List Char) :
    bare (c :: rest) = bare rest := by
  have hslash : c ≠ '/' := by
    rintro rfl
    cases hblank
  rw [bare, if_pos hblank]
  rintro rest rfl
  exact absurd rfl hslash

theorem bare_append {word : List Char} (h : ∀ c ∈ word, IsSolid c) (rest : List Char) :
    bare (word ++ rest) = word ++ bare rest := by
  induction word with
  | nil => rfl
  | cons c word ih =>
    obtain ⟨hc, hword⟩ := List.forall_mem_cons.mp h
    rw [List.cons_append, bare_cons hc.not_blank fun hcomment => hc.not_slash hcomment.1, ih hword]
    rfl

theorem bare_written {lexeme : Lexeme} (h : ∀ c ∈ lexeme.written, IsSolid c) {word : List Char}
    (hword : lexeme.written = word) (rest : List Char) :
    bare (word ++ rest) = lexeme.written ++ bare rest := by
  subst hword
  exact bare_append h rest

theorem written_of_punctuation? {c : Char} {lexeme : Lexeme} (h : punctuation? c = some lexeme) :
    lexeme.written = [c] := by
  unfold punctuation? at h
  split at h <;> cases h <;> rfl

/-- The lexemes of a line make up its bare text, if none of them holds blanks or slashes. -/
theorem bare_of_reads {text : List Char} {line : List Lexeme} (h : Reads text line)
    (hsolid : ∀ lexeme ∈ line, ∀ c ∈ lexeme.written, IsSolid c) :
    bare text = line.flatMap Lexeme.written := by
  have hsign : Lexeme.written .atSign = ['@'] := rfl
  induction h with
  | nil => rfl
  | blank hblank _ ih =>
    rw [isInlineBlank, Bool.and_eq_true] at hblank
    rw [bare_blank hblank.2, ih hsolid]
  | comment => rfl
  | @number digits rest _ _ _ _ _ ih =>
    simp only [List.forall_mem_cons] at hsolid
    obtain ⟨hat, hdigits, hline⟩ := hsolid
    rw [← List.singleton_append, bare_written hat hsign, bare_written hdigits String.toList_ofList,
      ih hline, List.flatMap_cons, List.flatMap_cons]
  | @operand first name rest _ _ _ _ _ ih =>
    simp only [List.forall_mem_cons] at hsolid
    obtain ⟨hat, hname, hline⟩ := hsolid
    rw [← List.singleton_append, bare_written hat hsign, bare_written hname String.toList_ofList,
      ih hline, List.flatMap_cons, List.flatMap_cons]
  | punctuation _ hc _ ih =>
    obtain ⟨hlexeme, hline⟩ := List.forall_mem_cons.mp hsolid
    rw [← List.singleton_append, bare_written hlexeme (written_of_punctuation? hc), ih hline,
      List.flatMap_cons]
  | name _ _ _ _ ih =>
    obtain ⟨hlexeme, hline⟩ := List.forall_mem_cons.mp hsolid
    rw [← List.cons_append, bare_written hlexeme String.toList_ofList, ih hline, List.flatMap_cons]
  | fragment _ _ _ _ ih =>
    obtain ⟨hlexeme, hline⟩ := List.forall_mem_cons.mp hsolid
    rw [← List.cons_append, bare_written hlexeme String.toList_ofList, ih hline, List.flatMap_cons]

theorem eq_openParen_iff_of_punctuation? {c : Char} {lexeme : Lexeme}
    (h : punctuation? c = some lexeme) : c = '(' ↔ lexeme = .openParen := by
  unfold punctuation? at h
  split at h <;> cases h <;> simp

/-- A line has a bare text if it has lexemes, and that tells whether a parenthesis opens it. -/
theorem head_bare_of_reads {text : List Char} {line : List Lexeme} (h : Reads text line) :
    (line = [] ∧ bare text = []) ∨
      ∃ first rest c, line = first :: rest ∧ (bare text).head? = some c ∧
        (c = '(' ↔ first = .openParen) := by
  have hword {first : Char} {rest : List Char} (hstart : StartsWord first rest) :
      (bare (first :: rest)).head? = some first ∧ first ≠ '(' := by
    rw [bare_cons hstart.not_blank hstart.not_comment]
    refine ⟨rfl, ?_⟩
    rintro rfl
    cases hstart.not_punctuation
  induction h with
  | nil => exact .inl ⟨rfl, rfl⟩
  | blank hblank _ ih =>
    rw [isInlineBlank, Bool.and_eq_true] at hblank
    rwa [bare_blank hblank.2]
  | comment => exact .inl ⟨rfl, rfl⟩
  | number =>
    refine .inr ⟨_, _, '@', rfl, ?_, by simp⟩
    rw [bare_cons rfl (by simp)]
    rfl
  | operand =>
    refine .inr ⟨_, _, '@', rfl, ?_, by simp⟩
    rw [bare_cons rfl (by simp)]
    rfl
  | @punctuation c _ _ _ hline hc _ _ =>
    have hsolid : isBlank c = false ∧ c ≠ '/' := by
      unfold punctuation? at hc
      split at hc <;> simp_all <;> decide
    refine .inr ⟨_, _, c, rfl, ?_, eq_openParen_iff_of_punctuation? hc⟩
    rw [bare_cons hsolid.1 (by simp [hsolid.2])]
    rfl
  | name hstart =>
    obtain ⟨hhead, hne⟩ := hword hstart
    exact .inr ⟨_, _, _, rfl, hhead, by simpa using hne⟩
  | fragment hstart =>
    obtain ⟨hhead, hne⟩ := hword hstart
    exact .inr ⟨_, _, _, rfl, hhead, by simpa using hne⟩

end HackAssembler.Source
