import HackAssembler.Source.Lexer

/-! # Runs of the lexer, line by line

A run of the lexer reads tokens up to the end of the input or to a fault. No token, gap or
lookahead crosses a newline: what is read in front of a newline is what is read where the input
ends, with a newline token for the end of the input. -/
namespace HackAssembler.Text

/-- A way to stop that stops at newlines and sees nothing of what stands behind one. -/
structure StopsAtNewline (stop : Char → List Char → Bool) : Prop where
  newline : ∀ rest, stop '\n' rest = true
  ahead : ∀ c rest behind, stop c (rest ++ '\n' :: behind) = stop c rest

theorem splitBefore_newline {stop : Char → List Char → Bool} (hstop : StopsAtNewline stop)
    (text behind : List Char) :
    splitBefore stop (text ++ '\n' :: behind) =
      ((splitBefore stop text).1, (splitBefore stop text).2 ++ '\n' :: behind) := by
  induction text with
  | nil => simp [splitBefore_cons, hstop.newline]
  | cons c rest ih =>
    rw [List.cons_append, splitBefore_cons, splitBefore_cons, hstop.ahead, ih]
    split <;> rfl

end HackAssembler.Text

namespace HackAssembler.Source

open Text

theorem ne_endOfInput_of_punctuation? {c : Char} {lexeme : Lexeme}
    (h : punctuation? c = some lexeme) : lexeme ≠ .endOfInput := by
  rintro rfl
  unfold punctuation? at h
  split at h <;> simp at h

theorem atBoundary_newline (rest behind : List Char) :
    atBoundary (rest ++ '\n' :: behind) = atBoundary rest := by
  cases rest <;> rfl

theorem endsWord_stopsAtNewline : StopsAtNewline endsWord where
  newline _ := by simp [endsWord, isBlank_newline]
  ahead c rest behind := by simp only [endsWord, atBoundary_newline]

theorem stopsAtNewline_of_char (stop : Char → Bool) (h : stop '\n' = true) :
    StopsAtNewline fun c _ => stop c where
  newline _ := h
  ahead _ _ _ := rfl

namespace Cursor

theorem readOperand_lexeme {cursor after : Cursor} {token : Token}
    (h : cursor.readOperand = (.ok token, after)) :
    ∃ word, token.lexeme = .number word ∨ token.lexeme = .symbol word := by
  have hfinish {lexeme : String → Lexeme} {read : List Char × Cursor}
      (h : readOperand.finish cursor lexeme read = (.ok token, after)) :
      ∃ word, token.lexeme = lexeme word := by
    unfold readOperand.finish at h
    dsimp only at h
    split at h
    · cases h
      exact ⟨_, rfl⟩
    · cases h
  unfold readOperand at h
  split at h
  · cases h
  · split at h
    · exact (hfinish h).imp fun word => .inl
    · split at h
      · exact (hfinish h).imp fun word => .inr
      · cases h

theorem readWord_lexeme {first : Char} {rest : List Char} {pos : Nat} {after : Cursor}
    {token : Token} (h : readWord first rest pos = (.ok token, after)) :
    ∃ word, token.lexeme = .symbol word ∨ token.lexeme = .fragment word := by
  unfold readWord at h
  dsimp only at h
  split at h
  · split at h
    · cases h
      exact ⟨_, .inl rfl⟩
    · cases h
  · cases h
    exact ⟨_, .inr rfl⟩

/-- The tokens that can be read from a cursor, and either the place where the input ends or the
fault that keeps the rest from being read. -/
inductive Run : Cursor → List Token → Except LexError Nat → Prop
  | done {cursor after : Cursor} {pos : Nat}
      (hnext : cursor.next = (.ok ⟨.endOfInput, pos⟩, after)) : Run cursor [] (.ok pos)
  | fault {cursor after : Cursor} {error : LexError} (hnext : cursor.next = (.error error, after)) :
      Run cursor [] (.error error)
  | token {cursor after : Cursor} {token : Token} {tokens : List Token}
      {outcome : Except LexError Nat} (hnext : cursor.next = (.ok token, after))
      (hend : token.lexeme ≠ .endOfInput) (hrest : Run after tokens outcome) :
      Run cursor (token :: tokens) outcome

theorem exists_run (cursor : Cursor) : ∃ tokens outcome, Run cursor tokens outcome := by
  induction hn : cursor.rest.length using Nat.strongRecOn generalizing cursor with
  | ind n ih =>
    subst hn
    rcases hnext : cursor.next with ⟨error | ⟨lexeme, pos⟩, after⟩
    · exact ⟨[], .error error, .fault hnext⟩
    · by_cases hend : lexeme = .endOfInput
      · subst hend
        exact ⟨[], .ok pos, .done hnext⟩
      · obtain ⟨tokens, outcome, hrun⟩ := ih _ (next_rest_length hnext hend) after rfl
        exact ⟨_, outcome, .token hnext hend hrun⟩

theorem Run.scan_eq {cursor : Cursor} {tokens : List Token} {outcome : Except LexError Nat}
    (h : Run cursor tokens outcome) :
    cursor.scan =
      match outcome with
      | .ok pos => (tokens ++ [⟨.endOfInput, pos⟩], none)
      | .error error => (tokens, some error) := by
  induction h with
  | done hnext => exact scan_of_end hnext
  | fault hnext => exact scan_of_error hnext
  | @token _ _ _ _ outcome hnext hend _ ih =>
    rw [scan_of_token hnext hend, ih]
    cases outcome <;> rfl

/-- The cursor in a longer text, which goes on behind a newline. -/
def extend (cursor : Cursor) (behind : List Char) : Cursor :=
  { cursor with rest := cursor.rest ++ '\n' :: behind }

def beforeNewline (behind : List Char) :
    Except LexError Token × Cursor → Except LexError Token × Cursor
  | (.error error, after) =>
    (.error { error with found := error.found.or (some '\n') }, after.extend behind)
  | (.ok token, after) =>
    if token.lexeme = .endOfInput then (.ok ⟨.newline, token.pos⟩, ⟨behind, token.pos + 1, false⟩)
    else (.ok token, after.extend behind)

variable (cursor : Cursor) (behind : List Char)

theorem readUntil_extend {stop : Char → List Char → Bool} (hstop : StopsAtNewline stop) :
    (cursor.extend behind).readUntil stop =
      ((cursor.readUntil stop).1, (cursor.readUntil stop).2.extend behind) := by
  simp only [readUntil, extend, splitBefore_newline hstop]

theorem skipComment_extend :
    (cursor.extend behind).skipComment = cursor.skipComment.extend behind := by
  have hread := readUntil_extend cursor behind (stopsAtNewline_of_char (· == '\n') rfl)
  rcases cursor with ⟨_ | ⟨c, _ | ⟨d, rest⟩⟩, pos, operandNext⟩
  · rfl
  · by_cases h : c = '/' <;> simp [skipComment, extend, h]
  · by_cases h : c = '/' ∧ d = '/'
    · obtain ⟨rfl, rfl⟩ := h
      exact congrArg Prod.snd hread
    · simp only [skipComment, extend, List.cons_append]
      split
      · simp_all
      · split
        · simp_all
        · rfl

theorem skipGap_extend : (cursor.extend behind).skipGap = cursor.skipGap.extend behind := by
  have hread := readUntil_extend cursor behind
    (stopsAtNewline_of_char (fun c => !isInlineBlank c) rfl)
  rw [skipGap, skipGap, ← skipComment_extend]
  exact congrArg (fun read => read.2.skipComment) hread

theorem finish_extend {lexeme : String → Lexeme} (hlexeme : ∀ text, lexeme text ≠ .endOfInput)
    (read : List Char × Cursor) :
    readOperand.finish (cursor.extend behind) lexeme (read.1, read.2.extend behind) =
      beforeNewline behind (readOperand.finish cursor lexeme read) := by
  rcases read with ⟨word, after⟩
  simp only [readOperand.finish, extend, atBoundary_newline]
  split
  · simp [beforeNewline, hlexeme, extend]
  · cases hrest : after.rest <;> simp [beforeNewline, extend, hrest]

theorem readOperand_extend :
    (cursor.extend behind).readOperand = beforeNewline behind cursor.readOperand := by
  rcases cursor with ⟨_ | ⟨c, rest⟩, pos, operandNext⟩
  · rfl
  · have hdigits := readUntil_extend ⟨c :: rest, pos, operandNext⟩ behind
      (stopsAtNewline_of_char (fun c => !isDigit c) rfl)
    have hname := readUntil_extend ⟨c :: rest, pos, operandNext⟩ behind
      (stopsAtNewline_of_char (fun c => !isSymbolChar c) rfl)
    simp only [readOperand, extend, List.cons_append] at hdigits hname ⊢
    split
    · rw [hdigits]
      exact finish_extend ⟨c :: rest, pos, operandNext⟩ behind (by simp) _
    · split
      · rw [hname]
        exact finish_extend ⟨c :: rest, pos, operandNext⟩ behind (by simp) _
      · rfl

theorem readWord_extend (first : Char) (rest : List Char) (pos : Nat) :
    readWord first (rest ++ '\n' :: behind) pos =
      beforeNewline behind (readWord first rest pos) := by
  have hread := readUntil_extend ⟨rest, pos + 1, false⟩ behind endsWord_stopsAtNewline
  have hhead (chars : List Char) :
      (chars ++ '\n' :: behind).head? = some ')' ↔ chars.head? = some ')' := by
    cases chars <;> simp
  simp only [extend] at hread
  simp only [readWord, hread, hhead]
  split
  · split <;> simp [beforeNewline, extend]
  · simp [beforeNewline, extend]

/-- A newline behind the text ends its last line, and is all that the reading sees of what
follows. -/
theorem next_extend : (cursor.extend behind).next = beforeNewline behind cursor.next := by
  rw [next, next, skipGap_extend]
  generalize cursor.skipGap = start
  rcases start with ⟨rest, pos, operandNext⟩
  cases operandNext with
  | true => exact readOperand_extend ⟨rest, pos, false⟩ behind
  | false =>
    cases rest with
    | nil => rfl
    | cons c rest =>
      simp only [extend, List.cons_append, Bool.false_eq_true, if_false, atBoundary_newline]
      by_cases hat : c = '@'
      · simp only [hat, if_true]
        split
        · cases rest <;> rfl
        · rfl
      · simp only [hat, if_false]
        split
        · next lexeme hlexeme =>
          simp [beforeNewline, ne_endOfInput_of_punctuation? hlexeme, extend]
        · exact readWord_extend behind c rest pos

theorem Run.extend_of_ok {cursor : Cursor} {tokens : List Token} {pos : Nat}
    (h : Run cursor tokens (.ok pos)) {behind : List Char} {tokens' : List Token}
    {outcome : Except LexError Nat} (hbehind : Run ⟨behind, pos + 1, false⟩ tokens' outcome) :
    Run (cursor.extend behind) (tokens ++ ⟨.newline, pos⟩ :: tokens') outcome := by
  generalize hend : Except.ok pos = ended at h
  induction h with
  | done hnext =>
    cases hend
    refine .token ?_ (by simp) hbehind
    rw [next_extend, hnext, beforeNewline, if_pos rfl]
  | fault => cases hend
  | token hnext hne _ ih =>
    refine .token ?_ hne (ih hend)
    rw [next_extend, hnext, beforeNewline, if_neg hne]

theorem Run.extend_of_error {cursor : Cursor} {tokens : List Token} {error : LexError}
    (h : Run cursor tokens (.error error)) (behind : List Char) :
    Run (cursor.extend behind) tokens
      (.error { error with found := error.found.or (some '\n') }) := by
  generalize hend : Except.error error = ended at h
  induction h with
  | done => cases hend
  | fault hnext =>
    cases hend
    exact .fault (by rw [next_extend, hnext]; rfl)
  | token hnext hne _ ih =>
    refine .token ?_ hne (ih hend)
    rw [next_extend, hnext, beforeNewline, if_neg hne]

end Cursor

end HackAssembler.Source
