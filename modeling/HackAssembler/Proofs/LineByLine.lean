import HackAssembler.Proofs.LineErrors
import HackAssembler.Proofs.Positions

/-! # A source line by line

The lines of a source are what the pieces between its newlines read as, each by itself, up to the
first piece that ends in a fault. What a line holds lies where its piece lies. -/
namespace HackAssembler

namespace Source

open Text

theorem eq_newline_of_punctuation? {c : Char} (h : punctuation? c = some .newline) : c = '\n' := by
  unfold punctuation? at h
  split at h <;> simp_all

namespace Cursor

theorem next_ne_newline {cursor after : Cursor} {token : Token} (hline : '\n' ∉ cursor.rest)
    (h : cursor.next = (.ok token, after)) : token.lexeme ≠ .newline := by
  intro hnewline
  have hgap : '\n' ∉ cursor.skipGap.rest := fun hmem => hline ((skipGap_suffix cursor).subset hmem)
  unfold next at h
  dsimp only at h
  split at h
  · obtain ⟨word, hword | hword⟩ := readOperand_lexeme h <;> simp [hword] at hnewline
  · split at h
    · cases h
      cases hnewline
    · next c rest hrest =>
      split at h
      · split at h <;> cases h
        cases hnewline
      · split at h
        · next lexeme hpunctuation =>
          cases h
          obtain rfl : lexeme = .newline := hnewline
          rw [hrest, eq_newline_of_punctuation? hpunctuation] at hgap
          exact hgap List.mem_cons_self
        · obtain ⟨word, hword | hword⟩ := readWord_lexeme h <;> simp [hword] at hnewline

/-- The tokens of a piece between newlines can be followed by a newline on their line. -/
theorem Run.ne {cursor : Cursor} {tokens : List Token} {outcome : Except LexError Nat}
    (h : Run cursor tokens outcome) (hline : '\n' ∉ cursor.rest) :
    ∀ token ∈ tokens, token.lexeme ≠ .newline ∧ token.lexeme ≠ .endOfInput := by
  induction h with
  | done => simp
  | fault => simp
  | @token cursor after token tokens outcome hnext hend _ ih =>
    have hafter : '\n' ∉ after.rest := fun hmem => hline (by
      have hsuffix := next_suffix cursor
      rw [hnext] at hsuffix
      exact hsuffix.subset hmem)
    exact List.forall_mem_cons.mpr ⟨⟨next_ne_newline hline hnext, hend⟩, ih hafter⟩

theorem Run.unique {cursor : Cursor} {tokens tokens' : List Token}
    {outcome outcome' : Except LexError Nat} (h : Run cursor tokens outcome)
    (h' : Run cursor tokens' outcome') : tokens = tokens' ∧ outcome = outcome' := by
  have hscan := h.scan_eq.symm.trans h'.scan_eq
  cases outcome <;> cases outcome' <;> simp_all

end Cursor

namespace Line

def ending : Except LexError Nat → Line
  | .ok last => .newline last
  | .error error => .fault { error with found := error.found.or (some '\n') }

/-- What a piece reads as, where `start` characters come before it. -/
inductive OfText (start : Nat) (text : List Char) : Line → Prop
  | intro {tokens : List Token} {outcome : Except LexError Nat}
      (hrun : Cursor.Run ⟨text, start, false⟩ tokens outcome) :
      OfText start text (prepend tokens.reverse (ending outcome))

inductive OfTexts : Nat → List (List Char) → List Line → Prop
  | nil (start : Nat) : OfTexts start [] []
  | cons {start : Nat} {text : List Char} {texts : List (List Char)} {line : Line}
      {lines : List Line} (hline : OfText start text line) (hfault : line.fault? = none)
      (hrest : OfTexts (start + text.length + 1) texts lines) :
      OfTexts start (text :: texts) (line :: lines)
  | fault {start : Nat} {text : List Char} (texts : List (List Char)) {line : Line}
      (hline : OfText start text line) (hfault : line.fault? ≠ none) :
      OfTexts start (text :: texts) [line]

theorem places_prepend (seen : List Token) (line : Line) :
    (prepend seen line).places = (seen.reverse.map (·.pos)) ++ line.places := by
  induction seen generalizing line with
  | nil => rfl
  | cons head seen ih => simp [prepend_cons, ih, places]

section OfText
variable {start : Nat} {text : List Char} {line : Line}

/-- What a line holds lies where its piece lies. -/
theorem OfText.places_within (h : OfText start text line) :
    ∀ pos ∈ line.places, start ≤ pos ∧ pos ≤ start + text.length := by
  obtain ⟨hrun⟩ := h
  rename_i tokens outcome
  obtain ⟨htokens, hends⟩ := hrun.within
  rw [places_prepend, List.reverse_reverse, List.forall_mem_append, List.forall_mem_map]
  refine ⟨fun token htoken => ⟨(htokens token htoken).le, (htokens token htoken).le_limit⟩, ?_⟩
  cases outcome with
  | ok last =>
    obtain rfl : last = start + text.length := hends
    simp [ending, places]
  | error error =>
    have hpos : Cursor.Within ⟨text, start, false⟩ error.pos := hends
    intro pos hmem
    obtain rfl : pos = error.pos := by simpa [ending, places] using hmem
    exact ⟨hpos.le, hpos.le_limit⟩

/-- A line without a fault is what the rules make of its piece. -/
theorem OfText.reads (h : OfText start text line) (hline : '\n' ∉ text)
    (hfault : line.fault? = none) : Reads text line.lexemes := by
  obtain ⟨hrun⟩ := h
  rename_i tokens outcome
  rw [fault?_prepend] at hfault
  cases outcome with
  | ok last =>
    have hreads := (Cursor.reads_of_run hrun hline).1 rfl
    simpa [lexemes, tokens_prepend, ending, Line.tokens] using hreads
  | error error => cases hfault

/-- If the rules make something of a piece, then its line is that, and has no fault. -/
theorem OfText.of_reads (h : OfText start text line) {lexemes : List Lexeme}
    (hreads : Reads text lexemes) : line.fault? = none ∧ line.lexemes = lexemes := by
  obtain ⟨hrun⟩ := h
  rename_i tokens outcome
  obtain ⟨tokens', last, hrun', rfl⟩ := Cursor.run_of_reads hreads start
  obtain ⟨rfl, rfl⟩ := hrun.unique hrun'
  exact ⟨fault?_prepend _ _, by simp [Line.lexemes, tokens_prepend, ending, Line.tokens]⟩

end OfText

theorem cut_fault {tokens : List Token}
    (h : ∀ token ∈ tokens, token.lexeme ≠ .newline ∧ token.lexeme ≠ .endOfInput)
    (error : LexError) : cut tokens (some error) = [prepend tokens.reverse (.fault error)] := by
  have hcut := cut_go_append (some error) [] h []
  rw [List.append_nil, List.append_nil] at hcut
  rw [cut, hcut]
  rfl

theorem exists_ofTexts {texts : List (List Char)} (htexts : ∀ text ∈ texts, '\n' ∉ text)
    (start : Nat) :
    ∃ tokens outcome, Cursor.Run ⟨unlines texts, start, false⟩ tokens outcome ∧
      OfTexts start texts (match outcome with
        | .ok last => cut (tokens ++ [⟨.endOfInput, last⟩]) none
        | .error error => cut tokens (some error)) := by
  induction texts generalizing start with
  | nil => exact ⟨[], .ok start, .done (Cursor.next_nil start), .nil start⟩
  | cons text texts ih =>
    obtain ⟨htext, htexts⟩ := List.forall_mem_cons.mp htexts
    obtain ⟨tokens, outcome, hrun⟩ := Cursor.exists_run ⟨text, start, false⟩
    have hne := hrun.ne htext
    have hline := OfText.intro hrun
    rw [unlines_cons]
    cases outcome with
    | error error =>
      refine ⟨tokens, _, hrun.extend_of_error (unlines texts), ?_⟩
      dsimp only
      rw [cut_fault hne]
      exact .fault texts hline (by simp [fault?_prepend, fault?])
    | ok last =>
      obtain rfl : last = start + text.length := hrun.within.2
      obtain ⟨rest, outcome, hrest, hlines⟩ := ih htexts (start + text.length + 1)
      refine ⟨_, outcome, hrun.extend_of_ok hrest, ?_⟩
      cases outcome with
      | ok last =>
        dsimp only at hlines ⊢
        rw [List.append_assoc, List.cons_append, cut_newline none hne]
        exact .cons hline (fault?_prepend _ _) hlines
      | error error =>
        dsimp only at hlines ⊢
        rw [cut_newline (some error) hne]
        exact .cons hline (fault?_prepend _ _) hlines

theorem ofTexts_ofSource (code : String) : OfTexts 0 (pieces code.toList) (ofSource code) := by
  obtain ⟨tokens, outcome, hrun, hlines⟩ :=
    exists_ofTexts (@not_mem_of_mem_pieces code.toList) 0
  rw [unlines_pieces] at hrun
  simp only [ofSource, Lexer.ofString, Lexer.start, hrun.scan_eq]
  cases outcome <;> exact hlines

def Readable (text : List Char) (line : Line) : Prop :=
  (∃ start, OfText start text line) ∧ line.fault? = none

theorem OfTexts.readable {start : Nat} {texts : List (List Char)} {lines : List Line}
    (h : OfTexts start texts lines) (hlines : ∀ line ∈ lines, line.fault? = none) :
    List.Forall₂ Readable texts lines := by
  induction h with
  | nil => exact .nil
  | cons hline hfault _ ih =>
    exact .cons ⟨⟨_, hline⟩, hfault⟩ (ih (List.forall_mem_cons.mp hlines).2)
  | fault texts hline hfault => exact absurd (hlines _ List.mem_cons_self) hfault

/-- The piece of a line, between the pieces of the lines before it and those behind it. -/
theorem OfTexts.exists_split {start : Nat} {texts : List (List Char)} {before after : List Line}
    {line : Line} (h : OfTexts start texts (before ++ line :: after)) :
    ∃ head text tail, texts = head ++ text :: tail ∧
      List.Forall₂ Readable head before ∧ OfText (start + (unlines head).length) text line ∧
      (line.fault? = none →
        OfTexts (start + (unlines head).length + text.length + 1) tail after) := by
  induction before generalizing start texts with
  | nil =>
    cases h with
    | @cons _ text texts _ _ hline _ hrest =>
      exact ⟨[], text, texts, rfl, .nil, hline, fun _ => hrest⟩
    | @fault _ text texts _ hline hfault =>
      exact ⟨[], text, texts, rfl, .nil, hline, fun h => absurd h hfault⟩
  | cons first before ih =>
    generalize hlines : first :: before ++ line :: after = lines at h
    cases h with
    | nil => cases hlines
    | @cons _ text texts _ _ hfirst hfault hrest =>
      cases hlines
      obtain ⟨head, other, tail, rfl, hhead, hline, htail⟩ := ih hrest
      have hstart : start + text.length + 1 + (unlines head).length =
          start + (unlines (text :: head)).length := by
        rw [unlines_cons, List.length_append, List.length_cons]
        omega
      rw [hstart] at hline htail
      exact ⟨text :: head, other, tail, rfl, .cons ⟨⟨start, hfirst⟩, hfault⟩ hhead, hline, htail⟩
    | fault => simp at hlines

theorem OfTexts.exists_head {start : Nat} {text : List Char} {texts : List (List Char)}
    {lines : List Line} (h : OfTexts start (text :: texts) lines) :
    ∃ line rest, lines = line :: rest ∧ OfText start text line := by
  cases h with
  | cons hline => exact ⟨_, _, rfl, hline⟩
  | fault _ hline => exact ⟨_, [], rfl, hline⟩

end Line

end Source

end HackAssembler
