import HackAssembler.Proofs.LineByLine

/-! # Gaps behind a line

A gap is what may stand behind a line without a trace: blanks, and perhaps a comment behind them.
With a gap behind it, and wherever it stands, a line reads as the same lexemes, and it ends in a
fault if it did so before. -/
namespace HackAssembler

namespace Text

theorem splitBefore_append_of_stop (stop : Char → List Char → Bool) (behind : List Char)
    (hstart : ∀ c rest, behind = c :: rest → stop c rest = true)
    (hahead : ∀ c rest, stop c (rest ++ behind) = stop c rest) (text : List Char) :
    splitBefore stop (text ++ behind) =
      ((splitBefore stop text).1, (splitBefore stop text).2 ++ behind) := by
  induction text with
  | nil =>
    cases behind with
    | nil => rfl
    | cons c rest => simp [splitBefore_cons, hstart c rest rfl]
  | cons c rest ih =>
    rw [List.cons_append, splitBefore_cons, splitBefore_cons, hahead, ih]
    split <;> rfl

end Text

namespace Source

open Text

/-- Nothing, or blanks with perhaps a comment behind them. -/
structure Gap (gap : List Char) : Prop where
  reads : Reads gap []
  blank : ∀ c ∈ gap.head?, isInlineBlank c = true

namespace Gap

theorem nil : Gap [] := ⟨.nil, by simp⟩

variable {gap : List Char}

theorem isBlank (h : Gap gap) {c : Char} (hc : c ∈ gap.head?) : isBlank c = true := by
  have hblank := h.blank c hc
  simp only [isInlineBlank, Bool.and_eq_true] at hblank
  exact hblank.2

theorem atBoundary (h : Gap gap) : atBoundary gap = true := by
  cases gap with
  | nil => rfl
  | cons c rest => exact h.isBlank rfl

theorem atBoundary_append (h : Gap gap) (text : List Char) :
    Source.atBoundary (text ++ gap) = Source.atBoundary text := by
  cases text with
  | nil => exact h.atBoundary
  | cons c rest => rfl

theorem head?_append_eq_closeParen_iff (h : Gap gap) (text : List Char) :
    (text ++ gap).head? = some ')' ↔ text.head? = some ')' := by
  cases text with
  | nil =>
    refine ⟨fun hhead => ?_, fun hhead => by cases hhead⟩
    exact absurd (h.isBlank hhead) (by decide)
  | cons c rest => rfl

end Gap

/-- A comment does not begin with a slash on the line and one in the gap. -/
theorem AtToken.append {c : Char} {rest gap : List Char} (h : AtToken (c :: rest))
    (hgap : Gap gap) : AtToken (c :: rest ++ gap) where
  not_blank := h.not_blank
  not_comment text htext := by
    cases rest with
    | nil =>
      obtain ⟨rfl, rfl⟩ : c = '/' ∧ gap = '/' :: text := by simpa using htext
      exact absurd (hgap.blank '/' rfl) (by decide)
    | cons d rest =>
      obtain ⟨rfl, rfl, _⟩ : c = '/' ∧ d = '/' ∧ rest ++ gap = text := by simpa using htext
      exact h.not_comment rest rfl

namespace Cursor

theorem skipGap_of_reads_nil {text : List Char} (h : Reads text []) (pos : Nat)
    (operandNext : Bool) :
    ∃ pos', skipGap ⟨text, pos, operandNext⟩ = ⟨[], pos', operandNext⟩ := by
  generalize hnil : ([] : List Lexeme) = line at h
  induction h generalizing pos with
  | nil => exact ⟨pos, rfl⟩
  | @blank c rest line hblank _ ih =>
    rw [skipGap, skipBlanks_cons hblank]
    exact ih (pos + 1) hnil
  | comment hline => exact skipGap_comment hline pos operandNext
  | number => cases hnil
  | operand => cases hnil
  | punctuation => cases hnil
  | name => cases hnil
  | fragment => cases hnil

/-- The gap in front of a token is the same with a gap behind the line; at the end of the line the
two are one. -/
theorem exists_skipGap_append {text gap : List Char} (hline : '\n' ∉ text) (hgap : Gap gap) :
    ∃ start behind, Gap behind ∧ (start = [] → behind = []) ∧
      (∀ pos operandNext,
        ∃ pos', skipGap ⟨text, pos, operandNext⟩ = ⟨start, pos', operandNext⟩) ∧
      ∀ pos operandNext,
        ∃ pos', skipGap ⟨text ++ gap, pos, operandNext⟩ = ⟨start ++ behind, pos', operandNext⟩ := by
  induction text with
  | nil =>
    exact ⟨[], [], .nil, fun _ => rfl,
      fun pos operandNext => ⟨pos, skipGap_eq_self atToken_nil pos operandNext⟩,
      fun pos operandNext => skipGap_of_reads_nil hgap.reads pos operandNext⟩
  | cons c rest ih =>
    by_cases hblank : isInlineBlank c = true
    · obtain ⟨start, behind, hbehind, hnil, hskip, hskip'⟩ := ih (by simp_all)
      refine ⟨start, behind, hbehind, hnil, fun pos operandNext => ?_, fun pos operandNext => ?_⟩
      · rw [skipGap, skipBlanks_cons hblank]
        exact hskip (pos + 1) operandNext
      · rw [List.cons_append, skipGap, skipBlanks_cons hblank]
        exact hskip' (pos + 1) operandNext
    · by_cases hcomment : ∃ text, c :: rest = '/' :: '/' :: text
      · obtain ⟨text, htext⟩ := hcomment
        have hnew : '\n' ∉ text := fun h => hline (by simp [htext, h])
        have hnew' : '\n' ∉ text ++ gap := by
          simpa [hnew] using hgap.reads.newline_not_mem
        rw [htext]
        exact ⟨[], [], .nil, fun _ => rfl,
          fun pos operandNext => skipGap_comment hnew pos operandNext,
          fun pos operandNext => skipGap_comment hnew' pos operandNext⟩
      · have hstart : AtToken (c :: rest) :=
          ⟨by simpa using hblank, fun text h => hcomment ⟨text, h⟩⟩
        exact ⟨c :: rest, gap, hgap, by simp,
          fun pos operandNext => ⟨pos, skipGap_eq_self hstart pos operandNext⟩,
          fun pos operandNext => ⟨pos, skipGap_eq_self (hstart.append hgap) pos operandNext⟩⟩

/-- Two readings of the same lexeme, or of two faults, with a gap behind what the second one
leaves. -/
inductive Alike : Except LexError Token × Cursor → Except LexError Token × Cursor → Prop
  | fault (error error' : LexError) (after after' : Cursor) :
      Alike (.error error, after) (.error error', after')
  | token (lexeme : Lexeme) (pos pos' : Nat) {after after' : Cursor} {gap : List Char}
      (hgap : Gap gap) (hrest : after'.rest = after.rest ++ gap)
      (hmode : after'.operandNext = after.operandNext) :
      Alike (.ok ⟨lexeme, pos⟩, after) (.ok ⟨lexeme, pos'⟩, after')

section Gap
variable {gap : List Char} (hgap : Gap gap)
include hgap

/-- A class of characters that holds no blanks is read no further with a gap behind the line. -/
theorem alike_finish {p : Char → Bool} (hp : ∀ c, isBlank c = true → p c = false)
    (lexeme : String → Lexeme) (text : List Char) (pos pos' : Nat) (operandNext : Bool) :
    Alike
      (readOperand.finish ⟨text, pos, operandNext⟩ lexeme
        (readUntil (fun c _ => !p c) ⟨text, pos, operandNext⟩))
      (readOperand.finish ⟨text ++ gap, pos', operandNext⟩ lexeme
        (readUntil (fun c _ => !p c) ⟨text ++ gap, pos', operandNext⟩)) := by
  have hsplit := splitBefore_append_of_stop (fun c _ => !p c) gap
    (fun c rest hc => by simp [hp c (hgap.isBlank (by rw [hc]; rfl))]) (fun _ _ => rfl) text
  simp only [readUntil, hsplit, readOperand.finish, hgap.atBoundary_append]
  by_cases hend : atBoundary (splitBefore (fun c _ => !p c) text).2 = true
  · simp only [hend, if_true]
    exact .token _ _ _ hgap rfl rfl
  · simp only [hend]
    exact .fault _ _ _ _

theorem alike_readOperand {text : List Char} (hnil : text = [] → gap = []) (pos pos' : Nat)
    (operandNext : Bool) :
    Alike (readOperand ⟨text, pos, operandNext⟩)
      (readOperand ⟨text ++ gap, pos', operandNext⟩) := by
  cases text with
  | nil =>
    rw [hnil rfl]
    exact .fault _ _ _ _
  | cons c rest =>
    have hdigits (c : Char) (hblank : isBlank c = true) : isDigit c = false := by
      by_contra hdigit
      simp [isBlank_of_isDigit (by simpa using hdigit)] at hblank
    have hsymbols (c : Char) (hblank : isBlank c = true) : isSymbolChar c = false := by
      by_contra hsymbol
      simp [isBlank_of_isSymbolChar (by simpa using hsymbol)] at hblank
    simp only [readOperand, List.cons_append]
    by_cases hdigit : isDigit c = true
    · simp only [hdigit, if_true]
      exact alike_finish hgap hdigits _ (c :: rest) pos pos' operandNext
    · by_cases hsymbol : isSymbolChar c = true
      · simp only [hdigit, hsymbol, if_true]
        exact alike_finish hgap hsymbols _ (c :: rest) pos pos' operandNext
      · simp only [hdigit, hsymbol]
        exact .fault _ _ _ _

theorem alike_readWord (first : Char) (rest : List Char) (pos pos' : Nat) :
    Alike (readWord first rest pos) (readWord first (rest ++ gap) pos') := by
  have hsplit := splitBefore_append_of_stop endsWord gap
    (fun c rest hc => by simp [endsWord, hgap.isBlank (show c ∈ gap.head? by rw [hc]; rfl)])
    (fun c rest => by simp only [endsWord, hgap.atBoundary_append]) rest
  simp only [readWord, readUntil, hsplit, hgap.head?_append_eq_closeParen_iff]
  by_cases hclose : (splitBefore endsWord rest).2.head? = some ')'
  · by_cases hfirst : (isSymbolChar first && !isDigit first) = true
    · simp only [hclose, hfirst, if_true]
      exact .token _ _ _ hgap rfl rfl
    · simp only [hclose, hfirst, if_true]
      exact .fault _ _ _ _
  · simp only [hclose, if_false]
    exact .token _ _ _ hgap rfl rfl

theorem alike_next {text : List Char} (hline : '\n' ∉ text) (pos pos' : Nat) (operandNext : Bool) :
    Alike (next ⟨text, pos, operandNext⟩) (next ⟨text ++ gap, pos', operandNext⟩) := by
  obtain ⟨start, behind, hbehind, hnil, hskip, hskip'⟩ := exists_skipGap_append hline hgap
  obtain ⟨pos, hskip⟩ := hskip pos operandNext
  obtain ⟨pos', hskip'⟩ := hskip' pos' operandNext
  rw [next, next, hskip, hskip']
  cases operandNext with
  | true => exact alike_readOperand hbehind hnil pos pos' false
  | false =>
    cases start with
    | nil =>
      rw [hnil rfl]
      exact .token _ _ _ .nil rfl rfl
    | cons c rest =>
      simp only [List.cons_append, Bool.false_eq_true, if_false, hbehind.atBoundary_append]
      split
      · split
        · exact .fault _ _ _ _
        · exact .token _ _ _ hbehind rfl rfl
      · split
        · exact .token _ _ _ hbehind rfl rfl
        · exact alike_readWord hbehind c rest pos pos'

end Gap

theorem alike_of_next {cursor cursor' : Cursor} {result result' : Except LexError Token × Cursor}
    (hline : '\n' ∉ cursor.rest) {gap : List Char} (hgap : Gap gap)
    (hrest : cursor'.rest = cursor.rest ++ gap) (hmode : cursor'.operandNext = cursor.operandNext)
    (hnext : cursor.next = result) (hnext' : cursor'.next = result') : Alike result result' := by
  have hread := alike_next hgap hline cursor.pos cursor'.pos cursor.operandNext
  rwa [hnext, ← hrest, ← hmode, hnext'] at hread

theorem Run.alike {cursor cursor' : Cursor} {tokens tokens' : List Token}
    {outcome outcome' : Except LexError Nat} (h : Run cursor tokens outcome)
    (h' : Run cursor' tokens' outcome') (hline : '\n' ∉ cursor.rest) {gap : List Char}
    (hgap : Gap gap) (hrest : cursor'.rest = cursor.rest ++ gap)
    (hmode : cursor'.operandNext = cursor.operandNext) :
    tokens.map (·.lexeme) = tokens'.map (·.lexeme) ∧ outcome.toBool = outcome'.toBool := by
  induction h generalizing cursor' tokens' gap with
  | done hnext =>
    cases h' with
    | done => exact ⟨rfl, rfl⟩
    | fault hnext' => cases alike_of_next hline hgap hrest hmode hnext hnext'
    | token hnext' hend =>
      cases alike_of_next hline hgap hrest hmode hnext hnext'
      exact absurd rfl hend
  | fault hnext =>
    cases h' with
    | done hnext' => cases alike_of_next hline hgap hrest hmode hnext hnext'
    | fault => exact ⟨rfl, rfl⟩
    | token hnext' => cases alike_of_next hline hgap hrest hmode hnext hnext'
  | @token cursor after token tokens outcome hnext hend _ ih =>
    have hafter : '\n' ∉ after.rest := fun hmem => hline (by
      have hsuffix := next_suffix cursor
      rw [hnext] at hsuffix
      exact hsuffix.subset hmem)
    cases h' with
    | done hnext' =>
      cases alike_of_next hline hgap hrest hmode hnext hnext'
      exact absurd rfl hend
    | fault hnext' => cases alike_of_next hline hgap hrest hmode hnext hnext'
    | token hnext' _ hrun' =>
      cases alike_of_next hline hgap hrest hmode hnext hnext' with
      | token lexeme pos pos' hgap hrest hmode =>
        obtain ⟨htokens, houtcome⟩ := ih hrun' hafter hgap hrest hmode
        exact ⟨by simp [htokens], houtcome⟩

end Cursor

namespace Line

/-- Lines that hold the same lexemes and end alike, wherever they stand. -/
inductive Alike : Line → Line → Prop
  | newline (pos pos' : Nat) : Alike (.newline pos) (.newline pos')
  | fault (error error' : LexError) : Alike (.fault error) (.fault error')
  | token (lexeme : Lexeme) (pos pos' : Nat) {rest rest' : Line} (hrest : Alike rest rest') :
      Alike (.token ⟨lexeme, pos⟩ rest) (.token ⟨lexeme, pos'⟩ rest')

theorem alike_ending {outcome outcome' : Except LexError Nat}
    (h : outcome.toBool = outcome'.toBool) : Alike (ending outcome) (ending outcome') := by
  cases outcome with
  | error error =>
    cases outcome' with
    | error error' => exact .fault _ _
    | ok last' => cases h
  | ok last =>
    cases outcome' with
    | error error' => cases h
    | ok last' => exact .newline _ _

theorem prepend_reverse_cons (head : Token) (rest : List Token) (line : Line) :
    prepend (head :: rest).reverse line = .token head (prepend rest.reverse line) := by
  simp [prepend]

theorem alike_prepend {tokens tokens' : List Token}
    (htokens : tokens.map (·.lexeme) = tokens'.map (·.lexeme)) {line line' : Line}
    (hline : Alike line line') :
    Alike (prepend tokens.reverse line) (prepend tokens'.reverse line') := by
  induction tokens generalizing tokens' with
  | nil =>
    obtain rfl : tokens' = [] := by simpa using htokens
    exact hline
  | cons head tokens ih =>
    cases tokens' with
    | nil => cases htokens
    | cons head' tokens' =>
      rcases head with ⟨lexeme, pos⟩
      rcases head' with ⟨lexeme', pos'⟩
      obtain ⟨rfl, hrest⟩ : lexeme = lexeme' ∧ tokens.map (·.lexeme) = tokens'.map (·.lexeme) :=
        List.cons.inj htokens
      rw [prepend_reverse_cons, prepend_reverse_cons]
      exact .token lexeme pos pos' (ih hrest)

theorem OfText.blank {start : Nat} {c : Char} {text : List Char} {line : Line}
    (hblank : isInlineBlank c = true) (h : OfText start (c :: text) line) :
    OfText (start + 1) text line := by
  obtain ⟨hrun⟩ := h
  exact ⟨hrun.congr (Cursor.next_blank start hblank text false).symm⟩

/-- Blanks in front of a line and a gap behind it make no difference. -/
theorem OfText.alike {start start' : Nat} {text blanks gap : List Char} {line line' : Line}
    (h : OfText start text line) (hline : '\n' ∉ text)
    (hblanks : ∀ c ∈ blanks, isInlineBlank c = true) (hgap : Gap gap)
    (h' : OfText start' (blanks ++ (text ++ gap)) line') : Alike line line' := by
  induction blanks generalizing start' with
  | nil =>
    obtain ⟨hrun⟩ := h
    obtain ⟨hrun'⟩ := h'
    obtain ⟨htokens, houtcome⟩ := hrun.alike hrun' hline hgap rfl rfl
    exact alike_prepend htokens (alike_ending houtcome)
  | cons c blanks ih =>
    obtain ⟨hc, hblanks⟩ := List.forall_mem_cons.mp hblanks
    exact ih hblanks (h'.blank hc)

theorem OfText.alike_self {start start' : Nat} {text : List Char} {line line' : Line}
    (h : OfText start text line) (hline : '\n' ∉ text) (h' : OfText start' text line') :
    Alike line line' :=
  h.alike hline (List.forall_mem_nil _) .nil (by rwa [List.append_nil])

theorem Alike.isSome_startFault {line line' : Line} (h : Alike line line') :
    line.startFault.isSome = line'.startFault.isSome := by
  cases h <;> rfl

theorem Alike.isSome_fault? {line line' : Line} (h : Alike line line') :
    line.fault?.isSome = line'.fault?.isSome := by
  induction h with
  | newline => rfl
  | fault => rfl
  | token _ _ _ _ ih => exact ih

theorem Alike.fault?_eq_none_iff {line line' : Line} (h : Alike line line') :
    line.fault? = none ↔ line'.fault? = none := by
  rw [← Option.not_isSome_iff_eq_none, h.isSome_fault?, Option.not_isSome_iff_eq_none]

theorem alike_of_lexemes_eq {line line' : Line} (hfault : line.fault? = none)
    (hfault' : line'.fault? = none) (h : line.lexemes = line'.lexemes) : Alike line line' := by
  induction line generalizing line' with
  | newline pos =>
    obtain ⟨pos', rfl⟩ := exists_newline hfault' h.symm
    exact .newline pos pos'
  | fault error => cases hfault
  | token head rest ih =>
    obtain ⟨pos', rest', rfl, hrest⟩ := exists_token h.symm
    exact .token head.lexeme head.pos pos' (ih hfault hfault' hrest.symm)

end Line

end Source

end HackAssembler
