import HackAssembler.Proofs.LineLocality

/-! # The lexical grammar of a line

Which characters read as which lexemes, as rules, and in which order the rules let lexemes
follow each other. What the rules derive for a line, the lexer finds. -/
namespace HackAssembler.Text

theorem splitBefore_word {stop : Char → List Char → Bool} {word rest : List Char}
    (hword : ∀ c ∈ word, ∀ tail, stop c tail = false)
    (hrest : ∀ c tail, rest = c :: tail → stop c tail = true) :
    splitBefore stop (word ++ rest) = (word, rest) := by
  induction word with
  | nil =>
    cases rest with
    | nil => rfl
    | cons c tail => rw [List.nil_append, splitBefore_cons, if_pos (hrest c tail rfl)]
  | cons c word ih =>
    obtain ⟨hc, hword⟩ := List.forall_mem_cons.mp hword
    rw [List.cons_append, splitBefore_cons, hc, ih hword]
    rfl

/-- A word that was cut off has no character at which to stop, and what follows begins with
one. -/
theorem stop_of_splitBefore {stop : Char → List Char → Bool} {word rest : List Char}
    (h : splitBefore stop (word ++ rest) = (word, rest)) :
    (∀ c ∈ word, ∃ tail, stop c tail = false) ∧
      ∀ c tail, rest = c :: tail → stop c tail = true := by
  induction word with
  | nil =>
    refine ⟨by simp, ?_⟩
    rintro c tail rfl
    rw [List.nil_append, splitBefore_cons] at h
    split at h
    · assumption
    · simp at h
  | cons first word ih =>
    rw [List.cons_append, splitBefore_cons] at h
    split at h
    · simp at h
    · next hstop =>
      obtain ⟨hword, hrest⟩ := ih (by simpa [Prod.ext_iff] using h)
      exact ⟨List.forall_mem_cons.mpr ⟨⟨word ++ rest, by simpa using hstop⟩, hword⟩, hrest⟩

theorem splitBefore_class {p : Char → Bool} {word rest : List Char}
    (hword : ∀ c ∈ word, p c = true) (hrest : ∀ c ∈ rest.head?, p c = false) :
    splitBefore (fun c _ => !p c) (word ++ rest) = (word, rest) := by
  apply splitBefore_word
  · intro c hc tail
    simp [hword c hc]
  · rintro c tail rfl
    simp [hrest c rfl]

end HackAssembler.Text

namespace HackAssembler.Source

open Text

/-- A word can begin with `first` in front of `rest`: it is neither blank nor punctuation, and no
comment begins here. -/
structure StartsWord (first : Char) (rest : List Char) : Prop where
  not_blank : isBlank first = false
  not_at : first ≠ '@'
  not_punctuation : punctuation? first = none
  not_comment : ¬(first = '/' ∧ rest.head? = some '/')

/-- The characters of a line and the lexemes they read as. -/
inductive Reads : List Char → List Lexeme → Prop
  | nil : Reads [] []
  | blank {c : Char} {rest : List Char} {line : List Lexeme} (hblank : isInlineBlank c = true)
      (hrest : Reads rest line) : Reads (c :: rest) line
  | comment {text : List Char} (hline : '\n' ∉ text) : Reads ('/' :: '/' :: text) []
  | number {digits rest : List Char} {line : List Lexeme} (hne : digits ≠ [])
      (hdigits : ∀ c ∈ digits, isDigit c = true) (hend : atBoundary rest = true)
      (hrest : Reads rest line) :
      Reads ('@' :: (digits ++ rest)) (.atSign :: .number (String.ofList digits) :: line)
  | operand {first : Char} {name rest : List Char} {line : List Lexeme}
      (hfirst : isDigit first = false) (hname : ∀ c ∈ first :: name, isSymbolChar c = true)
      (hend : atBoundary rest = true) (hrest : Reads rest line) :
      Reads ('@' :: (first :: name ++ rest))
        (.atSign :: .symbol (String.ofList (first :: name)) :: line)
  | punctuation {c : Char} {lexeme : Lexeme} {rest : List Char} {line : List Lexeme}
      (hline : c ≠ '\n') (hc : punctuation? c = some lexeme) (hrest : Reads rest line) :
      Reads (c :: rest) (lexeme :: line)
  | name {first : Char} {word rest : List Char} {line : List Lexeme}
      (hstart : StartsWord first (word ++ ')' :: rest))
      (hword : splitBefore endsWord (word ++ ')' :: rest) = (word, ')' :: rest))
      (hfirst : (isSymbolChar first && !isDigit first) = true) (hrest : Reads (')' :: rest) line) :
      Reads (first :: (word ++ ')' :: rest)) (.symbol (String.ofList (first :: word)) :: line)
  | fragment {first : Char} {word rest : List Char} {line : List Lexeme}
      (hstart : StartsWord first (word ++ rest))
      (hword : splitBefore endsWord (word ++ rest) = (word, rest))
      (hclose : rest.head? ≠ some ')') (hrest : Reads rest line) :
      Reads (first :: (word ++ rest)) (.fragment (String.ofList (first :: word)) :: line)

theorem mem_of_punctuation? {c : Char} {lexeme : Lexeme} (hline : c ≠ '\n')
    (h : punctuation? c = some lexeme) :
    lexeme ∈ [Lexeme.equal, .semicolon, .openParen, .closeParen] := by
  unfold punctuation? at h
  split at h <;> simp_all [eq_comm]

theorem Reads.ne {text : List Char} {line : List Lexeme} (h : Reads text line) :
    ∀ lexeme ∈ line, lexeme ≠ .newline ∧ lexeme ≠ .endOfInput := by
  induction h with
  | nil => simp
  | blank _ _ ih => exact ih
  | comment => simp
  | punctuation hline hc _ ih =>
    have hsign := mem_of_punctuation? hline hc
    refine List.forall_mem_cons.mpr ⟨?_, ih⟩
    constructor <;> rintro rfl <;> simp at hsign
  | _ => simp_all

theorem newline_not_mem_word {word rest : List Char}
    (h : splitBefore endsWord (word ++ rest) = (word, rest)) : '\n' ∉ word := by
  intro hmem
  obtain ⟨tail, hgoes⟩ := (stop_of_splitBefore h).1 '\n' hmem
  simp [endsWord_stopsAtNewline.newline] at hgoes

theorem StartsWord.newline_ne {first : Char} {rest : List Char} (h : StartsWord first rest) :
    '\n' ≠ first := by
  rintro rfl
  cases h.not_punctuation

theorem Reads.newline_not_mem {text : List Char} {line : List Lexeme} (h : Reads text line) :
    '\n' ∉ text := by
  have hinside {p : Char → Bool} (hp : p '\n' = false) {chars : List Char}
      (hchars : ∀ c ∈ chars, p c = true) : '\n' ∉ chars := fun hmem => by
    simpa [hp] using hchars '\n' hmem
  induction h with
  | nil => simp
  | blank hblank _ ih =>
    refine List.not_mem_cons_of_ne_of_not_mem ?_ ih
    rintro rfl
    exact absurd hblank (by decide)
  | comment hline => simpa using hline
  | number _ hdigits _ _ ih => simp [hinside rfl hdigits, ih]
  | operand _ hname _ _ ih => simpa [ih] using hinside rfl hname
  | punctuation hline _ _ ih => simp [Ne.symm hline, ih]
  | name hstart hword _ _ ih => simpa [hstart.newline_ne, newline_not_mem_word hword] using ih
  | fragment hstart hword _ _ ih => simp [hstart.newline_ne, newline_not_mem_word hword, ih]

/-- The orders in which lexemes can stand on a line: a number comes behind an `@` only, a symbol
behind an `@` or in front of a closing parenthesis. -/
inductive Lexed : List Lexeme → Prop
  | nil : Lexed []
  | number {digits : String} {rest : List Lexeme} (hdigits : ∀ c ∈ digits.toList, isDigit c = true)
      (hrest : Lexed rest) : Lexed (.atSign :: .number digits :: rest)
  | operand {name : String} {rest : List Lexeme} (hrest : Lexed rest) :
      Lexed (.atSign :: .symbol name :: rest)
  | name {name : String} {rest : List Lexeme} (hrest : Lexed (.closeParen :: rest)) :
      Lexed (.symbol name :: .closeParen :: rest)
  | fragment {word : String} {rest : List Lexeme} (hrest : Lexed rest) :
      Lexed (.fragment word :: rest)
  | punctuation {lexeme : Lexeme} {rest : List Lexeme}
      (h : lexeme ∈ [.equal, .semicolon, .openParen, .closeParen]) (hrest : Lexed rest) :
      Lexed (lexeme :: rest)

theorem Reads.closeParen {text : List Char} {line : List Lexeme} (h : Reads (')' :: text) line) :
    ∃ rest, line = .closeParen :: rest := by
  cases h with
  | blank hblank => exact absurd hblank (by decide)
  | punctuation _ hc =>
    cases hc
    exact ⟨_, rfl⟩
  | name hstart => cases hstart.not_punctuation
  | fragment hstart => cases hstart.not_punctuation

theorem Reads.lexed {text : List Char} {line : List Lexeme} (h : Reads text line) : Lexed line := by
  induction h with
  | nil => exact .nil
  | blank _ _ ih => exact ih
  | comment => exact .nil
  | number _ hdigits _ _ ih => exact .number (by simpa using hdigits) ih
  | operand _ _ _ _ ih => exact .operand ih
  | punctuation hline hc _ ih => exact .punctuation (mem_of_punctuation? hline hc) ih
  | name _ _ _ hrest ih =>
    obtain ⟨rest, rfl⟩ := hrest.closeParen
    exact .name ih
  | fragment _ _ _ _ ih => exact .fragment ih

theorem not_lexed_openParen_symbol {name : String} : ¬Lexed [.openParen, .symbol name] := by
  rintro (_ | _ | _ | _ | _ | ⟨_, hrest⟩)
  cases hrest with
  | punctuation h => simp at h

structure AtToken (text : List Char) : Prop where
  not_blank : ∀ c ∈ text.head?, isInlineBlank c = false
  not_comment : ∀ rest, text ≠ '/' :: '/' :: rest

theorem atToken_nil : AtToken [] := ⟨by simp, by simp⟩

theorem atToken_cons {c : Char} (hblank : isInlineBlank c = false) (hslash : c ≠ '/')
    (rest : List Char) : AtToken (c :: rest) :=
  ⟨by simpa using hblank, by simp [hslash]⟩

theorem StartsWord.atToken {first : Char} {rest : List Char} (h : StartsWord first rest) :
    AtToken (first :: rest) where
  not_blank := by simp [isInlineBlank, h.not_blank]
  not_comment := by
    rintro rest heq
    cases heq
    exact h.not_comment ⟨rfl, rfl⟩

theorem AtToken.startsWord {first : Char} {rest : List Char} (h : AtToken (first :: rest))
    (hline : first ≠ '\n') (hat : first ≠ '@') (hpunctuation : punctuation? first = none) :
    StartsWord first rest where
  not_blank := by simpa [isInlineBlank, hline] using h.not_blank first rfl
  not_at := hat
  not_punctuation := hpunctuation
  not_comment := by
    rintro ⟨rfl, hrest⟩
    obtain ⟨tail, rfl⟩ := List.head?_eq_some_iff.mp hrest
    exact h.not_comment tail rfl

theorem toNat_of_isSymbolChar {c : Char} (h : isSymbolChar c = true) :
    0x20 < c.toNat ∧ c.toNat < 0x7F := by
  have hle (low high : Char) (hc : low ≤ c ∧ c ≤ high) :
      low.toNat ≤ c.toNat ∧ c.toNat ≤ high.toNat := hc
  simp only [isSymbolChar, isDigit, Bool.or_eq_true, Bool.and_eq_true, decide_eq_true_eq,
    beq_iff_eq] at h
  rcases h with ((((((h | h) | h) | rfl) | rfl) | rfl) | rfl)
  case inl.inl.inl.inl.inl.inl =>
    have := hle '0' '9' h
    simp at this
    omega
  case inl.inl.inl.inl.inl.inr =>
    have := hle 'a' 'z' h
    simp at this
    omega
  case inl.inl.inl.inl.inr =>
    have := hle 'A' 'Z' h
    simp at this
    omega
  all_goals decide

theorem isBlank_of_isSymbolChar {c : Char} (h : isSymbolChar c = true) : isBlank c = false := by
  have := toNat_of_isSymbolChar h
  simp only [isBlank, Bool.or_eq_false_iff, Bool.and_eq_false_iff, decide_eq_false_iff_not,
    beq_eq_false_iff_ne]
  omega

theorem isBlank_of_isDigit {c : Char} (h : isDigit c = true) : isBlank c = false :=
  isBlank_of_isSymbolChar (by simp [isSymbolChar, h])

/-- At a boundary no character class goes on that has no blanks in it. -/
theorem head_of_atBoundary {p : Char → Bool} {rest : List Char} (h : atBoundary rest = true)
    (hp : ∀ c, isBlank c = true → p c = false) : ∀ c ∈ rest.head?, p c = false := by
  cases rest with
  | nil => simp
  | cons c rest =>
    rintro _ ⟨⟩
    exact hp c h

namespace Cursor

theorem skipBlanks_cons {c : Char} (h : isInlineBlank c = true) (rest : List Char) (pos : Nat)
    (operandNext : Bool) :
    skipBlanks ⟨c :: rest, pos, operandNext⟩ = skipBlanks ⟨rest, pos + 1, operandNext⟩ := by
  simp only [skipBlanks, readUntil, splitBefore_cons, h, Bool.not_true, Bool.false_eq_true,
    if_false, List.length_cons, Cursor.mk.injEq, true_and, and_true]
  omega

theorem skipBlanks_eq_self {text : List Char} (h : ∀ c ∈ text.head?, isInlineBlank c = false)
    (pos : Nat) (operandNext : Bool) :
    skipBlanks ⟨text, pos, operandNext⟩ = ⟨text, pos, operandNext⟩ := by
  cases text with
  | nil => rfl
  | cons c rest => simp [skipBlanks, readUntil, splitBefore_cons, h c rfl]

theorem skipGap_eq_self {text : List Char} (h : AtToken text) (pos : Nat) (operandNext : Bool) :
    skipGap ⟨text, pos, operandNext⟩ = ⟨text, pos, operandNext⟩ := by
  rw [skipGap, skipBlanks_eq_self h.not_blank, skipComment]
  split
  · next rest hrest => exact absurd hrest (h.not_comment rest)
  · rfl

theorem skipGap_comment {text : List Char} (h : '\n' ∉ text) (pos : Nat) (operandNext : Bool) :
    ∃ pos', skipGap ⟨'/' :: '/' :: text, pos, operandNext⟩ = ⟨[], pos', operandNext⟩ := by
  have hword : ∀ c ∈ '/' :: '/' :: text, (fun c => !(c == '\n')) c = true := by
    intro c hc
    have : c ≠ '\n' := by
      rintro rfl
      simp [h] at hc
    simp [this]
  have hspan : splitBefore (fun c _ => !!(c == '\n')) ('/' :: '/' :: text ++ []) = _ :=
    splitBefore_class hword (by simp)
  simp only [Bool.not_not, List.append_nil] at hspan
  rw [skipGap, skipBlanks_eq_self (by simp; rfl)]
  simp only [skipComment, readUntil, hspan]
  exact ⟨_, rfl⟩

/-! ### What each rule does to the lexer -/

section Steps
variable (pos : Nat)

theorem next_blank {c : Char} (h : isInlineBlank c = true) (rest : List Char)
    (operandNext : Bool) :
    next ⟨c :: rest, pos, operandNext⟩ = next ⟨rest, pos + 1, operandNext⟩ := by
  rw [next, next, skipGap, skipGap, skipBlanks_cons h]

theorem next_nil : next ⟨[], pos, false⟩ = (.ok ⟨.endOfInput, pos⟩, ⟨[], pos, false⟩) := rfl

theorem next_comment {text : List Char} (h : '\n' ∉ text) :
    ∃ pos', next ⟨'/' :: '/' :: text, pos, false⟩ =
      (.ok ⟨.endOfInput, pos'⟩, ⟨[], pos', false⟩) := by
  obtain ⟨pos', hgap⟩ := skipGap_comment h pos false
  exact ⟨pos', by rw [next, hgap]; rfl⟩

theorem next_atSign {rest : List Char} (h : atBoundary rest = false) :
    next ⟨'@' :: rest, pos, false⟩ = (.ok ⟨.atSign, pos⟩, ⟨rest, pos + 1, true⟩) := by
  rw [next, skipGap_eq_self (atToken_cons rfl (by decide) rest)]
  simp [h]

theorem next_punctuation {c : Char} {lexeme : Lexeme} (h : punctuation? c = some lexeme)
    (rest : List Char) :
    next ⟨c :: rest, pos, false⟩ = (.ok ⟨lexeme, pos⟩, ⟨rest, pos + 1, false⟩) := by
  have hc : isInlineBlank c = false ∧ c ≠ '/' ∧ c ≠ '@' := by
    unfold punctuation? at h
    split at h <;> first | decide | cases h
  rw [next, skipGap_eq_self (atToken_cons hc.1 hc.2.1 rest)]
  simp [hc.2.2, h]

theorem next_word {first : Char} {rest : List Char} (h : StartsWord first rest) :
    next ⟨first :: rest, pos, false⟩ = readWord first rest pos := by
  rw [next, skipGap_eq_self h.atToken]
  simp [h.not_at, h.not_punctuation]

theorem next_number {digits rest : List Char} (hne : digits ≠ [])
    (hdigits : ∀ c ∈ digits, isDigit c = true) (hend : atBoundary rest = true) :
    next ⟨digits ++ rest, pos, true⟩ =
      (.ok ⟨.number (String.ofList digits), pos⟩, ⟨rest, pos + digits.length, false⟩) := by
  have hsplit := splitBefore_class hdigits (head_of_atBoundary hend fun c h =>
    Bool.eq_false_iff.mpr fun hdigit => by simp [isBlank_of_isDigit hdigit] at h)
  cases digits with
  | nil => exact absurd rfl hne
  | cons first digits =>
    have hfirst := hdigits first (by simp)
    have hstart : AtToken (first :: digits ++ rest) :=
      atToken_cons (by simp [isInlineBlank, isBlank_of_isDigit hfirst])
        (by rintro rfl; exact absurd hfirst (by decide)) _
    rw [next, skipGap_eq_self hstart]
    simp only [if_true, readOperand, List.cons_append, hfirst, readUntil] at hsplit ⊢
    simp only [hsplit, readOperand.finish, hend, if_true]

theorem next_operand {first : Char} {name rest : List Char} (hfirst : isDigit first = false)
    (hname : ∀ c ∈ first :: name, isSymbolChar c = true) (hend : atBoundary rest = true) :
    next ⟨first :: name ++ rest, pos, true⟩ =
      (.ok ⟨.symbol (String.ofList (first :: name)), pos⟩,
        ⟨rest, pos + (first :: name).length, false⟩) := by
  have hsplit := splitBefore_class hname (head_of_atBoundary hend fun c h =>
    Bool.eq_false_iff.mpr fun hsymbol => by simp [isBlank_of_isSymbolChar hsymbol] at h)
  have hsymbol := hname first (by simp)
  have hstart : AtToken (first :: name ++ rest) :=
    atToken_cons (by simp [isInlineBlank, isBlank_of_isSymbolChar hsymbol])
      (by rintro rfl; exact absurd hsymbol (by decide)) _
  rw [next, skipGap_eq_self hstart]
  simp only [if_true, readOperand, List.cons_append, hfirst, hsymbol, readUntil,
    Bool.false_eq_true, if_false] at hsplit ⊢
  simp only [hsplit, readOperand.finish, hend, if_true]

theorem next_name {first : Char} {word rest : List Char}
    (hstart : StartsWord first (word ++ ')' :: rest))
    (hword : splitBefore endsWord (word ++ ')' :: rest) = (word, ')' :: rest))
    (hfirst : (isSymbolChar first && !isDigit first) = true) :
    next ⟨first :: (word ++ ')' :: rest), pos, false⟩ =
      (.ok ⟨.symbol (String.ofList (first :: word)), pos⟩,
        ⟨')' :: rest, pos + 1 + word.length, false⟩) := by
  rw [next_word pos hstart, readWord]
  simp only [readUntil, hword, List.head?_cons, if_true, hfirst]

theorem next_fragment {first : Char} {word rest : List Char}
    (hstart : StartsWord first (word ++ rest))
    (hword : splitBefore endsWord (word ++ rest) = (word, rest)) (hclose : rest.head? ≠ some ')') :
    next ⟨first :: (word ++ rest), pos, false⟩ =
      (.ok ⟨.fragment (String.ofList (first :: word)), pos⟩,
        ⟨rest, pos + 1 + word.length, false⟩) := by
  rw [next_word pos hstart, readWord]
  simp only [readUntil, hword, if_neg hclose]

end Steps

/-! ### The lexer finds what the rules derive -/

theorem Run.congr {first second : Cursor} {tokens : List Token} {outcome : Except LexError Nat}
    (hnext : first.next = second.next) (h : Run second tokens outcome) :
    Run first tokens outcome := by
  cases h with
  | done h => exact .done (hnext.trans h)
  | fault h => exact .fault (hnext.trans h)
  | token h hend hrest => exact .token (hnext.trans h) hend hrest

section Operand
variable {rest : List Char} {pos : Nat} {tokens : List Token} {outcome : Except LexError Nat}

theorem Run.number {digits : List Char} (hne : digits ≠ [])
    (hdigits : ∀ c ∈ digits, isDigit c = true) (hend : atBoundary rest = true)
    (h : Run ⟨rest, pos + 1 + digits.length, false⟩ tokens outcome) :
    Run ⟨'@' :: (digits ++ rest), pos, false⟩
      (⟨.atSign, pos⟩ :: ⟨.number (String.ofList digits), pos + 1⟩ :: tokens) outcome := by
  have hat : atBoundary (digits ++ rest) = false := by
    cases digits with
    | nil => exact absurd rfl hne
    | cons c digits => exact isBlank_of_isDigit (hdigits c (by simp))
  exact .token (next_atSign pos hat) (by simp)
    (.token (next_number (pos + 1) hne hdigits hend) (by simp) h)

theorem Run.operand {first : Char} {name : List Char} (hfirst : isDigit first = false)
    (hname : ∀ c ∈ first :: name, isSymbolChar c = true) (hend : atBoundary rest = true)
    (h : Run ⟨rest, pos + 1 + (first :: name).length, false⟩ tokens outcome) :
    Run ⟨'@' :: (first :: name ++ rest), pos, false⟩
      (⟨.atSign, pos⟩ :: ⟨.symbol (String.ofList (first :: name)), pos + 1⟩ :: tokens) outcome := by
  have hat : atBoundary (first :: name ++ rest) = false :=
    isBlank_of_isSymbolChar (hname first (by simp))
  exact .token (next_atSign pos hat) (by simp)
    (.token (next_operand (pos + 1) hfirst hname hend) (by simp) h)

end Operand

theorem run_of_reads {text : List Char} {line : List Lexeme} (h : Reads text line) (pos : Nat) :
    ∃ tokens last, Run ⟨text, pos, false⟩ tokens (.ok last) ∧ tokens.map (·.lexeme) = line := by
  induction h generalizing pos with
  | nil => exact ⟨[], pos, .done (next_nil pos), rfl⟩
  | @blank c rest line hblank _ ih =>
    obtain ⟨tokens, last, hrun, hline⟩ := ih (pos + 1)
    exact ⟨tokens, last, hrun.congr (next_blank pos hblank rest false), hline⟩
  | comment hline =>
    obtain ⟨last, hnext⟩ := next_comment pos hline
    exact ⟨[], last, .done hnext, rfl⟩
  | @number digits rest line hne hdigits hend _ ih =>
    obtain ⟨tokens, last, hrun, hline⟩ := ih (pos + 1 + digits.length)
    exact ⟨_, last, hrun.number hne hdigits hend, by simp [hline]⟩
  | @operand first name rest line hfirst hname hend _ ih =>
    obtain ⟨tokens, last, hrun, hline⟩ := ih (pos + 1 + (first :: name).length)
    exact ⟨_, last, hrun.operand hfirst hname hend, by simp [hline]⟩
  | @punctuation c lexeme rest line _ hc _ ih =>
    obtain ⟨tokens, last, hrun, hline⟩ := ih (pos + 1)
    exact ⟨_, last, .token (next_punctuation pos hc rest) (ne_endOfInput_of_punctuation? hc) hrun,
      by simp [hline]⟩
  | @name first word rest line hstart hword hfirst _ ih =>
    obtain ⟨tokens, last, hrun, hline⟩ := ih (pos + 1 + word.length)
    exact ⟨_, last, .token (next_name pos hstart hword hfirst) (by simp) hrun, by simp [hline]⟩
  | @fragment first word rest line hstart hword hclose _ ih =>
    obtain ⟨tokens, last, hrun, hline⟩ := ih (pos + 1 + word.length)
    exact ⟨_, last, .token (next_fragment pos hstart hword hclose) (by simp) hrun, by simp [hline]⟩

end Cursor

end HackAssembler.Source
