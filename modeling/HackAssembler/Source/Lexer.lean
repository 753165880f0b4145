import HackAssembler.Source.Token
import HackAssembler.Text.Character
import HackAssembler.Text.Split

/-! # Lexing

A lexer reads a source one token at a time. A newline is put behind the source, so that its
last line ends too. After an `@` the next token is read as an operand, which is a number or a
symbol; elsewhere a word is a symbol if a parenthesis closes it and a fragment otherwise.

A token that is not the end of the input uses up at least one character
(`Cursor.next_rest_length`), which bounds the reading of a whole source. -/
namespace HackAssembler.Source

open Text

/-- The character that no token can begin or go on with, and its offset. -/
structure LexError where
  found : Option Char
  pos : Nat
  deriving DecidableEq

def LexError.message (error : LexError) : String :=
  let found :=
    match error.found with
    | some c => "character " ++ quoteChar c
    | none => "end of input"
  s!"Unexpected {found} at position {error.pos}"

def isDigit (c : Char) : Bool :=
  '0' ≤ c && c ≤ '9'

def isSymbolChar (c : Char) : Bool :=
  isDigit c || ('a' ≤ c && c ≤ 'z') || ('A' ≤ c && c ≤ 'Z') || c == '_' || c == '$' || c == '.' ||
    c == ':'

/-- Words end at a blank and at the end of the source. -/
def atBoundary : List Char → Bool
  | [] => true
  | c :: _ => isBlank c

/-- A closing parenthesis ends a word only at a boundary. -/
def endsWord (c : Char) (rest : List Char) : Bool :=
  c == '=' || c == ';' || isBlank c || (c == ')' && atBoundary rest)

def punctuation? : Char → Option Lexeme
  | '\n' => some .newline
  | '=' => some .equal
  | ';' => some .semicolon
  | '(' => some .openParen
  | ')' => some .closeParen
  | _ => none

/-- A place in the source: what is still to be read, how many characters have been read, and
whether the operand of an `@` comes next. -/
structure Cursor where
  rest : List Char
  pos : Nat
  operandNext : Bool
  deriving DecidableEq

namespace Cursor

/-- Reads up to the first character at which `stop` holds. -/
def readUntil (stop : Char → List Char → Bool) (cursor : Cursor) : List Char × Cursor :=
  let (word, rest) := splitBefore stop cursor.rest
  (word, { cursor with rest, pos := cursor.pos + word.length })

def skipBlanks (cursor : Cursor) : Cursor :=
  (cursor.readUntil fun c _ => !isInlineBlank c).2

/-- A comment reaches to the end of its line. -/
def skipComment (cursor : Cursor) : Cursor :=
  match cursor.rest with
  | '/' :: '/' :: _ => (cursor.readUntil fun c _ => c == '\n').2
  | _ => cursor

def skipGap (cursor : Cursor) : Cursor :=
  cursor.skipBlanks.skipComment

/-- Reads a number or a symbol, whichever the first character belongs to, up to a boundary. -/
def readOperand (cursor : Cursor) : Except LexError Token × Cursor :=
  match cursor.rest with
  | [] => (.error ⟨none, cursor.pos⟩, cursor)
  | c :: _ =>
    if isDigit c then
      finish (fun digits => .number digits) (cursor.readUntil fun c _ => !isDigit c)
    else if isSymbolChar c then
      finish (fun name => .symbol name) (cursor.readUntil fun c _ => !isSymbolChar c)
    else (.error ⟨some c, cursor.pos⟩, cursor)
where
  finish (lexeme : String → Lexeme) : List Char × Cursor → Except LexError Token × Cursor
    | (word, after) =>
      if atBoundary after.rest then (.ok ⟨lexeme (String.ofList word), cursor.pos⟩, after)
      else (.error ⟨after.rest.head?, after.pos⟩, after)

/-- Reads a word, whose first character may be any. -/
def readWord (first : Char) (rest : List Char) (pos : Nat) : Except LexError Token × Cursor :=
  match (Cursor.mk rest (pos + 1) false).readUntil endsWord with
  | (word, after) =>
    let text := String.ofList (first :: word)
    if after.rest.head? = some ')' then
      if isSymbolChar first && !isDigit first then (.ok ⟨.symbol text, pos⟩, after)
      else (.error ⟨some first, pos⟩, after)
    else (.ok ⟨.fragment text, pos⟩, after)

/-- The next token, or the fault in its place, and where reading goes on. -/
def next (cursor : Cursor) : Except LexError Token × Cursor :=
  let start := cursor.skipGap
  if start.operandNext then readOperand { start with operandNext := false }
  else
    match start.rest with
    | [] => (.ok ⟨.endOfInput, start.pos⟩, start)
    | c :: rest =>
      if c = '@' then
        if atBoundary rest then (.error ⟨rest.head?, start.pos + 1⟩, start)
        else (.ok ⟨.atSign, start.pos⟩, ⟨rest, start.pos + 1, true⟩)
      else
        match punctuation? c with
        | some lexeme => (.ok ⟨lexeme, start.pos⟩, ⟨rest, start.pos + 1, false⟩)
        | none => readWord c rest start.pos

theorem readUntil_rest_length (stop : Char → List Char → Bool) (cursor : Cursor) :
    (cursor.readUntil stop).2.rest.length ≤ cursor.rest.length := by
  have := @splitBefore_length stop cursor.rest
  simp only [readUntil]
  omega

theorem readUntil_rest_length_lt {stop : Char → List Char → Bool} {c : Char} {rest : List Char}
    {cursor : Cursor} (hrest : cursor.rest = c :: rest) (hstop : stop c rest = false) :
    (cursor.readUntil stop).2.rest.length < cursor.rest.length := by
  have := @splitBefore_length stop rest
  simp only [readUntil, hrest, splitBefore_cons, hstop, List.length_cons]
  simp only [Bool.false_eq_true, if_false]
  omega

theorem skipGap_rest_length (cursor : Cursor) :
    cursor.skipGap.rest.length ≤ cursor.rest.length := by
  have h := readUntil_rest_length (fun c _ => !isInlineBlank c) cursor
  unfold skipGap skipComment
  split
  · exact Nat.le_trans (readUntil_rest_length _ _) h
  · exact h

theorem readOperand_rest_length {cursor after : Cursor} {token : Token}
    (h : cursor.readOperand = (.ok token, after)) : after.rest.length < cursor.rest.length := by
  unfold readOperand at h
  split at h
  · simp at h
  · rename_i c rest hrest
    have finish_ok : ∀ {lexeme : String → Lexeme} {read : List Char × Cursor},
        readOperand.finish cursor lexeme read = (.ok token, after) → after = read.2 := by
      intro lexeme read hread
      unfold readOperand.finish at hread
      split at hread
      split at hread <;> simp_all
    split at h
    · next hdigit =>
      rw [finish_ok h]
      exact readUntil_rest_length_lt hrest (by simp [hdigit])
    · split at h
      · next hsymbol =>
        rw [finish_ok h]
        exact readUntil_rest_length_lt hrest (by simp [hsymbol])
      · simp at h

theorem readWord_rest_length (first : Char) (rest : List Char) (pos : Nat) :
    (readWord first rest pos).2.rest.length ≤ rest.length := by
  have := readUntil_rest_length endsWord ⟨rest, pos + 1, false⟩
  unfold readWord
  dsimp only at this ⊢
  split
  · split <;> exact this
  · exact this

theorem next_rest_length {cursor after : Cursor} {token : Token}
    (h : cursor.next = (.ok token, after)) (hend : token.lexeme ≠ .endOfInput) :
    after.rest.length < cursor.rest.length := by
  have hgap := skipGap_rest_length cursor
  unfold next at h
  dsimp only at h
  split at h
  · exact Nat.lt_of_lt_of_le (readOperand_rest_length h) hgap
  · split at h
    · simp only [Prod.mk.injEq, Except.ok.injEq] at h
      exact absurd (h.1 ▸ rfl) hend
    · rename_i c rest hrest
      rw [hrest, List.length_cons] at hgap
      split at h
      · split at h
        · simp at h
        · simp only [Prod.mk.injEq] at h
          rw [← h.2]
          exact hgap
      · split at h
        · simp only [Prod.mk.injEq] at h
          rw [← h.2]
          exact hgap
        · have := readWord_rest_length c rest cursor.skipGap.pos
          rw [h] at this
          exact Nat.lt_of_le_of_lt this hgap

/-- All tokens that can be read, up to the end of the input or to a fault. -/
def scan (cursor : Cursor) : List Token × Option LexError :=
  go [] cursor
where
  go (seen : List Token) (cursor : Cursor) : List Token × Option LexError :=
    match _h : cursor.next with
    | (.error error, _) => (seen.reverse, some error)
    | (.ok token, after) =>
      if _hend : token.lexeme = .endOfInput then ((token :: seen).reverse, none)
      else go (token :: seen) after
  termination_by cursor.rest.length
  decreasing_by exact next_rest_length ‹_› ‹_›

theorem scan_go (seen : List Token) (cursor : Cursor) :
    scan.go seen cursor = (seen.reverse ++ (scan cursor).1, (scan cursor).2) := by
  induction hn : cursor.rest.length using Nat.strongRecOn generalizing seen cursor with
  | ind n ih =>
    subst hn
    rw [scan, scan.go, scan.go]
    split
    · simp
    · next token after hnext =>
      split
      · simp
      · next hend =>
        have hlt := next_rest_length hnext hend
        rw [ih _ hlt _ _ rfl, ih _ hlt [token] _ rfl]
        simp

theorem scan_of_error {cursor after : Cursor} {error : LexError}
    (h : cursor.next = (.error error, after)) : cursor.scan = ([], some error) := by
  rw [scan, scan.go]
  split <;> simp_all

theorem scan_of_end {cursor after : Cursor} {pos : Nat}
    (h : cursor.next = (.ok ⟨.endOfInput, pos⟩, after)) :
    cursor.scan = ([⟨.endOfInput, pos⟩], none) := by
  rw [scan, scan.go]
  split <;> simp_all

theorem scan_of_token {cursor after : Cursor} {token : Token}
    (h : cursor.next = (.ok token, after)) (hend : token.lexeme ≠ .endOfInput) :
    cursor.scan = (token :: after.scan.1, after.scan.2) := by
  rw [scan, scan.go]
  split
  · simp_all
  · next token' after' hnext =>
    rw [h, Prod.mk.injEq, Except.ok.injEq] at hnext
    obtain ⟨rfl, rfl⟩ := hnext
    rw [dif_neg hend, scan_go]
    rfl

end Cursor

/-- A source together with the place that reading has reached. -/
structure Lexer where
  source : List Char
  cursor : Cursor
  deriving DecidableEq

namespace Lexer

def start (source : List Char) : Cursor :=
  ⟨source, 0, false⟩

def ofString (code : String) : Lexer :=
  let source := code.toList ++ ['\n']
  ⟨source, start source⟩

def next (lexer : Lexer) : Except LexError Token × Lexer :=
  let (result, cursor) := lexer.cursor.next
  (result, { lexer with cursor })

def reset (lexer : Lexer) : Lexer :=
  { lexer with cursor := start lexer.source }

/-- The tokens from here to the end of the input, which is the last of them. -/
def tokens (lexer : Lexer) : Except LexError (List Token) :=
  match lexer.cursor.scan with
  | (tokens, none) => .ok tokens
  | (_, some error) => .error error

end Lexer

end HackAssembler.Source
