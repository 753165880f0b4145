import HackAssembler.Proofs.Radixes
import HackAssembler.Yaml.Key
import Mathlib.Data.List.Basic

/-! # Where quoted keys end

A key between quotes, or in a block, is told apart from every other such key by what is written of
it, whatever follows: each character is read off the front, and the end is no character. -/
namespace HackAssembler.Yaml

open Text

/-! ### Words behind one another -/

/-- Words that are read off the front of a text, and the texts that no word begins. -/
structure Separable {α : Type} (word : α → List Char) (Ends : List Char → Prop) : Prop where
  first : ∀ {a b : α} {rest rest' : List Char}, word a ++ rest = word b ++ rest' → a = b
  not_ends : ∀ (a : α) (rest : List Char), ¬ Ends (word a ++ rest)

theorem Separable.eq_of_append {α : Type} {word : α → List Char} {Ends : List Char → Prop}
    (hword : Separable word Ends) {as bs : List α} {rest rest' : List Char} (hrest : Ends rest)
    (hrest' : Ends rest') (h : as.flatMap word ++ rest = bs.flatMap word ++ rest') : as = bs := by
  induction as generalizing bs with
  | nil =>
    cases bs with
    | nil => rfl
    | cons b bs =>
      rw [List.flatMap_nil, List.nil_append, List.flatMap_cons, List.append_assoc] at h
      rw [h] at hrest
      exact absurd hrest (hword.not_ends b _)
  | cons a as ih =>
    rw [List.flatMap_cons, List.append_assoc] at h
    cases bs with
    | nil =>
      rw [List.flatMap_nil, List.nil_append] at h
      rw [← h] at hrest'
      exact absurd hrest' (hword.not_ends a _)
    | cons b bs =>
      rw [List.flatMap_cons, List.append_assoc] at h
      have hfirst : a = b := hword.first h
      rw [hfirst, List.append_cancel_left_eq] at h
      rw [hfirst, ih h]

/-- A line is all that stands in front of its newline. -/
theorem eq_of_append_newline {line line' rest rest' : List Char} (hline : '\n' ∉ line)
    (hline' : '\n' ∉ line') (h : line ++ '\n' :: rest = line' ++ '\n' :: rest') :
    line = line' ∧ rest = rest' := by
  have hcut := congrArg (List.splitOn '\n') h
  rw [List.splitOn_append_cons_self_of_not_mem hline,
    List.splitOn_append_cons_self_of_not_mem hline', List.cons.injEq] at hcut
  rw [hcut.1, List.append_cancel_left_eq, List.cons_inj_right] at h
  exact ⟨hcut.1, h⟩

/-! ### Double quotes -/

def escapedBy : Char → Char
  | '0' => '\x00'
  | 'a' => '\x07'
  | 'b' => '\x08'
  | 't' => '\t'
  | 'n' => '\n'
  | 'v' => '\x0b'
  | 'f' => '\x0c'
  | 'r' => '\r'
  | 'e' => '\x1b'
  | 'N' => '\u0085'
  | 'L' => '\u2028'
  | 'P' => '\u2029'
  | c => c

def ofCodePoint? (digits : List Char) : Option Char :=
  (numeralValue? 16 digits).map Char.ofNat

def unescape? : List Char → Option Char
  | '\\' :: 'x' :: rest => ofCodePoint? (rest.take 2)
  | '\\' :: 'u' :: rest => ofCodePoint? (rest.take 4)
  | '\\' :: 'U' :: rest => ofCodePoint? (rest.take 8)
  | '\\' :: letter :: _ => some (escapedBy letter)
  | text => text.head?

theorem unescape?_of_ne {c : Char} (h : c ≠ '\\') (rest : List Char) :
    unescape? (c :: rest) = some c := by
  unfold unescape?
  split <;> simp_all

theorem ofCodePoint?_hexadecimal {width : Nat} {c : Char} (hwidth : 0 < width)
    (h : c.toNat < 16 ^ width) (rest : List Char) :
    ofCodePoint? (((hexadecimal width c.toNat).toList ++ rest).take width) = some c := by
  have hlength := length_hexadecimal hwidth h
  rw [← String.length_toList] at hlength
  rw [List.take_append_of_le_length (Nat.le_of_eq hlength.symm),
    List.take_of_length_le (Nat.le_of_eq hlength), ofCodePoint?,
    (isHexadecimal_hexadecimal hwidth c.toNat).value, Option.map_some, Char.ofNat_toNat]

theorem toNat_lt (c : Char) : c.toNat < 16 ^ 8 := by
  have hvalid : c.toNat < 0xD800 ∨ 0xDFFF < c.toNat ∧ c.toNat < 0x110000 := c.valid
  omega

theorem unescape?_escape (c : Char) (rest : List Char) :
    unescape? ((escape c).toList ++ rest) = some c := by
  fun_cases escape c
  case case15 hbackslash _ _ _ hprintable =>
    rw [Char.toString, String.toList_singleton]
    exact unescape?_of_ne hbackslash rest
  case case16 _ hcode =>
    rw [String.toList_append]
    exact ofCodePoint?_hexadecimal (by decide) (Nat.lt_succ_of_le hcode) rest
  case case17 _ _ hcode =>
    rw [String.toList_append]
    exact ofCodePoint?_hexadecimal (by decide) (Nat.lt_succ_of_le hcode) rest
  case case18 =>
    rw [String.toList_append]
    exact ofCodePoint?_hexadecimal (by decide) (toNat_lt c) rest
  -- The characters that have a letter of their own.
  all_goals rfl

theorem separable_escape :
    Separable (fun c => (escape c).toList) fun text => text.head? = some '"' where
  first {a b rest rest'} h := by
    have hread := congrArg unescape? h
    simpa only [unescape?_escape, Option.some.injEq] using hread
  not_ends c rest hquote := by
    obtain ⟨behind, hbehind⟩ := List.head?_eq_some_iff.mp hquote
    have hread := unescape?_escape c rest
    rw [hbehind, unescape?_of_ne (by decide), Option.some.injEq] at hread
    -- A quote in the key is written with a backslash in front of it.
    rw [← hread] at hbehind
    cases hbehind

theorem eq_of_doubleQuoted_append {key key' rest rest' : List Char}
    (h : doubleQuoted key ++ rest = doubleQuoted key' ++ rest') : key = key' := by
  simp only [doubleQuoted, List.cons_append, List.append_assoc, List.cons_inj_right,
    List.nil_append] at h
  exact separable_escape.eq_of_append rfl rfl h

/-! ### Indentation -/

theorem indented_go_eq (written : List Char) (atLineStart : Bool) (key : List Char) :
    indented.go written atLineStart key = written.reverse ++ indented.go [] atLineStart key := by
  induction key generalizing written atLineStart with
  | nil => simp [indented.go]
  | cons c rest ih =>
    rw [indented.go, indented.go]
    split
    · rw [ih, ih [c], List.reverse_cons, List.append_assoc]
      rfl
    · split
      · rw [ih, ih [c, ' ', ' ']]
        simp
      · rw [ih, ih [c], List.reverse_cons, List.append_assoc]
        rfl

/-- Lines are set in, but empty lines stay empty. -/
theorem indented_cons (atLineStart : Bool) (c : Char) (rest : List Char) :
    indented atLineStart (c :: rest) =
      (if atLineStart && !isBreak c then [' ', ' '] else []) ++
        c :: indented (isBreak c) rest := by
  rw [indented, indented.go]
  by_cases hbreak : isBreak c
  · rw [if_pos hbreak, indented_go_eq]
    simp [hbreak, indented]
  · rw [if_neg hbreak, indented_go_eq, indented_go_eq [c]]
    cases atLineStart <;> simp [hbreak, indented]

/-- Takes the indentation out again, up to the first line that is not set in. -/
def unindented : Bool → List Char → List Char
  | true, ' ' :: ' ' :: c :: rest => c :: unindented false rest
  | true, c :: rest => if isBreak c then c :: unindented true rest else []
  | false, c :: rest => c :: unindented (isBreak c) rest
  | _, [] => []

theorem unindented_start (atLineStart : Bool) (c : Char) (text : List Char) :
    unindented atLineStart ((if atLineStart && !isBreak c then [' ', ' '] else []) ++ c :: text) =
      c :: unindented (isBreak c) text := by
  by_cases hbreak : isBreak c
  · have hspace : c ≠ ' ' := by
      rintro rfl
      revert hbreak
      decide
    cases atLineStart
    · simp [unindented]
    · simp [unindented, hbreak, hspace]
  · cases atLineStart <;> simp [unindented, hbreak]

def endsLine (atLineStart : Bool) (text : List Char) : Bool :=
  text.getLast?.elim atLineStart isBreak

theorem endsLine_cons (atLineStart : Bool) (c : Char) (text : List Char) :
    endsLine atLineStart (c :: text) = endsLine (isBreak c) text := by
  rw [endsLine, endsLine, List.getLast?_cons]
  cases text.getLast? <;> rfl

theorem endsLine_concat (atLineStart : Bool) (text : List Char) (c : Char) :
    endsLine atLineStart (text ++ [c]) = isBreak c := by
  simp [endsLine]

theorem unindented_indented_append (atLineStart : Bool) (text rest : List Char) :
    unindented atLineStart (indented atLineStart text ++ rest) =
      text ++ unindented (endsLine atLineStart text) rest := by
  induction text generalizing atLineStart with
  | nil => rfl
  | cons c text ih =>
    rw [indented_cons, List.append_assoc, List.cons_append, unindented_start, ih, endsLine_cons]
    rfl

/-! ### Single quotes -/

def quoted (c : Char) : List Char :=
  if c == '\'' then ['\'', '\''] else [c]

/-- The quote that ends a key is the one that no second quote follows. -/
theorem separable_quoted :
    Separable quoted fun text => ∃ rest, text = '\'' :: rest ∧ rest.head? ≠ some '\'' where
  first {a b rest rest'} h := by
    by_cases ha : a = '\'' <;> by_cases hb : b = '\'' <;> simp_all [quoted]
    simp_all [eq_comm]
  not_ends c rest := by
    rintro ⟨behind, htext, hbehind⟩
    by_cases hc : c = '\''
    · rw [quoted, if_pos (beq_iff_eq.mpr hc), List.cons_append, List.cons_inj_right] at htext
      rw [← htext] at hbehind
      exact hbehind rfl
    · rw [quoted, if_neg (by simpa using hc), List.cons_append, List.cons.injEq] at htext
      exact hc htext.1

theorem endsLine_quoted (key : List Char) :
    endsLine false (key.flatMap quoted) = key.getLast?.any isBreak := by
  rcases List.eq_nil_or_concat' key with rfl | ⟨front, last, rfl⟩
  · rfl
  have hquoted : ∃ before, quoted last = before ++ [last] := by
    by_cases hlast : last = '\''
    · exact ⟨['\''], by simp [quoted, hlast]⟩
    · exact ⟨[], by simp [quoted, hlast]⟩
  obtain ⟨before, hbefore⟩ := hquoted
  rw [List.flatMap_append, List.flatMap_singleton, hbefore, ← List.append_assoc, endsLine_concat]
  simp

/-- The gap in front of the closing quote is the indentation of the line that it stands on. -/
theorem unindented_singleQuoted (key rest : List Char) :
    unindented false (singleQuoted key ++ rest).tail =
      key.flatMap quoted ++ '\'' :: unindented false rest := by
  have hgap : (if key.getLast?.any isBreak then [' ', ' '] else []) =
      if endsLine false (key.flatMap quoted) && !isBreak '\'' then [' ', ' '] else [] := by
    rw [endsLine_quoted, show isBreak '\'' = false by decide, Bool.not_false, Bool.and_true]
  have hbody : singleQuoted key ++ rest = '\'' :: (indented false (key.flatMap quoted) ++
      ((if key.getLast?.any isBreak then [' ', ' '] else []) ++ '\'' :: rest)) := by
    simp only [singleQuoted, List.cons_append, List.append_assoc, List.nil_append]
    rfl
  rw [hbody, List.tail_cons, unindented_indented_append, hgap, unindented_start]
  rfl

theorem eq_of_singleQuoted_append {key key' rest rest' : List Char}
    (hrest : rest.head? ≠ some '\'') (hrest' : rest'.head? ≠ some '\'')
    (h : singleQuoted key ++ rest = singleQuoted key' ++ rest') : key = key' := by
  have hhead (rest : List Char) : (unindented false rest).head? = rest.head? := by
    cases rest <;> rfl
  have hread := congrArg (fun text => unindented false text.tail) h
  simp only [unindented_singleQuoted] at hread
  exact separable_quoted.eq_of_append ⟨_, rfl, by rwa [hhead]⟩ ⟨_, rfl, by rwa [hhead]⟩ hread

/-! ### Blocks -/

/-- The newline behind a block that does not end with a break of its own. -/
def blockEnd (key : List Char) : List Char :=
  if key.getLast?.any isBreak then [] else ['\n']

/-- The header of a block says whether the newline behind the block belongs to it. -/
theorem exists_literalHeader (key : List Char) :
    ∃ hints, literalHeader key = '|' :: hints ++ ['\n'] ∧ '\n' ∉ hints ∧
      ('-' ∈ hints ↔ key.getLast?.any isBreak = false) := by
  have hlast : key.getLast? = key.reverse.head? := List.head?_reverse.symm
  rw [hlast, literalHeader]
  generalize key.reverse = backwards
  generalize (key.head?.any fun c => isSpace c || isBreak c) = hidden
  refine ⟨_, rfl, ?_⟩
  rcases backwards with _ | ⟨last, _ | ⟨previous, before⟩⟩
  · cases hidden <;> simp
  · cases hidden <;> by_cases hbreak : isBreak last <;> simp [hbreak]
  · cases hidden <;> by_cases hbreak : isBreak last <;>
      by_cases hprevious : isBreak previous <;> simp [hbreak, hprevious]

/-- A colon at the start of a line is the first character that does not belong to a block. -/
theorem unindented_literal {key : List Char} (hkey : key ≠ []) (rest : List Char) :
    unindented true (indented true key ++ (blockEnd key ++ ':' :: rest)) =
      key ++ blockEnd key := by
  have hends : endsLine true key = key.getLast?.any isBreak := by
    rw [endsLine, List.getLast?_eq_some_getLast hkey]
    rfl
  have hstop : unindented true (':' :: rest) = [] := by
    simp [unindented, isBreak]
  rw [unindented_indented_append, hends, blockEnd]
  by_cases hlast : key.getLast?.any isBreak
  · rw [if_pos hlast, hlast, List.nil_append, hstop]
  · have hnewline : isBreak '\n' = true := by decide
    rw [if_neg hlast, Bool.eq_false_of_not_eq_true hlast, List.cons_append, List.nil_append,
      unindented, hnewline, hstop]

theorem eq_of_literal_append {key key' rest rest' : List Char} (hkey : key ≠ [])
    (hkey' : key' ≠ [])
    (h : literalHeader key ++ (indented true key ++ (blockEnd key ++ ':' :: rest)) =
      literalHeader key' ++ (indented true key' ++ (blockEnd key' ++ ':' :: rest'))) :
    key = key' := by
  obtain ⟨hints, hheader, hnewline, hdash⟩ := exists_literalHeader key
  obtain ⟨hints', hheader', hnewline', hdash'⟩ := exists_literalHeader key'
  simp only [hheader, hheader', List.append_assoc, List.cons_append, List.cons_inj_right,
    List.nil_append] at h
  obtain ⟨hhints, hblock⟩ := eq_of_append_newline hnewline hnewline' h
  have hend : blockEnd key = blockEnd key' := by
    rw [hhints, hdash', ← Bool.not_eq_true, ← Bool.not_eq_true, not_iff_not] at hdash
    simp only [blockEnd, hdash]
  have hread := congrArg (unindented true) hblock
  rw [unindented_literal hkey, unindented_literal hkey', hend] at hread
  exact List.append_cancel_right hread

end HackAssembler.Yaml
