import HackAssembler.Proofs.Pieces
import HackAssembler.Proofs.Positions
import HackAssembler.Proofs.RenamedPrograms

/-! # Names spelled anew

A name is spelled anew where its token stands in the text. The texts around it read as before, since
no other token looks at a name further than to see that one begins. -/
namespace HackAssembler.Source

open Text

def beginsName (c : Char) : Bool :=
  c.isAlpha || c ∈ ['_', '$', '.', ':']

def isName (name : String) : Bool :=
  match name.toList with
  | [] => false
  | first :: rest => beginsName first && rest.all fun c => beginsName c || c.isDigit

theorem isAlpha_iff (c : Char) :
    c.isAlpha = true ↔ ('A' ≤ c ∧ c ≤ 'Z') ∨ ('a' ≤ c ∧ c ≤ 'z') := by
  have hupper : c.isUpper = decide ('A' ≤ c ∧ c ≤ 'Z') := rfl
  have hlower : c.isLower = (decide ('a' ≤ c) && decide (c ≤ 'z')) := rfl
  have halpha : c.isAlpha = (c.isUpper || c.isLower) := rfl
  rw [halpha, hupper, hlower, Bool.or_eq_true, Bool.and_eq_true, decide_eq_true_eq,
    decide_eq_true_eq, decide_eq_true_eq]

theorem isSymbolChar_eq (c : Char) : isSymbolChar c = (beginsName c || c.isDigit) := by
  rw [Bool.eq_iff_iff]
  simp only [isSymbolChar, isDigit, beginsName, Char.isDigit, List.mem_cons, List.not_mem_nil,
    or_false, Bool.or_eq_true, isAlpha_iff, Bool.and_eq_true, decide_eq_true_eq, beq_iff_eq,
    Char.le_def]
  tauto

theorem isDigit_of_beginsName {c : Char} (h : beginsName c = true) : isDigit c = false := by
  rw [Bool.eq_false_iff]
  intro hdigit
  simp only [beginsName, Bool.or_eq_true, isAlpha_iff, decide_eq_true_eq, List.mem_cons,
    List.not_mem_nil, or_false] at h
  simp only [isDigit, Bool.and_eq_true, decide_eq_true_eq, Char.le_def,
    UInt32.le_iff_toNat_le] at hdigit
  have hnine : ('9' : Char).val.toNat = 57 := rfl
  rcases h with (hupper | hlower) | rfl | rfl | rfl | rfl
  · have : 65 ≤ c.val.toNat := hupper.1
    omega
  · have : 97 ≤ c.val.toNat := hlower.1
    omega
  all_goals simp at hdigit

theorem exists_of_isName {name : String} (h : isName name = true) :
    ∃ first rest, name = String.ofList (first :: rest) ∧ isDigit first = false ∧
      ∀ c ∈ first :: rest, isSymbolChar c = true := by
  unfold isName at h
  split at h
  · cases h
  · next first rest hname =>
    rw [Bool.and_eq_true, List.all_eq_true] at h
    refine ⟨first, rest, by rw [← hname, String.ofList_toList], isDigit_of_beginsName h.1, ?_⟩
    rw [List.forall_mem_cons, isSymbolChar_eq, h.1]
    exact ⟨rfl, fun c hc => (isSymbolChar_eq c).trans (h.2 c hc)⟩

def Token.respell (new : String → String) (token : Token) (text : List Char) : List Char :=
  match token.lexeme with
  | .symbol name => text.take token.pos ++ (new name).toList ++ text.drop (token.pos + name.length)
  | _ => text

/-- Spells the names of a text anew. The last one comes first, so that the places of the others are
still theirs when it is their turn. -/
def respell (new : String → String) (tokens : List Token) (text : List Char) : List Char :=
  tokens.foldr (Token.respell new) text

inductive SameButNames : List Char → List Char → Prop
  | nil : SameButNames [] []
  | cons (c : Char) {rest rest' : List Char} (h : SameButNames rest rest') :
      SameButNames (c :: rest) (c :: rest')
  | name {first first' : Char} (hfirst : isSymbolChar first = true)
      (hfirst' : isSymbolChar first' = true) (word word' : List Char) {rest rest' : List Char}
      (h : SameButNames rest rest') :
      SameButNames (first :: word ++ rest) (first' :: word' ++ rest')

namespace SameButNames

variable {text text' rest rest' : List Char} {c : Char}

theorem append_left (word : List Char) (h : SameButNames rest rest') :
    SameButNames (word ++ rest) (word ++ rest') := by
  induction word with
  | nil => exact h
  | cons c word ih => exact .cons c ih

theorem refl (text : List Char) : SameButNames text text := by
  simpa using append_left text .nil

theorem symm (h : SameButNames text text') : SameButNames text' text := by
  induction h with
  | nil => exact .nil
  | cons c _ ih => exact .cons c ih
  | name hfirst hfirst' word word' _ ih => exact .name hfirst' hfirst word' word ih

theorem exists_cons (h : SameButNames (c :: rest) text') (hc : isSymbolChar c = false) :
    ∃ rest', text' = c :: rest' ∧ SameButNames rest rest' := by
  generalize htext : c :: rest = text at h
  cases h with
  | nil => cases htext
  | cons d h =>
    cases htext
    exact ⟨_, rfl, h⟩
  | name hfirst =>
    cases htext
    simp [hc] at hfirst

/-- What is not part of a name stands where it stood. -/
theorem head?_eq (h : SameButNames text text') (hc : isSymbolChar c = false)
    (hhead : text.head? = some c) : text'.head? = some c := by
  obtain ⟨rest, rfl⟩ := List.head?_eq_some_iff.mp hhead
  obtain ⟨rest', rfl, -⟩ := h.exists_cons hc
  rfl

theorem atBoundary_eq (h : SameButNames text text') : atBoundary text' = atBoundary text := by
  cases h with
  | nil => rfl
  | cons => rfl
  | name hfirst hfirst' =>
    exact (isBlank_of_isSymbolChar hfirst').trans (isBlank_of_isSymbolChar hfirst).symm

theorem isSymbolChar_of_endsWord {tail : List Char} (h : endsWord c tail = true) :
    isSymbolChar c = false := by
  simp only [endsWord, Bool.or_eq_true, Bool.and_eq_true, beq_iff_eq] at h
  rcases h with ((rfl | rfl) | hblank) | ⟨rfl, -⟩
  · rfl
  · rfl
  · exact Bool.eq_false_iff.mpr fun hsymbol => by simp [isBlank_of_isSymbolChar hsymbol] at hblank
  · rfl

theorem endsWord_eq (h : SameButNames rest rest') (c : Char) :
    endsWord c rest' = endsWord c rest := by
  rw [endsWord, endsWord, h.atBoundary_eq]

/-- A word ends in front of the same text with other names in it. -/
theorem splitBefore_eq (h : SameButNames rest rest') {word : List Char}
    (hword : splitBefore endsWord (word ++ rest) = (word, rest)) :
    splitBefore endsWord (word ++ rest') = (word, rest') := by
  induction word with
  | nil =>
    cases rest with
    | nil =>
      cases h
      rfl
    | cons c rest =>
      have hstop := (stop_of_splitBefore hword).2 c rest rfl
      obtain ⟨rest', rfl, hrest⟩ := h.exists_cons (isSymbolChar_of_endsWord hstop)
      rw [List.nil_append, splitBefore_cons, hrest.endsWord_eq, if_pos hstop]
  | cons c word ih =>
    rw [List.cons_append, splitBefore_cons] at hword ⊢
    rw [(h.append_left word).endsWord_eq]
    split at hword
    · simp at hword
    · next hgoes => rw [if_neg hgoes, ih (by simpa [Prod.ext_iff] using hword)]

theorem startsWord (h : SameButNames rest rest') (hstart : StartsWord c rest) :
    StartsWord c rest' where
  not_blank := hstart.not_blank
  not_at := hstart.not_at
  not_punctuation := hstart.not_punctuation
  not_comment hslash :=
    hstart.not_comment ⟨hslash.1, h.symm.head?_eq (by decide) hslash.2⟩

end SameButNames

theorem startsWord_of_isSymbolChar {c : Char} (h : isSymbolChar c = true) (rest : List Char) :
    StartsWord c rest where
  not_blank := isBlank_of_isSymbolChar h
  not_at := by rintro rfl; exact absurd h (by decide)
  not_punctuation := by
    unfold punctuation?
    split <;> first | exact absurd h (by decide) | rfl
  not_comment := by rintro ⟨rfl, -⟩; exact absurd h (by decide)

/-- With the names of the tokens spelled anew, a text that begins at `pos` is another text, whatever
stands around it. -/
def Respells (new : String → String) (pos : Nat) (text : List Char) (tokens : List Token)
    (text' : List Char) : Prop :=
  ∀ front behind, front.length = pos →
    respell new tokens (front ++ text ++ behind) = front ++ text' ++ behind

namespace Respells

variable {new : String → String} {pos : Nat} {text text' rest rest' : List Char}
  {tokens : List Token}

theorem copy (word : List Char) (h : Respells new (pos + word.length) rest tokens rest') :
    Respells new pos (word ++ rest) tokens (word ++ rest') := by
  intro front behind hfront
  simpa using h (front ++ word) behind (by simp [hfront])

theorem sign {token : Token} (hsign : ∀ name, token.lexeme ≠ .symbol name)
    (h : Respells new pos text tokens text') : Respells new pos text (token :: tokens) text' := by
  intro front behind hfront
  rw [respell, List.foldr_cons, ← respell, h front behind hfront, Token.respell]
  split
  · next name hname => exact absurd hname (hsign name)
  · rfl

theorem name (word : List Char) (h : Respells new (pos + word.length) rest tokens rest') :
    Respells new pos (word ++ rest) (⟨.symbol (String.ofList word), pos⟩ :: tokens)
      ((new (String.ofList word)).toList ++ rest') := by
  intro front behind hfront
  rw [respell, List.foldr_cons, ← respell, h.copy word front behind hfront]
  subst hfront
  simp [Token.respell, String.length_ofList]

theorem nil (new : String → String) (pos : Nat) (text : List Char) :
    Respells new pos text [] text := fun _ _ _ => rfl

theorem append {head : List Token} (h : Respells new pos text head text')
    (hrest : Respells new (pos + text.length) rest tokens rest') :
    Respells new pos (text ++ rest) (head ++ tokens) (text' ++ rest') := by
  intro front behind hfront
  have hcopy := hrest.copy text front behind hfront
  rw [respell] at hcopy
  rw [respell, List.foldr_append, hcopy]
  simpa [respell] using h front (rest' ++ behind) hfront

end Respells

/-- A name reads as a name if its parenthesis still ends a word where it stands. -/
theorem SameButNames.reads_name {first' : Char} {word word' rest rest' : List Char}
    {line : List Lexeme} (h : SameButNames rest rest')
    (hword : splitBefore endsWord (word ++ ')' :: rest) = (word, ')' :: rest))
    (hfirst' : isDigit first' = false) (hword' : ∀ c ∈ first' :: word', isSymbolChar c = true)
    (hreads : Reads (')' :: rest') line) :
    Reads (first' :: (word' ++ ')' :: rest'))
      (.symbol (String.ofList (first' :: word')) :: line) := by
  have hsymbol := hword' first' List.mem_cons_self
  have hgoes (c : Char) (hc : c ∈ word') (tail : List Char) : endsWord c tail = false := by
    refine Bool.eq_false_iff.mpr fun hends => ?_
    simpa [isSymbolChar_of_endsWord hends] using hword' c (List.mem_cons_of_mem first' hc)
  have hstops (c : Char) (tail : List Char) (hc : ')' :: rest' = c :: tail) :
      endsWord c tail = true := by
    cases hc
    rw [h.endsWord_eq]
    exact (stop_of_splitBefore hword).2 ')' rest rfl
  apply Reads.name (startsWord_of_isSymbolChar hsymbol _) (splitBefore_word hgoes hstops)
  · rw [hsymbol, hfirst']
    rfl
  · exact hreads

/-- From `pos` on, a text reads as a line, and with its names spelled anew as the line with new
names. That the two texts are alike carries the rules which look at what stands behind a word. -/
def Respelled (new : String → String) (pos : Nat) (text : List Char) (line : List Lexeme) : Prop :=
  ∃ tokens last text', Cursor.Run ⟨text, pos, false⟩ tokens (.ok last) ∧
    Respells new pos text tokens text' ∧ Reads text' (renameLine new line) ∧
    SameButNames text text'

namespace Respelled

variable {new : String → String} {pos : Nat} {first c : Char} {rest word : List Char}
  {line : List Lexeme}

theorem nil (new : String → String) (pos : Nat) : Respelled new pos [] [] :=
  ⟨[], pos, [], .done (Cursor.next_nil pos), .nil new pos [], .nil, .nil⟩

theorem blank (hblank : isInlineBlank c = true) (h : Respelled new (pos + 1) rest line) :
    Respelled new pos (c :: rest) line := by
  obtain ⟨tokens, last, rest', hrun, hrespells, hreads, hsame⟩ := h
  exact ⟨tokens, last, c :: rest', hrun.congr (Cursor.next_blank pos hblank rest false),
    hrespells.copy [c], .blank hblank hreads, .cons c hsame⟩

theorem comment (new : String → String) (pos : Nat) (hline : '\n' ∉ rest) :
    Respelled new pos ('/' :: '/' :: rest) [] := by
  obtain ⟨last, hnext⟩ := Cursor.next_comment pos hline
  exact ⟨[], last, _, .done hnext, .nil new pos _, .comment hline, .refl _⟩

theorem number (hne : word ≠ []) (hdigits : ∀ c ∈ word, isDigit c = true)
    (hend : atBoundary rest = true) (h : Respelled new (pos + 1 + word.length) rest line) :
    Respelled new pos ('@' :: (word ++ rest))
      (.atSign :: .number (String.ofList word) :: line) := by
  obtain ⟨tokens, last, rest', hrun, hrespells, hreads, hsame⟩ := h
  exact ⟨_, last, '@' :: (word ++ rest'), hrun.number hne hdigits hend,
    .sign (by simp) (.sign (by simp) ((hrespells.copy word).copy ['@'])),
    .number hne hdigits (hsame.atBoundary_eq.trans hend) hreads,
    (hsame.append_left word).cons '@'⟩

theorem operand (hfirst : isDigit first = false)
    (hname : ∀ c ∈ first :: word, isSymbolChar c = true) (hend : atBoundary rest = true)
    (hnew : isName (new (String.ofList (first :: word))) = true)
    (h : Respelled new (pos + 1 + (first :: word).length) rest line) :
    Respelled new pos ('@' :: (first :: word ++ rest))
      (.atSign :: .symbol (String.ofList (first :: word)) :: line) := by
  obtain ⟨tokens, last, rest', hrun, hrespells, hreads, hsame⟩ := h
  obtain ⟨first', word', hspelled, hfirst', hword'⟩ := exists_of_isName hnew
  have hrenamed := hrespells.name (first :: word)
  have hline : renameLine new (.atSign :: .symbol (String.ofList (first :: word)) :: line) =
      .atSign :: .symbol (String.ofList (first' :: word')) :: renameLine new line := by
    rw [← hspelled]
    rfl
  rw [hspelled, String.toList_ofList] at hrenamed
  refine ⟨_, last, '@' :: (first' :: word' ++ rest'), hrun.operand hfirst hname hend,
    .sign (by simp) (hrenamed.copy ['@']), ?_, .cons '@' ?_⟩
  · rw [hline]
    exact .operand hfirst' hword' (hsame.atBoundary_eq.trans hend) hreads
  · exact .name (hname first List.mem_cons_self) (hword' first' List.mem_cons_self) word word' hsame

theorem punctuation {lexeme : Lexeme} (hline : c ≠ '\n') (hc : punctuation? c = some lexeme)
    (h : Respelled new (pos + 1) rest line) : Respelled new pos (c :: rest) (lexeme :: line) := by
  obtain ⟨tokens, last, rest', hrun, hrespells, hreads, hsame⟩ := h
  have hsign : ∀ name, lexeme ≠ .symbol name := by
    rintro name rfl
    simpa using mem_of_punctuation? hline hc
  refine ⟨_, last, c :: rest', .token (Cursor.next_punctuation pos hc rest)
    (ne_endOfInput_of_punctuation? hc) hrun, .sign hsign (hrespells.copy [c]), ?_, .cons c hsame⟩
  rw [renameLine, List.map_cons, (Lexeme.rename_eq_iff hsign).mpr rfl]
  exact .punctuation hline hc hreads

theorem name (hstart : StartsWord first (word ++ ')' :: rest))
    (hword : splitBefore endsWord (word ++ ')' :: rest) = (word, ')' :: rest))
    (hfirst : (isSymbolChar first && !isDigit first) = true)
    (hnew : isName (new (String.ofList (first :: word))) = true)
    (h : Respelled new (pos + 1 + word.length) (')' :: rest) line) :
    Respelled new pos (first :: (word ++ ')' :: rest))
      (.symbol (String.ofList (first :: word)) :: line) := by
  obtain ⟨tokens, last, behind, hrun, hrespells, hreads, hsame⟩ := h
  obtain ⟨first', word', hspelled, hfirst', hword'⟩ := exists_of_isName hnew
  -- The parenthesis that ends the name is still there, and still in front of a boundary.
  obtain ⟨rest', rfl, hrest⟩ := hsame.exists_cons (by decide)
  have hlength : pos + 1 + word.length = pos + (first :: word).length := by
    rw [List.length_cons]
    omega
  have hrenamed := (hlength ▸ hrespells).name (first :: word)
  rw [hspelled, String.toList_ofList] at hrenamed
  have hsymbol : isSymbolChar first = true := (Bool.and_eq_true_iff.mp hfirst).1
  refine ⟨_, last, first' :: (word' ++ ')' :: rest'),
    .token (Cursor.next_name pos hstart hword hfirst) (by simp) hrun, hrenamed, ?_,
    .name hsymbol (hword' first' List.mem_cons_self) word word' hsame⟩
  rw [renameLine, List.map_cons, Lexeme.rename, hspelled]
  exact hrest.reads_name hword hfirst' hword' hreads

theorem fragment (hstart : StartsWord first (word ++ rest))
    (hword : splitBefore endsWord (word ++ rest) = (word, rest)) (hclose : rest.head? ≠ some ')')
    (h : Respelled new (pos + 1 + word.length) rest line) :
    Respelled new pos (first :: (word ++ rest))
      (.fragment (String.ofList (first :: word)) :: line) := by
  obtain ⟨tokens, last, rest', hrun, hrespells, hreads, hsame⟩ := h
  have hclose' : rest'.head? ≠ some ')' := fun hhead =>
    hclose (hsame.symm.head?_eq (by decide) hhead)
  refine ⟨_, last, first :: (word ++ rest'),
    .token (Cursor.next_fragment pos hstart hword hclose) (by simp) hrun,
    .sign (by simp) ((hrespells.copy word).copy [first]), ?_, hsame.append_left (first :: word)⟩
  exact .fragment ((hsame.append_left word).startsWord hstart) (hsame.splitBefore_eq hword)
    hclose' hreads

end Respelled

theorem Reads.respell {new : String → String} {text : List Char} {line : List Lexeme}
    (h : Reads text line) (hnew : ∀ name, .symbol name ∈ line → isName (new name) = true)
    (pos : Nat) : Respelled new pos text line := by
  have htail {head : Lexeme} {line : List Lexeme}
      (h : ∀ name, .symbol name ∈ head :: line → isName (new name) = true) :
      ∀ name, .symbol name ∈ line → isName (new name) = true :=
    fun name hname => h name (List.mem_cons_of_mem head hname)
  induction h generalizing pos with
  | nil => exact .nil new pos
  | blank hblank _ ih => exact .blank hblank (ih hnew _)
  | comment hline => exact .comment new pos hline
  | number hne hdigits hend _ ih => exact .number hne hdigits hend (ih (htail (htail hnew)) _)
  | operand hfirst hname hend _ ih =>
    have hspelled := htail hnew _ List.mem_cons_self
    exact .operand hfirst hname hend hspelled (ih (htail (htail hnew)) _)
  | punctuation hline hc _ ih => exact .punctuation hline hc (ih (htail hnew) _)
  | name hstart hword hfirst _ ih =>
    have hspelled := hnew _ List.mem_cons_self
    exact .name hstart hword hfirst hspelled (ih (htail hnew) _)
  | fragment hstart hword hclose _ ih => exact .fragment hstart hword hclose (ih (htail hnew) _)

/-- A text that can be read, with its names spelled anew, reads as its lines with new names. -/
theorem exists_respelled {new : String → String} {lines : List (List Char)}
    {read : List (List Lexeme)} (h : List.Forall₂ Reads lines read) (hne : lines ≠ [])
    (hnew : ∀ line ∈ read, ∀ name, .symbol name ∈ line → isName (new name) = true) (pos : Nat) :
    ∃ tokens last text', Cursor.Run ⟨unlines lines, pos, false⟩ tokens (.ok last) ∧
      Respells new pos (['\n'].intercalate lines) tokens text' ∧
      List.Forall₂ Reads (pieces text') (read.map (renameLine new)) := by
  induction h generalizing pos with
  | nil => exact absurd rfl hne
  | @cons text line lines read htext hlines ih =>
    obtain ⟨hline, hread⟩ := List.forall_mem_cons.mp hnew
    obtain ⟨head, last, text', hhead, hrespells, hreads, -⟩ := htext.respell hline pos
    obtain rfl : last = pos + text.length := hhead.within.2
    have hpieces : pieces text' = [text'] := by
      simpa using @pieces_intercalate [text'] (by simp) (by simpa using hreads.newline_not_mem)
    rw [unlines_cons]
    cases lines with
    | nil =>
      cases hlines
      refine ⟨_, _, text', hhead.extend_of_ok (.done (Cursor.next_nil _)), ?_, ?_⟩
      · simpa using hrespells.append (.sign (by simp) (.nil new _ []))
      · rw [hpieces]
        exact .cons hreads .nil
    | cons second lines =>
      obtain ⟨tokens, last, rest', hrun, hrest, hreads'⟩ :=
        ih (by simp) hread (pos + text.length + 1)
      refine ⟨_, _, text' ++ '\n' :: rest', hhead.extend_of_ok hrun, ?_, ?_⟩
      · rw [List.intercalate_cons_cons, List.append_assoc]
        exact hrespells.append (.sign (by simp) (hrest.copy ['\n']))
      · rw [pieces_append_newline, hpieces]
        exact .cons hreads hreads'

end HackAssembler.Source
