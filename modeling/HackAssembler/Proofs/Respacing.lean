import HackAssembler.Proofs.Gaps
import HackAssembler.Proofs.SecondReading

/-! # Blanks around signs

Around the signs of a computation, blanks can be put or dropped: the line reads as the same
lexemes. Elsewhere this is not so. A parenthesis ends a word only in front of a blank, and an
operand is one only in front of a blank. -/
namespace HackAssembler

namespace Source

open Text

def Blanks (text : List Char) : Prop :=
  ∀ c ∈ text, isInlineBlank c = true

instance (text : List Char) : Decidable (Blanks text) :=
  decidable_of_iff (text.all isInlineBlank = true) List.all_eq_true

def IsSign (c : Char) : Prop :=
  c = '=' ∨ c = ';'

theorem Reads.of_blank {c : Char} {rest : List Char} {line : List Lexeme}
    (hc : isInlineBlank c = true) (h : Reads (c :: rest) line) : Reads rest line := by
  cases h with
  | blank _ hrest => exact hrest
  | comment => exact absurd hc (by decide)
  | number => exact absurd hc (by decide)
  | operand => exact absurd hc (by decide)
  | punctuation hline hsign =>
    unfold punctuation? at hsign
    split at hsign <;> first | exact absurd hc (by decide) | cases hsign
  | name hstart => simp [isInlineBlank, hstart.not_blank] at hc
  | fragment hstart => simp [isInlineBlank, hstart.not_blank] at hc

theorem reads_blanks_append_iff {blanks rest : List Char} {line : List Lexeme}
    (hblanks : Blanks blanks) : Reads (blanks ++ rest) line ↔ Reads rest line := by
  induction blanks with
  | nil => rfl
  | cons c blanks ih =>
    obtain ⟨hc, hblanks⟩ := List.forall_mem_cons.mp hblanks
    rw [List.cons_append, ← ih hblanks]
    exact ⟨Reads.of_blank hc, .blank hc⟩

/-- What is written with words and signs alone, and has no parenthesis in a word. -/
def Lexeme.IsWordOrSign : Lexeme → Prop
  | .equal | .semicolon => True
  | .fragment word => ')' ∉ word.toList
  | _ => False

theorem endsWord_of_ne {c : Char} (h : c ≠ ')') (tail tail' : List Char) :
    endsWord c tail = endsWord c tail' := by
  have hc : (c == ')') = false := by simpa using h
  simp [endsWord, hc]

/-- Blanks and signs stand between words, and belong to none. -/
def StandsBetween (c : Char) : Prop :=
  isInlineBlank c = true ∨ IsSign c

namespace StandsBetween

variable {c : Char} (h : StandsBetween c)
include h

theorem endsWord (tail : List Char) : endsWord c tail = true := by
  rcases h with hblank | rfl | rfl
  · simp only [isInlineBlank, Bool.and_eq_true] at hblank
    simp [Source.endsWord, hblank.2]
  · rfl
  · rfl

theorem ne {d : Char} (hblank : isInlineBlank d = false) (hsign : ¬IsSign d) : c ≠ d := by
  rintro rfl
  rcases h with h | h
  · simp [h] at hblank
  · exact hsign h

theorem not_startsWord (tail : List Char) : ¬StartsWord c tail := by
  intro hstart
  rcases h with hblank | rfl | rfl
  · simp [isInlineBlank, hstart.not_blank] at hblank
  · cases hstart.not_punctuation
  · cases hstart.not_punctuation

end StandsBetween

/-- A word without a parenthesis is the same word in front of a text that begins in the same way, or
with something that stands between words. -/
theorem StartsWord.reads {first : Char} {word rest rest' : List Char} {line : List Lexeme}
    (hstart : StartsWord first (word ++ rest))
    (hword : splitBefore endsWord (word ++ rest) = (word, rest)) (hclose : rest.head? ≠ some ')')
    (hinside : ')' ∉ first :: word)
    (hhead : rest'.head? = rest.head? ∨ ∃ c ∈ rest'.head?, StandsBetween c)
    (hrest : Reads rest' line) :
    Reads (first :: (word ++ rest')) (.fragment (String.ofList (first :: word)) :: line) := by
  obtain ⟨hgoes, hstops⟩ := stop_of_splitBefore hword
  refine .fragment ⟨hstart.not_blank, hstart.not_at, hstart.not_punctuation, ?_⟩
    (splitBefore_word ?_ ?_) ?_ hrest
  · rintro ⟨rfl, hslash⟩
    cases word with
    | cons d word => exact hstart.not_comment ⟨rfl, hslash⟩
    | nil =>
      rcases hhead with hhead | ⟨c, hc, hbetween⟩
      · exact hstart.not_comment ⟨rfl, hhead.symm.trans hslash⟩
      · obtain rfl := Option.some.inj (hc.symm.trans hslash)
        exact hbetween.ne (d := '/') (by decide) (by simp [IsSign]) rfl
  · intro c hc tail
    obtain ⟨tail', hgoes⟩ := hgoes c hc
    rwa [endsWord_of_ne (by rintro rfl; exact hinside (List.mem_cons_of_mem _ hc)) tail tail']
  · rintro c tail rfl
    rcases hhead with hhead | ⟨d, hd, hbetween⟩
    · obtain ⟨tail', rfl⟩ : ∃ tail', rest = c :: tail' := List.head?_eq_some_iff.mp hhead.symm
      rw [endsWord_of_ne (by rintro rfl; exact hclose rfl) tail tail']
      exact hstops c tail' rfl
    · cases hd
      exact hbetween.endsWord tail
  · intro hhead'
    rcases hhead with hhead | ⟨c, hc, hbetween⟩
    · exact hclose (hhead.symm.trans hhead')
    · obtain rfl := Option.some.inj (hc.symm.trans hhead')
      exact hbetween.ne (d := ')') (by decide) (by simp [IsSign]) rfl

theorem Blanks.newline_not_mem {text : List Char} (h : Blanks text) : '\n' ∉ text :=
  fun hmem => absurd (h _ hmem) (by decide)

theorem punctuation?_of_isInlineBlank {c : Char} (h : isInlineBlank c = true) :
    punctuation? c = none := by
  unfold punctuation?
  split <;> first | exact absurd h (by decide) | rfl

/-- Wherever a text is cut in front of a sign, it reads as the line with other blanks around the
sign. -/
def ReadsRespaced (sign : Char) (before' after after' right text : List Char)
    (line : List Lexeme) : Prop :=
  ∀ left before, Blanks before → left ++ (before ++ sign :: (after ++ right)) = text →
    Reads (left ++ (before' ++ sign :: (after' ++ right))) line

section Respace
variable {sign : Char} {before' after after' right rest : List Char} {line : List Lexeme}

theorem ReadsRespaced.punctuation {c : Char} {lexeme : Lexeme} (hbefore' : Blanks before')
    (hafter : Blanks after) (hafter' : Blanks after') (hline : c ≠ '\n')
    (hc : punctuation? c = some lexeme) (hrest : Reads rest line)
    (h : ReadsRespaced sign before' after after' right rest line) :
    ReadsRespaced sign before' after after' right (c :: rest) (lexeme :: line) := by
  intro left before hbefore htext
  cases left with
  | nil =>
    cases before with
    | nil =>
      obtain ⟨rfl, rfl⟩ := List.cons.inj htext
      rw [reads_blanks_append_iff hafter] at hrest
      apply (reads_blanks_append_iff hbefore').mpr
      exact .punctuation hline hc ((reads_blanks_append_iff hafter').mpr hrest)
    | cons d before =>
      obtain ⟨rfl, -⟩ := List.cons.inj htext
      simp [punctuation?_of_isInlineBlank (hbefore d List.mem_cons_self)] at hc
  | cons d left =>
    obtain ⟨rfl, hrest⟩ := List.cons.inj htext
    exact .punctuation hline hc (h left before hbefore hrest)

variable (hsign : IsSign sign)
include hsign

theorem newline_not_mem_of_isSign : '\n' ≠ sign := by
  rcases hsign with rfl | rfl <;> decide

theorem exists_standsBetween {blanks : List Char} (hblanks : Blanks blanks) (rest : List Char) :
    ∃ c tail, blanks ++ sign :: rest = c :: tail ∧ StandsBetween c := by
  cases blanks with
  | nil => exact ⟨sign, rest, rfl, .inr hsign⟩
  | cons c blanks => exact ⟨c, blanks ++ sign :: rest, rfl, .inl (hblanks c List.mem_cons_self)⟩

/-- A word in front of blanks and a sign ends in front of them. -/
theorem exists_middle {blanks left right word rest : List Char} (hblanks : Blanks blanks)
    (hword : splitBefore endsWord (word ++ rest) = (word, rest))
    (h : left ++ (blanks ++ sign :: right) = word ++ rest) :
    ∃ middle, left = word ++ middle ∧ rest = middle ++ (blanks ++ sign :: right) := by
  obtain ⟨c, tail, htext, hc⟩ := exists_standsBetween hsign hblanks right
  rw [htext] at h ⊢
  rcases List.append_eq_append_iff.mp h with ⟨behind, hsplit, hrest⟩ | ⟨middle, hsplit, hrest⟩
  · cases behind with
    | nil => exact ⟨[], by simpa using hsplit.symm, by simpa using hrest.symm⟩
    | cons d behind =>
      obtain ⟨rfl, -⟩ : c = d ∧ tail = behind ++ rest := by simpa using hrest
      obtain ⟨tail', hstop⟩ := (stop_of_splitBefore hword).1 c (by simp [hsplit])
      simp [hc.endsWord tail'] at hstop
  · exact ⟨middle, hsplit, hrest⟩

/-- Where other blanks stand in front of the sign, the text begins as before or with something that
stands between words. -/
theorem head_respace {blanks blanks' : List Char} (hblanks : Blanks blanks')
    (middle right right' : List Char) :
    (middle ++ (blanks' ++ sign :: right')).head? = (middle ++ (blanks ++ sign :: right)).head? ∨
      ∃ c ∈ (middle ++ (blanks' ++ sign :: right')).head?, StandsBetween c := by
  cases middle with
  | nil =>
    obtain ⟨c, tail, htext, hc⟩ := exists_standsBetween hsign hblanks right'
    exact .inr ⟨c, by simp [htext], hc⟩
  | cons c middle => exact .inl rfl

theorem ReadsRespaced.blank {c : Char} (hc : isInlineBlank c = true)
    (h : ReadsRespaced sign before' after after' right rest line) :
    ReadsRespaced sign before' after after' right (c :: rest) line := by
  intro left before hbefore htext
  cases left with
  | nil =>
    cases before with
    | nil =>
      obtain ⟨rfl, -⟩ := List.cons.inj htext
      rcases hsign with rfl | rfl <;> exact absurd hc (by decide)
    | cons d before =>
      obtain ⟨-, hrest⟩ := List.cons.inj htext
      exact h [] before (List.forall_mem_cons.mp hbefore).2 hrest
  | cons d left =>
    obtain ⟨rfl, hrest⟩ := List.cons.inj htext
    exact .blank hc (h left before hbefore hrest)

/-- A sign in a comment. -/
theorem ReadsRespaced.comment {text : List Char} (hbefore' : Blanks before')
    (hafter' : Blanks after') (hline : '\n' ∉ text) :
    ReadsRespaced sign before' after after' right ('/' :: '/' :: text) [] := by
  intro left before hbefore h
  obtain ⟨c, tail, hstart, hc⟩ := exists_standsBetween hsign hbefore (after ++ right)
  have hslash : c ≠ '/' := hc.ne (by decide) (by simp [IsSign])
  rw [hstart] at h
  obtain ⟨left, rfl⟩ : ∃ rest, left = '/' :: '/' :: rest := by
    rcases left with _ | ⟨first, _ | ⟨second, left⟩⟩
    · exact absurd (List.cons.inj h).1 hslash
    · exact absurd (List.cons.inj (List.cons.inj h).2).1 hslash
    · obtain ⟨rfl, hrest⟩ := List.cons.inj h
      obtain ⟨rfl, -⟩ := List.cons.inj hrest
      exact ⟨left, rfl⟩
  have htext : left ++ (before ++ sign :: (after ++ right)) = text := by simpa [hstart] using h
  subst htext
  have hnewline := newline_not_mem_of_isSign hsign
  refine .comment (?_ : '\n' ∉ left ++ (before' ++ sign :: (after' ++ right)))
  simp only [List.mem_append, List.mem_cons, not_or] at hline ⊢
  exact ⟨hline.1, hbefore'.newline_not_mem, hnewline, hafter'.newline_not_mem, hline.2.2.2.2⟩

theorem ReadsRespaced.fragment {first : Char} {word : List Char} (hbefore' : Blanks before')
    (hstart : StartsWord first (word ++ rest))
    (hword : splitBefore endsWord (word ++ rest) = (word, rest)) (hclose : rest.head? ≠ some ')')
    (hinside : ')' ∉ first :: word) (h : ReadsRespaced sign before' after after' right rest line) :
    ReadsRespaced sign before' after after' right (first :: (word ++ rest))
      (.fragment (String.ofList (first :: word)) :: line) := by
  intro left before hbefore htext
  cases left with
  | nil =>
    obtain ⟨c, tail, hbegin, hc⟩ := exists_standsBetween hsign hbefore (after ++ right)
    rw [List.nil_append, hbegin] at htext
    obtain ⟨rfl, rfl⟩ := List.cons.inj htext
    exact absurd hstart (hc.not_startsWord _)
  | cons d left =>
    obtain ⟨rfl, hbehind⟩ := List.cons.inj htext
    obtain ⟨middle, rfl, rfl⟩ := exists_middle hsign hbefore hword hbehind
    rw [List.cons_append, List.append_assoc]
    apply hstart.reads hword hclose hinside
    · exact head_respace hsign hbefore' middle (after ++ right) (after' ++ right)
    · exact h middle before hbefore rfl

/-- Around a sign, other blanks can be put into a line that is written with words and signs. -/
theorem Reads.respace {text : List Char} (hbefore' : Blanks before') (hafter : Blanks after)
    (hafter' : Blanks after') (hplain : ∀ lexeme ∈ line, lexeme.IsWordOrSign)
    (h : Reads text line) : ReadsRespaced sign before' after after' right text line := by
  induction h with
  | nil => exact fun left before _ htext => by simp at htext
  | blank hc _ ih => exact .blank hsign hc (ih hplain)
  | comment hline => exact .comment hsign hbefore' hafter' hline
  | number => exact absurd (hplain .atSign List.mem_cons_self) id
  | operand => exact absurd (hplain .atSign List.mem_cons_self) id
  | punctuation hline hc hrest ih =>
    have hrespaced := ih (List.forall_mem_cons.mp hplain).2
    exact .punctuation hbefore' hafter hafter' hline hc hrest hrespaced
  | name => exact absurd (hplain _ List.mem_cons_self) id
  | @fragment first word _ _ hstart hword hclose _ ih =>
    obtain ⟨hword', hplain⟩ := List.forall_mem_cons.mp hplain
    have hinside : ')' ∉ first :: word := by simpa [Lexeme.IsWordOrSign] using hword'
    exact .fragment hsign hbefore' hstart hword hclose hinside (ih hplain)

end Respace

end Source

end HackAssembler
