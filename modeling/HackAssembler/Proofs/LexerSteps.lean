import HackAssembler.Proofs.BareText
import HackAssembler.Proofs.LexicalSoundness
import HackAssembler.Proofs.Positions

/-! # Steps of the lexer

What one call of a lexer can come to, whatever calls came before it: the end of the input, a token
behind a gap, or a fault at a place in the text. In each case it is said which characters the call
has passed, so that a lexer never loses its place in its source. -/
namespace HackAssembler.Source

open Text

/-- What can stand in front of `behind` without being read: blanks, and perhaps a comment behind
them that reaches to the end of its line. -/
inductive Spacing (behind : List Char) : List Char → Prop
  | blanks {gap : List Char} (hblank : ∀ c ∈ gap, isInlineBlank c = true) : Spacing behind gap
  | comment {blanks text : List Char} (hblank : ∀ c ∈ blanks, isInlineBlank c = true)
      (htext : '\n' ∉ text) (hend : ∀ c ∈ behind.head?, c = '\n') :
      Spacing behind (blanks ++ '/' :: '/' :: text)

theorem newline_not_mem_of_blanks {blanks : List Char} (h : ∀ c ∈ blanks, isInlineBlank c = true) :
    '\n' ∉ blanks :=
  fun hmem => absurd (h _ hmem) (by decide)

theorem Spacing.newline_not_mem {gap behind : List Char} (h : Spacing behind gap) : '\n' ∉ gap := by
  cases h with
  | blanks hblank => exact newline_not_mem_of_blanks hblank
  | comment hblank htext _ => simpa [newline_not_mem_of_blanks hblank] using htext

theorem ne_atSign_of_punctuation? {c : Char} {lexeme : Lexeme} (h : punctuation? c = some lexeme) :
    lexeme ≠ .atSign := by
  rintro rfl
  unfold punctuation? at h
  split at h <;> cases h

/-- A character that a word does not end at. -/
structure IsInner (c : Char) : Prop where
  not_blank : isBlank c = false
  not_equal : c ≠ '='
  not_semicolon : c ≠ ';'

theorem isInner_of_endsWord {c : Char} {rest : List Char} (h : endsWord c rest = false) :
    IsInner c := by
  simp only [endsWord, Bool.or_eq_false_iff, beq_eq_false_iff_ne] at h
  obtain ⟨⟨⟨hequal, hsemicolon⟩, hblank⟩, _⟩ := h
  exact ⟨hblank, hequal, hsemicolon⟩

theorem isInner_of_isSymbolChar {c : Char} (h : isSymbolChar c = true) : IsInner c where
  not_blank := isBlank_of_isSymbolChar h
  not_equal := by
    rintro rfl
    cases h
  not_semicolon := by
    rintro rfl
    cases h

/-- The operand of a load: a number, or a symbol that begins with no digit. -/
inductive IsOperand : Lexeme → Prop
  | number {digits : List Char} (hne : digits ≠ []) (hdigits : ∀ c ∈ digits, isDigit c = true) :
      IsOperand (.number (String.ofList digits))
  | symbol {first : Char} {name : List Char} (hfirst : isDigit first = false)
      (hname : ∀ c ∈ first :: name, isSymbolChar c = true) :
      IsOperand (.symbol (String.ofList (first :: name)))

/-- The name of a label, which need not be made of symbol characters behind its first one. -/
inductive IsLabelName : String → Prop
  | intro {first : Char} {word : List Char} (hdigit : isDigit first = false)
      (hfirst : isSymbolChar first = true) (hword : ∀ c ∈ first :: word, IsInner c) :
      IsLabelName (String.ofList (first :: word))

theorem newline_not_mem_of_inner {word : List Char} (h : ∀ c ∈ word, IsInner c) : '\n' ∉ word :=
  fun hmem => absurd (h _ hmem).not_blank (by decide)

namespace Cursor

/-- From one cursor, exactly `text` is passed to come to another. -/
structure Passes (cursor : Cursor) (text : List Char) (after : Cursor) : Prop where
  rest : cursor.rest = text ++ after.rest
  pos : after.pos = cursor.pos + text.length

section Passes
variable {first second third : Cursor} {text more : List Char}

theorem Passes.refl (cursor : Cursor) : cursor.Passes [] cursor := ⟨rfl, rfl⟩

theorem Passes.trans (h : first.Passes text second) (hmore : second.Passes more third) :
    first.Passes (text ++ more) third where
  rest := by rw [h.rest, hmore.rest, List.append_assoc]
  pos := by rw [hmore.pos, h.pos, List.length_append, Nat.add_assoc]

theorem Passes.le (h : first.Passes text second) : first.pos ≤ second.pos :=
  h.pos ▸ Nat.le_add_right _ _

theorem passes_cons (c : Char) (rest : List Char) (pos : Nat) (operandNext operandNext' : Bool) :
    Passes ⟨c :: rest, pos, operandNext⟩ [c] ⟨rest, pos + 1, operandNext'⟩ := ⟨rfl, rfl⟩

end Passes

section ReadUntil
variable (stop : Char → List Char → Bool) (cursor : Cursor)

theorem readUntil_passes : cursor.Passes (cursor.readUntil stop).1 (cursor.readUntil stop).2 :=
  ⟨(splitBefore_append cursor.rest).symm, rfl⟩

/-- No character that is passed stops the reading, and the next one does. -/
theorem stop_of_readUntil :
    (∀ c ∈ (cursor.readUntil stop).1, ∃ tail, stop c tail = false) ∧
      ∀ c tail, (cursor.readUntil stop).2.rest = c :: tail → stop c tail = true := by
  apply stop_of_splitBefore
  rw [readUntil_passes stop cursor |>.rest.symm]
  rfl

end ReadUntil

theorem skipGap_passes (cursor : Cursor) :
    ∃ gap, Spacing cursor.skipGap.rest gap ∧ cursor.Passes gap cursor.skipGap ∧
      cursor.skipGap.operandNext = cursor.operandNext := by
  obtain ⟨hinside, _⟩ := stop_of_readUntil (fun c _ => !isInlineBlank c) cursor
  have hblank : ∀ c ∈ (cursor.readUntil fun c _ => !isInlineBlank c).1, isInlineBlank c = true :=
    fun c hc => by simpa using hinside c hc
  have hpasses : cursor.Passes _ cursor.skipBlanks := readUntil_passes _ cursor
  rw [skipGap, skipComment]
  split
  · next text hrest =>
    have hcomment := readUntil_passes (fun c _ => c == '\n') cursor.skipBlanks
    obtain ⟨hinside, hend⟩ := stop_of_readUntil (fun c _ => c == '\n') cursor.skipBlanks
    obtain ⟨comment, hword⟩ : ∃ comment,
        (cursor.skipBlanks.readUntil fun c _ => c == '\n').1 = '/' :: '/' :: comment := by
      simp [readUntil, hrest, splitBefore_cons]
    rw [hword] at hinside hcomment
    have hline : '\n' ∉ comment := fun hmem => by simpa using hinside '\n' (by simp [hmem])
    refine ⟨_, .comment hblank hline fun c hc => ?_, hpasses.trans hcomment, rfl⟩
    obtain ⟨tail, htail⟩ := List.head?_eq_some_iff.mp hc
    simpa using hend c tail htail
  · exact ⟨_, .blanks hblank, hpasses, rfl⟩

/-- What a lexeme is made of where an operand is expected or where none is, and what has to stand
behind it. -/
inductive Formed : Bool → List Char → Lexeme → Prop
  | operand {rest : List Char} {lexeme : Lexeme} (h : IsOperand lexeme) : Formed true rest lexeme
  | atSign {rest : List Char} (hrest : atBoundary rest = false) : Formed false rest .atSign
  | punctuation {c : Char} {lexeme : Lexeme} {rest : List Char}
      (hc : punctuation? c = some lexeme) : Formed false rest lexeme
  | name {name : String} {rest : List Char} (h : IsLabelName name)
      (hclose : rest.head? = some ')') : Formed false rest (.symbol name)
  | fragment {first : Char} {word rest : List Char} (hfirst : punctuation? first = none)
      (hword : ∀ c ∈ word, IsInner c) :
      Formed false rest (.fragment (String.ofList (first :: word)))

theorem Formed.atBoundary {mode : Bool} {rest : List Char} (h : Formed mode rest .atSign) :
    Source.atBoundary rest = false := by
  cases h with
  | operand hoperand => cases hoperand
  | atSign hrest => exact hrest
  | punctuation hc => exact absurd rfl (ne_atSign_of_punctuation? hc)

theorem Formed.ne_endOfInput {mode : Bool} {rest : List Char} {lexeme : Lexeme}
    (h : Formed mode rest lexeme) : lexeme ≠ .endOfInput := by
  cases h with
  | operand hoperand => cases hoperand <;> simp
  | punctuation hc => exact ne_endOfInput_of_punctuation? hc
  | _ => simp

theorem Formed.written_ne_nil {mode : Bool} {rest : List Char} {lexeme : Lexeme}
    (h : Formed mode rest lexeme) : lexeme.written ≠ [] := by
  cases h with
  | operand hoperand =>
    cases hoperand with
    | number hne => simpa [Lexeme.written] using hne
    | symbol => simp [Lexeme.written]
  | punctuation hc => simp [written_of_punctuation? hc]
  | name hname =>
    cases hname
    simp [Lexeme.written]
  | _ => simp [Lexeme.written]

/-- A newline is written in its own token only. -/
theorem Formed.newline {mode : Bool} {rest : List Char} {lexeme : Lexeme}
    (h : Formed mode rest lexeme) : lexeme = .newline ∨ '\n' ∉ lexeme.written := by
  have hclass {p : Char → Bool} (hp : p '\n' = false) {word : List Char}
      (hword : ∀ c ∈ word, p c = true) : '\n' ∉ word := fun hmem => by
    simpa [hp] using hword '\n' hmem
  cases h with
  | operand hoperand =>
    cases hoperand with
    | number _ hdigits => exact .inr (by simpa [Lexeme.written] using hclass rfl hdigits)
    | symbol _ hname => exact .inr (by simpa [Lexeme.written] using hclass rfl hname)
  | atSign => exact .inr (by simp [Lexeme.written])
  | @punctuation c _ _ hc =>
    by_cases hnewline : c = '\n'
    · subst hnewline
      exact .inl (Option.some.inj hc).symm
    · exact .inr (by simpa [written_of_punctuation? hc] using Ne.symm hnewline)
  | name hname =>
    obtain ⟨_, _, hword⟩ := hname
    exact .inr (by simpa [Lexeme.written] using newline_not_mem_of_inner hword)
  | @fragment first word _ hfirst hword =>
    have hne : '\n' ≠ first := by
      rintro rfl
      cases hfirst
    exact .inr (by simpa [Lexeme.written, hne] using newline_not_mem_of_inner hword)

inductive Reading (cursor : Cursor) : Except LexError Token × Cursor → Prop
  | finished {gap : List Char} {after : Cursor} (hgap : Spacing after.rest gap)
      (hpasses : cursor.Passes gap after) (hrest : after.rest = [])
      (hexpected : cursor.operandNext = false) (hmode : after.operandNext = false) :
      Reading cursor (.ok ⟨.endOfInput, after.pos⟩, after)
  | token {gap : List Char} {start after : Cursor} {lexeme : Lexeme} (hgap : Spacing start.rest gap)
      (hstart : cursor.Passes gap start) (hpasses : start.Passes lexeme.written after)
      (hformed : Formed cursor.operandNext after.rest lexeme)
      (hmode : after.operandNext = decide (lexeme = .atSign)) :
      Reading cursor (.ok ⟨lexeme, start.pos⟩, after)
  | fault {skipped passed : List Char} {place after : Cursor} (hplace : cursor.Passes skipped place)
      (hpasses : cursor.Passes passed after) (hmode : after.operandNext = false) :
      Reading cursor (.error ⟨place.rest.head?, place.pos⟩, after)

section Behind
variable {cursor start : Cursor} {gap : List Char} (hgap : Spacing start.rest gap)
  (hstart : cursor.Passes gap start)
include hgap hstart

theorem reading_finish {lexeme : String → Lexeme} {p : Char → Bool}
    (hwritten : ∀ word, (lexeme (String.ofList word)).written = word)
    (hformed : ∀ rest, Formed cursor.operandNext rest
      (lexeme (String.ofList (start.readUntil fun c _ => !p c).1)))
    (hat : ∀ word, lexeme word ≠ .atSign) (hmode : start.operandNext = false) :
    Reading cursor (readOperand.finish start lexeme (start.readUntil fun c _ => !p c)) := by
  have hpasses := readUntil_passes (fun c _ => !p c) start
  rw [readOperand.finish]
  split
  · refine .token hgap hstart ?_ (hformed _) ?_
    · rwa [hwritten]
    · rw [decide_eq_false (hat _)]
      exact hmode
  · exact .fault (hstart.trans hpasses) (hstart.trans hpasses) hmode

/-- An operand is passed up to the first character that it cannot hold. -/
theorem reading_readOperand (hexpected : cursor.operandNext = true)
    (hmode : start.operandNext = false) : Reading cursor start.readOperand := by
  have hclass (p : Char → Bool) : ∀ c ∈ (start.readUntil fun c _ => !p c).1, p c = true :=
    fun c hc => by simpa using (stop_of_readUntil (fun c _ => !p c) start).1 c hc
  unfold readOperand
  split
  · next hrest =>
    have hfault := Reading.fault hstart hstart hmode
    rwa [hrest] at hfault
  · next c rest hrest =>
    split
    · next hdigit =>
      refine reading_finish hgap hstart (fun _ => String.toList_ofList) (fun _ => ?_) (by simp)
        hmode
      rw [hexpected]
      refine .operand (.number ?_ (hclass isDigit))
      simp [readUntil, hrest, splitBefore_cons, hdigit]
    · next hdigit =>
      split
      · next hsymbol =>
        have hword : ∃ name, (start.readUntil fun c _ => !isSymbolChar c).1 = c :: name := by
          simp [readUntil, hrest, splitBefore_cons, hsymbol]
        obtain ⟨name, hword⟩ := hword
        have hname := hclass isSymbolChar
        rw [hword] at hname
        refine reading_finish hgap hstart (fun _ => String.toList_ofList) (fun _ => ?_) (by simp)
          hmode
        rw [hexpected, hword]
        exact .operand (.symbol (by simpa using hdigit) hname)
      · have hfault := Reading.fault hstart hstart hmode
        rwa [hrest] at hfault

/-- A word is passed up to a character that ends words; a fault leaves it behind. -/
theorem reading_readWord {first : Char} {rest : List Char} (hrest : start.rest = first :: rest)
    (hexpected : cursor.operandNext = false) (hfirst : punctuation? first = none) :
    Reading cursor (readWord first rest start.pos) := by
  have hhead : start.Passes [first] ⟨rest, start.pos + 1, false⟩ := ⟨hrest, rfl⟩
  have hpasses := hhead.trans (readUntil_passes endsWord ⟨rest, start.pos + 1, false⟩)
  have hword := (stop_of_readUntil endsWord ⟨rest, start.pos + 1, false⟩).1
  have hinner : ∀ c ∈ (readUntil endsWord ⟨rest, start.pos + 1, false⟩).1, IsInner c := by
    intro c hc
    obtain ⟨tail, htail⟩ := hword c hc
    exact isInner_of_endsWord htail
  unfold readWord
  dsimp only at hpasses ⊢
  split
  · next hclose =>
    split
    · next hsymbol =>
      refine .token hgap hstart ?_ ?_ rfl
      · rwa [Lexeme.written, String.toList_ofList]
      · rw [Bool.and_eq_true, Bool.not_eq_true'] at hsymbol
        obtain ⟨hsymbol, hdigit⟩ := hsymbol
        rw [hexpected]
        refine .name (.intro hdigit hsymbol ?_) hclose
        exact List.forall_mem_cons.mpr ⟨isInner_of_isSymbolChar hsymbol, hinner⟩
    · have hfault := Reading.fault hstart (hstart.trans hpasses) rfl
      rwa [hrest] at hfault
  · refine .token hgap hstart ?_ ?_ rfl
    · rwa [Lexeme.written, String.toList_ofList]
    · rw [hexpected]
      exact .fragment hfirst hinner

end Behind

theorem reading_next (cursor : Cursor) : Reading cursor cursor.next := by
  obtain ⟨gap, hgap, hstart, hmode⟩ := skipGap_passes cursor
  rw [next]
  generalize cursor.skipGap = start at hgap hstart hmode
  rcases start with ⟨rest, pos, operandNext⟩
  have hexpected : cursor.operandNext = operandNext := hmode.symm
  cases operandNext with
  | true =>
    have hoperand : cursor.Passes gap ⟨rest, pos, false⟩ := ⟨hstart.rest, hstart.pos⟩
    exact reading_readOperand hgap hoperand hexpected rfl
  | false =>
    cases rest with
    | nil => exact .finished hgap hstart rfl hexpected rfl
    | cons c rest =>
      have hstep := passes_cons c rest pos false
      simp only [Bool.false_eq_true, if_false]
      split
      · next hat =>
        subst hat
        split
        · exact .fault (hstart.trans (hstep false)) hstart rfl
        · next hboundary =>
          refine .token hgap hstart (hstep true) ?_ rfl
          rw [hexpected]
          exact .atSign (by simpa using hboundary)
      · split
        · next lexeme hlexeme =>
          refine .token hgap hstart ?_ ?_ ?_
          · rw [written_of_punctuation? hlexeme]
            exact hstep false
          · rw [hexpected]
            exact .punctuation hlexeme
          · rw [decide_eq_false (ne_atSign_of_punctuation? hlexeme)]
        · next hpunctuation => exact reading_readWord hgap hstart rfl hexpected hpunctuation

end Cursor

namespace Lexer

/-- The lexers of a source, after any calls for tokens and any calls to begin again. -/
inductive Reached (code : String) : Lexer → Prop
  | initial : Reached code (ofString code)
  | afterNext {lexer : Lexer} (h : Reached code lexer) : Reached code lexer.next.2
  | afterReset {lexer : Lexer} (h : Reached code lexer) : Reached code lexer.reset

end Lexer

/-- The characters that a lexer reads: those of the text and a newline behind them. -/
def sourceOf (code : String) : List Char :=
  code.toList ++ ['\n']

namespace Cursor

/-- A cursor in its place in a text. An operand is expected only where no gap begins. -/
structure Placed (text : List Char) (cursor : Cursor) : Prop where
  passes : ∃ passed, (Lexer.start text).Passes passed cursor
  operand : cursor.operandNext = true → atBoundary cursor.rest = false

section Placed
variable {text : List Char} {cursor : Cursor}

theorem placed_start (text : List Char) : Placed text (Lexer.start text) :=
  ⟨⟨[], .refl _⟩, by simp [Lexer.start]⟩

theorem Placed.next (h : cursor.Placed text) : cursor.next.2.Placed text := by
  obtain ⟨⟨passed, hpassed⟩, _⟩ := h
  have hreading := reading_next cursor
  generalize cursor.next = read at hreading
  cases hreading with
  | finished _ hpasses _ _ hmode => exact ⟨⟨_, hpassed.trans hpasses⟩, by simp [hmode]⟩
  | token _ hstart hpasses hformed hmode =>
    refine ⟨⟨_, (hpassed.trans hstart).trans hpasses⟩, fun hexpected => ?_⟩
    rw [hmode, decide_eq_true_eq] at hexpected
    subst hexpected
    exact hformed.atBoundary
  | fault _ hpasses hmode => exact ⟨⟨_, hpassed.trans hpasses⟩, by simp [hmode]⟩

end Placed

end Cursor

end HackAssembler.Source
