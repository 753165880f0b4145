import HackAssembler.Proofs.JoinedTexts
import HackAssembler.Proofs.LexerSteps
import Mathlib.Logic.Function.Iterate

/-! # Tokens and the gaps between them

A lexer goes forward in its source, whatever is asked of it, and comes to the end of the input when
all of it has been read. The tokens that it gives lie one behind the other, each where its
characters stand, and what stands between them is blank or a comment. -/
namespace HackAssembler.Source

open Text

def Token.stop (token : Token) : Nat :=
  token.pos + token.lexeme.written.length

def Token.Covers (token : Token) (i : Nat) : Prop :=
  token.pos ≤ i ∧ i < token.stop

/-! ### Single calls -/

namespace Lexer

variable {code : String} {lexer after : Lexer}

theorem Reached.source_eq (h : Reached code lexer) : lexer.source = sourceOf code := by
  induction h with
  | initial => rfl
  | afterNext _ ih => exact ih
  | afterReset _ ih => exact ih

/-- A lexer never loses its place, not even behind a fault. -/
theorem Reached.placed (h : Reached code lexer) : lexer.cursor.Placed (sourceOf code) := by
  induction h with
  | initial => exact Cursor.placed_start _
  | afterNext _ ih => exact ih.next
  | afterReset h _ =>
    rw [reset, h.source_eq]
    exact Cursor.placed_start _

structure Progresses (code : String) (lexer : Lexer) : Prop where
  token : ∀ token after, lexer.next = (.ok token, after) → token.lexeme ≠ .endOfInput →
    lexer.cursor.pos ≤ token.pos ∧ token.pos < after.cursor.pos ∧ after.cursor.pos = token.stop
  fault : ∀ error after, lexer.next = (.error error, after) → lexer.cursor.pos ≤ after.cursor.pos
  finished : (∃ pos after, lexer.next = (.ok ⟨.endOfInput, pos⟩, after)) ↔
    lexer.cursor.pos = (sourceOf code).length
  forever : lexer.cursor.pos = (sourceOf code).length → ∀ n,
    ((fun lexer => lexer.next.2)^[n] lexer).next.1 = .ok ⟨.endOfInput, (sourceOf code).length⟩
  reset : lexer.reset = ofString code

theorem cursor_of_next {result : Except LexError Token} (h : lexer.next = (result, after)) :
    lexer.cursor.next = (result, after.cursor) := by
  cases h
  rfl

end Lexer

namespace Cursor

variable {code : String} {cursor after : Cursor}

theorem token_of_next {token : Token} (h : cursor.next = (.ok token, after))
    (hend : token.lexeme ≠ .endOfInput) :
    cursor.pos ≤ token.pos ∧ token.pos < after.pos ∧ after.pos = token.stop := by
  have hreading := reading_next cursor
  rw [h] at hreading
  cases hreading with
  | finished => exact absurd rfl hend
  | token _ hstart hpasses hformed _ =>
    have hlength := List.length_pos_iff.mpr hformed.written_ne_nil
    refine ⟨hstart.le, ?_, hpasses.pos⟩
    rw [hpasses.pos]
    dsimp only
    omega

theorem pos_le_of_fault {error : LexError} (h : cursor.next = (.error error, after)) :
    cursor.pos ≤ after.pos := by
  have hreading := reading_next cursor
  rw [h] at hreading
  cases hreading with
  | fault _ hpasses _ => exact hpasses.le

/-- The end of a text that ends its last line is no gap. -/
theorem eq_nil_of_spacing {passed gap : List Char} (hsource : sourceOf code = passed ++ gap)
    {behind : List Char} (hgap : Spacing behind gap) : gap = [] := by
  by_contra hne
  have hlast : (passed ++ gap).getLast? = some '\n' := by simp [← hsource, sourceOf]
  rw [List.getLast?_append_of_ne_nil _ hne] at hlast
  exact hgap.newline_not_mem (List.mem_of_getLast? hlast)

theorem Placed.pos_add_length {text : List Char} (h : cursor.Placed text) :
    cursor.pos + cursor.rest.length = text.length := by
  obtain ⟨⟨passed, hrest, hpos⟩, _⟩ := h
  simp only [Lexer.start] at hrest hpos
  rw [hrest, hpos, List.length_append]
  omega

theorem Placed.rest_eq_nil_iff {text : List Char} (h : cursor.Placed text) :
    cursor.rest = [] ↔ cursor.pos = text.length := by
  have := h.pos_add_length
  rw [← List.length_eq_zero_iff]
  omega

/-- Where all has been read, the end of the input is found, and nothing changes. -/
theorem Placed.next_of_rest_eq_nil {text : List Char} (h : cursor.Placed text)
    (hrest : cursor.rest = []) : cursor.next = (.ok ⟨.endOfInput, text.length⟩, cursor) := by
  have hpos := h.rest_eq_nil_iff.mp hrest
  have hmode : cursor.operandNext = false := by
    by_contra hmode
    have hboundary := h.operand (by simpa using hmode)
    rw [hrest] at hboundary
    cases hboundary
  rcases cursor with ⟨rest, pos, operandNext⟩
  subst hrest hmode hpos
  rfl

/-- The end of the input is found only where all has been read. -/
theorem Placed.rest_eq_nil_of_next (h : cursor.Placed (sourceOf code)) {pos : Nat}
    (hnext : cursor.next = (.ok ⟨.endOfInput, pos⟩, after)) : cursor.rest = [] := by
  obtain ⟨⟨passed, hpassed⟩, _⟩ := h
  have hreading := reading_next cursor
  rw [hnext] at hreading
  cases hreading with
  | finished hgap hpasses hrest =>
    have hsource := (hpassed.trans hpasses).rest
    rw [hrest, List.append_nil] at hsource
    rw [hpasses.rest, hrest, eq_nil_of_spacing hsource hgap]
    rfl
  | token _ _ _ hformed _ => exact absurd rfl hformed.ne_endOfInput

end Cursor

namespace Lexer

variable {code : String} {lexer : Lexer}

theorem Reached.next_of_finished (h : Reached code lexer)
    (hpos : lexer.cursor.pos = (sourceOf code).length) :
    lexer.next = (.ok ⟨.endOfInput, (sourceOf code).length⟩, lexer) := by
  have hrest := h.placed.rest_eq_nil_iff.mpr hpos
  rw [Lexer.next, h.placed.next_of_rest_eq_nil hrest]

theorem Reached.progresses (h : Reached code lexer) : Progresses code lexer where
  token _ _ hnext hend := Cursor.token_of_next (cursor_of_next hnext) hend
  fault _ _ hnext := Cursor.pos_le_of_fault (cursor_of_next hnext)
  finished := by
    constructor
    · rintro ⟨pos, after, hnext⟩
      exact h.placed.rest_eq_nil_iff.mp (h.placed.rest_eq_nil_of_next (cursor_of_next hnext))
    · exact fun hpos => ⟨_, _, h.next_of_finished hpos⟩
  forever hpos n := by
    have hnext := h.next_of_finished hpos
    rw [Function.iterate_fixed (congrArg Prod.snd hnext), hnext]
  reset := by
    rw [Lexer.reset, h.source_eq]
    rfl

end Lexer

/-! ### Whole sources -/

/-- Tokens that lie one behind the other in a text, behind what has been passed of it: in front of
each is a gap, and behind the last one nothing. -/
inductive Tiles : List Char → List Char → List Token → Prop
  | done (passed : List Char) : Tiles passed [] [⟨.endOfInput, passed.length⟩]
  | token {passed gap rest : List Char} {lexeme : Lexeme} {tokens : List Token}
      (hgap : Spacing (lexeme.written ++ rest) gap) (hne : lexeme.written ≠ [])
      (hline : lexeme = .newline ∨ '\n' ∉ lexeme.written)
      (hrest : Tiles (passed ++ gap ++ lexeme.written) rest tokens) :
      Tiles passed (gap ++ (lexeme.written ++ rest)) (⟨lexeme, (passed ++ gap).length⟩ :: tokens)

/-- A run up to the end of a source lays its tokens one behind the other. -/
theorem Cursor.Run.tiles {code : String} {cursor : Cursor} {tokens : List Token} {last : Nat}
    (h : Run cursor tokens (.ok last)) {passed : List Char}
    (hsource : sourceOf code = passed ++ cursor.rest) (hpos : cursor.pos = passed.length) :
    Tiles passed cursor.rest (tokens ++ [⟨.endOfInput, last⟩]) := by
  generalize hlast : Except.ok last = outcome at h
  induction h generalizing passed with
  | @done cursor after pos hnext =>
    cases hlast
    have hreading := reading_next cursor
    rw [hnext] at hreading
    cases hreading with
    | finished hgap hpasses hrest =>
      rw [hpasses.rest, hrest, List.append_nil] at hsource ⊢
      obtain rfl := eq_nil_of_spacing hsource hgap
      have hend := hpasses.pos
      rw [hpos, List.length_nil, Nat.add_zero] at hend
      rw [hend]
      exact .done passed
    | token _ _ _ hformed _ => exact absurd rfl hformed.ne_endOfInput
  | fault => cases hlast
  | @token cursor after token tokens outcome hnext hend _ ih =>
    have hreading := reading_next cursor
    rw [hnext] at hreading
    cases hreading with
    | finished => exact absurd rfl hend
    | @token gap start _ lexeme hgap hstart hpasses hformed _ =>
      have hrest := (hstart.trans hpasses).rest
      rw [List.append_assoc] at hrest
      have hafter : after.pos = (passed ++ gap ++ lexeme.written).length := by
        rw [hpasses.pos, hstart.pos, hpos, List.length_append, List.length_append]
      have hplace : start.pos = (passed ++ gap).length := by
        rw [hstart.pos, hpos, List.length_append]
      rw [hpasses.rest] at hgap
      rw [hrest, hplace]
      refine .token hgap hformed.written_ne_nil hformed.newline (ih ?_ hafter hlast)
      rw [hsource, hrest]
      simp

theorem Cursor.Run.ne_endOfInput {cursor : Cursor} {tokens : List Token}
    {outcome : Except LexError Nat} (h : Run cursor tokens outcome) :
    ∀ token ∈ tokens, token.lexeme ≠ .endOfInput := by
  induction h with
  | done => simp
  | fault => simp
  | token _ hend _ ih => exact List.forall_mem_cons.mpr ⟨hend, ih⟩

section Tiles
variable {passed rest : List Char} {tokens : List Token}

theorem Tiles.within (h : Tiles passed rest tokens) :
    ∀ token ∈ tokens, passed.length ≤ token.pos ∧ token.stop ≤ (passed ++ rest).length := by
  induction h with
  | done passed => simp [Token.stop, Lexeme.written]
  | token _ _ _ _ ih =>
    refine List.forall_mem_cons.mpr ⟨?_, fun token htoken => ?_⟩
    · simp only [Token.stop, List.length_append]
      omega
    · obtain ⟨hle, hstop⟩ := ih token htoken
      simp only [List.length_append] at hle hstop ⊢
      omega

theorem Tiles.increasing (h : Tiles passed rest tokens) :
    tokens.Pairwise fun first second => first.pos < second.pos ∧ first.stop ≤ second.pos := by
  induction h with
  | done => simp
  | token _ hne _ hrest ih =>
    refine List.pairwise_cons.mpr ⟨fun token htoken => ?_, ih⟩
    have hle := (hrest.within token htoken).1
    have hlength := List.length_pos_iff.mpr hne
    simp only [Token.stop, List.length_append] at hle ⊢
    omega

theorem Tiles.spelled (h : Tiles passed rest tokens) :
    ∀ token ∈ tokens, ((passed ++ rest).drop token.pos).take token.lexeme.written.length =
      token.lexeme.written := by
  induction h with
  | done => simp [Lexeme.written]
  | token _ _ _ _ ih =>
    refine List.forall_mem_cons.mpr ⟨?_, fun token htoken => ?_⟩
    · rw [← List.append_assoc, List.drop_left, List.take_left]
    · have hspelled := ih token htoken
      simpa only [List.append_assoc] using hspelled

theorem Tiles.length_le (h : Tiles passed rest tokens) : tokens.length ≤ rest.length + 1 := by
  induction h with
  | done => simp
  | token _ hne _ _ ih =>
    have hlength := List.length_pos_iff.mpr hne
    simp only [List.length_cons, List.length_append]
    omega

theorem getElem?_middle {before middle : List Char} {i : Nat} (hle : before.length ≤ i)
    (hlt : i < (before ++ middle).length) (behind : List Char) :
    (before ++ (middle ++ behind))[i]? = middle[i - before.length]? := by
  rw [List.length_append] at hlt
  rw [List.getElem?_append_right hle, List.getElem?_append_left (by omega)]

/-- The newlines of a text are its newline tokens. -/
theorem Tiles.newline_iff (h : Tiles passed rest tokens) {i : Nat} (hi : passed.length ≤ i) :
    (passed ++ rest)[i]? = some '\n' ↔ ⟨.newline, i⟩ ∈ tokens := by
  induction h with
  | done passed => simp [List.getElem?_eq_none hi]
  | @token passed gap rest lexeme tokens hgap hne hline hrest ih =>
    have htail : i < (passed ++ gap ++ lexeme.written).length → ⟨.newline, i⟩ ∉ tokens :=
      fun hlt hmem => absurd (hrest.within _ hmem).1 (Nat.not_le_of_gt hlt)
    have hlength : (passed ++ gap ++ lexeme.written).length =
        (passed ++ gap).length + lexeme.written.length := List.length_append
    have hpos := List.length_pos_iff.mpr hne
    rw [List.mem_cons, Token.mk.injEq]
    rcases Nat.lt_or_ge i (passed ++ gap).length with hbefore | hbefore
    · -- in the gap
      rw [getElem?_middle hi hbefore]
      refine iff_of_false (fun hmem => hgap.newline_not_mem (List.mem_of_getElem? hmem)) ?_
      rintro (⟨_, heq⟩ | hmem)
      · omega
      · exact htail (by omega) hmem
    rcases Nat.lt_or_ge i (passed ++ gap ++ lexeme.written).length with hinside | hinside
    · -- in the token
      rw [← List.append_assoc, getElem?_middle hbefore hinside]
      rcases hline with rfl | hline
      · have hone : Lexeme.newline.written.length = 1 := rfl
        have hplace : i = (passed ++ gap).length := by omega
        exact iff_of_true (by simp [hplace, Lexeme.written]) (.inl ⟨rfl, hplace⟩)
      · refine iff_of_false (fun hmem => hline (List.mem_of_getElem? hmem)) ?_
        rintro (⟨rfl, _⟩ | hmem)
        · exact hline (by simp [Lexeme.written])
        · exact htail hinside hmem
    · -- behind the token
      rw [← List.append_assoc, ← List.append_assoc, ih hinside]
      refine ⟨.inr, ?_⟩
      rintro (⟨_, heq⟩ | hmem)
      · omega
      · exact hmem

/-! #### What stands between the tokens -/

/-- A token could start at this offset: what stands between it and the token before it, or the
place where reading began, is blank. -/
def CouldStart (text : List Char) (origin : Nat) (tokens : List Token) (start : Nat) : Prop :=
  ∃ base, (base = origin ∨ ∃ token ∈ tokens, token.stop = base) ∧ base ≤ start ∧
    ∀ i, base ≤ i → i < start → ∃ c, text[i]? = some c ∧ isInlineBlank c = true

/-- The character at this offset belongs to a comment, which begins with two slashes where a token
could start and goes on, without a token in it, up to the next newline. -/
def InComment (text : List Char) (origin : Nat) (tokens : List Token) (i : Nat) : Prop :=
  ∃ start stop, CouldStart text origin tokens start ∧ (text.drop start).take 2 = ['/', '/'] ∧
    start ≤ i ∧ i < stop ∧ text[stop]? = some '\n' ∧
    ∀ j, start ≤ j → j < stop → text[j]? ≠ some '\n' ∧ ∀ token ∈ tokens, ¬token.Covers j

/-- A comment stays one when the token that reading began behind is counted too. -/
theorem InComment.cons {text : List Char} {origin i : Nat} {head : Token} {tokens : List Token}
    (h : InComment text head.stop tokens i) (htokens : ∀ token ∈ tokens, head.stop ≤ token.pos) :
    InComment text origin (head :: tokens) i := by
  obtain ⟨start, stop, ⟨base, hbase, hle, hblank⟩, hopens, hstart, hstop, hnewline, hinside⟩ := h
  have hbehind : head.stop ≤ base := by
    rcases hbase with rfl | ⟨token, htoken, rfl⟩
    · exact Nat.le_refl _
    · exact Nat.le_trans (htokens token htoken) (Nat.le_add_right _ _)
  refine ⟨start, stop, ⟨base, .inr ?_, hle, hblank⟩, hopens, hstart, hstop, hnewline,
    fun j hj hlt => ⟨(hinside j hj hlt).1, List.forall_mem_cons.mpr ⟨?_, (hinside j hj hlt).2⟩⟩⟩
  · rcases hbase with rfl | ⟨token, htoken, hbase⟩
    · exact ⟨head, List.mem_cons_self, rfl⟩
    · exact ⟨token, List.mem_cons_of_mem _ htoken, hbase⟩
  · rintro ⟨_, hcovers⟩
    omega

/-- A character in the gap in front of some tokens is blank or belongs to a comment. -/
theorem Spacing.outside {passed gap behind : List Char} {tokens : List Token}
    (hgap : Spacing behind gap) (hne : behind ≠ [])
    (htokens : ∀ token ∈ tokens, (passed ++ gap).length ≤ token.pos) {i : Nat} {c : Char}
    (hle : passed.length ≤ i) (hlt : i < (passed ++ gap).length)
    (hc : (passed ++ (gap ++ behind))[i]? = some c) :
    isInlineBlank c = true ∨ InComment (passed ++ (gap ++ behind)) passed.length tokens i := by
  cases hgap with
  | blanks hblank =>
    rw [getElem?_middle hle hlt] at hc
    exact .inl (hblank c (List.mem_of_getElem? hc))
  | @comment blanks text hblank htext hend =>
    obtain ⟨first, rest, rfl⟩ := List.exists_cons_of_ne_nil hne
    obtain rfl : first = '\n' := hend first rfl
    have hblanks (j : Nat) (hj : passed.length ≤ j) (hjlt : j < (passed ++ blanks).length) :=
      getElem?_middle hj hjlt ('/' :: '/' :: text ++ '\n' :: rest)
    have hcomment (j : Nat) (hj : (passed ++ blanks).length ≤ j)
        (hjlt : j < (passed ++ blanks ++ '/' :: '/' :: text).length) :=
      getElem?_middle hj hjlt ('\n' :: rest)
    rw [← List.append_assoc] at hlt htokens
    rw [List.append_assoc blanks, ← List.append_assoc passed] at hc ⊢
    rw [← List.append_assoc passed] at hblanks
    rcases Nat.lt_or_ge i (passed ++ blanks).length with hbefore | hbefore
    · rw [hblanks i hle hbefore] at hc
      exact .inl (hblank c (List.mem_of_getElem? hc))
    · refine .inr ⟨(passed ++ blanks).length, (passed ++ blanks ++ '/' :: '/' :: text).length,
        ⟨passed.length, .inl rfl, by simp, fun j hj hjlt => ?_⟩, by simp, hbefore, hlt, ?_,
        fun j hj hjlt => ⟨fun hnewline => ?_, fun token htoken hcovers => ?_⟩⟩
      · have hj' : j - passed.length < blanks.length := by
          rw [List.length_append] at hjlt
          omega
        rw [hblanks j hj hjlt, List.getElem?_eq_getElem hj']
        exact ⟨_, rfl, hblank _ (List.getElem_mem hj')⟩
      · rw [← List.append_assoc, List.getElem?_append_right (Nat.le_refl _), Nat.sub_self]
        rfl
      · rw [hcomment j hj hjlt] at hnewline
        simpa [htext] using List.mem_of_getElem? hnewline
      · have := htokens token htoken
        have := hcovers.1
        omega

/-- What no token covers is blank or belongs to a comment. -/
theorem Tiles.outside (h : Tiles passed rest tokens) {i : Nat} {c : Char}
    (hi : passed.length ≤ i) (hc : (passed ++ rest)[i]? = some c)
    (hfree : ∀ token ∈ tokens, ¬token.Covers i) :
    isInlineBlank c = true ∨ InComment (passed ++ rest) passed.length tokens i := by
  induction h with
  | done passed => simp [List.getElem?_eq_none hi] at hc
  | @token passed gap rest lexeme tokens hgap hne hline hrest ih =>
    obtain ⟨hhead, htail⟩ := List.forall_mem_cons.mp hfree
    have hstop : Token.stop ⟨lexeme, (passed ++ gap).length⟩ =
        (passed ++ gap ++ lexeme.written).length := List.length_append.symm
    have hplaces (token : Token) (htoken : token ∈ tokens) :
        Token.stop ⟨lexeme, (passed ++ gap).length⟩ ≤ token.pos :=
      hstop ▸ (hrest.within token htoken).1
    rcases Nat.lt_or_ge i (passed ++ gap).length with hbefore | hbefore
    · have htokens (token : Token) (htoken : token ∈ tokens) : (passed ++ gap).length ≤ token.pos :=
        Nat.le_trans (Nat.le_add_right _ _) (hplaces token htoken)
      exact hgap.outside (by simp [hne]) (List.forall_mem_cons.mpr ⟨Nat.le_refl _, htokens⟩) hi
        hbefore hc
    · have hbehind : (passed ++ gap ++ lexeme.written).length ≤ i := by
        by_contra hlt
        exact hhead ⟨hbefore, hstop ▸ Nat.lt_of_not_le hlt⟩
      rw [← List.append_assoc, ← List.append_assoc] at hc ⊢
      rw [← hstop] at ih hbehind
      exact (ih hbehind hc htail).imp_right fun hcomment => hcomment.cons hplaces

end Tiles

structure Lossless (source : List Char) (tokens : List Token) : Prop where
  increasing : tokens.Pairwise fun first second =>
    first.pos < second.pos ∧ first.stop ≤ second.pos
  ends : ∃ front, tokens = front ++ [⟨.endOfInput, source.length⟩] ∧
    ∀ token ∈ front, token.lexeme ≠ .endOfInput
  spelled : ∀ token ∈ tokens,
    (source.drop token.pos).take token.lexeme.written.length = token.lexeme.written
  outside : ∀ i c, source[i]? = some c → (∀ token ∈ tokens, ¬token.Covers i) →
    isInlineBlank c = true ∨ InComment source 0 tokens i
  newlines : ∀ i, source[i]? = some '\n' ↔ ⟨.newline, i⟩ ∈ tokens
  length_le : tokens.length ≤ source.length + 1

theorem lossless_of_tokens {code : String} {tokens : List Token}
    (h : (Lexer.ofString code).tokens = .ok tokens) : Lossless (sourceOf code) tokens := by
  obtain ⟨front, outcome, hrun⟩ := Cursor.exists_run (Lexer.ofString code).cursor
  have htokens := Lexer.tokens_of_run hrun
  rw [h] at htokens
  cases outcome with
  | error => cases htokens
  | ok last =>
    obtain rfl := Except.ok.inj htokens
    have htiles : Tiles [] (sourceOf code) (front ++ [⟨.endOfInput, last⟩]) :=
      @Cursor.Run.tiles code _ _ _ hrun [] rfl rfl
    obtain rfl : last = (sourceOf code).length := by
      have hlast := hrun.within.2
      simpa [Cursor.EndsIn, Cursor.limit, Lexer.ofString, Lexer.start, sourceOf] using hlast
    exact {
      increasing := htiles.increasing
      ends := ⟨front, rfl, hrun.ne_endOfInput⟩
      spelled := htiles.spelled
      outside := fun i c hc hfree => htiles.outside (Nat.zero_le i) hc hfree
      newlines := fun i => htiles.newline_iff (Nat.zero_le i)
      length_le := htiles.length_le }

/-- A lexer goes forward over its source, whatever is asked of it, and what it reads of a source is
all that stands there. -/
theorem progress_without_loss (code : String) :
    (∀ lexer, Lexer.Reached code lexer → Lexer.Progresses code lexer) ∧
      ∀ tokens, (Lexer.ofString code).tokens = .ok tokens → Lossless (sourceOf code) tokens :=
  ⟨fun _ => Lexer.Reached.progresses, fun _ => lossless_of_tokens⟩

theorem progress_without_loss_commented :
    Lexer.Reached "@ x" (Lexer.ofString "@ x").next.2.next.2 ∧
      Lexer.Progresses "@ x" (Lexer.ofString "@ x").next.2.next.2 ∧
      (Lexer.ofString "(A) // a\n@5").tokens =
        .ok [⟨.openParen, 0⟩, ⟨.symbol "A", 1⟩, ⟨.closeParen, 2⟩, ⟨.newline, 8⟩, ⟨.atSign, 9⟩,
          ⟨.number "5", 10⟩, ⟨.newline, 11⟩, ⟨.endOfInput, 12⟩] ∧
      Lossless (sourceOf "(A) // a\n@5")
        [⟨.openParen, 0⟩, ⟨.symbol "A", 1⟩, ⟨.closeParen, 2⟩, ⟨.newline, 8⟩, ⟨.atSign, 9⟩,
          ⟨.number "5", 10⟩, ⟨.newline, 11⟩, ⟨.endOfInput, 12⟩] := by
  -- the first call finds no operand behind the sign, and the second one goes on at the sign
  have hreached : Lexer.Reached "@ x" (Lexer.ofString "@ x").next.2.next.2 :=
    .afterNext (.afterNext .initial)
  have htokens : (Lexer.ofString "(A) // a\n@5").tokens =
      .ok [⟨.openParen, 0⟩, ⟨.symbol "A", 1⟩, ⟨.closeParen, 2⟩, ⟨.newline, 8⟩, ⟨.atSign, 9⟩,
        ⟨.number "5", 10⟩, ⟨.newline, 11⟩, ⟨.endOfInput, 12⟩] := by
    decide +kernel
  exact ⟨hreached, (progress_without_loss "@ x").1 _ hreached, htokens,
    (progress_without_loss _).2 _ htokens⟩

end HackAssembler.Source
