import HackAssembler.Proofs.LineByLine
import HackAssembler.Proofs.Tiling

/-! # Tokens that stand next to each other

A sign is followed at once by its operand, and a number is nothing but such an operand. Every other
symbol is the name of a label, with a parenthesis at once behind it. The input ends behind a
newline. -/
namespace HackAssembler.Source

open Text

/-- A lexeme that does not depend on what stands next to it. -/
def Lexeme.StandsFree : Lexeme → Prop
  | .newline | .openParen | .closeParen | .equal | .semicolon | .fragment _ => True
  | .endOfInput | .atSign | .symbol _ | .number _ => False

theorem standsFree_of_punctuation? {c : Char} {lexeme : Lexeme} (h : punctuation? c = some lexeme) :
    lexeme.StandsFree := by
  unfold punctuation? at h
  split at h <;> cases h <;> trivial

/-- Tokens that stand next to each other as they may. Only a fault can keep a sign from its
operand. -/
inductive Adjoined (broken : Option LexError) : List Token → Prop
  | nil : Adjoined broken []
  | broken {pos : Nat} (hbroken : broken ≠ none) : Adjoined broken [⟨.atSign, pos⟩]
  | load {lexeme : Lexeme} {pos : Nat} {tokens : List Token} (h : IsOperand lexeme)
      (hrest : Adjoined broken tokens) :
      Adjoined broken (⟨.atSign, pos⟩ :: ⟨lexeme, pos + 1⟩ :: tokens)
  | name {name : String} {pos : Nat} {tokens : List Token} (h : IsLabelName name)
      (hrest : Adjoined broken (⟨.closeParen, pos + name.length⟩ :: tokens)) :
      Adjoined broken (⟨.symbol name, pos⟩ :: ⟨.closeParen, pos + name.length⟩ :: tokens)
  | free {lexeme : Lexeme} {pos : Nat} {tokens : List Token} (h : lexeme.StandsFree)
      (hrest : Adjoined broken tokens) : Adjoined broken (⟨lexeme, pos⟩ :: tokens)

/-! ### From one token to the next -/

namespace Cursor

/-- An operand stands at once behind its sign. -/
theorem eq_nil_of_spacing_operand {cursor start after : Cursor} {gap : List Char} {lexeme : Lexeme}
    (hboundary : atBoundary cursor.rest = false) (hgap : Spacing start.rest gap)
    (hstart : cursor.Passes gap start) (hpasses : start.Passes lexeme.written after)
    (hformed : Formed true after.rest lexeme) : gap = [] := by
  rw [hstart.rest] at hboundary
  cases hgap with
  | blanks hblank =>
    cases gap with
    | nil => rfl
    | cons c gap =>
      have hc : isInlineBlank c = true := hblank c List.mem_cons_self
      simp only [isInlineBlank, Bool.and_eq_true] at hc
      exact absurd hc.2 (by simpa [atBoundary] using hboundary)
  | comment _ _ hend =>
    -- a comment leaves a newline for the operand to begin with
    obtain ⟨c, word, hword⟩ := List.exists_cons_of_ne_nil hformed.written_ne_nil
    have hc : c = '\n' := hend c (by rw [hpasses.rest, hword]; rfl)
    rcases hformed.newline with rfl | hnewline
    · cases hformed with
      | operand h => cases h
    · rw [hword, hc] at hnewline
      exact absurd List.mem_cons_self hnewline

theorem pos_of_spacing_operand {cursor start after : Cursor} {gap : List Char} {lexeme : Lexeme}
    {pos : Nat} (hboundary : atBoundary cursor.rest = false) (hgap : Spacing start.rest gap)
    (hstart : cursor.Passes gap start) (hpasses : start.Passes lexeme.written after)
    (hformed : Formed true after.rest lexeme) (hpos : cursor.pos = pos + 1) :
    start.pos = pos + 1 := by
  rw [hstart.pos, eq_nil_of_spacing_operand hboundary hgap hstart hpasses hformed, hpos]
  rfl

theorem operandNext_of_endOfInput {cursor after : Cursor} {pos : Nat}
    (h : cursor.next = (.ok ⟨.endOfInput, pos⟩, after)) : cursor.operandNext = false := by
  have hreading := reading_next cursor
  rw [h] at hreading
  cases hreading with
  | finished _ _ _ hexpected _ => exact hexpected
  | token _ _ _ hformed _ => exact absurd rfl hformed.ne_endOfInput

theorem Run.exists_closeParen {cursor : Cursor} {tokens : List Token}
    {outcome : Except LexError Nat} (h : Run cursor tokens outcome)
    (hclose : cursor.rest.head? = some ')') (hmode : cursor.operandNext = false) :
    ∃ rest, tokens = ⟨.closeParen, cursor.pos⟩ :: rest := by
  rcases cursor with ⟨rest, pos, operandNext⟩
  obtain ⟨rest, rfl⟩ := List.head?_eq_some_iff.mp hclose
  obtain rfl : operandNext = false := hmode
  have hnext : next ⟨')' :: rest, pos, false⟩ = _ := next_punctuation pos rfl rest
  cases h with
  | done hdone => simp [hnext] at hdone
  | fault hfault => simp [hnext] at hfault
  | @token _ _ _ tokens _ htoken =>
    rw [hnext] at htoken
    cases htoken
    exact ⟨tokens, rfl⟩

/-- What the tokens of a run have next to each other; where an operand is expected, the sign in
front of it is counted too. -/
theorem Run.adjoined {cursor : Cursor} {tokens : List Token} {outcome : Except LexError Nat}
    {broken : Option LexError} (h : Run cursor tokens outcome)
    (hplace : cursor.operandNext = true → atBoundary cursor.rest = false)
    (hbroken : ∀ error, outcome = .error error → broken ≠ none) :
    (cursor.operandNext = false → Adjoined broken tokens) ∧
      (cursor.operandNext = true → ∀ pos, cursor.pos = pos + 1 →
        Adjoined broken (⟨.atSign, pos⟩ :: tokens)) := by
  induction h with
  | @done cursor after pos hnext =>
    refine ⟨fun _ => .nil, fun hmode => ?_⟩
    simp [operandNext_of_endOfInput hnext] at hmode
  | fault => exact ⟨fun _ => .nil, fun _ pos _ => .broken (hbroken _ rfl)⟩
  | @token cursor after token tokens outcome hnext hend hrun ih =>
    have hreading := reading_next cursor
    rw [hnext] at hreading
    cases hreading with
    | finished => exact absurd rfl hend
    | @token gap start _ lexeme hgap hstart hpasses hformed hmode =>
      obtain ⟨hfree, hoperand⟩ := ih (fun hexpected => by
        rw [hmode, decide_eq_true_eq] at hexpected
        exact (hexpected ▸ hformed).atBoundary) hbroken
      generalize hexpected : cursor.operandNext = expected at hformed
      cases hformed with
      | operand h =>
        refine ⟨by simp, fun _ pos hpos => ?_⟩
        rw [pos_of_spacing_operand (hplace hexpected) hgap hstart hpasses (.operand h) hpos]
        refine .load h (hfree ?_)
        rw [hmode]
        cases h <;> rfl
      | atSign =>
        exact ⟨fun _ => hoperand hmode start.pos hpasses.pos, by simp⟩
      | punctuation hc =>
        refine ⟨fun _ => .free (standsFree_of_punctuation? hc) (hfree ?_), by simp⟩
        rw [hmode, decide_eq_false (ne_atSign_of_punctuation? hc)]
      | @name name _ h hclose =>
        obtain ⟨rest, rfl⟩ := hrun.exists_closeParen hclose hmode
        have hafter : after.pos = start.pos + name.length := by
          rw [hpasses.pos, Lexeme.written, String.length_toList]
        have hrest := hfree hmode
        rw [hafter] at hrest ⊢
        exact ⟨fun _ => .name h hrest, by simp⟩
      | fragment => exact ⟨fun _ => .free trivial (hfree hmode), by simp⟩

end Cursor

/-! ### Whole sources -/

/-- The token in front of this one is of the given lexeme and stands one character further on. -/
def StandsBehind (lexeme : Lexeme) (tokens : List Token) (i pos : Nat) : Prop :=
  ∃ j before, i = j + 1 ∧ pos = before + 1 ∧ tokens[j]? = some ⟨lexeme, before⟩

structure Adjacent (tokens : List Token) : Prop where
  atSign : ∀ i pos, tokens[i]? = some ⟨.atSign, pos⟩ →
    ∃ lexeme, tokens[i + 1]? = some ⟨lexeme, pos + 1⟩ ∧ IsOperand lexeme
  number : ∀ i digits pos, tokens[i]? = some ⟨.number digits, pos⟩ →
    StandsBehind .atSign tokens i pos
  symbol : ∀ i name pos, tokens[i]? = some ⟨.symbol name, pos⟩ →
    StandsBehind .atSign tokens i pos ∨
      IsLabelName name ∧ tokens[i + 1]? = some ⟨.closeParen, pos + name.length⟩
  endOfInput : ∀ i pos, tokens[i]? = some ⟨.endOfInput, pos⟩ → StandsBehind .newline tokens i pos

section Adjacent
variable {tokens : List Token} {lexeme : Lexeme} {i pos : Nat}

theorem StandsBehind.cons (h : StandsBehind lexeme tokens i pos) (head : Token) :
    StandsBehind lexeme (head :: tokens) (i + 1) pos := by
  obtain ⟨j, before, rfl, rfl, hbefore⟩ := h
  exact ⟨j + 1, before, rfl, rfl, hbefore⟩

theorem getElem?_append_of_eq_some {token : Token} (h : tokens[i]? = some token)
    (more : List Token) : (tokens ++ more)[i]? = some token := by
  rw [List.getElem?_append_left (List.getElem?_eq_some_iff.mp h).1, h]

theorem getElem?_of_append_singleton {last token : Token}
    (h : (tokens ++ [last])[i]? = some token) :
    tokens[i]? = some token ∨ i = tokens.length ∧ token = last := by
  rcases Nat.lt_or_ge i tokens.length with hlt | hle
  · rw [List.getElem?_append_left hlt] at h
    exact .inl h
  · rw [List.getElem?_append_right hle, List.getElem?_singleton] at h
    split at h
    · next hzero => exact .inr ⟨by omega, (Option.some.inj h).symm⟩
    · cases h

theorem StandsBehind.append (h : StandsBehind lexeme tokens i pos) (more : List Token) :
    StandsBehind lexeme (tokens ++ more) i pos := by
  obtain ⟨j, before, hi, hpos, hbefore⟩ := h
  exact ⟨j, before, hi, hpos, getElem?_append_of_eq_some hbefore more⟩

theorem standsBehind_one (lexeme : Lexeme) (pos : Nat) (tokens : List Token) :
    StandsBehind lexeme (⟨lexeme, pos⟩ :: tokens) 1 (pos + 1) :=
  ⟨0, pos, rfl, rfl, rfl⟩

theorem Adjoined.operand_of_atSign (h : Adjoined none tokens)
    (hi : tokens[i]? = some ⟨.atSign, pos⟩) :
    ∃ lexeme, tokens[i + 1]? = some ⟨lexeme, pos + 1⟩ ∧ IsOperand lexeme := by
  induction h generalizing i with
  | nil => cases hi
  | broken hbroken => exact absurd rfl hbroken
  | load hoperand _ ih =>
    rcases i with _ | _ | i
    · cases hi
      exact ⟨_, rfl, hoperand⟩
    · cases hi
      cases hoperand
    · exact ih hi
  | name _ _ ih =>
    rcases i with _ | i
    · cases hi
    · exact ih hi
  | free hfree _ ih =>
    rcases i with _ | i
    · cases hi
      cases hfree
    · exact ih hi

theorem Adjoined.standsBehind_of_number (h : Adjoined none tokens) {digits : String}
    (hi : tokens[i]? = some ⟨.number digits, pos⟩) : StandsBehind .atSign tokens i pos := by
  induction h generalizing i with
  | nil => cases hi
  | broken hbroken => exact absurd rfl hbroken
  | load _ _ ih =>
    rcases i with _ | _ | i
    · cases hi
    · cases hi
      exact standsBehind_one _ _ _
    · exact ((ih hi).cons _).cons _
  | name _ _ ih =>
    rcases i with _ | i
    · cases hi
    · exact (ih hi).cons _
  | free hfree _ ih =>
    rcases i with _ | i
    · cases hi
      cases hfree
    · exact (ih hi).cons _

theorem Adjoined.neighbours_of_symbol (h : Adjoined none tokens) {name : String}
    (hi : tokens[i]? = some ⟨.symbol name, pos⟩) :
    StandsBehind .atSign tokens i pos ∨
      IsLabelName name ∧ tokens[i + 1]? = some ⟨.closeParen, pos + name.length⟩ := by
  induction h generalizing i with
  | nil => cases hi
  | broken hbroken => exact absurd rfl hbroken
  | load _ _ ih =>
    rcases i with _ | _ | i
    · cases hi
    · cases hi
      exact .inl (standsBehind_one _ _ _)
    · exact (ih hi).imp_left fun hbehind => (hbehind.cons _).cons _
  | name hname _ ih =>
    rcases i with _ | i
    · cases hi
      exact .inr ⟨hname, rfl⟩
    · exact (ih hi).imp_left fun hbehind => hbehind.cons _
  | free hfree _ ih =>
    rcases i with _ | i
    · cases hi
      cases hfree
    · exact (ih hi).imp_left fun hbehind => hbehind.cons _

end Adjacent

/-- The tokens of a source end in a newline and the end of the input. -/
theorem exists_front_of_tokens {code : String} {tokens : List Token}
    (h : (Lexer.ofString code).tokens = .ok tokens) :
    ∃ front last, tokens = front ++ [⟨.newline, last⟩] ++ [⟨.endOfInput, last + 1⟩] ∧
      Adjoined none (front ++ [⟨.newline, last⟩]) ∧
      ∀ token ∈ front, token.lexeme ≠ .endOfInput := by
  obtain ⟨front, error | last, hrun⟩ := Cursor.exists_run ⟨code.toList, 0, false⟩
  · obtain ⟨fault, hfault, _⟩ := Lexer.tokens_join_of_fault hrun
    rw [h] at hfault
    cases hfault
  · obtain ⟨htokens, _⟩ := Lexer.tokens_join_of_read hrun
    obtain rfl := Except.ok.inj (h.symm.trans htokens)
    have hwhole := hrun.extend_of_ok (.done (Cursor.next_nil (last + 1)))
    exact ⟨front, last, rfl, (hwhole.adjoined (by simp [Cursor.extend]) (by simp)).1 rfl,
      hrun.ne_endOfInput⟩

theorem adjacent_of_tokens {code : String} {tokens : List Token}
    (h : (Lexer.ofString code).tokens = .ok tokens) : Adjacent tokens := by
  obtain ⟨front, last, rfl, hadjoined, hfront⟩ := exists_front_of_tokens h
  constructor
  · intro i pos hi
    rcases getElem?_of_append_singleton hi with hi | ⟨_, hend⟩
    · obtain ⟨lexeme, hnext, hoperand⟩ := hadjoined.operand_of_atSign hi
      exact ⟨lexeme, getElem?_append_of_eq_some hnext _, hoperand⟩
    · cases hend
  · intro i digits pos hi
    rcases getElem?_of_append_singleton hi with hi | ⟨_, hend⟩
    · exact (hadjoined.standsBehind_of_number hi).append _
    · cases hend
  · intro i name pos hi
    rcases getElem?_of_append_singleton hi with hi | ⟨_, hend⟩
    · refine (hadjoined.neighbours_of_symbol hi).imp (fun hbehind => hbehind.append _) ?_
      exact fun ⟨hname, hclose⟩ => ⟨hname, getElem?_append_of_eq_some hclose _⟩
    · cases hend
  · intro i pos hi
    rcases getElem?_of_append_singleton hi with hi | ⟨hlast, hend⟩
    · rcases getElem?_of_append_singleton hi with hi | ⟨_, hend⟩
      · exact absurd rfl (hfront _ (List.mem_of_getElem? hi))
      · cases hend
    · cases hend
      exact ⟨front.length, last, by simpa using hlast, rfl, by simp⟩

/-! ### Lines -/

structure Line.Orderly (line : Line) : Prop where
  adjoined : Adjoined line.fault? line.tokens
  inside : ∀ token ∈ line.tokens, token.lexeme ≠ .newline

theorem Line.OfText.orderly {start : Nat} {text : List Char} {line : Line}
    (h : Line.OfText start text line) (hline : '\n' ∉ text) : line.Orderly := by
  obtain ⟨hrun⟩ := h
  rename_i tokens outcome
  have htokens : (prepend tokens.reverse (ending outcome)).tokens = tokens := by
    cases outcome <;> simp [tokens_prepend, ending, Line.tokens]
  refine ⟨?_, fun token htoken => (hrun.ne hline token (htokens ▸ htoken)).1⟩
  rw [fault?_prepend, htokens]
  refine (hrun.adjoined (by simp) fun error herror => ?_).1 rfl
  simp [herror, ending, fault?]

theorem orderly_of_mem_ofSource {code : String} {line : Line} (h : line ∈ Line.ofSource code) :
    line.Orderly := by
  obtain ⟨before, after, hlines⟩ := List.append_of_mem h
  have htexts := Line.ofTexts_ofSource code
  rw [hlines] at htexts
  obtain ⟨head, text, tail, hpieces, _, hline, _⟩ := htexts.exists_split
  exact hline.orderly
    (not_mem_of_mem_pieces (hpieces ▸ List.mem_append_right head List.mem_cons_self))

end HackAssembler.Source
