import HackAssembler.Proofs.LineLocality

/-! # Positions

Reading a token moves a cursor forward in its text. So all tokens of a text, the fault that it may
end in and the place where it ends lie where the text lies. -/
namespace HackAssembler.Source

open Text

namespace Cursor

def limit (cursor : Cursor) : Nat :=
  cursor.pos + cursor.rest.length

/-- An offset in the text that is still to be read, its end included. -/
structure Within (cursor : Cursor) (pos : Nat) : Prop where
  le : cursor.pos ≤ pos
  le_limit : pos ≤ cursor.limit

structure Advances (cursor after : Cursor) : Prop where
  le : cursor.pos ≤ after.pos
  limit_eq : after.limit = cursor.limit

theorem within_self (cursor : Cursor) : cursor.Within cursor.pos :=
  ⟨Nat.le_refl _, Nat.le_add_right _ _⟩

theorem Advances.refl (cursor : Cursor) : cursor.Advances cursor :=
  ⟨Nat.le_refl _, rfl⟩

theorem Advances.trans {first second third : Cursor} (h : first.Advances second)
    (hnext : second.Advances third) : first.Advances third :=
  ⟨Nat.le_trans h.le hnext.le, hnext.limit_eq.trans h.limit_eq⟩

theorem Advances.within {cursor after : Cursor} {pos : Nat} (h : cursor.Advances after)
    (hpos : after.Within pos) : cursor.Within pos :=
  ⟨Nat.le_trans h.le hpos.le, h.limit_eq ▸ hpos.le_limit⟩

theorem advances_cons (c : Char) (rest : List Char) (pos : Nat) (operandNext operandNext' : Bool) :
    Advances ⟨c :: rest, pos, operandNext⟩ ⟨rest, pos + 1, operandNext'⟩ :=
  ⟨Nat.le_succ pos, by simp only [limit, List.length_cons]; omega⟩

theorem readUntil_advances (stop : Char → List Char → Bool) (cursor : Cursor) :
    cursor.Advances (cursor.readUntil stop).2 := by
  have hlength := @splitBefore_length stop cursor.rest
  refine ⟨Nat.le_add_right _ _, ?_⟩
  simp only [readUntil, limit]
  omega

theorem skipGap_advances (cursor : Cursor) : cursor.Advances cursor.skipGap := by
  have hblanks : cursor.Advances cursor.skipBlanks := readUntil_advances _ cursor
  rw [skipGap, skipComment]
  split
  · exact hblanks.trans (readUntil_advances _ _)
  · exact hblanks

/-- A reading whose token or fault lies in the text. The end of the input is where the text
ends. -/
def InPlace (cursor : Cursor) : Except LexError Token × Cursor → Prop
  | (.error error, _) => cursor.Within error.pos
  | (.ok token, after) => cursor.Within token.pos ∧ cursor.Advances after ∧
      (token.lexeme = .endOfInput → token.pos = cursor.limit)

theorem InPlace.of_advances {cursor start : Cursor} {read : Except LexError Token × Cursor}
    (hstart : cursor.Advances start) (h : start.InPlace read) : cursor.InPlace read := by
  rcases read with ⟨error | token, after⟩
  · exact hstart.within h
  · obtain ⟨hpos, hafter, hend⟩ := h
    exact ⟨hstart.within hpos, hstart.trans hafter, fun h => (hend h).trans hstart.limit_eq⟩

theorem inPlace_readOperand (cursor : Cursor) : cursor.InPlace cursor.readOperand := by
  have hfinish {lexeme : String → Lexeme} (hlexeme : ∀ text, lexeme text ≠ .endOfInput)
      (stop : Char → List Char → Bool) :
      cursor.InPlace (readOperand.finish cursor lexeme (cursor.readUntil stop)) := by
    have hread := readUntil_advances stop cursor
    rw [readOperand.finish]
    split
    · exact ⟨within_self cursor, hread, fun h => absurd h (hlexeme _)⟩
    · exact hread.within (within_self _)
  unfold readOperand
  split
  · exact within_self cursor
  · split
    · exact hfinish (by simp) _
    · split
      · exact hfinish (by simp) _
      · exact within_self cursor

theorem inPlace_readWord (first : Char) (rest : List Char) (pos : Nat) :
    InPlace ⟨first :: rest, pos, false⟩ (readWord first rest pos) := by
  have hread := (advances_cons first rest pos false false).trans
    (readUntil_advances endsWord ⟨rest, pos + 1, false⟩)
  have hpos : Within ⟨first :: rest, pos, false⟩ pos := within_self ⟨first :: rest, pos, false⟩
  unfold readWord
  dsimp only at hread ⊢
  split
  · split
    · exact ⟨hpos, hread, by simp⟩
    · exact hpos
  · exact ⟨hpos, hread, by simp⟩

theorem inPlace_next (cursor : Cursor) : cursor.InPlace cursor.next := by
  refine InPlace.of_advances (skipGap_advances cursor) ?_
  rw [next]
  generalize cursor.skipGap = start
  rcases start with ⟨rest, pos, operandNext⟩
  have hpos (rest : List Char) (operandNext : Bool) : Within ⟨rest, pos, operandNext⟩ pos :=
    within_self ⟨rest, pos, operandNext⟩
  cases operandNext with
  | true =>
    have hmode : Advances ⟨rest, pos, true⟩ ⟨rest, pos, false⟩ := ⟨Nat.le_refl pos, rfl⟩
    exact InPlace.of_advances hmode (inPlace_readOperand ⟨rest, pos, false⟩)
  | false =>
    cases rest with
    | nil => exact ⟨hpos [] false, .refl _, fun _ => rfl⟩
    | cons c rest =>
      have hstep := advances_cons c rest pos false
      simp only [Bool.false_eq_true, if_false]
      split
      · split
        · exact (hstep false).within (within_self ⟨rest, pos + 1, false⟩)
        · exact ⟨hpos _ _, hstep true, by simp⟩
      · split
        · next hpunctuation =>
          exact ⟨hpos _ _, hstep false,
            fun h => absurd h (ne_endOfInput_of_punctuation? hpunctuation)⟩
        · exact inPlace_readWord c rest pos

def EndsIn (cursor : Cursor) : Except LexError Nat → Prop
  | .ok last => last = cursor.limit
  | .error error => cursor.Within error.pos

/-- The tokens of a text lie in it, and so does the fault that it ends in. -/
theorem Run.within {cursor : Cursor} {tokens : List Token} {outcome : Except LexError Nat}
    (h : Run cursor tokens outcome) :
    (∀ token ∈ tokens, cursor.Within token.pos) ∧ cursor.EndsIn outcome := by
  induction h with
  | @done cursor after pos hnext =>
    have hplace := inPlace_next cursor
    rw [hnext] at hplace
    exact ⟨by simp, hplace.2.2 rfl⟩
  | @fault cursor after error hnext =>
    have hplace := inPlace_next cursor
    rw [hnext] at hplace
    exact ⟨by simp, hplace⟩
  | @token cursor after token tokens outcome hnext _ _ ih =>
    obtain ⟨htokens, hends⟩ := ih
    have hplace := inPlace_next cursor
    rw [hnext] at hplace
    obtain ⟨hpos, hafter, _⟩ := hplace
    refine ⟨List.forall_mem_cons.mpr ⟨hpos, fun other h => hafter.within (htokens other h)⟩, ?_⟩
    cases outcome with
    | ok last => exact Eq.trans hends hafter.limit_eq
    | error error => exact hafter.within hends

end Cursor

end HackAssembler.Source
