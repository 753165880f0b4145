import HackAssembler.Proofs.LexicalGrammar
import Mathlib.Data.List.TakeWhile

/-! # Soundness of the lexical grammar

What the lexer finds in a line, the rules derive. -/
namespace HackAssembler.Text

theorem splitBefore_eq_span (p : Char → Bool) (text : List Char) :
    splitBefore (fun c _ => !p c) text = (text.takeWhile p, text.dropWhile p) := by
  induction text with
  | nil => rfl
  | cons c rest ih => by_cases h : p c = true <;> simp [splitBefore_cons, h, ih]

end HackAssembler.Text

namespace HackAssembler.Source

open Text

namespace Cursor

theorem readUntil_suffix (stop : Char → List Char → Bool) (cursor : Cursor) :
    (cursor.readUntil stop).2.rest <:+ cursor.rest :=
  ⟨_, splitBefore_append cursor.rest⟩

theorem skipGap_suffix (cursor : Cursor) : cursor.skipGap.rest <:+ cursor.rest := by
  have h := readUntil_suffix (fun c _ => !isInlineBlank c) cursor
  unfold skipGap skipComment
  split
  · exact (readUntil_suffix _ _).trans h
  · exact h

theorem readOperand_suffix (cursor : Cursor) : cursor.readOperand.2.rest <:+ cursor.rest := by
  have hfinish (lexeme : String → Lexeme) (read : List Char × Cursor) :
      (readOperand.finish cursor lexeme read).2 = read.2 := by
    rw [readOperand.finish]
    split <;> rfl
  unfold readOperand
  split
  · exact List.suffix_refl _
  · split
    · rw [hfinish]
      exact readUntil_suffix _ _
    · split
      · rw [hfinish]
        exact readUntil_suffix _ _
      · exact List.suffix_refl _

theorem readWord_suffix (first : Char) (rest : List Char) (pos : Nat) :
    (readWord first rest pos).2.rest <:+ rest := by
  have h := readUntil_suffix endsWord ⟨rest, pos + 1, false⟩
  unfold readWord
  dsimp only at h ⊢
  split
  · split <;> exact h
  · exact h

theorem next_suffix (cursor : Cursor) : cursor.next.2.rest <:+ cursor.rest := by
  have hgap := skipGap_suffix cursor
  rw [next]
  generalize cursor.skipGap = start at hgap
  rcases start with ⟨rest, pos, operandNext⟩
  refine List.IsSuffix.trans ?_ hgap
  cases operandNext with
  | true => exact readOperand_suffix ⟨rest, pos, false⟩
  | false =>
    cases rest with
    | nil => exact List.suffix_refl _
    | cons c rest =>
      simp only [Bool.false_eq_true, if_false]
      split
      · split
        · exact List.suffix_refl _
        · exact List.suffix_cons c rest
      · split
        · exact List.suffix_cons c rest
        · exact (readWord_suffix c rest pos).trans (List.suffix_cons c rest)

/-- In front of the first token of a line stands a gap, which reads as nothing. -/
theorem exists_skipGap {text : List Char} (hline : '\n' ∉ text) :
    ∃ start, AtToken start ∧ '\n' ∉ start ∧ (∀ line, Reads start line → Reads text line) ∧
      ∀ pos operandNext, ∃ pos', skipGap ⟨text, pos, operandNext⟩ = ⟨start, pos', operandNext⟩ := by
  induction text with
  | nil =>
    exact ⟨[], atToken_nil, hline, fun _ h => h,
      fun pos operandNext => ⟨pos, skipGap_eq_self atToken_nil pos operandNext⟩⟩
  | cons c rest ih =>
    by_cases hblank : isInlineBlank c = true
    · obtain ⟨start, hstart, hnew, hreads, hskip⟩ := ih (by simp_all)
      refine ⟨start, hstart, hnew, fun line h => .blank hblank (hreads line h),
        fun pos operandNext => ?_⟩
      rw [skipGap, skipBlanks_cons hblank]
      exact hskip (pos + 1) operandNext
    · by_cases hcomment : ∃ text, c :: rest = '/' :: '/' :: text
      · obtain ⟨text, htext⟩ := hcomment
        have hnew : '\n' ∉ text := fun h => hline (by simp [htext, h])
        refine ⟨[], atToken_nil, by simp, fun line h => ?_, fun pos operandNext => ?_⟩
        · cases h
          rw [htext]
          exact .comment hnew
        · rw [htext]
          exact skipGap_comment hnew pos operandNext
      · have hstart : AtToken (c :: rest) :=
          ⟨by simpa using hblank, fun text h => hcomment ⟨text, h⟩⟩
        exact ⟨c :: rest, hstart, hline, fun _ h => h,
          fun pos operandNext => ⟨pos, skipGap_eq_self hstart pos operandNext⟩⟩

theorem reads_of_readWord {first : Char} {rest : List Char} {pos : Nat} {token : Token}
    {after : Cursor} (hstart : StartsWord first rest)
    (h : readWord first rest pos = (.ok token, after)) :
    token.lexeme ≠ .endOfInput ∧ after.operandNext = false ∧
      ∀ line, Reads after.rest line → Reads (first :: rest) (token.lexeme :: line) := by
  have hsplit : (splitBefore endsWord rest).1 ++ (splitBefore endsWord rest).2 = rest :=
    splitBefore_append rest
  rcases hcut : splitBefore endsWord rest with ⟨word, behind⟩
  simp only [readWord, readUntil, hcut] at h hsplit
  subst hsplit
  split at h
  · next hclose =>
    split at h
    · next hfirst =>
      cases h
      obtain ⟨tail, rfl⟩ := List.head?_eq_some_iff.mp hclose
      exact ⟨by simp, rfl, fun line h => .name hstart hcut hfirst h⟩
    · cases h
  · next hclose =>
    cases h
    exact ⟨by simp, rfl, fun line h => .fragment hstart hcut hclose h⟩

/-- Elsewhere than behind an `@`, a token that is read is one that a rule puts there. -/
theorem reads_of_next {text : List Char} {pos : Nat} {token : Token} {after : Cursor}
    (hline : '\n' ∉ text) (hnext : next ⟨text, pos, false⟩ = (.ok token, after)) :
    (token.lexeme = .endOfInput ∧ Reads text []) ∨
      (token.lexeme = .atSign ∧ after.operandNext = true ∧ atBoundary after.rest = false ∧
        ∀ line, Reads ('@' :: after.rest) line → Reads text line) ∨
      (token.lexeme ≠ .endOfInput ∧ after.operandNext = false ∧
        ∀ line, Reads after.rest line → Reads text (token.lexeme :: line)) := by
  obtain ⟨start, hstart, hnew, hreads, hskip⟩ := exists_skipGap hline
  obtain ⟨pos', hskip⟩ := hskip pos false
  rw [next, hskip] at hnext
  cases start with
  | nil =>
    cases hnext
    exact .inl ⟨rfl, hreads [] .nil⟩
  | cons c rest =>
    simp only [Bool.false_eq_true, if_false] at hnext
    by_cases hat : c = '@'
    · subst hat
      rw [if_pos rfl] at hnext
      split at hnext
      · cases hnext
      · next hboundary =>
        cases hnext
        exact .inr (.inl ⟨rfl, rfl, by simpa using hboundary, hreads⟩)
    · rw [if_neg hat] at hnext
      have hc : c ≠ '\n' := fun h => hnew (by simp [h])
      cases hpunct : punctuation? c with
      | some lexeme =>
        rw [hpunct] at hnext
        cases hnext
        exact .inr (.inr ⟨ne_endOfInput_of_punctuation? hpunct, rfl,
          fun line h => hreads _ (.punctuation hc hpunct h)⟩)
      | none =>
        rw [hpunct] at hnext
        obtain ⟨hend, hmode, hrest⟩ := reads_of_readWord (hstart.startsWord hc hat hpunct) hnext
        exact .inr (.inr ⟨hend, hmode, fun line h => hreads _ (hrest line h)⟩)

theorem reads_of_readOperand {text : List Char} {pos : Nat} {token : Token} {after : Cursor}
    (h : readOperand ⟨text, pos, false⟩ = (.ok token, after)) :
    token.lexeme ≠ .endOfInput ∧ after.operandNext = false ∧
      ∀ line, Reads after.rest line → Reads ('@' :: text) (.atSign :: token.lexeme :: line) := by
  cases text with
  | nil => cases h
  | cons c rest =>
    simp only [readOperand] at h
    split at h
    · next hdigit =>
      simp only [readUntil, splitBefore_eq_span, readOperand.finish] at h
      split at h
      · next hend =>
        cases h
        refine ⟨by simp, rfl, fun line h => ?_⟩
        have hne : (c :: rest).takeWhile isDigit ≠ [] := by simp [hdigit]
        have hnumber := Reads.number hne (fun _ => List.mem_takeWhile_imp) hend h
        rwa [List.takeWhile_append_dropWhile] at hnumber
      · cases h
    · next hdigit =>
      split at h
      · next hsymbol =>
        simp only [readUntil, splitBefore_eq_span, readOperand.finish] at h
        split at h
        · next hend =>
          cases h
          refine ⟨by simp, rfl, fun line h => ?_⟩
          have htake : (c :: rest).takeWhile isSymbolChar =
              c :: rest.takeWhile isSymbolChar := by simp [hsymbol]
          have hname : ∀ d ∈ c :: rest.takeWhile isSymbolChar, isSymbolChar d = true :=
            fun d hd => List.mem_takeWhile_imp (htake ▸ hd)
          have hoperand := Reads.operand (by simpa using hdigit) hname hend h
          rwa [← htake, List.takeWhile_append_dropWhile] at hoperand
        · cases h
      · cases h

/-- Behind an `@` stands either no gap or a comment. -/
theorem skipGap_operand {text : List Char} (hline : '\n' ∉ text) (hstart : atBoundary text = false)
    (pos : Nat) :
    skipGap ⟨text, pos, true⟩ = ⟨text, pos, true⟩ ∨
      ∃ pos', skipGap ⟨text, pos, true⟩ = ⟨[], pos', true⟩ := by
  by_cases hcomment : ∃ rest, text = '/' :: '/' :: rest
  · obtain ⟨rest, rfl⟩ := hcomment
    have hnew : '\n' ∉ rest := by simp_all
    exact .inr (skipGap_comment hnew pos true)
  · have htoken : AtToken text := by
      refine ⟨?_, fun rest h => hcomment ⟨rest, h⟩⟩
      cases text with
      | nil => simp
      | cons c rest =>
        rintro _ ⟨⟩
        simp [isInlineBlank, show isBlank c = false from hstart]
    exact .inl (skipGap_eq_self htoken pos true)

/-- Behind an `@`, a token that is read is an operand. -/
theorem reads_of_next_operand {text : List Char} {pos : Nat} {token : Token} {after : Cursor}
    (hline : '\n' ∉ text) (hstart : atBoundary text = false)
    (hnext : next ⟨text, pos, true⟩ = (.ok token, after)) :
    token.lexeme ≠ .endOfInput ∧ after.operandNext = false ∧
      ∀ line, Reads after.rest line → Reads ('@' :: text) (.atSign :: token.lexeme :: line) := by
  rcases skipGap_operand hline hstart pos with hskip | ⟨pos', hskip⟩
  · rw [next, hskip] at hnext
    exact reads_of_readOperand hnext
  · rw [next, hskip] at hnext
    cases hnext

theorem reads_of_run {cursor : Cursor} {tokens : List Token} {last : Nat}
    (h : Run cursor tokens (.ok last)) (hline : '\n' ∉ cursor.rest) :
    (cursor.operandNext = false → Reads cursor.rest (tokens.map (·.lexeme))) ∧
      (cursor.operandNext = true → atBoundary cursor.rest = false →
        Reads ('@' :: cursor.rest) (.atSign :: tokens.map (·.lexeme))) := by
  generalize hlast : Except.ok last = outcome at h
  induction h with
  | @done cursor after pos hnext =>
    rcases cursor with ⟨rest, start, operandNext⟩
    refine ⟨fun hmode => ?_, fun hmode hboundary => ?_⟩
    · obtain rfl : operandNext = false := hmode
      rcases reads_of_next hline hnext with ⟨_, h⟩ | ⟨h, _⟩ | ⟨h, _⟩
      · exact h
      · cases h
      · exact absurd rfl h
    · obtain rfl : operandNext = true := hmode
      exact absurd rfl (reads_of_next_operand hline hboundary hnext).1
  | fault => cases hlast
  | @token cursor after token tokens outcome hnext hend hrest ih =>
    rcases cursor with ⟨rest, start, operandNext⟩
    have hafter : '\n' ∉ after.rest := fun h => hline (by
      have := (next_suffix ⟨rest, start, operandNext⟩).subset
      rw [hnext] at this
      exact this h)
    obtain ⟨hword, hoperand⟩ := ih hafter hlast
    refine ⟨fun hmode => ?_, fun hmode hboundary => ?_⟩
    · obtain rfl : operandNext = false := hmode
      rcases reads_of_next hline hnext with
        ⟨h, _⟩ | ⟨h, hmode, hboundary, hreads⟩ | ⟨_, hmode, hreads⟩
      · exact absurd h hend
      · rw [List.map_cons, h]
        exact hreads _ (hoperand hmode hboundary)
      · exact hreads _ (hword hmode)
    · obtain rfl : operandNext = true := hmode
      obtain ⟨_, hmode, hreads⟩ := reads_of_next_operand hline hboundary hnext
      exact hreads _ (hword hmode)

end Cursor

end HackAssembler.Source
