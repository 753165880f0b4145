import HackAssembler.Proofs.Delivery
import HackAssembler.Proofs.LineErrors
import HackAssembler.Proofs.SecondReading
import Mathlib.Logic.Function.Iterate

/-! # Errors before and after the first reading

Faults of the lexer, lines that begin like no statement and bad labels are all found by the first
reading. When it succeeds, the source can be read again without a fault, and the second reading
fails for other reasons only; so a sink is untouched whenever such an error is reported. -/
namespace HackAssembler

namespace Source

namespace Cursor

theorem next_of_endOfInput {cursor after : Cursor} {pos : Nat}
    (h : cursor.next = (.ok ⟨.endOfInput, pos⟩, after)) :
    after.next = (.ok ⟨.endOfInput, pos⟩, after) := by
  unfold next at h
  dsimp only at h
  split at h
  · obtain ⟨word, hword | hword⟩ := readOperand_lexeme h <;> cases hword
  · next hoperand =>
    split at h
    · next hrest =>
      rcases hstart : cursor.skipGap with ⟨rest, start, operandNext⟩
      rw [hstart] at h hrest hoperand
      obtain rfl : rest = [] := hrest
      obtain rfl : operandNext = false := by simpa using hoperand
      cases h
      rfl
    · split at h
      · split at h <;> cases h
      · split at h
        · next hpunctuation =>
          cases h
          exact absurd rfl (ne_endOfInput_of_punctuation? hpunctuation)
        · obtain ⟨word, hword | hword⟩ := readWord_lexeme h <;> cases hword

/-- A run that ends without a fault gives a token at each step, and so for ever after its end. -/
theorem Run.exists_next {cursor : Cursor} {tokens : List Token} {last : Nat}
    (h : Run cursor tokens (.ok last)) (n : Nat) :
    ∃ token after, ((fun cursor => cursor.next.2)^[n] cursor).next = (.ok token, after) := by
  generalize hlast : Except.ok last = outcome at h
  induction h generalizing n with
  | @done cursor after pos hnext =>
    have hafter := next_of_endOfInput hnext
    have hfixed : (fun cursor : Cursor => cursor.next.2) after = after := by simp [hafter]
    cases n with
    | zero => exact ⟨_, _, hnext⟩
    | succ n =>
      rw [Function.iterate_succ_apply, hnext, Function.iterate_fixed hfixed]
      exact ⟨_, _, hafter⟩
  | fault => cases hlast
  | token hnext _ _ ih =>
    cases n with
    | zero => exact ⟨_, _, hnext⟩
    | succ n =>
      rw [Function.iterate_succ_apply, hnext]
      exact ih n hlast

end Cursor

namespace Lexer

theorem iterate_next (lexer : Lexer) (n : Nat) :
    (fun lexer => lexer.next.2)^[n] lexer =
      { lexer with cursor := (fun cursor => cursor.next.2)^[n] lexer.cursor } := by
  induction n generalizing lexer with
  | zero => rfl
  | succ n ih =>
    rw [Function.iterate_succ_apply, ih, Function.iterate_succ_apply]
    rfl

end Lexer

end Source

namespace Assembly

open Source Instruction

/-- The errors that the first reading looks for. -/
inductive Error.IsEarly : Error → Prop
  | lexical (error : LexError) : IsEarly (.lexical error)
  | statementStart (found : Kind) (pos : Nat) : IsEarly (.source (.statementStart found) pos)
  | shadowsPredefined (name : String) (pos : Nat) :
      IsEarly (.source (.label (.shadowsPredefined name)) pos)
  | redefined (name : String) (pos : Nat) : IsEarly (.source (.label (.redefined name)) pos)

theorem LateError.not_early {line : Line} {error : Error} (h : LateError line error) :
    ¬error.IsEarly := by
  cases h with
  | statement h =>
    obtain ⟨hfault, _⟩ := h
    cases hfault <;> rintro ⟨⟩
  | value => rintro ⟨⟩
  | behind => rintro ⟨⟩

theorem not_early_of_emit {lines : List Line} {table : SymbolTable} {words : Array Word}
    {error : Error} (hlines : ∀ line ∈ lines, line.fault? = none ∧ Outlined line.lexemes)
    (h : (emit table words lines).outcome = .error error) : ¬error.IsEarly := by
  obtain ⟨_, _, hlate⟩ := lateError_of_emit hlines h
  exact hlate.not_early

/-! ### Reading a source again -/

/-- When the first reading succeeds, a lexer that is set back reads the tokens of the source again,
and each of its steps gives a token. -/
theorem exists_next_of_reset {code : String} {tokens : List Token}
    (htokens : (Lexer.ofString code).tokens = .ok tokens) {lexer : Lexer}
    (hsource : lexer.source = (Lexer.ofString code).source) :
    lexer.reset.tokens = .ok tokens ∧
      ∀ n, ∃ token, ((fun lexer => lexer.next.2)^[n] lexer.reset).next.1 = .ok token := by
  have hreset : lexer.reset = Lexer.ofString code := by
    rw [Lexer.reset, hsource]
    rfl
  refine ⟨hreset ▸ htokens, fun n => ?_⟩
  obtain ⟨read, error | last, hrun⟩ := Cursor.exists_run (Lexer.ofString code).cursor
  · rw [Lexer.tokens, hrun.scan_eq] at htokens
    cases htokens
  · obtain ⟨token, after, hnext⟩ := hrun.exists_next n
    refine ⟨token, ?_⟩
    rw [hreset, Lexer.iterate_next, Lexer.next]
    exact congrArg Prod.fst hnext

section FirstReading
variable {code : String} {table : SymbolTable}
  (h : bindLabels SymbolTable.initial 0 (Line.ofSource code) = .ok table)
include h

theorem exists_tokens_of_bindLabels : ∃ tokens, (Lexer.ofString code).tokens = .ok tokens := by
  obtain ⟨program, hbound⟩ := exists_bound h
  obtain ⟨⟨tokens, htokens, _⟩, _⟩ := lines_of_reads hbound.reads
  exact ⟨tokens, htokens⟩

theorem not_early_of_bindLabels {other : SymbolTable} {words : Array Word} {rest : List Line}
    (hrest : rest <:+ Line.ofSource code) {error : Error}
    (herror : (emit other words rest).outcome = .error error) : ¬error.IsEarly := by
  obtain ⟨program, hbound⟩ := exists_bound h
  exact not_early_of_emit (fun line hline => hbound.outlined line (hrest.subset hline)) herror

end FirstReading

/-- An emission that breaks off without words leaves the sink alone. -/
theorem deliver_of_no_words {m : Type → Type} [Monad m] [LawfulMonad m] {σ : Type}
    [Output.Sink m σ] (error : Error) (sink : σ) :
    Output.deliver (m := m) ⟨#[], .error error⟩ sink = pure (.error error, sink) := by
  simp [Output.deliver]

/-- Once the first reading has succeeded, the lexer can be set back and read the same tokens
again, and the second reading, from any line on and with any table, fails with no error of the
first. So a run that returns such an error has done nothing but return it: no sink was written to
or finished. -/
theorem early_errors_before_emission (code : String) :
    (∀ table, bindLabels SymbolTable.initial 0 (Line.ofSource code) = .ok table →
      (∃ tokens, (Lexer.ofString code).tokens = .ok tokens ∧
        ∀ lexer : Lexer, lexer.source = (Lexer.ofString code).source →
          lexer.reset.tokens = .ok tokens ∧
            ∀ n, ∃ token, ((fun lexer => lexer.next.2)^[n] lexer.reset).next.1 = .ok token) ∧
      ∀ (table : SymbolTable) (words : Array Word) (rest : List Line),
        rest <:+ Line.ofSource code →
          ∀ error, (emit table words rest).outcome = .error error → ¬error.IsEarly) ∧
    ∀ (m : Type → Type) [Monad m] [LawfulMonad m] (σ : Type) [Output.Sink m σ] (sink : σ),
      SatisfiesM (m := m)
        (fun result => ∀ error, result.1 = .error error → error.IsEarly →
          Output.deliver (Emission.ofSource code) sink = (pure (.error error, sink) : m _))
        (Output.deliver (Emission.ofSource code) sink) := by
  constructor
  · intro table h
    obtain ⟨tokens, htokens⟩ := exists_tokens_of_bindLabels h
    exact ⟨⟨tokens, htokens, fun lexer => exists_next_of_reset htokens⟩,
      fun other words rest hrest error => not_early_of_bindLabels h hrest⟩
  · intro m _ _ σ _ sink
    cases h : bindLabels SymbolTable.initial 0 (Line.ofSource code) with
    | error error =>
      have hsource : Emission.ofSource code = ⟨#[], .error error⟩ := by
        simp only [Emission.ofSource, h]
      rw [hsource, deliver_of_no_words]
      refine SatisfiesM.pure fun other hother _ => ?_
      cases hother
      rfl
    | ok table =>
      have hsource : Emission.ofSource code =
          emit table.restartVariables #[] (Line.ofSource code) := by
        simp only [Emission.ofSource, h]
      -- Such an error comes neither from the second reading nor from the sink.
      refine (Output.satisfiesM_deliver_errors _ sink).imp fun hresult error herror hearly => ?_
      rcases hresult error herror with hlate | ⟨fault, rfl⟩
      · rw [hsource] at hlate
        exact absurd hearly (not_early_of_bindLabels h (List.suffix_refl _) hlate)
      · cases hearly

/-- An unknown jump is found by the second reading, and a label with a predefined name by the
first. -/
theorem unknown_jump_after_bindLabels :
    (∃ table, bindLabels SymbolTable.initial 0 (Line.ofSource "@1\n0;JUMP") = .ok table ∧
      (∃ tokens, (Lexer.ofString "@1\n0;JUMP").tokens = .ok tokens ∧
        ∀ lexer : Lexer, lexer.source = (Lexer.ofString "@1\n0;JUMP").source →
          lexer.reset.tokens = .ok tokens ∧
            ∀ n, ∃ token, ((fun lexer => lexer.next.2)^[n] lexer.reset).next.1 = .ok token) ∧
      ∀ error, (emit table #[] (Line.ofSource "@1\n0;JUMP")).outcome = .error error →
        ¬error.IsEarly) ∧
    SatisfiesM (m := Id)
      (fun result => ∀ error, result.1 = .error error → error.IsEarly →
        Output.deliver (Emission.ofSource "@1\n(SP)") Output.MemorySink.empty =
          (pure (.error error, Output.MemorySink.empty) : Id _))
      (Output.deliver (Emission.ofSource "@1\n(SP)") Output.MemorySink.empty) := by
  refine ⟨?_, (early_errors_before_emission "@1\n(SP)").2 Id _ _⟩
  have hok : (bindLabels SymbolTable.initial 0 (Line.ofSource "@1\n0;JUMP")).toBool = true := by
    decide +kernel
  cases hbind : bindLabels SymbolTable.initial 0 (Line.ofSource "@1\n0;JUMP") with
  | error error =>
    rw [hbind] at hok
    cases hok
  | ok table =>
    obtain ⟨htokens, hlate⟩ := (early_errors_before_emission "@1\n0;JUMP").1 table hbind
    exact ⟨table, rfl, htokens, hlate table #[] _ (List.suffix_refl _)⟩

end Assembly

end HackAssembler
