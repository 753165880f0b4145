import HackAssembler.Proofs.LexicalGrammar
import HackAssembler.Proofs.Positions
import Mathlib.Data.List.Basic

/-! # The tokens of joined texts

A lexer reads the same tokens wherever a text stands, as many places further on as characters come
before it. So the tokens of two texts with a newline between them are those of the first text and
then those of the second one, moved by the length of what comes before it. -/
namespace HackAssembler.Source

open Text

def Token.moveBy (offset : Nat) (token : Token) : Token :=
  { token with pos := token.pos + offset }

def LexError.moveBy (offset : Nat) (error : LexError) : LexError :=
  { error with pos := error.pos + offset }

namespace Cursor

def moveBy (offset : Nat) (cursor : Cursor) : Cursor :=
  { cursor with pos := cursor.pos + offset }

def moveRead (offset : Nat) : Except LexError Token × Cursor → Except LexError Token × Cursor
  | (.error error, after) => (.error (error.moveBy offset), after.moveBy offset)
  | (.ok token, after) => (.ok (token.moveBy offset), after.moveBy offset)

section Steps
variable (offset : Nat)

theorem readUntil_moveBy (stop : Char → List Char → Bool) (cursor : Cursor) :
    (cursor.moveBy offset).readUntil stop =
      ((cursor.readUntil stop).1, (cursor.readUntil stop).2.moveBy offset) := by
  simp only [readUntil, moveBy, Nat.add_right_comm]

theorem skipComment_moveBy (cursor : Cursor) :
    (cursor.moveBy offset).skipComment = cursor.skipComment.moveBy offset := by
  have hread := readUntil_moveBy offset (fun c _ => c == '\n') cursor
  rcases cursor with ⟨rest, pos, operandNext⟩
  simp only [skipComment, moveBy] at hread ⊢
  split
  · exact congrArg Prod.snd hread
  · rfl

theorem skipGap_moveBy (cursor : Cursor) :
    (cursor.moveBy offset).skipGap = cursor.skipGap.moveBy offset := by
  have hblanks : (cursor.moveBy offset).skipBlanks = cursor.skipBlanks.moveBy offset :=
    congrArg Prod.snd (readUntil_moveBy offset _ cursor)
  rw [skipGap, skipGap, hblanks, skipComment_moveBy]

theorem finish_moveBy (lexeme : String → Lexeme) (cursor : Cursor) (read : List Char × Cursor) :
    readOperand.finish (cursor.moveBy offset) lexeme (read.1, read.2.moveBy offset) =
      moveRead offset (readOperand.finish cursor lexeme read) := by
  rcases read with ⟨word, after⟩
  by_cases h : atBoundary after.rest = true <;> simp [readOperand.finish, moveBy, h] <;> rfl

theorem readOperand_moveBy (cursor : Cursor) :
    (cursor.moveBy offset).readOperand = moveRead offset cursor.readOperand := by
  rcases cursor with ⟨_ | ⟨c, rest⟩, pos, operandNext⟩
  · rfl
  · have hread (stop : Char → List Char → Bool) :=
      readUntil_moveBy offset stop ⟨c :: rest, pos, operandNext⟩
    simp only [moveBy] at hread
    simp only [readOperand, moveBy, hread]
    split
    · exact finish_moveBy offset _ ⟨c :: rest, pos, operandNext⟩ _
    · split
      · exact finish_moveBy offset _ ⟨c :: rest, pos, operandNext⟩ _
      · rfl

theorem readWord_moveBy (first : Char) (rest : List Char) (pos : Nat) :
    readWord first rest (pos + offset) = moveRead offset (readWord first rest pos) := by
  have hread := readUntil_moveBy offset endsWord ⟨rest, pos + 1, false⟩
  simp only [moveBy, Nat.add_right_comm pos 1 offset] at hread
  simp only [readWord, hread]
  split
  · split <;> rfl
  · rfl

theorem next_moveBy (cursor : Cursor) :
    (cursor.moveBy offset).next = moveRead offset cursor.next := by
  rw [next, next, skipGap_moveBy]
  generalize cursor.skipGap = start
  rcases start with ⟨rest, pos, operandNext⟩
  cases operandNext with
  | true => exact readOperand_moveBy offset ⟨rest, pos, false⟩
  | false =>
    cases rest with
    | nil => rfl
    | cons c rest =>
      simp only [moveBy, Bool.false_eq_true, if_false, Nat.add_right_comm pos offset 1]
      split
      · split <;> rfl
      · split
        · rfl
        · exact readWord_moveBy offset c rest pos

end Steps

def moveEnd (offset : Nat) : Except LexError Nat → Except LexError Nat
  | .ok last => .ok (last + offset)
  | .error error => .error (error.moveBy offset)

theorem Run.moveBy {cursor : Cursor} {tokens : List Token} {outcome : Except LexError Nat}
    (h : Run cursor tokens outcome) (offset : Nat) :
    Run (cursor.moveBy offset) (tokens.map (·.moveBy offset)) (moveEnd offset outcome) := by
  induction h with
  | done hnext => exact .done (by rw [next_moveBy, hnext]; rfl)
  | fault hnext => exact .fault (by rw [next_moveBy, hnext]; rfl)
  | token hnext hend _ ih => exact .token (by rw [next_moveBy, hnext]; rfl) hend ih

end Cursor

namespace Lexer

theorem tokens_of_run {code : String} {tokens : List Token} {outcome : Except LexError Nat}
    (h : Cursor.Run ⟨code.toList ++ ['\n'], 0, false⟩ tokens outcome) :
    (ofString code).tokens =
      outcome.map fun last => tokens ++ [⟨.endOfInput, last⟩] := by
  have hscan := h.scan_eq
  simp only [Lexer.tokens, ofString, start, hscan]
  cases outcome <;> rfl

section Join
variable {a : String} {tokens : List Token}

theorem toList_join (a b : String) : (a ++ "\n" ++ b).toList = a.toList ++ '\n' :: b.toList := by
  simp

/-- A fault in a text is all that is found of the text, whatever comes behind it. -/
theorem tokens_join_of_fault {error : LexError}
    (h : Cursor.Run ⟨a.toList, 0, false⟩ tokens (.error error)) :
    ∃ found, (ofString a).tokens = .error found ∧
      ∀ b, (ofString (a ++ "\n" ++ b)).tokens = .error found := by
  refine ⟨_, tokens_of_run (h.extend_of_error []), fun b => ?_⟩
  have hrun := h.extend_of_error (b.toList ++ ['\n'])
  rw [Cursor.extend, ← List.cons_append, ← List.append_assoc, ← toList_join] at hrun
  exact tokens_of_run hrun

/-- Behind the tokens of a text and its newline come those of what stands there. -/
theorem tokens_join_of_read {last : Nat} (h : Cursor.Run ⟨a.toList, 0, false⟩ tokens (.ok last)) :
    (ofString a).tokens = .ok (tokens ++ [⟨.newline, last⟩] ++ [⟨.endOfInput, last + 1⟩]) ∧
      ∀ (b : String) {more : List Token} {outcome : Except LexError Nat},
        Cursor.Run ⟨b.toList ++ ['\n'], 0, false⟩ more outcome →
        (ofString (a ++ "\n" ++ b)).tokens =
          (Cursor.moveEnd (last + 1) outcome).map fun final =>
            tokens ++ [⟨.newline, last⟩] ++ more.map (·.moveBy (last + 1)) ++
              [⟨.endOfInput, final⟩] := by
  constructor
  · have hrun := tokens_of_run (h.extend_of_ok (.done (Cursor.next_nil (last + 1))))
    rw [hrun, Except.map, List.append_assoc]
  · intro b more outcome hmore
    have hbehind := hmore.moveBy (last + 1)
    have hrun := h.extend_of_ok (by rwa [Cursor.moveBy, Nat.zero_add] at hbehind)
    rw [Cursor.extend, ← List.cons_append, ← List.append_assoc, ← toList_join] at hrun
    simpa using tokens_of_run hrun

/-- A newline behind a text is one token more. -/
theorem tokens_append_newline {last : Nat}
    (h : Cursor.Run ⟨a.toList, 0, false⟩ tokens (.ok last)) :
    (ofString (a ++ "\n")).tokens =
      .ok (tokens ++ [⟨.newline, last⟩] ++ [⟨.newline, last + 1⟩, ⟨.endOfInput, last + 2⟩]) := by
  have hempty : Cursor.Run ⟨[] ++ ['\n'], 0, false⟩ [⟨.newline, 0⟩] (.ok 1) :=
    .token rfl (by simp) (.done rfl)
  have hnewline := (tokens_join_of_read h).2 "" hempty
  rw [String.append_empty] at hnewline
  rw [hnewline]
  simp [Except.map, Cursor.moveEnd, Token.moveBy, Nat.add_left_comm 1 last 1]

end Join

/-- A text with a fault has the same fault in front of any other text. The tokens of a text without
one stand in front of the tokens of the other text, whose places lie behind the first text and the
newline. If that is all that comes behind it, the newline is the only token that is added. -/
theorem tokens_join (a b : String) :
    (∀ error, (ofString a).tokens = .error error →
      (ofString (a ++ "\n" ++ b)).tokens = .error error ∧
        (ofString (a ++ "\n")).tokens = .error error) ∧
    ∀ tokens, (ofString a).tokens = .ok tokens →
      ∃ front, tokens = front ++ [⟨.endOfInput, a.length + 1⟩] ∧
        (∀ more, (ofString b).tokens = .ok more →
          (ofString (a ++ "\n" ++ b)).tokens = .ok (front ++ more.map (·.moveBy (a.length + 1)))) ∧
        (∀ error, (ofString b).tokens = .error error →
          (ofString (a ++ "\n" ++ b)).tokens = .error (error.moveBy (a.length + 1))) ∧
        (ofString (a ++ "\n")).tokens =
          .ok (front ++ [⟨.newline, a.length + 1⟩, ⟨.endOfInput, a.length + 2⟩]) := by
  obtain ⟨head, outcome, hhead⟩ := Cursor.exists_run ⟨a.toList, 0, false⟩
  cases outcome with
  | error fault =>
    obtain ⟨found, htokens, hjoin⟩ := tokens_join_of_fault hhead
    rw [htokens]
    refine ⟨?_, by simp⟩
    rintro _ ⟨⟩
    exact ⟨hjoin b, by simpa using hjoin ""⟩
  | ok last =>
    obtain rfl : last = a.length := by
      simpa [Cursor.EndsIn, Cursor.limit, String.length_toList] using hhead.within.2
    obtain ⟨htokens, hjoin⟩ := tokens_join_of_read hhead
    rw [htokens]
    refine ⟨by simp, ?_⟩
    rintro _ ⟨⟩
    obtain ⟨tail, outcome, htail⟩ := Cursor.exists_run ⟨b.toList ++ ['\n'], 0, false⟩
    have hb := tokens_of_run htail
    have hboth := hjoin b htail
    refine ⟨_, rfl, fun more hmore => ?_, fun error herror => ?_, ?_⟩
    · cases outcome with
      | error error => cases hb.symm.trans hmore
      | ok final =>
        obtain rfl : _ = more := Except.ok.inj (hb.symm.trans hmore)
        rw [hboth]
        simp [Except.map, Cursor.moveEnd, Token.moveBy]
    · cases outcome with
      | error fault =>
        obtain rfl : fault = error := Except.error.inj (hb.symm.trans herror)
        exact hboth
      | ok final => cases hb.symm.trans herror
    · exact tokens_append_newline hhead

/-- A line with a comment, in front of one that can be read and of one that cannot, and behind
that. -/
theorem tokens_join_comment :
    (ofString "D=M //(").tokens = .ok [⟨.fragment "D", 0⟩, ⟨.equal, 1⟩, ⟨.fragment "M", 2⟩,
      ⟨.newline, 7⟩, ⟨.endOfInput, 8⟩] ∧
    (ofString "@k").tokens = .ok [⟨.atSign, 0⟩, ⟨.symbol "k", 1⟩, ⟨.newline, 2⟩, ⟨.endOfInput, 3⟩] ∧
    (ofString "(x) @").tokens = .error ⟨some '\n', 5⟩ ∧
    (ofString "D=M //(\n@k").tokens = .ok [⟨.fragment "D", 0⟩, ⟨.equal, 1⟩, ⟨.fragment "M", 2⟩,
      ⟨.newline, 7⟩, ⟨.atSign, 8⟩, ⟨.symbol "k", 9⟩, ⟨.newline, 10⟩, ⟨.endOfInput, 11⟩] ∧
    (ofString "D=M //(\n(x) @").tokens = .error ⟨some '\n', 13⟩ ∧
    (ofString "(x) @\n@k").tokens = .error ⟨some '\n', 5⟩ := by
  have hcomment : (ofString "D=M //(").tokens = .ok ([⟨.fragment "D", 0⟩, ⟨.equal, 1⟩,
      ⟨.fragment "M", 2⟩, ⟨.newline, 7⟩] ++ [⟨.endOfInput, 8⟩]) := by
    decide +kernel
  have hload : (ofString "@k").tokens =
      .ok [⟨.atSign, 0⟩, ⟨.symbol "k", 1⟩, ⟨.newline, 2⟩, ⟨.endOfInput, 3⟩] := by
    decide +kernel
  have hfault : (ofString "(x) @").tokens = .error ⟨some '\n', 5⟩ := by decide +kernel
  obtain ⟨front, hfront, hread, -, -⟩ := (tokens_join "D=M //(" "@k").2 _ hcomment
  obtain ⟨-, -, -, hunread, -⟩ := (tokens_join "D=M //(" "(x) @").2 _ hcomment
  obtain rfl := List.append_cancel_right hfront
  exact ⟨hcomment, hload, hfault, hread _ hload, hunread _ hfault,
    ((tokens_join "(x) @" "@k").1 _ hfault).1⟩

end Lexer

end HackAssembler.Source
