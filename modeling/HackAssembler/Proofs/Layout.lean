import HackAssembler.Proofs.AlikeLines
import HackAssembler.Proofs.Disassembly
import HackAssembler.Proofs.FirstFault
import HackAssembler.Proofs.Respacing
import Mathlib.Logic.Relation

/-! # Layout

Blanks around lines, comments, blank lines and blanks around the signs of computations mean nothing:
a source assembles to the same words and symbols with them. An error stays the same error in another
layout, with one exception. A blank line behind an opening parenthesis alone can hide a fault at the
start of the next line, and then its newline is the error. -/
namespace HackAssembler.Source

open Text

inductive BlankLine : List Char → Prop
  | blanks {text : List Char} (h : Blanks text) : BlankLine text
  | comment {blanks words : List Char} (hblanks : Blanks blanks) (hwords : '\n' ∉ words) :
      BlankLine (blanks ++ '/' :: '/' :: words)

theorem BlankLine.reads {text : List Char} (h : BlankLine text) : Reads text [] := by
  cases h with
  | blanks h =>
    rw [← List.append_nil text, reads_blanks_append_iff h]
    exact .nil
  | comment hblanks hwords => exact (reads_blanks_append_iff hblanks).mpr (.comment hwords)

/-- What can be added to a line: blanks on both sides, a comment behind a blank, or blanks and a
comment where there is nothing. -/
inductive Padded : List Char → List Char → Prop
  | blanks {front back : List Char} (text : List Char) (hfront : Blanks front)
      (hback : Blanks back) : Padded text (front ++ (text ++ back))
  | comment {blanks words : List Char} (text : List Char) (hne : blanks ≠ [])
      (hblanks : Blanks blanks) (hwords : '\n' ∉ words) :
      Padded text (text ++ (blanks ++ '/' :: '/' :: words))
  | fill {text : List Char} (h : BlankLine text) : Padded [] text

inductive Respaced : List Char → List Char → Prop
  | intro {before before' after after' : List Char} {sign : Char} (left right : List Char)
      (hsign : IsSign sign) (hbefore : Blanks before) (hbefore' : Blanks before')
      (hafter : Blanks after) (hafter' : Blanks after') :
      Respaced (left ++ (before ++ sign :: (after ++ right)))
        (left ++ (before' ++ sign :: (after' ++ right)))

section Lines
variable {text text' : List Char} {start start' : Nat} {line line' : Line}

theorem Line.OfText.alike_of_reads (h : Line.OfText start text line)
    (h' : Line.OfText start' text' line') {lexemes : List Lexeme} (hreads : Reads text lexemes)
    (hreads' : Reads text' lexemes) : line.Alike line' := by
  obtain ⟨hfault, hlexemes⟩ := h.of_reads hreads
  obtain ⟨hfault', hlexemes'⟩ := h'.of_reads hreads'
  exact alike_of_lexemes_eq hfault hfault' (hlexemes.trans hlexemes'.symm)

end Lines

def AlikePieces (text text' : List Char) : Prop :=
  '\n' ∉ text → ∀ start start' line line', Line.OfText start text line →
    Line.OfText start' text' line' → line.Alike line'

theorem AlikePieces.refl (text : List Char) : AlikePieces text text :=
  fun htext _ _ _ _ h h' => h.alike_self htext h'

theorem Padded.alike {text text' : List Char} (h : Padded text text') : AlikePieces text text' := by
  intro htext start start' line line' hline hline'
  cases h with
  | @blanks front back _ hfront hback =>
    have hgap : Gap back :=
      ⟨(BlankLine.blanks hback).reads, fun c hc => hback c (List.mem_of_mem_head? hc)⟩
    exact hline.alike htext hfront hgap hline'
  | @comment blanks words _ hne hblanks hwords =>
    have hgap : Gap (blanks ++ '/' :: '/' :: words) := by
      refine ⟨(BlankLine.comment hblanks hwords).reads, fun c hc => ?_⟩
      rw [List.head?_append_of_ne_nil _ hne] at hc
      exact hblanks c (List.mem_of_mem_head? hc)
    exact hline.alike htext (List.forall_mem_nil _) hgap hline'
  | fill h => exact hline.alike_of_reads hline' .nil h.reads

end HackAssembler.Source

namespace HackAssembler.Assembly

open Source Instruction Text

/-! ### Edits of a source -/

/-- The layout of a source is changed in one place. -/
inductive Edit (code code' : String) : Prop
  | line {before after : List (List Char)} {text text' : List Char} (h : Padded text text')
      (hcode : pieces code.toList = before ++ text :: after)
      (hcode' : pieces code'.toList = before ++ text' :: after)
  | insert {before after : List (List Char)} {text : List Char} (h : BlankLine text)
      (hcode : pieces code.toList = before ++ after)
      (hcode' : pieces code'.toList = before ++ text :: after)

inductive SignEdit (code code' : String) : Prop
  | intro {before after : List (List Char)} {text text' : List Char} {word : String}
      {rest : List Lexeme} (hline : lexemesOf? text = some (.fragment word :: rest))
      (h : Respaced text text') (hcode : pieces code.toList = before ++ text :: after)
      (hcode' : pieces code'.toList = before ++ text' :: after)

/-- A line is put behind an opening parenthesis alone and in front of a line that starts badly. -/
def Separates (code code' : String) : Prop :=
  ∃ before text after, pieces code.toList = before ++ after ∧
    pieces code'.toList = before ++ text :: after ∧
    ∃ n, before.length = n + 1 ∧ OvertakenAt code n

/-! ### The lines of an edited source -/

section Pieces
variable {exact : Prop} {start : Nat} {lines : List Line} {texts texts' : List (List Char)}

theorem isSome_startFault_ofTexts (h : Line.OfTexts start texts lines)
    (htexts : ∀ text ∈ texts, '\n' ∉ text) :
    (startFault lines).isSome = texts.head?.any startsBadly := by
  cases h with
  | nil => rfl
  | cons hline => exact isSome_startFault hline (htexts _ List.mem_cons_self)
  | fault _ hline => exact isSome_startFault hline (htexts _ List.mem_cons_self)

theorem startsBadly_eq {text text' : List Char} (h : AlikePieces text text')
    (htext : '\n' ∉ text) (htext' : '\n' ∉ text') : startsBadly text = startsBadly text' := by
  obtain ⟨tokens, outcome, hrun⟩ := Cursor.exists_run ⟨text, 0, false⟩
  obtain ⟨tokens', outcome', hrun'⟩ := Cursor.exists_run ⟨text', 0, false⟩
  have hline := Line.OfText.intro hrun
  have hline' := Line.OfText.intro hrun'
  rw [← isSome_startFault hline htext, ← isSome_startFault hline' htext',
    (h htext _ _ _ _ hline hline').isSome_startFault]

def RelaidPieces (exact : Prop) (texts texts' : List (List Char)) : Prop :=
  (∀ text ∈ texts, '\n' ∉ text) → (∀ text ∈ texts', '\n' ∉ text) →
    ∀ start start' lines lines', Line.OfTexts start texts lines →
      Line.OfTexts start' texts' lines' → Relaid exact lines lines'

theorem RelaidPieces.cons {text text' : List Char} (hline : AlikePieces text text')
    (hahead : exact → lexemesOf? text = some [.openParen] →
      texts.head?.any startsBadly = texts'.head?.any startsBadly)
    (h : RelaidPieces exact texts texts') :
    RelaidPieces exact (text :: texts) (text' :: texts') := by
  intro htexts htexts' start start' lines lines' hlines hlines'
  obtain ⟨htext, htexts⟩ := List.forall_mem_cons.mp htexts
  obtain ⟨-, htexts'⟩ := List.forall_mem_cons.mp htexts'
  cases hlines with
  | fault _ hof hfault =>
    cases hlines' with
    | fault _ hof' hfault' =>
      exact .line (hline htext _ _ _ _ hof hof') (absurd · hfault) (fun _ => (absurd · hfault)) .nil
    | cons hof' hfault' =>
      exact absurd ((hline htext _ _ _ _ hof hof').fault?_eq_none_iff.mpr hfault') hfault
  | cons hof hfault hrest =>
    cases hlines' with
    | fault _ hof' hfault' =>
      exact absurd ((hline htext _ _ _ _ hof hof').fault?_eq_none_iff.mp hfault) hfault'
    | cons hof' hfault' hrest' =>
      refine .line (hline htext _ _ _ _ hof hof') (fun _ => (hof.reads htext hfault).lexed)
        (fun hexact _ hparen => ?_) (h htexts htexts' _ _ _ _ hrest hrest')
      rw [isSome_startFault_ofTexts hrest htexts, isSome_startFault_ofTexts hrest' htexts']
      exact hahead hexact ((lexemesOf?_of_no_fault hof htext hfault).trans (congrArg some hparen))

theorem RelaidPieces.refl (texts : List (List Char)) : RelaidPieces exact texts texts := by
  induction texts with
  | nil =>
    intro _ _ start start' lines lines' hlines hlines'
    cases hlines
    cases hlines'
    exact .nil
  | cons text texts ih => exact .cons (.refl text) (fun _ _ => rfl) ih

theorem RelaidPieces.blank {text : List Char} (hblank : BlankLine text)
    (h : RelaidPieces exact texts texts') : RelaidPieces exact texts (text :: texts') := by
  intro htexts htexts' start start' lines lines' hlines hlines'
  have hreads := hblank.reads
  cases hlines' with
  | cons hof hfault hrest =>
    obtain ⟨pos, rfl⟩ := Line.exists_newline hfault (hof.of_reads hreads).2
    exact .blank pos (h htexts (List.forall_mem_cons.mp htexts').2 _ _ _ _ hlines hrest)
  | fault _ hof hfault => exact absurd (hof.of_reads hreads).1 hfault

/-- Other pieces behind the same ones. -/
theorem RelaidPieces.append {before : List (List Char)}
    (hahead : exact → ∀ text ∈ before.getLast?, lexemesOf? text = some [.openParen] →
      texts.head?.any startsBadly = texts'.head?.any startsBadly)
    (h : RelaidPieces exact texts texts') :
    RelaidPieces exact (before ++ texts) (before ++ texts') := by
  induction before with
  | nil => exact h
  | cons text before ih =>
    cases before with
    | nil => exact .cons (.refl text) (fun hexact => hahead hexact text rfl) h
    | cons next before => exact .cons (.refl text) (fun _ _ => rfl) (ih hahead)

theorem relaid_ofSource {code code' : String} {before : List (List Char)}
    (hcode : pieces code.toList = before ++ texts) (hcode' : pieces code'.toList = before ++ texts')
    (hahead : exact → ∀ text ∈ before.getLast?, lexemesOf? text = some [.openParen] →
      texts.head?.any startsBadly = texts'.head?.any startsBadly)
    (h : RelaidPieces exact texts texts') :
    Relaid exact (Line.ofSource code) (Line.ofSource code') := by
  have hlines := Line.ofTexts_ofSource code
  have hlines' := Line.ofTexts_ofSource code'
  have htexts := @not_mem_of_mem_pieces code.toList
  have htexts' := @not_mem_of_mem_pieces code'.toList
  rw [hcode] at hlines htexts
  rw [hcode'] at hlines' htexts'
  exact RelaidPieces.append hahead h (fun _ => htexts) (fun _ => htexts') _ _ _ _ hlines hlines'

end Pieces

section Edits
variable {exact : Prop} {code code' : String} {before after : List (List Char)}
  {text text' : List Char}

/-- A source of which one line is laid out in another way. -/
theorem relaid_of_alike (hcode : pieces code.toList = before ++ text :: after)
    (hcode' : pieces code'.toList = before ++ text' :: after) (hline : AlikePieces text text') :
    Relaid exact (Line.ofSource code) (Line.ofSource code') := by
  refine relaid_ofSource hcode hcode' (fun _ _ _ _ => ?_)
    (.cons hline (fun _ _ => rfl) (.refl after))
  exact startsBadly_eq hline (not_mem_of_mem_pieces (by rw [hcode]; simp))
    (not_mem_of_mem_pieces (by rw [hcode']; simp))

/-- An edited source has the same lines laid out in another way. -/
theorem Edit.relaid (h : Edit code code') (hexact : exact → ¬Separates code code') :
    Relaid exact (Line.ofSource code) (Line.ofSource code') := by
  cases h with
  | line h hcode hcode' => exact relaid_of_alike hcode hcode' h.alike
  | @insert before after text h hcode hcode' =>
    refine relaid_ofSource hcode hcode' (fun hnot opening hopening hparen => ?_)
      (.blank h (.refl after))
    have hnil : startsBadly [] = false := by decide +kernel
    have htext : startsBadly [] = startsBadly text := startsBadly_eq (Padded.fill h).alike (by simp)
      (not_mem_of_mem_pieces (by rw [hcode']; simp))
    show after.head?.any startsBadly = startsBadly text
    rw [← htext, hnil, Bool.eq_false_iff]
    intro hbad
    obtain ⟨front, rfl⟩ := List.getLast?_eq_some_iff.mp hopening
    cases after with
    | nil => cases hbad
    | cons bad after =>
      have hover : OvertakenAt code front.length :=
        ⟨front, opening, bad, after, by simpa using hcode, rfl, hparen, hbad⟩
      exact hexact hnot ⟨_, text, _, hcode, hcode', front.length, by simp, hover⟩

/-- A line of a source that assembles is written with words and signs alone if it begins with a
word. -/
theorem isWordOrSign_of_denotes {program : Program} {inst : Instruction} {line : List Lexeme}
    (h : Denotes program line inst) {word : String} (hword : line.head? = some (.fragment word)) :
    ∀ lexeme ∈ line, lexeme.IsWordOrSign := by
  cases h with
  | literal => cases hword
  | symbol => cases hword
  | compute dest comp jump =>
    have hplain {word : String} (h : IsPlainWord word) : ')' ∉ word.toList :=
      fun hmem => absurd (h.isPlain _ hmem) (by decide)
    have hcomp := hplain (isPlainWord_comp comp)
    rw [Statement.computeLine_eq, List.forall_mem_append, List.forall_mem_cons]
    refine ⟨?_, hcomp, ?_⟩
    · by_cases hempty : dest.isEmpty = true
      · simp [hempty]
      · have hdest := hplain (isPlainWord_dest (by simpa using hempty))
        simp [hempty, hdest, Lexeme.IsWordOrSign]
    · cases jump with
      | none => simp [Statement.jumpLexemes]
      | some jump =>
        have hjump := hplain (isPlainWord_jump jump)
        simp [Statement.jumpLexemes, hjump, Lexeme.IsWordOrSign]

theorem SignEdit.relaid (h : SignEdit code code') {table : SymbolTable}
    (hok : (Emission.ofSource code).outcome = .ok table) :
    Relaid exact (Line.ofSource code) (Line.ofSource code') := by
  obtain ⟨program, insts, hreads, hprogram⟩ := Emission.exists_assembles hok
  obtain @⟨before, after, text, text', word, rest, hline, hspaced, hcode, hcode'⟩ := h
  rw [hcode] at hreads
  obtain ⟨_, line, _, rfl, _, htext, _⟩ := exists_split_of_forall₂ hreads
  have hnewline : '\n' ∉ text := not_mem_of_mem_pieces (by rw [hcode]; simp)
  obtain rfl : line = .fragment word :: rest :=
    Option.some.inj (((lexemesOf?_eq_some_iff hnewline).mpr htext).symm.trans hline)
  obtain ⟨inst, hdenotes⟩ := exists_denotes_of_forall₂ hprogram.denotes (.fragment word :: rest)
    (List.mem_filter.mpr ⟨by simp, rfl⟩)
  have htext' : Reads text' (.fragment word :: rest) := by
    cases hspaced with
    | intro left right hsign hbefore hbefore' hafter hafter' =>
      have hplain := isWordOrSign_of_denotes hdenotes rfl
      exact htext.respace hsign hbefore' hafter hafter' hplain _ _ hbefore rfl
  exact relaid_of_alike hcode hcode' fun _ _ _ _ _ hof hof' => hof.alike_of_reads hof' htext htext'

end Edits

/-! ### Sequences of edits -/

section Runs
variable {code code' : String}

abbrev Edits : String → String → Prop :=
  Relation.ReflTransGen Edit

/-- Such edits, none of which separates an opening parenthesis from a line that starts badly. -/
abbrev QuietEdits : String → String → Prop :=
  Relation.ReflTransGen fun code code' => Edit code code' ∧ ¬Separates code code'

abbrev EditsAndSigns : String → String → Prop :=
  Relation.ReflTransGen fun code code' => Edit code code' ∨ SignEdit code code'

theorem ofSource_eq_of_edit (h : Edit code code' ∨ SignEdit code code') {table : SymbolTable}
    (hok : (Emission.ofSource code).outcome = .ok table) :
    Emission.ofSource code' = Emission.ofSource code := by
  have hrelaid : Relaid False (Line.ofSource code) (Line.ofSource code') := by
    rcases h with h | h
    · exact h.relaid False.elim
    · exact h.relaid hok
  obtain ⟨hwords, houtcome⟩ := agree_ofSource hrelaid
  have hok' : (Emission.ofSource code').outcome = .ok table := by
    rw [hok] at houtcome
    generalize (Emission.ofSource code').outcome = outcome' at houtcome ⊢
    cases houtcome with
    | ok h => rw [h]
  calc
    Emission.ofSource code' =
        ⟨(Emission.ofSource code').words, (Emission.ofSource code').outcome⟩ := rfl
    _ = ⟨(Emission.ofSource code).words, (Emission.ofSource code).outcome⟩ := by
      rw [← hwords, hok', hok]
    _ = Emission.ofSource code := rfl

theorem ofSource_eq_of_edits (h : EditsAndSigns code code') {table : SymbolTable}
    (hok : (Emission.ofSource code).outcome = .ok table) :
    Emission.ofSource code' = Emission.ofSource code := by
  induction h with
  | refl => rfl
  | tail _ hedit ih => exact (ofSource_eq_of_edit hedit (ih ▸ hok)).trans ih

/-- An edit of a source with an error leaves the error. -/
theorem exists_shifted_of_edit {exact : Prop} (h : Edit code code')
    (hexact : exact → ¬Separates code code') {error : Error}
    (herror : (Emission.ofSource code).outcome = .error error) :
    ∃ error', (Emission.ofSource code').outcome = .error error' ∧ error.Shifted exact error' := by
  have houtcome := (agree_ofSource (h.relaid hexact)).2
  rw [herror] at houtcome
  generalize (Emission.ofSource code').outcome = outcome' at houtcome ⊢
  cases houtcome with
  | error h => exact ⟨_, rfl, h⟩

theorem exists_shifted_of_edits {exact : Prop} {step : String → String → Prop}
    (hstep : ∀ code code', step code code' → Edit code code' ∧ (exact → ¬Separates code code'))
    (h : Relation.ReflTransGen step code code') {error : Error}
    (herror : (Emission.ofSource code).outcome = .error error) :
    ∃ error', (Emission.ofSource code').outcome = .error error' ∧ error.Shifted exact error' := by
  induction h with
  | refl => exact ⟨error, herror, .same (.refl error)⟩
  | tail _ hlast ih =>
    obtain ⟨middle, hmiddle, hshifted⟩ := ih
    obtain ⟨hedit, hexact⟩ := hstep _ _ hlast
    obtain ⟨error', herror', hshifted'⟩ := exists_shifted_of_edit hedit hexact hmiddle
    exact ⟨error', herror', hshifted.trans hshifted'⟩

theorem assemble_eq_error_iff {error : Error} :
    assemble code = .error error ↔ (Emission.ofSource code).outcome = .error error := by
  rw [assemble]
  cases (Emission.ofSource code).outcome <;> simp [Except.map]

theorem exists_outcome_of_assemble {output : String} (h : assemble code = .ok output) :
    ∃ table, (Emission.ofSource code).outcome = .ok table := by
  cases houtcome : (Emission.ofSource code).outcome with
  | ok table => exact ⟨table, rfl⟩
  | error error => cases h.symm.trans (assemble_eq_error_iff.mpr houtcome)

end Runs

/-- The layout of a source does not change what it assembles to. A source with an error has one in
every layout, and the same one but for its place, unless a blank line hides the fault that was the
error. This it can only do if it separates an opening parenthesis from a line that starts badly. -/
theorem layout_keeps_meaning (code code' : String) :
    (EditsAndSigns code code' → ∀ output, assemble code = .ok output →
      assemble code' = .ok output ∧ ∃ table, symbols code = .ok table ∧ symbols code' = .ok table) ∧
    (Edits code code' → ∀ error, assemble code = .error error →
      ∃ error', assemble code' = .error error' ∧ (error.SameVariant error' ∨
        (∃ fault, error = .lexical fault) ∧
          ∃ expected pos, error' = unexpected (.token expected) .newline pos)) ∧
    (QuietEdits code code' → ∀ error, assemble code = .error error →
      ∃ error', assemble code' = .error error' ∧ error.SameVariant error') := by
  refine ⟨fun h output hok => ?_, fun h error herror => ?_, fun h error herror => ?_⟩
  · obtain ⟨table, htable⟩ := exists_outcome_of_assemble hok
    have hsource := ofSource_eq_of_edits h htable
    refine ⟨?_, table, htable, ?_⟩
    · rw [← hok, assemble, assemble, hsource]
    · rw [symbols, hsource, htable]
  · obtain ⟨error', herror', hshifted⟩ := exists_shifted_of_edits
      (fun _ _ hedit => ⟨hedit, False.elim⟩) h (assemble_eq_error_iff.mp herror)
    refine ⟨error', assemble_eq_error_iff.mpr herror', ?_⟩
    cases hshifted with
    | same h => exact .inl h
    | hidden _ fault expected pos => exact .inr ⟨⟨fault, rfl⟩, expected, pos, rfl⟩
  · obtain ⟨error', herror', hshifted⟩ := exists_shifted_of_edits
      (fun _ _ hedit => ⟨hedit.1, fun _ : True => hedit.2⟩) h (assemble_eq_error_iff.mp herror)
    refine ⟨error', assemble_eq_error_iff.mpr herror', ?_⟩
    cases hshifted with
    | same h => exact h
    | hidden hexact => exact absurd trivial hexact

theorem layout_keeps_meaning_of_one :
    (assemble "\nM = 1 // one" = .ok "1110111111001000\n" ∧
      ∃ table, symbols "M=1" = .ok table ∧ symbols "\nM = 1 // one" = .ok table) ∧
    ∃ error', assemble " @1 2" = .error error' ∧
      (unexpected (.token .newline) .fragment 3).SameVariant error' := by
  have hsign : SignEdit "M=1" "M = 1" := by
    have hspaced : Respaced ['M', '=', '1'] ['M', ' ', '=', ' ', '1'] :=
      @Respaced.intro [] [' '] [] [' '] '=' ['M'] ['1'] (.inl rfl) (by decide) (by decide)
        (by decide) (by decide)
    exact @SignEdit.intro _ _ [] [] _ _ "M" [.equal, .fragment "1"] (by decide +kernel) hspaced
      (by decide +kernel) (by decide +kernel)
  have hcomment : Edit "M = 1" "M = 1 // one" :=
    @Edit.line _ _ [] [] _ _
      (@Padded.comment [' '] [' ', 'o', 'n', 'e'] ['M', ' ', '=', ' ', '1'] (by decide) (by decide)
        (by decide))
      (by decide +kernel) (by decide +kernel)
  have hblank : Edit "M = 1 // one" "\nM = 1 // one" :=
    @Edit.insert _ _ [] ["M = 1 // one".toList] _ (@BlankLine.blanks [] (by decide))
      (by decide +kernel) (by decide +kernel)
  have hmeaning := (layout_keeps_meaning "M=1" "\nM = 1 // one").1
    (((Relation.ReflTransGen.single (.inr hsign)).tail (.inl hcomment)).tail (.inl hblank))
    "1110111111001000\n" (by decide +kernel)
  have hfront : Edit "@1 2" " @1 2" :=
    @Edit.line _ _ [] [] _ _
      (@Padded.blanks [' '] [] ['@', '1', ' ', '2'] (by decide) (by decide))
      (by decide +kernel) (by decide +kernel)
  have hquiet : ¬Separates "@1 2" " @1 2" := by
    rintro ⟨before, text, after, hcode, hcode', -⟩
    have hlength : (pieces "@1 2".toList).length = (pieces " @1 2".toList).length := by
      decide +kernel
    rw [hcode, hcode'] at hlength
    simp at hlength
  exact ⟨hmeaning, (layout_keeps_meaning "@1 2" " @1 2").2.2 (.single ⟨hfront, hquiet⟩) _
    (by decide +kernel)⟩

/-- A blank line hides a fault that was the error. -/
theorem lexical_error_hidden_by_blank_line :
    Edit "(\n@ x" "(\n\n@ x" ∧ ∃ error error', assemble "(\n@ x" = .error error ∧
      assemble "(\n\n@ x" = .error error' ∧ ¬error.SameVariant error' := by
  refine ⟨@Edit.insert _ _ [['(']] [['@', ' ', 'x']] _ (@BlankLine.blanks [] (by decide))
    (by decide +kernel) (by decide +kernel), .lexical ⟨some ' ', 3⟩,
    unexpected (.token .symbol) .newline 1, by decide +kernel, by decide +kernel, ?_⟩
  rintro ⟨⟩

end HackAssembler.Assembly
