import HackAssembler.Assembly.Emission
import HackAssembler.Proofs.Gaps

/-! # Reading alike lines

Neither reading sees where a line stands, but for the places that errors point at, and both pass
over blank lines. A blank line can only be seen behind a line that holds an opening parenthesis
alone: there it may hide the fault that the next line starts with. -/
namespace HackAssembler.Assembly

open Source Instruction

/-! ### Results that agree -/

/-- Errors with the same thing to say, wherever they point. -/
inductive Error.SameVariant : Error → Error → Prop
  | lexical (error error' : LexError) : SameVariant (.lexical error) (.lexical error')
  | source (fault : SourceFault) (pos pos' : Nat) :
      SameVariant (.source fault pos) (.source fault pos')
  | sink (fault : FileFault) : SameVariant (.sink fault) (.sink fault)

theorem Error.SameVariant.refl (error : Error) : error.SameVariant error := by
  cases error with
  | lexical => exact .lexical _ _
  | source => exact .source _ _ _
  | sink => exact .sink _

theorem Error.SameVariant.trans {first second third : Error} (h : first.SameVariant second)
    (h' : second.SameVariant third) : first.SameVariant third := by
  cases h <;> cases h' <;> constructor

/-- Errors with the same thing to say, unless a newline may have taken the place of a fault. -/
inductive Error.Shifted (exact : Prop) : Error → Error → Prop
  | same {error error' : Error} (h : error.SameVariant error') : Shifted exact error error'
  | hidden (hexact : ¬exact) (error : LexError) (expected : Kind) (pos : Nat) :
      Shifted exact (.lexical error) (unexpected (.token expected) .newline pos)

/-- A newline that has taken the place of a fault is not taken for a fault again. -/
theorem Error.Shifted.trans {exact : Prop} {first second third : Error}
    (h : first.Shifted exact second) (h' : second.Shifted exact third) :
    first.Shifted exact third := by
  cases h with
  | same h =>
    cases h' with
    | same h' => exact .same (h.trans h')
    | hidden hexact =>
      cases h
      exact .hidden hexact _ _ _
  | hidden hexact =>
    cases h' with
    | same h' =>
      cases h'
      exact .hidden hexact _ _ _

inductive Agree {α β : Type} (exact : Prop) (same : α → β → Prop) :
    Except Error α → Except Error β → Prop
  | ok {value : α} {value' : β} (h : same value value') : Agree exact same (.ok value) (.ok value')
  | error {error error' : Error} (h : error.Shifted exact error') :
      Agree exact same (.error error) (.error error')

section Agree
variable {exact : Prop} {α α' β β' : Type} {same : α → α' → Prop}

theorem Agree.lexical (error error' : LexError) :
    Agree exact same (.error (.lexical error)) (.error (.lexical error')) :=
  .error (.same (.lexical _ _))

theorem Agree.source (fault : SourceFault) (pos pos' : Nat) :
    Agree exact same (.error (.source fault pos)) (.error (.source fault pos')) :=
  .error (.same (.source _ _ _))

theorem Agree.bind {result : Except Error α} {result' : Except Error α'}
    {next : α → Except Error β} {next' : α' → Except Error β'} {last : β → β' → Prop}
    (h : Agree exact same result result')
    (hnext : ∀ value value', same value value' → Agree exact last (next value) (next' value')) :
    Agree exact last (result >>= next) (result' >>= next') := by
  cases h with
  | ok h => exact hnext _ _ h
  | error h => exact .error h

theorem agree_located (pos pos' : Nat) (result : Except MnemonicError α) :
    Agree exact Eq (located pos result) (located pos' result) := by
  cases result with
  | ok value => exact .ok rfl
  | error error => exact .source _ _ _

end Agree

variable {exact : Prop} {line line' : Line}

/-! ### The first reading of a line -/

inductive Outline.Alike : Outline → Outline → Prop
  | blank : Alike .blank .blank
  | instruction : Alike .instruction .instruction
  | label (name : String) (pos pos' : Nat) : Alike (.label name pos) (.label name pos')

/-- What is wrong with a declaration that ends too early: the fault ahead, or its newline. -/
def missing (ahead : Option LexError) (expected : Kind) (pos : Nat) : Error :=
  match ahead with
  | some error => .lexical error
  | none => unexpected (.token expected) .newline pos

/-- From what lies ahead, two unfinished declarations get errors that agree. -/
def SameAhead (exact : Prop) (ahead ahead' : Option LexError) : Prop :=
  ∀ expected pos pos', (missing ahead expected pos).Shifted exact (missing ahead' expected pos')

namespace Outline

variable {ahead ahead' : Option LexError}

theorem agree_ofLabelEnd (h : line.Alike line') (name : String) (pos pos' : Nat) :
    Agree exact Outline.Alike (ofLabelEnd name pos line) (ofLabelEnd name pos' line') := by
  cases h with
  | newline => exact .ok (.label name pos pos')
  | fault => exact .lexical _ _
  | token => exact .source _ _ _

theorem agree_ofLabelName (h : line.Alike line') (name : String) (pos pos' : Nat)
    (hahead : line.fault? = none → line.lexemes = [] → SameAhead exact ahead ahead') :
    Agree exact Outline.Alike (ofLabelName name pos ahead line)
      (ofLabelName name pos' ahead' line') := by
  cases h with
  | newline start start' =>
    have hmissing := hahead rfl rfl .closeParen start start'
    cases ahead <;> cases ahead' <;> exact .error hmissing
  | fault => exact .lexical _ _
  | token lexeme start start' hrest =>
    cases lexeme
    case closeParen => exact agree_ofLabelEnd hrest name pos pos'
    all_goals
      cases hrest with
      | fault => exact .lexical _ _
      | newline => exact .source _ _ _
      | token => exact .source _ _ _

theorem agree_ofLabel (h : line.Alike line')
    (hahead : line.fault? = none →
      (line.lexemes = [] ∨ ∃ name, line.lexemes = [.symbol name]) → SameAhead exact ahead ahead') :
    Agree exact Outline.Alike (ofLabel ahead line) (ofLabel ahead' line') := by
  cases h with
  | newline start start' =>
    have hmissing := hahead rfl (.inl rfl) .symbol start start'
    cases ahead <;> cases ahead' <;> exact .error hmissing
  | fault => exact .lexical _ _
  | token lexeme start start' hrest =>
    cases lexeme
    case symbol name =>
      have hname := agree_ofLabelName hrest name start start' fun hfault hlexemes =>
        hahead hfault (.inr ⟨name, by rw [Line.lexemes_token, hlexemes]⟩)
      cases hrest with
      | fault => exact .lexical _ _
      | newline => exact hname
      | token => exact hname
    all_goals
      cases hrest with
      | fault => exact .lexical _ _
      | newline => exact .source _ _ _
      | token => exact .source _ _ _

theorem agree_instruction {rest rest' : Line} (h : rest.Alike rest') :
    Agree exact Outline.Alike
      (match rest.fault? with
        | some error => .error (.lexical error)
        | none => .ok Outline.instruction)
      (match rest'.fault? with
        | some error => .error (.lexical error)
        | none => .ok Outline.instruction) := by
  have hfault := h.isSome_fault?
  generalize rest.fault? = found at hfault ⊢
  generalize rest'.fault? = found' at hfault ⊢
  cases found <;> cases found'
  · exact .ok .instruction
  · cases hfault
  · cases hfault
  · exact .lexical _ _

theorem agree_ofLine (h : line.Alike line')
    (hahead : line.fault? = none → (line.lexemes = [.openParen] ∨
      ∃ name, line.lexemes = [.openParen, .symbol name]) → SameAhead exact ahead ahead') :
    Agree exact Outline.Alike (ofLine ahead line) (ofLine ahead' line') := by
  cases h with
  | newline => exact .ok .blank
  | fault => exact .lexical _ _
  | @token lexeme start start' rest rest' hrest =>
    have hstart := hrest.isSome_startFault
    have hlabel : lexeme = .openParen →
        Agree exact Outline.Alike (ofLabel ahead rest) (ofLabel ahead' rest') := by
      rintro rfl
      refine agree_ofLabel hrest fun hfault hlexemes => hahead hfault ?_
      simpa using hlexemes
    simp only [ofLine]
    generalize rest.startFault = found at hstart ⊢
    generalize rest'.startFault = found' at hstart ⊢
    cases found <;> cases found'
    · cases lexeme
      case openParen => exact hlabel rfl
      case atSign => exact agree_instruction hrest
      case fragment => exact agree_instruction hrest
      all_goals exact .source _ _ _
    · cases hstart
    · cases hstart
    · exact .lexical _ _

end Outline

/-! ### The second reading of a line -/

namespace Statement

inductive Alike : Statement → Statement → Prop
  | load (value : Value) (pos pos' : Nat) : Alike (.load value pos) (.load value pos')
  | compute (dest : Destination) (comp : Computation) (jump : Option Jump) :
      Alike (.compute dest comp jump) (.compute dest comp jump)

def AlikeRead (read read' : Statement × Line) : Prop :=
  read.1.Alike read'.1 ∧ read.2.Alike read'.2

theorem agree_readJump (h : line.Alike line') (dest : Destination) (comp : Computation) :
    Agree exact AlikeRead (readJump dest comp line) (readJump dest comp line') := by
  cases h with
  | newline pos pos' => exact .ok ⟨.compute _ _ _, .newline pos pos'⟩
  | fault error error' => exact .ok ⟨.compute _ _ _, .fault error error'⟩
  | token lexeme pos pos' hrest =>
    cases lexeme
    case semicolon =>
      cases hrest with
      | newline start start' =>
        refine (agree_located start start' (Jump.read "")).bind ?_
        rintro jump _ rfl
        exact .ok ⟨.compute _ _ _, .newline start start'⟩
      | fault => exact .lexical _ _
      | token lexeme start start' hbehind =>
        refine (agree_located start start' (Jump.read lexeme.text)).bind ?_
        rintro jump _ rfl
        exact .ok ⟨.compute _ _ _, hbehind⟩
    all_goals exact .ok ⟨.compute _ _ _, .token _ pos pos' hrest⟩

theorem agree_readAssigned (h : line.Alike line') (dest : String) (start start' : Nat) :
    Agree exact AlikeRead (readAssigned dest start line) (readAssigned dest start' line') := by
  cases h with
  | newline => exact .source _ _ _
  | fault => exact .lexical _ _
  | token lexeme pos pos' hrest =>
    cases lexeme
    case fragment word =>
      refine (agree_located pos pos' (Computation.read word)).bind ?_
      rintro comp _ rfl
      refine (agree_located start start' (Destination.read dest)).bind ?_
      rintro dest _ rfl
      exact agree_readJump hrest dest comp
    all_goals exact .source _ _ _

theorem agree_readCompute (h : line.Alike line') (word : String) (start start' : Nat) :
    Agree exact AlikeRead (readCompute word start line) (readCompute word start' line') := by
  have hplain : Agree exact AlikeRead
      (located start (Computation.read word) >>= fun comp => readJump .none comp line)
      (located start' (Computation.read word) >>= fun comp => readJump .none comp line') := by
    refine (agree_located start start' _).bind ?_
    rintro comp _ rfl
    exact agree_readJump h .none comp
  cases h with
  | newline => exact hplain
  | fault => exact hplain
  | token lexeme pos pos' hrest =>
    cases lexeme
    case equal => exact agree_readAssigned hrest word start start'
    all_goals exact hplain

theorem agree_readLoad (h : line.Alike line') :
    Agree exact AlikeRead (readLoad line) (readLoad line') := by
  cases h with
  | newline => exact .source _ _ _
  | fault => exact .lexical _ _
  | token lexeme pos pos' hrest =>
    cases lexeme
    case symbol name => exact .ok ⟨.load _ pos pos', hrest⟩
    case number digits => exact .ok ⟨.load _ pos pos', hrest⟩
    all_goals exact .source _ _ _

inductive AlikeLine : Option (Statement × Line) → Option (Statement × Line) → Prop
  | none : AlikeLine none none
  | some {read read' : Statement × Line} (h : AlikeRead read read') :
      AlikeLine (some read) (some read')

theorem agree_ofLine (h : line.Alike line') :
    Agree exact AlikeLine (ofLine line) (ofLine line') := by
  have hsome {result result' : Except Error (Statement × Line)}
      (h : Agree exact AlikeRead result result') :
      Agree exact AlikeLine (some <$> result) (some <$> result') := by
    cases h with
    | ok h => exact .ok (.some h)
    | error h => exact .error h
  cases h with
  | newline => exact .ok .none
  | fault => exact .lexical _ _
  | token lexeme pos pos' hrest =>
    cases lexeme
    case openParen => exact .ok .none
    case atSign => exact hsome (agree_readLoad hrest)
    case fragment word => exact hsome (agree_readCompute hrest word pos pos')
    all_goals exact .source _ _ _

theorem Alike.agree_resolve {statement statement' : Statement} (h : statement.Alike statement')
    (table : SymbolTable) :
    Agree exact Eq (statement.resolve table) (statement'.resolve table) := by
  cases h with
  | compute dest comp jump => exact .ok rfl
  | load value pos pos' =>
    simp only [resolve]
    cases value.resolve table with
    | some found => exact .ok rfl
    | none => exact .source _ _ _

end Statement

theorem agree_requireNewline (h : line.Alike line') :
    Agree exact (fun _ _ => True) (requireNewline line) (requireNewline line') := by
  cases h with
  | newline => exact .ok trivial
  | fault => exact .lexical _ _
  | token => exact .source _ _ _

/-! ### Whole readings -/

/-- The lines of a source and of one that is laid out in another way: alike lines, with blank lines
put between them. If errors have to be exact, behind an opening parenthesis alone the one has a
fault at the start of the next line if the other has. -/
inductive Relaid (exact : Prop) : List Line → List Line → Prop
  | nil : Relaid exact [] []
  | line {line line' : Line} {rest rest' : List Line} (hline : line.Alike line')
      (hlexed : line.fault? = none → Lexed line.lexemes)
      (hahead : exact → line.fault? = none → line.lexemes = [.openParen] →
        (startFault rest).isSome = (startFault rest').isSome)
      (hrest : Relaid exact rest rest') : Relaid exact (line :: rest) (line' :: rest')
  | blank (pos : Nat) {rest rest' : List Line} (hrest : Relaid exact rest rest') :
      Relaid exact rest (.newline pos :: rest')

section Relaid
variable {lines lines' : List Line}

/-- A blank line hides a fault, but never makes one. -/
theorem Relaid.isSome_startFault (h : Relaid exact lines lines')
    (hstart : (startFault lines').isSome = true) : (startFault lines).isSome = true := by
  cases h with
  | nil => exact hstart
  | line hline => exact hline.isSome_startFault.trans hstart
  | blank => cases hstart

theorem Relaid.sameAhead (h : Relaid exact lines lines')
    (hexact : exact → (startFault lines).isSome = (startFault lines').isSome) :
    SameAhead exact (startFault lines) (startFault lines') := by
  intro expected pos pos'
  have hstart := h.isSome_startFault
  generalize startFault lines = ahead at hexact hstart ⊢
  generalize startFault lines' = ahead' at hexact hstart ⊢
  cases ahead <;> cases ahead'
  · exact .same (.source _ _ _)
  · cases hstart rfl
  · exact .hidden (fun h => by cases hexact h) _ _ _
  · exact .same (.lexical _ _)

theorem Relaid.agree_bindLabels (h : Relaid exact lines lines') (table : SymbolTable)
    (address : Nat) :
    Agree exact Eq (bindLabels table address lines) (bindLabels table address lines') := by
  induction h generalizing table address with
  | nil => exact .ok rfl
  | blank pos _ ih => exact ih table address
  | @line line line' rest rest' hline hlexed hahead hrest ih =>
    have houtline := Outline.agree_ofLine hline fun hfault hlexemes => by
      refine hrest.sameAhead fun hexact => ?_
      rcases hlexemes with hlexemes | ⟨name, hname⟩
      · exact hahead hexact hfault hlexemes
      · have hlexed := hlexed hfault
        rw [hname] at hlexed
        exact absurd hlexed not_lexed_openParen_symbol
    rw [bindLabels, bindLabels]
    generalize Outline.ofLine (startFault rest) line = outline at houtline ⊢
    generalize Outline.ofLine (startFault rest') line' = outline' at houtline ⊢
    cases houtline with
    | error h => exact .error h
    | ok h =>
      cases h with
      | blank => exact ih table address
      | instruction => exact ih table (address + 1)
      | label name pos pos' =>
        dsimp only
        cases table.declareLabel name address with
        | error error => exact .source _ _ _
        | ok table => exact ih table address

theorem Relaid.agree_emit (h : Relaid exact lines lines') (table : SymbolTable)
    (words : Array Word) :
    (emit table words lines).words = (emit table words lines').words ∧
      Agree exact Eq (emit table words lines).outcome (emit table words lines').outcome := by
  induction h generalizing table words with
  | nil => exact ⟨rfl, .ok rfl⟩
  | blank pos _ ih => exact ih table words
  | @line line line' rest rest' hline _ _ _ ih =>
    have hread : Agree exact _ _ _ := Statement.agree_ofLine hline
    rw [emit, emit]
    generalize Statement.ofLine line = read at hread ⊢
    generalize Statement.ofLine line' = read' at hread ⊢
    cases hread with
    | error h => exact ⟨rfl, .error h⟩
    | ok h =>
      cases h with
      | none => exact ih table words
      | @some read read' h =>
        obtain ⟨hstatement, hbehind⟩ := h
        have hresolve : Agree exact _ _ _ := hstatement.agree_resolve table
        have hend : Agree exact _ _ _ := agree_requireNewline hbehind
        dsimp only
        generalize read.1.resolve table = resolved at hresolve ⊢
        generalize read'.1.resolve table = resolved' at hresolve ⊢
        cases hresolve with
        | error h => exact ⟨rfl, .error h⟩
        | @ok value _ h =>
          subst h
          dsimp only
          generalize requireNewline read.2 = ended at hend ⊢
          generalize requireNewline read'.2 = ended' at hend ⊢
          cases hend with
          | error h => exact ⟨rfl, .error h⟩
          | ok => exact ih value.2 _

theorem agree_ofSource {code code' : String}
    (h : Relaid exact (Line.ofSource code) (Line.ofSource code')) :
    (Emission.ofSource code).words = (Emission.ofSource code').words ∧
      Agree exact Eq (Emission.ofSource code).outcome (Emission.ofSource code').outcome := by
  have hbind := h.agree_bindLabels SymbolTable.initial 0
  simp only [Emission.ofSource]
  generalize bindLabels SymbolTable.initial 0 (Line.ofSource code) = bound at hbind ⊢
  generalize bindLabels SymbolTable.initial 0 (Line.ofSource code') = bound' at hbind ⊢
  cases hbind with
  | error h => exact ⟨rfl, .error h⟩
  | @ok table _ heq =>
    subst heq
    exact h.agree_emit table.restartVariables #[]

end Relaid

end HackAssembler.Assembly
