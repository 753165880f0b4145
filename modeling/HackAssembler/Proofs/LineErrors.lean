import HackAssembler.Assembly.Emission
import HackAssembler.Proofs.FirstReading

/-! # What can be wrong with a line

The errors of each step in reading a line. All of them point at a place in the line, apart from a
fault that stands at the start of the next line: the first reading sees that one too when it looks
for the name of a label in a line that ends too early. -/
namespace HackAssembler

namespace Source.Line

def places : Line → List Nat
  | newline pos => [pos]
  | fault error => [error.pos]
  | token head rest => head.pos :: rest.places

theorem places_rest_subset {head : Token} {rest : Line} :
    rest.places ⊆ (token head rest).places :=
  List.subset_cons_self _ _

theorem pos_mem_places_of_fault? {line : Line} {error : LexError} (h : line.fault? = some error) :
    error.pos ∈ line.places := by
  induction line with
  | newline => cases h
  | fault =>
    cases h
    exact List.mem_singleton_self _
  | token head rest ih => exact places_rest_subset (ih h)

theorem fault?_of_startFault {line : Line} {error : LexError} (h : line.startFault = some error) :
    line.fault? = some error := by
  cases line with
  | newline => cases h
  | fault => exact h
  | token => cases h

end Source.Line

namespace Assembly

open Source Instruction

def Error.At (places : List Nat) (error : Error) : Prop :=
  ∃ pos ∈ places, error.pos? = some pos

theorem Error.at_lexical {places : List Nat} {error : LexError} (h : error.pos ∈ places) :
    Error.At places (.lexical error) := ⟨error.pos, h, rfl⟩

theorem Error.at_source {places : List Nat} (fault : SourceFault) {pos : Nat} (h : pos ∈ places) :
    Error.At places (.source fault pos) := ⟨pos, h, rfl⟩

theorem Error.At.ne_sink {places : List Nat} {error : Error} (h : error.At places)
    (fault : FileFault) : error ≠ .sink fault := by
  rintro rfl
  obtain ⟨pos, _, herror⟩ := h
  cases herror

def Yields {α : Type} (bad : Error → Prop) (good : α → Prop) : Except Error α → Prop
  | .ok value => good value
  | .error error => bad error

section Yields
variable {α β : Type} {bad worse : Error → Prop} {good : α → Prop} {result : Except Error α}

theorem Yields.bind {next : α → Except Error β} {last : β → Prop} (h : Yields bad good result)
    (hnext : ∀ value, good value → Yields bad last (next value)) :
    Yields bad last (result >>= next) := by
  cases result with
  | error error => exact h
  | ok value => exact hnext value h

theorem Yields.imp {better : α → Prop} (h : Yields bad good result)
    (hbad : ∀ error, bad error → worse error) (hgood : ∀ value, good value → better value) :
    Yields worse better result := by
  cases result with
  | error error => exact hbad error h
  | ok value => exact hgood value h

/-- What is known of a value that was read is known of it as the value of an option. -/
theorem Yields.map_some (h : Yields bad good result) :
    Yields bad (fun value? => ∀ value ∈ value?, good value) (some <$> result) := by
  cases result with
  | error error => exact h
  | ok value =>
    rintro _ ⟨⟩
    exact h

theorem Yields.of_error {error : Error} (h : Yields bad good result)
    (herror : result = .error error) : bad error := by
  rwa [herror] at h

theorem Yields.of_ok {value : α} (h : Yields bad good result) (hvalue : result = .ok value) :
    good value := by
  rwa [hvalue] at h

end Yields

/-! ### The first reading -/

/-- An error of the first reading in some lexemes that may all be well, when what is missing from
them lies ahead: the fault that stands there. -/
structure Ahead (ahead : Option LexError) (line : Line) (error : Error) : Prop where
  error : ∃ fault ∈ ahead, error = .lexical fault
  fault : line.fault? = none

namespace Outline

/-- How the first reading can fail at a line: a fault stands in the line or begins the next one, or
a token is there that does not belong in its place. -/
inductive Fails (ahead : Option LexError) : Line → Error → Prop
  | fault {line : Line} {error : LexError} (hfault : line.fault? = some error) :
      Fails ahead line (.lexical error)
  | ahead {line : Line} {error : LexError} (hahead : ahead = some error)
      (hfault : line.fault? = none)
      (hline : line.lexemes = [.openParen] ∨ ∃ name, line.lexemes = [.openParen, .symbol name]) :
      Fails ahead line (.lexical error)
  | start {first : Token} (hat : first.lexeme ≠ .atSign)
      (hfragment : ∀ word, first.lexeme ≠ .fragment word) (hopen : first.lexeme ≠ .openParen)
      (rest : Line) :
      Fails ahead (.token first rest) (.source (.statementStart first.lexeme.kind) first.pos)
  | nameless (opening pos : Nat) :
      Fails ahead (.token ⟨.openParen, opening⟩ (.newline pos))
        (unexpected (.token .symbol) .newline pos)
  | misnamed (opening : Nat) (found : Token) (rest : Line) :
      Fails ahead (.token ⟨.openParen, opening⟩ (.token found rest))
        (unexpected (.token .symbol) found.lexeme.kind found.pos)
  | unclosed (opening : Nat) (name : String) (namePos pos : Nat) :
      Fails ahead (.token ⟨.openParen, opening⟩ (.token ⟨.symbol name, namePos⟩ (.newline pos)))
        (unexpected (.token .closeParen) .newline pos)
  | misclosed (opening : Nat) (name : String) (namePos : Nat) {found : Token}
      (hclose : found.lexeme ≠ .closeParen) (rest : Line) :
      Fails ahead
        (.token ⟨.openParen, opening⟩ (.token ⟨.symbol name, namePos⟩ (.token found rest)))
        (unexpected (.token .closeParen) found.lexeme.kind found.pos)
  | behind (opening : Nat) (name : String) (namePos closing : Nat) (found : Token) (rest : Line) :
      Fails ahead
        (.token ⟨.openParen, opening⟩ (.token ⟨.symbol name, namePos⟩
          (.token ⟨.closeParen, closing⟩ (.token found rest))))
        (unexpected (.token .newline) found.lexeme.kind found.pos)

variable {ahead : Option LexError} {line : Line} {error : Error} {opening namePos : Nat}
  {name : String}

theorem fails_of_ofLabelEnd (closing : Nat) (h : ofLabelEnd name namePos line = .error error) :
    Fails ahead (.token ⟨.openParen, opening⟩ (.token ⟨.symbol name, namePos⟩
      (.token ⟨.closeParen, closing⟩ line))) error := by
  cases line with
  | newline => cases h
  | fault =>
    cases h
    exact .fault rfl
  | token found rest =>
    cases h
    exact .behind _ _ _ _ found rest

theorem fails_of_ofLabelName (h : ofLabelName name namePos ahead line = .error error) :
    Fails ahead (.token ⟨.openParen, opening⟩ (.token ⟨.symbol name, namePos⟩ line)) error := by
  unfold ofLabelName at h
  split at h
  · exact fails_of_ofLabelEnd _ h
  · next found rest hclose =>
    split at h
    · next hstart =>
      cases h
      have hfault := Line.fault?_of_startFault hstart
      exact .fault hfault
    · cases h
      exact .misclosed _ _ _ (fun heq => hclose found.pos (by rw [← heq])) rest
  · split at h
    · cases h
      exact .ahead rfl rfl (.inr ⟨name, rfl⟩)
    · cases h
      exact .unclosed _ _ _ _
  · cases h
    exact .fault rfl

theorem fails_of_ofLabel (h : ofLabel ahead line = .error error) :
    Fails ahead (.token ⟨.openParen, opening⟩ line) error := by
  unfold ofLabel at h
  split at h
  · next found rest =>
    split at h
    · next hstart =>
      cases h
      have hfault := Line.fault?_of_startFault hstart
      exact .fault hfault
    · split at h
      · next hname =>
        rcases found with ⟨lexeme, pos⟩
        obtain rfl : lexeme = _ := hname
        exact fails_of_ofLabelName h
      · cases h
        exact .misnamed _ found rest
  · split at h
    · cases h
      exact .ahead rfl rfl (.inl rfl)
    · cases h
      exact .nameless _ _
  · cases h
    exact .fault rfl

theorem fails_of_ofLine (h : ofLine ahead line = .error error) : Fails ahead line error := by
  unfold ofLine at h
  split at h
  · cases h
  · cases h
    exact .fault rfl
  · next first rest =>
    split at h
    · next hstart =>
      cases h
      have hfault := Line.fault?_of_startFault hstart
      exact .fault hfault
    · split at h
      · split at h
        · next hfault =>
          cases h
          exact .fault hfault
        · cases h
      · split at h
        · next hfault =>
          cases h
          exact .fault hfault
        · cases h
      · next hopen =>
        rcases first with ⟨lexeme, pos⟩
        obtain rfl : lexeme = _ := hopen
        exact fails_of_ofLabel h
      · next hat hfragment hopen =>
        cases h
        exact .start hat hfragment hopen rest

/-- An error of the first reading points at a place in the line, unless the line is the beginning
of a declaration. -/
theorem at_of_ofLine (h : ofLine ahead line = .error error) :
    error.At line.places ∨
      Ahead ahead line error ∧ (line.lexemes = [.openParen] ∨
        ∃ name, line.lexemes = [.openParen, .symbol name]) := by
  cases fails_of_ofLine h with
  | fault hfault => exact .inl (Error.at_lexical (Line.pos_mem_places_of_fault? hfault))
  | ahead hahead hfault hline => exact .inr ⟨⟨⟨_, hahead, rfl⟩, hfault⟩, hline⟩
  | _ => exact .inl (Error.at_source _ (by simp [Line.places]))

/-- A label is where its name is. -/
theorem pos_mem_places {name : String} {pos : Nat} (h : ofLine ahead line = .ok (.label name pos)) :
    pos ∈ line.places := by
  have hlabel {rest : Line} (h : ofLabel ahead rest = .ok (.label name pos)) :
      pos ∈ rest.places := by
    unfold ofLabel at h
    split at h
    · next found behind =>
      split at h
      · cases h
      · split at h
        · cases (fits_of_ofLabelName h).2.2
          exact List.mem_cons_self
        · cases h
    · split at h <;> cases h
    · cases h
  unfold ofLine at h
  split at h
  · cases h
  · cases h
  · split at h
    · cases h
    · split at h
      · split at h <;> cases h
      · split at h <;> cases h
      · exact Line.places_rest_subset (hlabel h)
      · cases h

end Outline

theorem ne_sink_of_bindLabels {lines : List Line} {table : SymbolTable} {address : Nat}
    {error : Error} (h : bindLabels table address lines = .error error) (fault : FileFault) :
    error ≠ .sink fault := by
  induction lines generalizing table address with
  | nil => cases h
  | cons line rest ih =>
    rw [bindLabels] at h
    split at h
    · next hline =>
      cases h
      rcases Outline.at_of_ofLine hline with hat | ⟨⟨⟨_, _, rfl⟩, _⟩, _⟩
      · exact hat.ne_sink fault
      · rintro ⟨⟩
    · exact ih h
    · exact ih h
    · split at h
      · cases h
        rintro ⟨⟩
      · exact ih h

/-! ### The second reading -/

inductive SourceFault.OfStatement : SourceFault → Prop
  | assigned (found : Kind) : OfStatement (.unexpectedToken (.token .fragment) found)
  | operand (found : Kind) : OfStatement (.unexpectedToken .operand found)
  | mnemonic (error : MnemonicError) : OfStatement (.mnemonic error)

inductive StatementError (places : List Nat) : Error → Prop
  | intro {fault : SourceFault} {pos : Nat} (hfault : fault.OfStatement) (hpos : pos ∈ places) :
      StatementError places (.source fault pos)

theorem StatementError.mono {places more : List Nat} {error : Error}
    (h : StatementError places error) (hsub : places ⊆ more) : StatementError more error := by
  obtain ⟨hfault, hpos⟩ := h
  exact ⟨hfault, hsub hpos⟩

theorem yields_located {α : Type} {pos : Nat} {places : List Nat} (hpos : pos ∈ places)
    (result : Except MnemonicError α) :
    Yields (StatementError places) (fun _ => True) (located pos result) := by
  cases result with
  | error error => exact ⟨.mnemonic error, hpos⟩
  | ok value => trivial

namespace Statement

structure Leaves (line : Line) (read : Statement × Line) : Prop where
  fault : read.2.fault? = none
  places : read.2.places ⊆ line.places
  operand : ∀ value pos, read.1 = .load value pos → pos ∈ line.places

theorem Leaves.mono {line longer : Line} {read : Statement × Line} (h : Leaves line read)
    (hsub : line.places ⊆ longer.places) : Leaves longer read :=
  ⟨h.fault, List.Subset.trans h.places hsub,
    fun value pos hread => hsub (h.operand value pos hread)⟩

variable {line : Line}

theorem yields_readJump (hfault : line.fault? = none) (dest : Destination) (comp : Computation) :
    Yields (StatementError line.places) (Leaves line) (readJump dest comp line) := by
  unfold readJump
  split
  · refine (yields_located (by simp [Line.places]) _).bind fun jump _ => ⟨?_, ?_, ?_⟩
    · exact Line.fault?_rest (Line.fault?_rest hfault)
    · exact List.Subset.trans Line.places_rest_subset Line.places_rest_subset
    · rintro value pos ⟨⟩
  · refine (yields_located (by simp [Line.places]) _).bind fun jump _ => ⟨rfl, ?_, ?_⟩
    · exact Line.places_rest_subset
    · rintro value pos ⟨⟩
  · cases hfault
  · exact ⟨hfault, List.Subset.refl _, by rintro value pos ⟨⟩⟩

theorem yields_readAssigned (hfault : line.fault? = none) (dest : String) (start : Nat) :
    Yields (StatementError (start :: line.places)) (Leaves line)
      (readAssigned dest start line) := by
  unfold readAssigned
  split
  · next word pos rest =>
    have hjump (destination : Destination) (comp : Computation) :=
      yields_readJump (Line.fault?_rest hfault) destination comp
    refine (yields_located (by simp [Line.places]) _).bind fun comp _ => ?_
    refine (yields_located (by simp) _).bind fun destination _ => ?_
    refine (hjump destination comp).imp (fun error h => h.mono ?_) fun read h => h.mono ?_
    · exact List.Subset.trans Line.places_rest_subset (List.subset_cons_self _ _)
    · exact Line.places_rest_subset
  · exact ⟨.assigned _, by simp [Line.places]⟩
  · exact ⟨.assigned _, by simp [Line.places]⟩
  · cases hfault

theorem yields_readCompute (hfault : line.fault? = none) (word : String) (start : Nat) :
    Yields (StatementError (start :: line.places)) (Leaves line)
      (readCompute word start line) := by
  unfold readCompute
  split
  · next rest =>
    refine (yields_readAssigned (Line.fault?_rest hfault) word start).imp
      (fun error h => h.mono ?_) fun read h => h.mono Line.places_rest_subset
    exact List.cons_subset_cons start Line.places_rest_subset
  · refine (yields_located (by simp) _).bind fun comp _ => ?_
    exact (yields_readJump hfault .none comp).imp
      (fun error h => h.mono (List.subset_cons_self _ _)) fun read h => h

theorem yields_readLoad (hfault : line.fault? = none) :
    Yields (StatementError line.places) (Leaves line) (readLoad line) := by
  unfold readLoad
  split
  · refine ⟨Line.fault?_rest hfault, Line.places_rest_subset, ?_⟩
    rintro value pos ⟨⟩
    simp [Line.places]
  · refine ⟨Line.fault?_rest hfault, Line.places_rest_subset, ?_⟩
    rintro value pos ⟨⟩
    simp [Line.places]
  · exact ⟨.operand _, by simp [Line.places]⟩
  · exact ⟨.operand _, by simp [Line.places]⟩
  · cases hfault

/-- A line that the first reading got over begins like a statement. -/
theorem yields_ofLine (hfault : line.fault? = none) (houtlined : Outlined line.lexemes) :
    Yields (StatementError line.places) (fun read? => ∀ read ∈ read?, Leaves line read)
      (ofLine line) := by
  unfold ofLine
  split
  · rintro _ ⟨⟩
  · cases hfault
  · rintro _ ⟨⟩
  · next rest =>
    exact ((yields_readLoad (Line.fault?_rest hfault)).imp
      (fun error h => h.mono Line.places_rest_subset)
      fun read h => h.mono Line.places_rest_subset).map_some
  · next word pos rest =>
    exact ((yields_readCompute (Line.fault?_rest hfault) word pos).imp
      (fun error h => h) fun read h => h.mono Line.places_rest_subset).map_some
  · next found rest hopen hat hfragment =>
    rcases found with ⟨lexeme, pos⟩
    rcases houtlined.first with hfirst | hfirst | ⟨word, hfirst⟩
    · exact absurd (by rw [← hfirst]) (hopen pos)
    · exact absurd (by rw [← hfirst]) (hat pos)
    · exact absurd (by rw [← hfirst]) (hfragment word pos)

/-- A statement that was read fails to resolve only because its value is too large. -/
theorem error_of_resolve {table : SymbolTable} {statement : Statement} {error : Error}
    (h : statement.resolve table = .error error) :
    ∃ value pos, statement = .load value pos ∧
      error = .source (.valueTooLarge value.text) pos := by
  cases statement with
  | load value pos =>
    rw [resolve] at h
    split at h
    · cases h
    · cases h
      exact ⟨value, pos, rfl, rfl⟩
  | compute dest comp jump => cases h

end Statement

/-- Behind a statement only a token can be wrong. -/
theorem error_of_requireNewline {line : Line} {error : Error} (hfault : line.fault? = none)
    (h : requireNewline line = .error error) :
    ∃ found rest, line = .token found rest ∧
      error = unexpected (.token .newline) found.lexeme.kind found.pos := by
  cases line with
  | newline pos => cases h
  | fault fault => cases hfault
  | token found rest =>
    cases h
    exact ⟨found, rest, rfl, rfl⟩

/-- An error of the second reading at a line that the first one got over. -/
inductive LateError (line : Line) : Error → Prop
  | statement {error : Error} (h : StatementError line.places error) : LateError line error
  | value (text : String) {pos : Nat} (hpos : pos ∈ line.places) :
      LateError line (.source (.valueTooLarge text) pos)
  | behind (found : Kind) {pos : Nat} (hpos : pos ∈ line.places) :
      LateError line (unexpected (.token .newline) found pos)

theorem LateError.at_places {line : Line} {error : Error} (h : LateError line error) :
    error.At line.places := by
  cases h with
  | statement h =>
    obtain ⟨_, hpos⟩ := h
    exact Error.at_source _ hpos
  | value text hpos => exact Error.at_source _ hpos
  | behind found hpos => exact Error.at_source _ hpos

section Late
variable {line after : Line} {statement : Statement} {error : Error}
  (hread : Statement.Leaves line (statement, after))
include hread

theorem lateError_of_resolve {table : SymbolTable} (h : statement.resolve table = .error error) :
    LateError line error := by
  obtain ⟨value, pos, rfl, rfl⟩ := Statement.error_of_resolve h
  exact .value _ (hread.operand value pos rfl)

theorem lateError_of_requireNewline (h : requireNewline after = .error error) :
    LateError line error := by
  obtain ⟨found, rest, rfl, rfl⟩ := error_of_requireNewline hread.fault h
  exact .behind _ (hread.places List.mem_cons_self)

end Late

/-- The errors of the second reading, on lines that the first one got over. -/
theorem lateError_of_emit {lines : List Line}
    (hlines : ∀ line ∈ lines, line.fault? = none ∧ Outlined line.lexemes) {table : SymbolTable}
    {words : Array Word} {error : Error} (h : (emit table words lines).outcome = .error error) :
    ∃ line ∈ lines, LateError line error := by
  induction lines generalizing table words with
  | nil => cases h
  | cons line rest ih =>
    obtain ⟨⟨hfault, houtlined⟩, hrest⟩ := List.forall_mem_cons.mp hlines
    have hread := Statement.yields_ofLine hfault houtlined
    have hlater {table : SymbolTable} {words : Array Word}
        (h : (emit table words rest).outcome = .error error) :
        ∃ other ∈ line :: rest, LateError other error := by
      obtain ⟨other, hother, hlate⟩ := ih hrest h
      exact ⟨other, List.mem_cons_of_mem line hother, hlate⟩
    rw [emit] at h
    split at h
    · next herror =>
      cases h
      exact ⟨line, List.mem_cons_self, .statement (hread.of_error herror)⟩
    · exact hlater h
    · next statement after hline =>
      have hleaves := hread.of_ok hline _ rfl
      split at h
      · next herror =>
        cases h
        exact ⟨line, List.mem_cons_self, lateError_of_resolve hleaves herror⟩
      · split at h
        · next herror =>
          cases h
          exact ⟨line, List.mem_cons_self, lateError_of_requireNewline hleaves herror⟩
        · exact hlater h

end Assembly

end HackAssembler
