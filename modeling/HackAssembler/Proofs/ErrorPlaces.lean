import HackAssembler.Proofs.Delivery
import HackAssembler.Proofs.LineByLine
import HackAssembler.Proofs.Tiling

/-! # Places of errors

Every error that points into a source points at a character of it or at the end of its last line. A
lexer finds a character wherever it finds a fault, and an error of the two readings points at a
token. So the place of an error is always found in a line of the source. -/
namespace HackAssembler

namespace Source

open Text

/-! ### Faults -/

theorem LexError.message_of_found {error : LexError} {c : Char} (h : error.found = some c) :
    error.message =
      "Unexpected character " ++ quoteChar c ++ " at position " ++ toString error.pos := by
  have hwords : "Unexpected character " = "Unexpected " ++ "character " := by decide
  simp only [message, h]
  rw [hwords, @String.append_assoc "Unexpected "]
  rfl

/-- A fault at a character of a source or at the newline behind it, which it names. -/
structure LexError.InSource (code : String) (error : LexError) : Prop where
  le : error.pos ≤ code.length
  found : ∃ c, error.found = some c ∧ (sourceOf code)[error.pos]? = some c ∧
    error.message =
      "Unexpected character " ++ quoteChar c ++ " at position " ++ toString error.pos

namespace Cursor

section Fault
variable {code : String} {cursor after : Cursor} {error : LexError}

/-- What a fault finds is what stands in its place. -/
theorem Placed.found_eq {text : List Char} (h : cursor.Placed text)
    (hnext : cursor.next = (.error error, after)) : error.found = text[error.pos]? := by
  obtain ⟨⟨passed, hpassed⟩, _⟩ := h
  have hreading := reading_next cursor
  rw [hnext] at hreading
  cases hreading with
  | @fault skipped _ place _ hplace _ _ =>
    obtain ⟨hrest, hpos⟩ := hpassed.trans hplace
    simp only [Lexer.start, Nat.zero_add] at hrest hpos
    rw [hrest, hpos, List.getElem?_append_right (Nat.le_refl _), Nat.sub_self,
      ← List.head?_eq_getElem?]

/-- Where something is left to be read, a newline ends it. -/
theorem Placed.exists_text (h : cursor.Placed (sourceOf code)) (hrest : cursor.rest ≠ []) :
    ∃ text, cursor.rest = text ++ ['\n'] := by
  obtain ⟨⟨passed, hsource, _⟩, _⟩ := h
  have hlast : (passed ++ cursor.rest).getLast? = some '\n' := by
    rw [← hsource]
    simp [Lexer.start, sourceOf]
  rw [List.getLast?_append_of_ne_nil _ hrest] at hlast
  exact List.getLast?_eq_some_iff.mp hlast

theorem Placed.inSource (h : cursor.Placed (sourceOf code))
    (hnext : cursor.next = (.error error, after)) : error.InSource code := by
  have hrest : cursor.rest ≠ [] := fun hrest => by
    rw [h.next_of_rest_eq_nil hrest] at hnext
    cases hnext
  obtain ⟨text, htext⟩ := h.exists_text hrest
  -- without the newline behind the text, reading comes to a fault in the same place
  have hextend : cursor = extend ⟨text, cursor.pos, cursor.operandNext⟩ [] := by
    rw [extend, ← htext]
  have hnext' := hnext
  rw [hextend, next_extend] at hnext'
  have hplace := inPlace_next ⟨text, cursor.pos, cursor.operandNext⟩
  generalize Cursor.next ⟨text, cursor.pos, cursor.operandNext⟩ = read at hnext' hplace
  rcases read with ⟨fault | token, stop⟩
  · rw [beforeNewline, Prod.mk.injEq, Except.error.injEq] at hnext'
    obtain ⟨rfl, _⟩ := hnext'
    obtain ⟨_, hle⟩ : Within ⟨text, cursor.pos, cursor.operandNext⟩ fault.pos := hplace
    have hlength := h.pos_add_length
    rw [htext] at hlength
    simp only [limit, sourceOf, List.length_append, String.length_toList] at hle hlength
    obtain ⟨c, hc⟩ : ∃ c, fault.found.or (some '\n') = some c := by
      cases fault.found <;> simp
    exact ⟨by dsimp only; omega, c, hc, (h.found_eq hnext).symm.trans hc,
      LexError.message_of_found hc⟩
  · rw [beforeNewline] at hnext'
    split at hnext' <;> cases hnext'

theorem Run.inSource {tokens : List Token} (h : Run cursor tokens (.error error))
    (hplace : cursor.Placed (sourceOf code)) : error.InSource code := by
  generalize houtcome : Except.error error = outcome at h
  induction h with
  | done => cases houtcome
  | fault hnext =>
    cases houtcome
    exact hplace.inSource hnext
  | token hnext _ _ ih =>
    refine ih ?_ houtcome
    have hafter := hplace.next
    rwa [hnext] at hafter

end Fault

end Cursor

/-- The tokens of a source, up to the first fault. -/
def scanned (code : String) : List Token × Option LexError :=
  (Lexer.ofString code).cursor.scan

section Scanned
variable {code : String}

theorem inSource_of_scanned {error : LexError} (h : (scanned code).2 = some error) :
    error.InSource code := by
  obtain ⟨tokens, last | fault, hrun⟩ := Cursor.exists_run (Lexer.ofString code).cursor
  all_goals rw [scanned, hrun.scan_eq] at h
  · cases h
    exact hrun.inSource (Cursor.placed_start _)
  · cases h

/-- Only the end of the input lies behind the newline that ends a source. -/
theorem pos_le_of_mem_scanned {token : Token} (h : token ∈ (scanned code).1)
    (hend : token.lexeme ≠ .endOfInput) : token.pos ≤ code.length := by
  have hlimit {pos : Nat} (hpos : Cursor.Within ⟨code.toList, 0, false⟩ pos) :
      pos ≤ code.length := by
    simpa [Cursor.limit, ← String.length_toList] using hpos.le_limit
  obtain ⟨tokens, outcome, hrun⟩ := Cursor.exists_run ⟨code.toList, 0, false⟩
  obtain ⟨htokens, hends⟩ := hrun.within
  cases outcome with
  | error error =>
    have hscan : scanned code = _ := (hrun.extend_of_error []).scan_eq
    rw [hscan] at h
    exact hlimit (htokens token h)
  | ok last =>
    have hscan : scanned code = _ :=
      (hrun.extend_of_ok (.done (Cursor.next_nil (last + 1)))).scan_eq
    rw [hscan] at h
    obtain rfl : last = (Cursor.mk code.toList 0 false).limit := hends
    simp only [List.append_assoc, List.mem_append, List.mem_cons, List.not_mem_nil, or_false] at h
    rcases h with h | (rfl | rfl)
    · exact hlimit (htokens token h)
    · simp [Cursor.limit, ← String.length_toList]
    · exact absurd rfl hend

end Scanned

namespace Line

/-- The tokens of a line, the newline that ends it included. -/
def marks : Line → List Token
  | newline pos => [⟨.newline, pos⟩]
  | fault _ => []
  | token head rest => head :: rest.marks

theorem marks_prepend (seen : List Token) (line : Line) :
    (prepend seen line).marks = seen.reverse ++ line.marks := by
  induction seen generalizing line with
  | nil => rfl
  | cons head seen ih => simp [prepend_cons, ih, marks]

theorem places_eq_marks {line : Line} (h : line.fault? = none) :
    line.places = line.marks.map (·.pos) := by
  induction line with
  | newline => rfl
  | fault => cases h
  | token head rest ih => rw [places, ih h, marks, List.map_cons]

structure CutFrom (tokens : List Token) (broken : Option LexError) (line : Line) : Prop where
  marks : ∀ mark ∈ line.marks, mark ∈ tokens ∧ mark.lexeme ≠ .endOfInput
  fault : ∀ error, line.fault? = some error → broken = some error

section CutFrom
variable {tokens : List Token} {broken : Option LexError} {line : Line}

theorem cutFrom_prepend {seen : List Token}
    (hseen : ∀ mark ∈ seen, mark ∈ tokens ∧ mark.lexeme ≠ .endOfInput)
    (hline : CutFrom tokens broken line) : CutFrom tokens broken (prepend seen line) where
  marks := by
    rw [marks_prepend]
    exact List.forall_mem_append.mpr
      ⟨fun mark hmark => hseen mark (List.mem_reverse.mp hmark), hline.marks⟩
  fault := by
    rw [fault?_prepend]
    exact hline.fault

theorem cutFrom_of_mem_go {seen rest : List Token}
    (hseen : ∀ mark ∈ seen, mark ∈ tokens ∧ mark.lexeme ≠ .endOfInput)
    (hrest : ∀ token ∈ rest, token ∈ tokens) (h : line ∈ cut.go broken [] seen rest) :
    CutFrom tokens broken line := by
  induction rest generalizing seen with
  | nil =>
    cases broken with
    | none => simp [cut.go] at h
    | some error =>
      obtain rfl : line = prepend seen (.fault error) := by simpa [cut.go] using h
      exact cutFrom_prepend hseen ⟨by simp [marks], fun _ herror => herror⟩
  | cons head rest ih =>
    obtain ⟨hhead, hrest⟩ := List.forall_mem_cons.mp hrest
    rw [cut.go] at h
    split at h
    · next hnewline =>
      rw [cut_go_eq] at h
      rcases List.mem_append.mp h with h | h
      · obtain rfl : line = prepend seen (.newline head.pos) := by simpa using h
        refine cutFrom_prepend hseen ⟨fun mark hmark => ?_, by simp [fault?]⟩
        obtain rfl : mark = ⟨.newline, head.pos⟩ := List.mem_singleton.mp hmark
        exact ⟨hnewline ▸ hhead, by simp⟩
      · exact ih (by simp) hrest h
    · exact ih hseen hrest h
    · next hend => exact ih (List.forall_mem_cons.mpr ⟨⟨hhead, hend⟩, hseen⟩) hrest h

end CutFrom

theorem cutFrom_of_mem_ofSource {code : String} {line : Line} (h : line ∈ ofSource code) :
    CutFrom (scanned code).1 (scanned code).2 line :=
  cutFrom_of_mem_go (by simp) (fun _ htoken => htoken) h

end Line

end Source

namespace Assembly

open Source Instruction Output

/-- An error at one of these tokens, or the fault behind them. -/
def Error.PointsAt (tokens : List Token) (broken : Option LexError) : Error → Prop
  | .lexical error => broken = some error
  | .source _ pos => ∃ token ∈ tokens, token.lexeme ≠ .endOfInput ∧ token.pos = pos
  | .sink _ => False

section PointsAt
variable {tokens : List Token} {broken ahead : Option LexError} {line : Line} {error : Error}

theorem pointsAt_of_mem_marks (hline : line.CutFrom tokens broken) {mark : Token}
    (hmark : mark ∈ line.marks) (fault : SourceFault) :
    Error.PointsAt tokens broken (.source fault mark.pos) :=
  ⟨mark, (hline.marks mark hmark).1, (hline.marks mark hmark).2, rfl⟩

/-- In a line without a fault, whatever has a place in it has the place of a token. -/
theorem pointsAt_of_mem_places (hline : line.CutFrom tokens broken) (hfault : line.fault? = none)
    {pos : Nat} (hpos : pos ∈ line.places) (fault : SourceFault) :
    Error.PointsAt tokens broken (.source fault pos) := by
  rw [Line.places_eq_marks hfault, List.mem_map] at hpos
  obtain ⟨mark, hmark, rfl⟩ := hpos
  exact pointsAt_of_mem_marks hline hmark fault

/-! ### The first reading -/

theorem pointsAt_of_ofLine (hahead : ∀ fault, ahead = some fault → broken = some fault)
    (hline : line.CutFrom tokens broken) (h : Outline.ofLine ahead line = .error error) :
    error.PointsAt tokens broken := by
  cases Outline.fails_of_ofLine h with
  | fault hfault => exact hline.fault _ hfault
  | ahead hfault => exact hahead _ hfault
  | start => exact pointsAt_of_mem_marks hline List.mem_cons_self _
  | nameless => exact pointsAt_of_mem_places hline rfl (by simp [Line.places]) _
  | misnamed => exact pointsAt_of_mem_marks hline (by simp [Line.marks]) _
  | unclosed => exact pointsAt_of_mem_places hline rfl (by simp [Line.places]) _
  | misclosed => exact pointsAt_of_mem_marks hline (by simp [Line.marks]) _
  | behind => exact pointsAt_of_mem_marks hline (by simp [Line.marks]) _

theorem pointsAt_of_bindLabels {lines : List Line}
    (hlines : ∀ line ∈ lines, line.CutFrom tokens broken) {table : SymbolTable} {address : Nat}
    (h : bindLabels table address lines = .error error) : error.PointsAt tokens broken := by
  induction lines generalizing table address with
  | nil => cases h
  | cons line rest ih =>
    obtain ⟨hline, hrest⟩ := List.forall_mem_cons.mp hlines
    have hahead (fault : LexError) (hfault : startFault rest = some fault) :
        broken = some fault := by
      obtain ⟨next, hnext, hstart⟩ := Option.bind_eq_some_iff.mp hfault
      exact (hrest next (List.mem_of_head? hnext)).fault fault (Line.fault?_of_startFault hstart)
    rw [bindLabels] at h
    split at h
    · next herror =>
      cases h
      exact pointsAt_of_ofLine hahead hline herror
    · exact ih hrest h
    · exact ih hrest h
    · next hlabel =>
      split at h
      · cases h
        exact pointsAt_of_mem_places hline (Outline.fits_of_ofLine hlabel).1
          (Outline.pos_mem_places hlabel) _
      · exact ih hrest h

/-! ### The second reading -/

theorem LateError.pointsAt (h : LateError line error) (hline : line.CutFrom tokens broken)
    (hfault : line.fault? = none) : error.PointsAt tokens broken := by
  cases h with
  | statement h =>
    obtain ⟨_, hpos⟩ := h
    exact pointsAt_of_mem_places hline hfault hpos _
  | value _ hpos => exact pointsAt_of_mem_places hline hfault hpos _
  | behind _ hpos => exact pointsAt_of_mem_places hline hfault hpos _

end PointsAt

theorem pointsAt_of_ofSource {code : String} {error : Error}
    (h : (Emission.ofSource code).outcome = .error error) :
    error.PointsAt (scanned code).1 (scanned code).2 := by
  have hlines := @Line.cutFrom_of_mem_ofSource code
  simp only [Emission.ofSource] at h
  split at h
  · next hfirst =>
    cases h
    exact pointsAt_of_bindLabels (fun _ => hlines) hfirst
  · next htable =>
    obtain ⟨program, hbound⟩ := exists_bound htable
    obtain ⟨line, hline, hlate⟩ := lateError_of_emit hbound.outlined h
    exact hlate.pointsAt (hlines hline) (hbound.outlined line hline).1

structure Error.WellPlaced (code : String) (error : Error) : Prop where
  lexical : ∀ fault, error = .lexical fault → fault.InSource code
  token : ∀ fault pos, error = .source fault pos →
    ∃ token ∈ (Lexer.ofString code).cursor.scan.1, token.lexeme ≠ .endOfInput ∧ token.pos = pos
  le : ∀ pos, error.pos? = some pos → pos ≤ code.length
  located : ∀ pos, error.pos? = some pos → Text.Located code pos

theorem wellPlaced_of_pointsAt {code : String} {error : Error}
    (h : error.PointsAt (scanned code).1 (scanned code).2) : error.WellPlaced code := by
  have hle : ∀ pos, error.pos? = some pos → pos ≤ code.length := by
    rintro pos hpos
    cases error with
    | lexical fault =>
      cases hpos
      exact (inSource_of_scanned h).le
    | source fault place =>
      cases hpos
      obtain ⟨token, htoken, hend, rfl⟩ := h
      exact pos_le_of_mem_scanned htoken hend
    | sink => cases h
  refine ⟨?_, ?_, hle, fun pos hpos => Text.located_of_le (hle pos hpos)⟩
  · rintro fault rfl
    exact inSource_of_scanned h
  · rintro fault pos rfl
    exact h

theorem wellPlaced_sink (code : String) (fault : FileFault) : (Error.sink fault).WellPlaced code :=
  ⟨nofun, nofun, nofun, nofun⟩

/-- Whatever a lexer has been asked for before, its faults name the character in their place, and an
error of a source, to whatever sink it is delivered, is placed in a line of the source. -/
theorem error_places (code : String) :
    (∀ lexer after error, Lexer.Reached code lexer → lexer.next = (.error error, after) →
        error.InSource code) ∧
      ∀ (m : Type → Type) [Monad m] [LawfulMonad m] (σ : Type) [Sink m σ] (sink : σ),
        SatisfiesM (m := m) (fun result : Except Error SymbolTable × σ =>
            ∀ error, result.1 = .error error → error.WellPlaced code)
          (deliver (Emission.ofSource code) sink) := by
  refine ⟨fun lexer after error hreached hnext => ?_, fun m _ _ σ _ sink => ?_⟩
  · exact hreached.placed.inSource (Lexer.cursor_of_next hnext)
  · refine (satisfiesM_deliver_errors _ sink).imp fun {result} hresult error herror => ?_
    rcases hresult error herror with houtcome | ⟨fault, rfl⟩
    · exact wellPlaced_of_pointsAt (pointsAt_of_ofSource houtcome)
    · exact wellPlaced_sink code fault

/-- Three calls after a fault at its first character, a lexer finds another one at the end of the
text. -/
theorem error_places_after_fault :
    (Lexer.ofString "1)\n@").next.1 = .error ⟨some '1', 0⟩ ∧
      (Lexer.ofString "1)\n@").next.2.next.2.next.2.next.1 = .error ⟨some '\n', 4⟩ ∧
      LexError.InSource "1)\n@" ⟨some '\n', 4⟩ ∧
      assemble "@1 )" = .error (unexpected (.token .newline) .closeParen 3) ∧
      SatisfiesM (m := Id) (fun result : Except Error SymbolTable × MemorySink =>
          ∀ error, result.1 = .error error → error.WellPlaced "@1 )")
        (deliver (Emission.ofSource "@1 )") MemorySink.empty) := by
  have hreached : Lexer.Reached "1)\n@" (Lexer.ofString "1)\n@").next.2.next.2.next.2 :=
    .afterNext (.afterNext (.afterNext .initial))
  have hfault : (Lexer.ofString "1)\n@").next.2.next.2.next.2.next.1 = .error ⟨some '\n', 4⟩ := by
    decide +kernel
  exact ⟨by decide +kernel, hfault,
    (error_places "1)\n@").1 _ _ _ hreached (Prod.ext hfault rfl), by decide +kernel,
    (error_places "@1 )").2 Id MemorySink _⟩

end Assembly

end HackAssembler
