import HackAssembler.Assembly.Labels
import HackAssembler.Proofs.Bindings
import HackAssembler.Proofs.SourceLines

/-! # The first reading

The first reading succeeds exactly when every line is blank, begins like an instruction or is a
whole declaration, and the labels are declared once each under names of their own. It then leaves
a table of all labels of the program. -/
namespace HackAssembler

namespace Source.Line

@[simp] theorem lexemes_token (head : Token) (rest : Line) :
    (token head rest).lexemes = head.lexeme :: rest.lexemes := rfl

theorem exists_newline {line : Line} (hfault : line.fault? = none) (h : line.lexemes = []) :
    ∃ pos, line = newline pos := by
  cases line with
  | newline pos => exact ⟨pos, rfl⟩
  | fault error => cases hfault
  | token head rest => cases h

theorem exists_token {line : Line} {first : Lexeme} {lexemes : List Lexeme}
    (h : line.lexemes = first :: lexemes) :
    ∃ pos rest, line = token ⟨first, pos⟩ rest ∧ rest.lexemes = lexemes := by
  cases line with
  | newline pos => cases h
  | fault error => cases h
  | token head rest =>
    cases h
    exact ⟨head.pos, rest, rfl, rfl⟩

theorem fault?_rest {head : Token} {rest : Line} (h : (token head rest).fault? = none) :
    rest.fault? = none := h

theorem startFault_eq_none {line : Line} (h : line.fault? = none) : line.startFault = none := by
  cases line with
  | newline => rfl
  | fault => cases h
  | token => rfl

end Source.Line

namespace Assembly

open Source

/-- A line that is blank, begins like an instruction or is a whole declaration. -/
def Outlined (line : List Lexeme) : Prop :=
  line = [] ∨ isInstruction line = true ∨ ∃ name, declared? line = some name

theorem Outlined.first {first : Lexeme} {rest : List Lexeme} (h : Outlined (first :: rest)) :
    first = .openParen ∨ first = .atSign ∨ ∃ word, first = .fragment word := by
  rcases h with hblank | hinstruction | ⟨name, hname⟩
  · cases hblank
  · unfold isInstruction at hinstruction
    split at hinstruction <;> simp_all
  · rw [declared?_eq_some_iff] at hname
    exact .inl (List.cons.inj hname).1

namespace Program

/-- Each label is declared once, and none has the name of a predefined symbol. -/
structure LabelsFresh (program : Program) : Prop where
  nodup : program.labels.Nodup
  not_predefined : ∀ name ∈ program.labels, Predefined.ofName? name = none

theorem labelsFresh_nil : LabelsFresh [] := ⟨List.nodup_nil, by simp⟩

theorem LabelsFresh.of_append {first second : Program} (h : LabelsFresh (first ++ second)) :
    LabelsFresh first := by
  obtain ⟨hnodup, hfree⟩ := h
  rw [labels_append] at hnodup hfree
  exact ⟨(List.nodup_append.mp hnodup).1,
    fun name hname => hfree name (List.mem_append_left _ hname)⟩

/-- One more line keeps the labels fresh if the label it declares is fresh. -/
theorem labelsFresh_append_iff {seen : Program} {line : List Lexeme} :
    LabelsFresh (seen ++ [line]) ↔
      LabelsFresh seen ∧
        ∀ name, declared? line = some name →
          Predefined.ofName? name = none ∧ name ∉ seen.labels := by
  have hlabels : labels (seen ++ [line]) = seen.labels ++ (declared? line).toList := by
    rw [labels_append, labels_cons, labels_nil, List.append_nil]
  constructor
  · intro h
    refine ⟨h.of_append, fun name hname => ?_⟩
    obtain ⟨hnodup, hfree⟩ := h
    rw [hlabels, hname, Option.toList_some] at hnodup hfree
    exact ⟨hfree name (by simp),
      fun hmem => (List.nodup_append.mp hnodup).2.2 name hmem name (by simp) rfl⟩
  · rintro ⟨⟨hnodup, hfree⟩, hline⟩
    constructor
    · rw [hlabels]
      cases hname : declared? line with
      | none => simpa using hnodup
      | some name =>
        refine List.nodup_append.mpr ⟨hnodup, by simp, fun other hother used hused => ?_⟩
        rw [Option.toList_some, List.mem_singleton] at hused
        rintro rfl
        exact (hline name hname).2 (hused ▸ hother)
    · intro name hname
      rw [hlabels, List.mem_append, Option.mem_toList] at hname
      rcases hname with hname | hname
      · exact hfree name hname
      · exact (hline name hname).1

end Program

namespace Outline

inductive Fits : Outline → List Lexeme → Prop
  | blank : Fits blank []
  | instruction {line : List Lexeme} (h : isInstruction line = true) : Fits instruction line
  | label (name : String) (pos : Nat) :
      Fits (label name pos) [.openParen, .symbol name, .closeParen]

theorem Fits.outlined {outline : Outline} {line : List Lexeme} (h : Fits outline line) :
    Outlined line := by
  cases h with
  | blank => exact .inl rfl
  | instruction h => exact .inr (.inl h)
  | label name pos => exact .inr (.inr ⟨name, rfl⟩)

theorem Fits.eq_label {outline : Outline} {line : List Lexeme} {name : String}
    (h : Fits outline line) (hname : declared? line = some name) :
    ∃ pos, outline = .label name pos := by
  cases h with
  | blank => cases hname
  | instruction h =>
    rw [isInstruction_of_declared? hname] at h
    cases h
  | label name pos =>
    cases hname
    exact ⟨pos, rfl⟩

variable {ahead : Option LexError} {line : Line}

theorem fits_of_ofLabelEnd {name : String} {pos : Nat} {outline : Outline}
    (h : ofLabelEnd name pos line = .ok outline) :
    line.fault? = none ∧ line.lexemes = [] ∧ outline = .label name pos := by
  cases line with
  | newline => exact ⟨rfl, rfl, (Except.ok.inj h).symm⟩
  | fault => cases h
  | token => cases h

theorem fits_of_ofLabelName {name : String} {pos : Nat} {outline : Outline}
    (h : ofLabelName name pos ahead line = .ok outline) :
    line.fault? = none ∧ line.lexemes = [.closeParen] ∧ outline = .label name pos := by
  unfold ofLabelName at h
  split at h
  · obtain ⟨hfault, hlexemes, houtline⟩ := fits_of_ofLabelEnd h
    exact ⟨hfault, by simp [hlexemes], houtline⟩
  · split at h <;> cases h
  · split at h <;> cases h
  · cases h

theorem fits_of_ofLabel {outline : Outline} (h : ofLabel ahead line = .ok outline) :
    line.fault? = none ∧ Fits outline (.openParen :: line.lexemes) := by
  unfold ofLabel at h
  split at h
  · next found rest =>
    split at h
    · cases h
    · split at h
      · next name hname =>
        obtain ⟨hfault, hlexemes, rfl⟩ := fits_of_ofLabelName h
        exact ⟨hfault, by simpa [hlexemes, hname] using Fits.label name found.pos⟩
      · cases h
  · split at h <;> cases h
  · cases h

/-- The first reading accepts whole lines only, and sees what they are. -/
theorem fits_of_ofLine {outline : Outline} (h : ofLine ahead line = .ok outline) :
    line.fault? = none ∧ Fits outline line.lexemes := by
  unfold ofLine at h
  split at h
  · cases h
    exact ⟨rfl, .blank⟩
  · cases h
  · next first rest =>
    split at h
    · cases h
    · split at h
      · next hfirst =>
        split at h
        · cases h
        · next hfault =>
          cases h
          exact ⟨hfault, .instruction (by rw [Line.lexemes_token, hfirst]; rfl)⟩
      · next hfirst =>
        split at h
        · cases h
        · next hfault =>
          cases h
          exact ⟨hfault, .instruction (by rw [Line.lexemes_token, hfirst]; rfl)⟩
      · next hfirst => simpa [hfirst, Line.fault?] using fits_of_ofLabel h
      · cases h

theorem ofLine_of_blank (ahead : Option LexError) (hfault : line.fault? = none)
    (h : line.lexemes = []) : ofLine ahead line = .ok .blank := by
  obtain ⟨pos, rfl⟩ := Line.exists_newline hfault h
  rfl

theorem ofLine_of_isInstruction (ahead : Option LexError) (hfault : line.fault? = none)
    (h : isInstruction line.lexemes = true) : ofLine ahead line = .ok .instruction := by
  cases line with
  | newline => cases h
  | fault => cases hfault
  | token first rest =>
    rw [Line.fault?] at hfault
    rw [Line.lexemes_token, isInstruction.eq_def] at h
    rw [ofLine, Line.startFault_eq_none hfault]
    split at h <;> simp_all

theorem ofLine_of_declared? (ahead : Option LexError) {name : String} (hfault : line.fault? = none)
    (h : declared? line.lexemes = some name) :
    ∃ pos, ofLine ahead line = .ok (.label name pos) := by
  obtain ⟨_, ofName, rfl, hname⟩ := Line.exists_token (declared?_eq_some_iff.mp h)
  obtain ⟨pos, ofClose, rfl, hclose⟩ := Line.exists_token hname
  obtain ⟨_, ofEnd, rfl, hend⟩ := Line.exists_token hclose
  obtain ⟨_, rfl⟩ := Line.exists_newline (show ofEnd.fault? = none from hfault) hend
  exact ⟨pos, rfl⟩

end Outline

section Reading
variable {line : Line} {rest : List Line} {seen program : Program} {table after : SymbolTable}

/-- The first reading of one line, where `seen` are the lines before it. -/
theorem bindLabels_step (rest : List Line) (hfault : line.fault? = none)
    (houtlined : Outlined line.lexemes) (hlabels : Program.LabelsFresh (seen ++ [line.lexemes]))
    (htable : Tracks (seen ++ line.lexemes :: program) seen [] table) :
    ∃ next, Tracks (seen ++ line.lexemes :: program) (seen ++ [line.lexemes]) [] next ∧
      bindLabels table (seen.countP isInstruction) (line :: rest) =
        bindLabels next ((seen ++ [line.lexemes]).countP isInstruction) rest := by
  rw [bindLabels, List.countP_append, List.countP_singleton]
  rcases houtlined with hblank | hinstruction | ⟨name, hname⟩
  · refine ⟨table, htable.skip_declared (by rw [hblank]; rfl), ?_⟩
    rw [Outline.ofLine_of_blank _ hfault hblank, hblank]
    rfl
  · refine ⟨table, htable.skip_declared (declared?_of_isInstruction hinstruction), ?_⟩
    rw [Outline.ofLine_of_isInstruction _ hfault hinstruction, if_pos hinstruction]
  · obtain ⟨hpredefined, hnew⟩ := (Program.labelsFresh_append_iff.mp hlabels).2 name hname
    have hunbound : table.get? name = none :=
      htable.get?_eq_none_iff.mpr ⟨hpredefined, hnew, by simp⟩
    obtain ⟨pos, hline⟩ := Outline.ofLine_of_declared? (startFault rest) hfault hname
    refine ⟨_, htable.declare hname hunbound, ?_⟩
    rw [hline, isInstruction_of_declared? hname]
    simp only [SymbolTable.declareLabel_of_unbound hunbound]
    rfl

theorem outlined_of_bindLabels
    (h : bindLabels table (seen.countP isInstruction) (line :: rest) = .ok after)
    (htable : Tracks (seen ++ line.lexemes :: program) seen [] table) (hseen : seen.LabelsFresh) :
    line.fault? = none ∧ Outlined line.lexemes ∧
      Program.LabelsFresh (seen ++ [line.lexemes]) := by
  rw [bindLabels] at h
  cases hline : Outline.ofLine (startFault rest) line with
  | error error =>
    rw [hline] at h
    cases h
  | ok outline =>
    obtain ⟨hfault, hfits⟩ := Outline.fits_of_ofLine hline
    refine ⟨hfault, hfits.outlined, Program.labelsFresh_append_iff.mpr ⟨hseen, ?_⟩⟩
    intro name hname
    obtain ⟨pos, rfl⟩ := hfits.eq_label hname
    simp only [hline] at h
    split at h
    · cases h
    · next hdeclare =>
      have hunbound := SymbolTable.get?_eq_none_of_declareLabel hdeclare
      obtain ⟨hpredefined, hnew, _⟩ := htable.get?_eq_none_iff.mp hunbound
      exact ⟨hpredefined, hnew⟩

end Reading

variable {lines : List Line} {table after : SymbolTable}

theorem forall_outlined_of_bindLabels (seen : Program)
    (h : bindLabels table (seen.countP isInstruction) lines = .ok after)
    (htable : Tracks (seen ++ lines.map Line.lexemes) seen [] table) (hseen : seen.LabelsFresh) :
    (∀ line ∈ lines, line.fault? = none ∧ Outlined line.lexemes) ∧
      Program.LabelsFresh (seen ++ lines.map Line.lexemes) := by
  induction lines generalizing seen table with
  | nil => simpa using hseen
  | cons line rest ih =>
    obtain ⟨hfault, houtlined, hlabels⟩ := outlined_of_bindLabels h htable hseen
    obtain ⟨next, hnext, hstep⟩ := bindLabels_step rest hfault houtlined hlabels htable
    rw [hstep] at h
    rw [List.map_cons]
    rw [List.append_cons] at hnext ⊢
    obtain ⟨hrest, hfresh⟩ := ih _ h hnext hlabels
    exact ⟨List.forall_mem_cons.mpr ⟨⟨hfault, houtlined⟩, hrest⟩, hfresh⟩

theorem exists_bindLabels (seen : Program)
    (hlines : ∀ line ∈ lines, line.fault? = none ∧ Outlined line.lexemes)
    (hlabels : Program.LabelsFresh (seen ++ lines.map Line.lexemes))
    (htable : Tracks (seen ++ lines.map Line.lexemes) seen [] table) :
    ∃ final, bindLabels table (seen.countP isInstruction) lines = .ok final ∧
      Tracks (seen ++ lines.map Line.lexemes) (seen ++ lines.map Line.lexemes) [] final := by
  induction lines generalizing seen table with
  | nil =>
    simp only [List.map_nil, List.append_nil] at htable ⊢
    exact ⟨table, rfl, htable⟩
  | cons line rest ih =>
    obtain ⟨⟨hfault, houtlined⟩, hrest⟩ := List.forall_mem_cons.mp hlines
    rw [List.map_cons] at htable hlabels ⊢
    rw [List.append_cons] at hlabels
    obtain ⟨next, hnext, hstep⟩ :=
      bindLabels_step rest hfault houtlined hlabels.of_append htable
    rw [List.append_cons] at hnext
    have hfinal := ih _ hrest hlabels hnext
    rw [← List.append_cons] at hfinal
    rwa [hstep]

end Assembly

end HackAssembler
