import HackAssembler.Proofs.Acceptance
import HackAssembler.Proofs.Delivery
import HackAssembler.Proofs.Gaps
import HackAssembler.Proofs.SourcePrograms
import Mathlib.Order.Bounds.Basic

/-! # Where errors point

An error points into the first line that the first reading finds fault with, and if there is none
into the first line that the second one does. There is one exception: for a line that holds an
opening parenthesis alone, the token in which its newline is to be judged is the first one of the
next line, and if that cannot be read the error is about it. -/
namespace HackAssembler.Assembly

open Source Instruction Text

/-! ### Lines with a fault -/

/-- Not even the first token of the piece can be read. -/
def startsBadly (text : List Char) : Bool :=
  match (Lexer.start text).scan with
  | ([], some _) => true
  | _ => false

def declaredIn (texts : List (List Char)) : List String :=
  texts.filterMap fun text => (lexemesOf? text).bind declared?

/-- The first reading finds fault with a piece, behind the pieces before it. -/
inductive EarlyFault (before : List (List Char)) (text : List Char) : Prop
  | unreadable (h : lexemesOf? text = none)
  | start {first : Lexeme} {rest : List Lexeme} (h : lexemesOf? text = some (first :: rest))
      (hfirst : first.kind ∉ [Kind.openParen, .atSign, .fragment])
  | declaration {rest : List Lexeme} (h : lexemesOf? text = some (.openParen :: rest))
      (hrest : declared? (.openParen :: rest) = none)
  | label {line : List Lexeme} {name : String} (h : lexemesOf? text = some line)
      (hname : declared? line = some name)
      (htaken : (Predefined.ofName? name).isSome = true ∨ name ∈ declaredIn before)

inductive LateFault (program : Program) (text : List Char) : Prop
  | intro {line : List Lexeme} (h : lexemesOf? text = some line)
      (hinstruction : isInstruction line = true) (hline : ¬WellFormedLine program line)

def EarlyAt (code : String) (n : Nat) : Prop :=
  ∃ before text after, pieces code.toList = before ++ text :: after ∧ before.length = n ∧
    EarlyFault before text

def LateAt (code : String) (n : Nat) : Prop :=
  ∃ before text after, pieces code.toList = before ++ text :: after ∧ before.length = n ∧
    LateFault (programOf code) text

/-- A line that holds an opening parenthesis alone, in front of one that starts badly. -/
def OvertakenAt (code : String) (n : Nat) : Prop :=
  ∃ before text next after, pieces code.toList = before ++ text :: next :: after ∧
    before.length = n ∧ lexemesOf? text = some [.openParen] ∧ startsBadly next = true

section Text
variable {text : List Char} {start : Nat} {line : Line}

/-- A line has a fault at its start if its piece starts badly, wherever the two stand. -/
theorem isSome_startFault (h : Line.OfText start text line) (htext : '\n' ∉ text) :
    line.startFault.isSome = startsBadly text := by
  obtain ⟨tokens, outcome, hrun⟩ := Cursor.exists_run ⟨text, 0, false⟩
  rw [(h.alike_self htext (.intro hrun)).isSome_startFault, startsBadly, Lexer.start, hrun.scan_eq]
  cases tokens with
  | nil => cases outcome <;> rfl
  | cons head tokens =>
    rw [Line.prepend_reverse_cons]
    cases outcome <;> rfl

theorem EarlyFault.not_outlined {before : List (List Char)} {lexemes : List Lexeme}
    (h : EarlyFault before text) (hlexemes : lexemesOf? text = some lexemes) :
    ¬(Outlined lexemes ∧ ∀ name, declared? lexemes = some name →
      Predefined.ofName? name = none ∧ name ∉ declaredIn before) := by
  rintro ⟨houtlined, hfree⟩
  cases h with
  | unreadable hnone =>
    rw [hnone] at hlexemes
    cases hlexemes
  | start hsome hfirst =>
    rw [← Option.some.inj (hsome.symm.trans hlexemes)] at houtlined
    rcases houtlined.first with rfl | rfl | ⟨word, rfl⟩ <;> simp [Lexeme.kind] at hfirst
  | declaration hsome hrest =>
    rw [← Option.some.inj (hsome.symm.trans hlexemes)] at houtlined
    rcases houtlined with hblank | hinstruction | ⟨name, hname⟩
    · cases hblank
    · cases hinstruction
    · rw [hrest] at hname
      cases hname
  | label hsome hname htaken =>
    rw [Option.some.inj (hsome.symm.trans hlexemes)] at hname
    obtain ⟨hpredefined, hnew⟩ := hfree _ hname
    rcases htaken with htaken | htaken
    · simp [hpredefined] at htaken
    · exact hnew htaken

theorem outlined_of_not_earlyFault {before : List (List Char)} {lexemes : List Lexeme}
    (h : ¬EarlyFault before text) (hlexemes : lexemesOf? text = some lexemes) :
    Outlined lexemes ∧ ∀ name, declared? lexemes = some name →
      Predefined.ofName? name = none ∧ name ∉ declaredIn before := by
  refine ⟨?_, fun name hname => ⟨?_, fun htaken => h (.label hlexemes hname (.inr htaken))⟩⟩
  · cases lexemes with
    | nil => exact .inl rfl
    | cons first rest =>
      have hfirst : first.kind ∈ [Kind.openParen, .atSign, .fragment] := by
        by_contra hfirst
        exact h (.start hlexemes hfirst)
      cases first <;> simp [Lexeme.kind] at hfirst
      · exact .inr (.inl rfl)
      · cases hrest : declared? (.openParen :: rest) with
        | none => exact absurd (.declaration hlexemes hrest) h
        | some name => exact .inr (.inr ⟨name, hrest⟩)
      · exact .inr (.inl rfl)
  · by_contra hpredefined
    exact h (.label hlexemes hname (.inl (by simpa [Option.isSome_iff_ne_none] using hpredefined)))

/-- What the first reading asks of a line, said of its piece. -/
theorem earlyFault_iff (h : Line.OfText start text line) (htext : '\n' ∉ text)
    (before : List (List Char)) :
    EarlyFault before text ↔ ¬(line.fault? = none ∧ Outlined line.lexemes ∧
      ∀ name, declared? line.lexemes = some name →
        Predefined.ofName? name = none ∧ name ∉ declaredIn before) := by
  by_cases hfault : line.fault? = none
  · have hlexemes := lexemesOf?_of_no_fault h htext hfault
    refine ⟨fun hearly hall => hearly.not_outlined hlexemes hall.2, fun hnot => ?_⟩
    by_contra hearly
    exact hnot ⟨hfault, outlined_of_not_earlyFault hearly hlexemes⟩
  · exact ⟨fun _ hall => hfault hall.1, fun _ => .unreadable (lexemesOf?_of_fault h htext hfault)⟩

end Text

section Pieces
variable {texts : List (List Char)} {lines : List Line}

theorem declaredIn_eq (h : List.Forall₂ Line.Readable texts lines)
    (htexts : ∀ text ∈ texts, '\n' ∉ text) :
    declaredIn texts = Program.labels (lines.map Line.lexemes) := by
  induction h with
  | nil => rfl
  | @cons text line texts lines hline _ ih =>
    obtain ⟨htext, htexts⟩ := List.forall_mem_cons.mp htexts
    obtain ⟨⟨start, hline⟩, hfault⟩ := hline
    rw [List.map_cons, Program.labels_cons, ← ih htexts, declaredIn, List.filterMap_cons,
      lexemesOf?_of_no_fault hline htext hfault, Option.bind_some]
    cases declared? line.lexemes <;> rfl

/-- In lines that the first reading gets over there is no fault for it. -/
theorem not_earlyFault (h : List.Forall₂ Line.Readable texts lines)
    (htexts : ∀ text ∈ texts, '\n' ∉ text) (houtlined : ∀ line ∈ lines, Outlined line.lexemes)
    (hfresh : Program.LabelsFresh (lines.map Line.lexemes)) {before after : List (List Char)}
    {text : List Char} (hsplit : texts = before ++ text :: after) : ¬EarlyFault before text := by
  subst hsplit
  obtain ⟨before', line, after', rfl, hbefore, ⟨⟨start, hline⟩, hfault⟩, _⟩ :=
    exists_split_of_forall₂ h
  rw [earlyFault_iff hline (htexts text (by simp)), not_not]
  refine ⟨hfault, houtlined line (by simp), ?_⟩
  rw [declaredIn_eq hbefore fun other hother => htexts other (List.mem_append_left _ hother)]
  rw [List.map_append, List.map_cons, List.append_cons] at hfresh
  exact (Program.labelsFresh_append_iff.mp hfresh.of_append).2

end Pieces

/-! ### The first reading -/

def FailsAt (ahead : Option LexError) (line : Line) (error : Error) : Prop :=
  Outline.ofLine ahead line = .error error ∨
    ∃ name pos fault, Outline.ofLine ahead line = .ok (.label name pos) ∧
      error = .source (.label fault) pos

theorem failsAt_of_bindLabels {line : Line} {rest : List Line} {table : SymbolTable} {address : Nat}
    {error : Error} {program seen : Program}
    (h : bindLabels table address (line :: rest) = .error error)
    (htable : Tracks program seen [] table) (hseen : seen.LabelsFresh)
    (hbad : ¬(line.fault? = none ∧ Outlined line.lexemes ∧
      Program.LabelsFresh (seen ++ [line.lexemes]))) : FailsAt (startFault rest) line error := by
  rw [bindLabels] at h
  cases hline : Outline.ofLine (startFault rest) line with
  | error error' =>
    rw [hline] at h
    cases h
    exact .inl hline
  | ok outline =>
    obtain ⟨hfault, hfits⟩ := Outline.fits_of_ofLine hline
    have hlabel : ∃ name pos, outline = .label name pos ∧ table.get? name ≠ none := by
      by_contra hnone
      refine hbad ⟨hfault, hfits.outlined,
        Program.labelsFresh_append_iff.mpr ⟨hseen, fun name hname => ?_⟩⟩
      obtain ⟨pos, houtline⟩ := hfits.eq_label hname
      have hunbound : table.get? name = none := by
        by_contra hbound
        exact hnone ⟨name, pos, houtline, hbound⟩
      obtain ⟨hpredefined, hnew, _⟩ := htable.get?_eq_none_iff.mp hunbound
      exact ⟨hpredefined, hnew⟩
    obtain ⟨name, pos, rfl, hbound⟩ := hlabel
    simp only [hline] at h
    split at h
    · next fault _ =>
      cases h
      exact .inr ⟨name, pos, fault, hline, rfl⟩
    · next hdeclare => exact absurd (SymbolTable.get?_eq_none_of_declareLabel hdeclare) hbound

/-- The first reading fails at the first line that it cannot get over. -/
theorem exists_failsAt {lines : List Line} {table : SymbolTable} {error : Error} (seen : Program)
    (h : bindLabels table (seen.countP isInstruction) lines = .error error)
    (htable : Tracks (seen ++ lines.map Line.lexemes) seen [] table) (hseen : seen.LabelsFresh) :
    ∃ before line after, lines = before ++ line :: after ∧
      (∀ other ∈ before, Outlined other.lexemes) ∧
      Program.LabelsFresh (seen ++ before.map Line.lexemes) ∧
      ¬(line.fault? = none ∧ Outlined line.lexemes ∧
        Program.LabelsFresh (seen ++ before.map Line.lexemes ++ [line.lexemes])) ∧
      FailsAt (startFault after) line error := by
  induction lines generalizing seen table with
  | nil => cases h
  | cons line rest ih =>
    by_cases hgood : line.fault? = none ∧ Outlined line.lexemes ∧
        Program.LabelsFresh (seen ++ [line.lexemes])
    · obtain ⟨hfault, houtlined, hfresh⟩ := hgood
      obtain ⟨next, hnext, hstep⟩ := bindLabels_step rest hfault houtlined hfresh htable
      rw [hstep] at h
      rw [List.append_cons] at hnext
      obtain ⟨before, bad, after, rfl, hbefore, hlabels, hbad, hfails⟩ := ih _ h hnext hfresh
      rw [← List.append_cons, ← List.map_cons] at hlabels hbad
      exact ⟨line :: before, bad, after, rfl, List.forall_mem_cons.mpr ⟨houtlined, hbefore⟩,
        hlabels, hbad, hfails⟩
    · exact ⟨[], line, rest, rfl, by simp, by simpa using hseen, by simpa using hgood,
        failsAt_of_bindLabels h htable hseen hgood⟩

/-- The error of the first reading lies in its line, unless it comes from the line ahead. -/
theorem FailsAt.at_places {ahead : Option LexError} {line : Line} {error : Error}
    (h : FailsAt ahead line error) :
    error.At line.places ∨ Ahead ahead line error ∧ (line.lexemes = [.openParen] ∨
      ∃ name, line.lexemes = [.openParen, .symbol name]) := by
  rcases h with h | ⟨name, pos, fault, h, rfl⟩
  · exact Outline.at_of_ofLine h
  · exact .inl (Error.at_source _ (Outline.pos_mem_places h))

/-- In front of a fault, a line that holds an opening parenthesis alone fails with that fault. -/
theorem FailsAt.eq_lexical {fault : LexError} {line : Line} {error : Error}
    (h : FailsAt (some fault) line error) (hfault : line.fault? = none)
    (hline : line.lexemes = [.openParen]) : error = .lexical fault := by
  obtain ⟨pos, rest, rfl, hrest⟩ := Line.exists_token hline
  obtain ⟨last, rfl⟩ := Line.exists_newline (Line.fault?_rest hfault) hrest
  rcases h with h | ⟨_, _, _, h, _⟩ <;> cases h
  rfl

section Source
variable {code : String} {error : Error}

/-- Two ways to cut a source at a piece, of which one comes first. -/
theorem exists_append_of_length_lt {before head after tail : List (List Char)}
    {text other : List Char} (h : before ++ text :: after = head ++ other :: tail)
    (hlt : before.length < head.length) : ∃ between, head = before ++ text :: between := by
  obtain ⟨between, rfl, hrest⟩ | ⟨between, rfl, _⟩ := List.append_eq_append_iff.mp h
  · cases between with
    | nil => simp at hlt
    | cons first between =>
      cases hrest
      exact ⟨between, rfl⟩
  · simp at hlt

structure Placed (code : String) (head : List (List Char)) (text : List Char)
    (tail : List (List Char)) (line : Line) (after : List Line) : Prop where
  pieces : pieces code.toList = head ++ text :: tail
  ofText : Line.OfText (unlines head).length text line
  after : line.fault? = none →
    Line.OfTexts ((unlines head).length + text.length + 1) tail after

section Placed
variable {head tail : List (List Char)} {text : List Char} {line : Line} {after : List Line}

theorem Placed.newline_not_mem (h : Placed code head text tail line after) {piece : List Char}
    (hpiece : piece ∈ head ++ text :: tail) : '\n' ∉ piece :=
  not_mem_of_mem_pieces (h.pieces ▸ hpiece)

theorem exists_placed {before : List Line} (h : Line.ofSource code = before ++ line :: after) :
    ∃ head text tail, Placed code head text tail line after ∧
      List.Forall₂ Line.Readable head before := by
  obtain ⟨head, text, tail, hsplit, hhead, hline, htail⟩ :=
    (h ▸ Line.ofTexts_ofSource code).exists_split
  rw [Nat.zero_add] at hline htail
  exact ⟨head, text, tail, ⟨hsplit, hline, htail⟩, hhead⟩

theorem Placed.exists_locate (h : Placed code head text tail line after)
    (hat : error.At line.places) :
    ∃ pos, error.pos? = some pos ∧ (locate code pos).line = head.length := by
  obtain ⟨pos, hpos, herror⟩ := hat
  obtain ⟨hle, hlt⟩ := h.ofText.places_within pos hpos
  exact ⟨pos, herror, line_locate h.pieces hle hlt⟩

theorem Placed.next {next : Line} {rest : List Line}
    (h : Placed code head text tail line (next :: rest)) (hfault : line.fault? = none) :
    ∃ piece back, tail = piece :: back ∧ Placed code (head ++ [text]) piece back next rest := by
  have htail : Line.OfTexts _ tail ([] ++ next :: rest) := h.after hfault
  obtain ⟨front, piece, back, rfl, hfront, hnext, hrest⟩ := htail.exists_split
  cases hfront
  have hunlines : (unlines head).length + text.length + 1 =
      (unlines (head ++ [text])).length := by
    simp [unlines, Nat.add_assoc]
  have hnil : (unlines []).length = 0 := rfl
  rw [hunlines, hnil, Nat.add_zero] at hnext hrest
  exact ⟨piece, back, rfl, by rw [h.pieces]; simp, hnext, hrest⟩

/-- When a line is overtaken, the line ahead has a fault at its start. -/
theorem Placed.overtakenAt_iff (h : Placed code head text tail line after) :
    OvertakenAt code head.length ↔ line.fault? = none ∧ line.lexemes = [.openParen] ∧
      ∃ fault, startFault after = some fault := by
  have htext : '\n' ∉ text := h.newline_not_mem (by simp)
  constructor
  · rintro ⟨front, other, piece, back, hcut, hlength, hlexemes, hstarts⟩
    obtain ⟨rfl, hrest⟩ := List.append_inj (hcut.symm.trans h.pieces) hlength
    obtain ⟨rfl, rfl⟩ := List.cons.inj hrest
    obtain ⟨hfault, hparen⟩ := h.ofText.of_reads ((lexemesOf?_eq_some_iff htext).mp hlexemes)
    obtain ⟨next, rest, rfl, hnext⟩ := (h.after hfault).exists_head
    rw [← isSome_startFault hnext (h.newline_not_mem (by simp)),
      Option.isSome_iff_exists] at hstarts
    exact ⟨hfault, hparen, hstarts⟩
  · rintro ⟨hfault, hparen, fault, hstart⟩
    cases after with
    | nil => cases hstart
    | cons next rest =>
      have hstart : next.startFault = some fault := hstart
      obtain ⟨piece, back, rfl, hnext⟩ := h.next hfault
      refine ⟨head, text, piece, back, h.pieces, rfl, ?_, ?_⟩
      · rw [lexemesOf?_of_no_fault h.ofText htext hfault, hparen]
      · rw [← isSome_startFault hnext.ofText (h.newline_not_mem (by simp)), hstart]
        rfl

/-- A fault at the start of the line ahead is located there. -/
theorem Placed.locate_ahead (h : Placed code head text tail line after) {fault : LexError}
    (hfault : line.fault? = none) (hstart : startFault after = some fault) :
    (locate code fault.pos).line = head.length + 1 := by
  cases after with
  | nil => cases hstart
  | cons next rest =>
    obtain ⟨piece, back, _, hnext⟩ := h.next hfault
    have hat : Error.At next.places (.lexical fault) := Error.at_lexical
      (Line.pos_mem_places_of_fault? (Line.fault?_of_startFault hstart))
    obtain ⟨pos, hpos, hlocate⟩ := hnext.exists_locate hat
    cases hpos
    simpa using hlocate

end Placed

theorem exists_early
    (h : bindLabels SymbolTable.initial 0 (Line.ofSource code) = .error error) :
    ∃ n pos, IsLeast {n | EarlyAt code n} n ∧ error.pos? = some pos ∧
      (¬OvertakenAt code n → (locate code pos).line = n) ∧
      (OvertakenAt code n →
        (∃ fault, error = .lexical fault) ∧ (locate code pos).line = n + 1) := by
  obtain ⟨before, line, after, hlines, hbefore, hlabels, hbad, hfails⟩ :=
    exists_failsAt [] h (Tracks.initial _) Program.labelsFresh_nil
  rw [List.nil_append] at hlabels hbad
  obtain ⟨head, text, tail, hplaced, hhead⟩ := exists_placed hlines
  have htext : '\n' ∉ text := hplaced.newline_not_mem (by simp)
  have hheadTexts : ∀ piece ∈ head, '\n' ∉ piece := fun piece hpiece =>
    hplaced.newline_not_mem (List.mem_append_left _ hpiece)
  have hearly : EarlyFault head text := by
    rw [earlyFault_iff hplaced.ofText htext, declaredIn_eq hhead hheadTexts]
    rintro ⟨hfault, houtlined, hfree⟩
    exact hbad ⟨hfault, houtlined, Program.labelsFresh_append_iff.mpr ⟨hlabels, hfree⟩⟩
  have hleast : IsLeast {n | EarlyAt code n} head.length := by
    refine ⟨⟨head, text, tail, hplaced.pieces, rfl, hearly⟩, ?_⟩
    rintro m ⟨front, other, back, hcut, rfl, hother⟩
    by_contra hlt
    obtain ⟨between, hbetween⟩ :=
      exists_append_of_length_lt (hcut.symm.trans hplaced.pieces) (Nat.lt_of_not_le hlt)
    exact not_earlyFault hhead hheadTexts hbefore hlabels hbetween hother
  by_cases hover : OvertakenAt code head.length
  · obtain ⟨hfault, hparen, fault, hstart⟩ := hplaced.overtakenAt_iff.mp hover
    rw [hstart] at hfails
    obtain rfl := hfails.eq_lexical hfault hparen
    exact ⟨head.length, fault.pos, hleast, rfl, fun h => absurd hover h,
      fun _ => ⟨⟨fault, rfl⟩, hplaced.locate_ahead hfault hstart⟩⟩
  · rcases hfails.at_places with hat | ⟨⟨⟨fault, hahead, rfl⟩, hfault⟩, hparen | ⟨name, hname⟩⟩
    · obtain ⟨pos, hpos, hlocate⟩ := hplaced.exists_locate hat
      exact ⟨head.length, pos, hleast, hpos, fun _ => hlocate, fun h => absurd h hover⟩
    · exact absurd (hplaced.overtakenAt_iff.mpr ⟨hfault, hparen, fault, hahead⟩) hover
    · have hlexed := (hplaced.ofText.reads htext hfault).lexed
      rw [hname] at hlexed
      exact absurd hlexed not_lexed_openParen_symbol

theorem Bound.not_earlyAt {program : Program} {table : SymbolTable}
    (h : Bound code program table) (n : Nat) : ¬EarlyAt code n := by
  rintro ⟨before, text, after, hsplit, rfl, hearly⟩
  have hreadable :=
    (Line.ofTexts_ofSource code).readable fun line hline => (h.outlined line hline).1
  refine not_earlyFault hreadable (@not_mem_of_mem_pieces code.toList)
    (fun line hline => (h.outlined line hline).2) ?_ hsplit hearly
  rw [h.lexemes]
  exact h.labelsFresh

theorem exists_late {table : SymbolTable}
    (hbind : bindLabels SymbolTable.initial 0 (Line.ofSource code) = .ok table)
    (h : (emit table.restartVariables #[] (Line.ofSource code)).outcome = .error error) :
    (∀ n, ¬EarlyAt code n) ∧
      ∃ pos, error.pos? = some pos ∧ IsLeast {n | LateAt code n} (locate code pos).line := by
  obtain ⟨program, hbound⟩ := exists_bound hbind
  refine ⟨hbound.not_earlyAt, ?_⟩
  have hprogram : programOf code = program := programOf_eq hbound.reads
  have htracks := hbound.tracks
  rw [← hbound.lexemes] at htracks
  obtain ⟨before, line, after, insts, _, hlines, _, hbefore, hinstruction, hdenotes, hlate, _⟩ :=
    exists_interrupted [] #[] hbound.outlined hbound.lexed htracks h
  rw [List.nil_append, hbound.lexemes, ← hprogram] at hbefore hdenotes
  obtain ⟨head, text, tail, hplaced, hhead⟩ := exists_placed hlines
  obtain ⟨pos, hpos, hlocate⟩ := hplaced.exists_locate hlate.at_places
  have hlexed (other : Line) (hother : other ∈ before ++ line :: after) : Lexed other.lexemes :=
    hbound.lexed other (hlines ▸ hother)
  refine ⟨pos, hpos, ?_⟩
  rw [hlocate]
  constructor
  · have hfault := (hbound.outlined line (by rw [hlines]; simp)).1
    refine ⟨head, text, tail, hplaced.pieces, rfl,
      lexemesOf?_of_no_fault hplaced.ofText (hplaced.newline_not_mem (by simp)) hfault,
      hinstruction, ?_⟩
    rw [← exists_denotes_iff hinstruction (hlexed line (by simp))]
    exact not_exists.mpr hdenotes
  · rintro m ⟨front, other, back, hcut, rfl, hother⟩
    by_contra hlt
    obtain ⟨between, rfl⟩ :=
      exists_append_of_length_lt (hcut.symm.trans hplaced.pieces) (Nat.lt_of_not_le hlt)
    obtain ⟨_, found, _, rfl, _, ⟨⟨start, hfound⟩, hfault⟩, _⟩ := exists_split_of_forall₂ hhead
    obtain ⟨hsome, hinstr, hbad⟩ := hother
    have hlexemes := lexemesOf?_of_no_fault hfound (hplaced.newline_not_mem (by simp)) hfault
    obtain rfl := Option.some.inj (hsome.symm.trans hlexemes)
    refine hbad ((exists_denotes_iff hinstr (hlexed found (by simp))).mp ?_)
    exact exists_denotes_of_forall₂ hbefore _ (List.mem_filter.mpr ⟨by simp, hinstr⟩)

/-- Where an error of a source points: into the first line with a fault for the first reading, or
the line behind it if that overtakes it, and into the first line with a fault for the second
reading if there is none for the first. -/
structure PointsAtFirst (code : String) (error : Error) (pos : Nat) : Prop where
  points : error.pos? = some pos
  early : ∀ n, IsLeast {n | EarlyAt code n} n → ¬OvertakenAt code n → (locate code pos).line = n
  overtaken : ∀ n, IsLeast {n | EarlyAt code n} n → OvertakenAt code n →
    (∃ fault, error = .lexical fault) ∧ (locate code pos).line = n + 1
  late : (∀ n, ¬EarlyAt code n) → IsLeast {n | LateAt code n} (locate code pos).line

theorem exists_pointsAtFirst (h : (Emission.ofSource code).outcome = .error error) :
    ∃ pos, PointsAtFirst code error pos := by
  cases hbind : bindLabels SymbolTable.initial 0 (Line.ofSource code) with
  | error error' =>
    simp only [Emission.ofSource, hbind, Except.error.injEq] at h
    obtain rfl := h
    obtain ⟨n, pos, hleast, hpos, hearly, hover⟩ := exists_early hbind
    refine ⟨pos, hpos, fun m hm hnot => ?_, fun m hm hovertaken => ?_, fun hnone => ?_⟩
    · obtain rfl := hm.unique hleast
      exact hearly hnot
    · obtain rfl := hm.unique hleast
      exact hover hovertaken
    · exact absurd hleast.1 (hnone n)
  | ok table =>
    simp only [Emission.ofSource, hbind] at h
    obtain ⟨hnone, pos, hpos, hleast⟩ := exists_late hbind h
    exact ⟨pos, hpos, fun n hn => absurd hn.1 (hnone n), fun n hn => absurd hn.1 (hnone n),
      fun _ => hleast⟩

end Source

def Infallible (m : Type → Type) [Monad m] (σ : Type) [Output.Sink m σ] : Prop :=
  ∀ sink : σ, SatisfiesM (fun result => result.1 = .ok ())
    (Output.Sink.finish sink : m (Except FileFault Unit × σ))

/-- With such a sink, a delivery fails for the reasons of the emission alone. -/
theorem satisfiesM_deliver_infallible {m : Type → Type} [Monad m] [LawfulMonad m] {σ : Type}
    [Output.Sink m σ] (hsink : Infallible m σ) (emission : Emission) (sink : σ) :
    SatisfiesM (m := m)
      (fun result => ∀ error, result.1 = .error error → emission.outcome = .error error)
      (Output.deliver emission sink) := by
  rw [Output.deliver]
  refine SatisfiesM.bind .trivial fun sink _ => ?_
  cases emission.outcome with
  | error error => exact .pure fun _ herror => herror
  | ok table =>
    refine (hsink sink).bind fun result hresult => ?_
    rcases result with ⟨fault | done, after⟩
    · cases hresult
    · refine .pure fun error herror => ?_
      cases herror

/-- An error of a source that is delivered to a sink that can always be finished points into the
first line that the first reading finds fault with, or into the next one if that overtakes it. If
there is none, it points into the first line that the second reading finds fault with. -/
theorem errors_point_at_first_fault (code : String) (m : Type → Type) [Monad m] [LawfulMonad m]
    (σ : Type) [Output.Sink m σ] (hsink : Infallible m σ) (sink : σ) :
    SatisfiesM (m := m)
      (fun result => ∀ error, result.1 = .error error → ∃ pos, PointsAtFirst code error pos)
      (Output.deliver (Emission.ofSource code) sink) := by
  refine (satisfiesM_deliver_infallible hsink _ sink).imp fun hresult error herror => ?_
  exact exists_pointsAtFirst (hresult error herror)

/-- The second line declares a predefined name, so the error does not point into the first one. -/
theorem errors_point_at_predefined_label :
    Infallible Id Output.MemorySink ∧ SatisfiesM (m := Id)
      (fun result => ∀ error, result.1 = .error error →
        ∃ pos, PointsAtFirst "@1 2\n(SP)" error pos)
      (Output.deliver (Emission.ofSource "@1 2\n(SP)") Output.MemorySink.empty) :=
  ⟨fun _ => .pure rfl,
    errors_point_at_first_fault "@1 2\n(SP)" Id Output.MemorySink (fun _ => .pure rfl) _⟩

/-- The first line is the first one with a fault, but the error points into the second one. -/
theorem openParen_overtaken :
    ∃ error pos, assemble "(\n@ x" = .error error ∧ error.pos? = some pos ∧
      IsLeast {n | EarlyAt "(\n@ x" n} 0 ∧ (locate "(\n@ x" pos).line ≠ 0 := by
  have hearly : EarlyFault [] ['('] := by
    refine @EarlyFault.declaration _ _ [] ?_ rfl
    decide +kernel
  have hpieces : pieces "(\n@ x".toList = [] ++ ['('] :: [['@', ' ', 'x']] := by decide +kernel
  exact ⟨.lexical ⟨some ' ', 3⟩, 3, by decide +kernel, rfl,
    ⟨⟨_, _, _, hpieces, rfl, hearly⟩, fun n _ => Nat.zero_le n⟩, by decide +kernel⟩

end HackAssembler.Assembly
