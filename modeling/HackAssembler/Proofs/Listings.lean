import HackAssembler.Proofs.FinalTable
import HackAssembler.Proofs.Radixes
import HackAssembler.Proofs.Rendering
import HackAssembler.Proofs.Rows
import HackAssembler.Report.Listing

/-! # What listings show

A listing has a row for each row of a binary and for each label and variable, and a line of the
binary is shown as an instruction exactly when it is the numeral of a word that decodes. Of an
assembled source every word is shown as the instruction that it was assembled from. -/
namespace HackAssembler.Report

open Instruction Text

/-! ### Lines of a binary -/

theorem readNumeral_word {digits : List Char} {word : Word} :
    (if digits.isEmpty then none else (readNumeral 2 0xFFFF digits).map (BitVec.ofNat 16)) =
        some word ↔ IsBinary digits word.toNat := by
  by_cases hne : digits = []
  · simp only [hne, List.isEmpty_nil, if_true]
    exact iff_of_false nofun fun h => h.ne_nil rfl
  rw [if_neg (by simpa using hne), readNumeral_eq digits (by decide)]
  constructor
  · intro h
    obtain ⟨value, hvalue, rfl⟩ := Option.map_eq_some_iff.mp h
    obtain ⟨hread, hfits⟩ := Option.filter_eq_some_iff.mp hvalue
    obtain ⟨hdigits, rfl⟩ := numeralValue?_go_two.mp hread
    have hlt : Nat.ofDigitChars 2 digits 0 < 2 ^ 16 :=
      Nat.lt_of_le_of_lt (of_decide_eq_true hfits) (by decide)
    exact ⟨hne, hdigits, by rw [BitVec.toNat_ofNat, Nat.mod_eq_of_lt hlt]⟩
  · intro h
    have hread : numeralValue? 2 digits = some word.toNat :=
      numeralValue?_go_two.mpr ⟨h.digit, h.value⟩
    have hfits : word.toNat ≤ 0xFFFF := Nat.le_of_lt_succ word.isLt
    rw [hread, Option.filter_some, decide_eq_true hfits, if_pos rfl, Option.map_some,
      BitVec.ofNat_toNat, BitVec.setWidth_eq]

theorem readWord?_eq_some_iff {line : List Char} {word : Word} :
    readWord? line = some word ↔ IsNumeral line word.toNat := by
  -- A line that begins with a plus sign is no numeral itself, since the sign is no digit.
  by_cases hplus : ∃ digits, line = '+' :: digits
  · obtain ⟨digits, rfl⟩ := hplus
    rw [readWord?, readNumeral_word]
    constructor
    · exact fun h => ⟨digits, .inr rfl, h⟩
    · rintro ⟨_, rfl | h, hbinary⟩
      · exact absurd hbinary not_isBinary_plus
      · rw [List.cons_inj_right] at h
        rwa [h]
  · have hread : readWord? line =
        if line.isEmpty then none else (readNumeral 2 0xFFFF line).map (BitVec.ofNat 16) := by
      rw [readWord?]
      exact fun digits h => hplus ⟨digits, h⟩
    rw [hread, readNumeral_word]
    constructor
    · exact fun h => ⟨line, .inl rfl, h⟩
    · rintro ⟨digits, rfl | rfl, hbinary⟩
      · exact hbinary
      · exact absurd ⟨digits, rfl⟩ hplus

/-- A line that is the numeral of a word, and the instruction that the word decodes to. -/
def StandsFor (line : List Char) (inst : Instruction) : Prop :=
  ∃ value, IsNumeral line value ∧ value < 65536 ∧ decode (BitVec.ofNat 16 value) = .ok inst

theorem decodeLine?_eq_some_iff {line : List Char} {inst : Instruction} :
    decodeLine? line = some inst ↔ StandsFor line inst := by
  have hdecode : decodeLine? line = some inst ↔
      ∃ word, readWord? line = some word ∧ decode word = .ok inst := by
    rw [decodeLine?]
    cases readWord? line with
    | none => simp
    | some word => cases h : decode word <;> simp [Except.toOption, h]
  rw [hdecode]
  constructor
  · rintro ⟨word, hread, hword⟩
    refine ⟨word.toNat, readWord?_eq_some_iff.mp hread, word.isLt, ?_⟩
    rwa [BitVec.ofNat_toNat, BitVec.setWidth_eq]
  · rintro ⟨value, hline, hvalue, hword⟩
    refine ⟨BitVec.ofNat 16 value, readWord?_eq_some_iff.mpr ?_, hword⟩
    rwa [BitVec.toNat_ofNat, Nat.mod_eq_of_lt hvalue]

/-! ### Cells -/

theorem text_ne_unknown (inst : Instruction) : inst.text ≠ "??" := by
  intro h
  have hmark : '?' ∈ inst.text.toList := by
    rw [h]
    decide
  exact absurd (Assembly.isMnemonic_of_mem_text inst '?' hmark) (by decide)

theorem shown_styled (inst : Instruction) : shown inst.styled.render = inst.text := by
  have hescape : '\x1b' ∉ inst.styled.plainText.toList := by
    rw [plainText_styled]
    exact fun h => absurd (Assembly.isMnemonic_of_mem_text inst _ h) (by decide)
  rw [Styled.shown_render hescape, plainText_styled]

theorem shown_unknownMark : shown unknownMark.render = "??" := by
  decide +kernel

def cell (line : List Char) : String :=
  Styled.render ((decodeLine? line).elim unknownMark Instruction.styled)

/-- A cell shows two question marks beside a line that stands for no instruction, and beside any
other line the instruction that is encoded as the value of the line. -/
structure Shows (line : List Char) (cell : String) : Prop where
  unknown_iff : shown cell = "??" ↔ ¬ ∃ inst, StandsFor line inst
  instruction : ∀ value inst, IsNumeral line value → value < 65536 →
    decode (BitVec.ofNat 16 value) = .ok inst →
      shown cell = inst.text ∧ inst.encode.toNat = value

theorem shown_cell {line : List Char} {inst : Instruction} (h : StandsFor line inst) :
    shown (cell line) = inst.text := by
  rw [cell, decodeLine?_eq_some_iff.mpr h]
  exact shown_styled inst

theorem shows_cell (line : List Char) : Shows line (cell line) where
  unknown_iff := by
    constructor
    · rintro hunknown ⟨inst, hinst⟩
      rw [shown_cell hinst] at hunknown
      exact text_ne_unknown inst hunknown
    · intro hnone
      have hdecode : decodeLine? line = none := by
        rw [Option.eq_none_iff_forall_ne_some]
        exact fun inst h => hnone ⟨inst, decodeLine?_eq_some_iff.mp h⟩
      rw [cell, hdecode]
      exact shown_unknownMark
  instruction value inst hline hvalue hdecode := by
    refine ⟨shown_cell ⟨value, hline, hvalue, hdecode⟩, ?_⟩
    rw [encode_of_decode hdecode, BitVec.toNat_ofNat, Nat.mod_eq_of_lt hvalue]

/-! ### Rows -/

def numberedRow (number : Nat) (line : List Char) (cell : String) : String :=
  "[" ++ hexadecimal 4 number ++ "] " ++ String.ofList line ++ " | " ++ cell

/-- The row of a symbol: its address twice, and its name in cyan, or a label in parentheses and
green. -/
def symbolText (symbol : Binding) : String :=
  rightAligned 6 symbol.address ++ "  0x" ++ hexadecimal 4 symbol.address ++ "        | " ++
    (if symbol.kind = .variable then control "36" ++ symbol.name
      else control "32" ++ "(" ++ symbol.name ++ ")") ++ control "39"

structure Listed (binary : String) (table : SymbolTable) (lines : List (List Char))
    (cells : List String) : Prop where
  rows : HasRows binary.toList lines
  shows : List.Forall₂ Shows lines cells
  listing : (listing binary table).map Styled.render =
    "-------------------------+------------------------------" ::
      ((lines.zip cells).mapIdx (fun number row => numberedRow number row.1 row.2) ++
        "-------------------------+------------------------------" ::
          (table.bindings.toList.filter (·.kind ≠ .predefined)).map symbolText)

theorem render_wordRow (number : Nat) (line : List Char) :
    (wordRow number line).render = numberedRow number line (cell line) := by
  rw [wordRow, Styled.render_plain_cons]
  rfl

theorem render_symbolRow (symbol : Binding) : (symbolRow symbol).render = symbolText symbol := by
  rw [symbolRow, Styled.render_plain_cons, symbolName, symbolText]
  cases symbol.kind <;>
    simp [Styled.render, Styled.render.go, Span.colored, Style.change, Style.plain, Color.code,
      String.append_assoc]

theorem render_rule :
    Styled.render [.plain rule] = "-------------------------+------------------------------" := by
  decide +kernel

theorem render_wordRows (lines : List (List Char)) :
    (lines.mapIdx wordRow).map Styled.render =
      (lines.zip (lines.map cell)).mapIdx fun number row => numberedRow number row.1 row.2 := by
  refine List.ext_getElem? fun number => ?_
  rw [List.getElem?_map, List.getElem?_mapIdx, List.getElem?_mapIdx, List.zip,
    List.getElem?_zipWith, List.getElem?_map]
  cases lines[number]? with
  | none => rfl
  | some line => exact congrArg some (render_wordRow number line)

theorem listed_rows (binary : String) (table : SymbolTable) :
    Listed binary table (rows binary.toList) ((rows binary.toList).map cell) where
  rows := hasRows_iff.mpr rfl
  shows := by
    rw [List.forall₂_map_right_iff, List.forall₂_same]
    exact fun line _ => shows_cell line
  listing := by
    have hsymbols : Styled.render ∘ symbolRow = symbolText := by
      funext symbol
      rw [Function.comp_apply, render_symbolRow]
    simp only [Report.listing, List.map_cons, List.map_append, List.map_map, hsymbols,
      render_wordRows, render_rule, SymbolTable.user]

/-! ### Assembled sources -/

section Assembled
open Assembly Source

theorem hasRows_words (words : List Word) :
    HasRows (String.join (words.map fun word => word.text ++ "\n")).toList
      (words.map (·.text.toList)) := by
  induction words with
  | nil => exact .nil
  | cons word words ih =>
    have hnewline : '\n' ∉ word.text.toList := fun h => by
      rcases Word.mem_text h with h | h <;> exact absurd h (by decide)
    have hreturn : word.text.toList.getLast? ≠ some '\r' := fun h => by
      rcases Word.mem_text (List.mem_of_getLast? h) with h | h <;> exact absurd h (by decide)
    have happend : (String.join ((word :: words).map fun word => word.text ++ "\n")).toList =
        word.text.toList ++ '\n' ::
          (String.join (words.map fun word => word.text ++ "\n")).toList := by
      simp [String.join_cons]
    rw [happend]
    exact .newline hnewline hreturn ih

theorem standsFor_text {inst : Instruction} (h : decode inst.encode = .ok inst) :
    StandsFor inst.encode.text.toList inst := by
  refine ⟨inst.encode.toNat, ⟨_, .inl rfl, Word.isBinary_text _⟩, inst.encode.isLt, ?_⟩
  rwa [BitVec.ofNat_toNat, BitVec.setWidth_eq]

/-- A listing of the words of some instructions, each of them beside its word. -/
theorem listed_words {insts : List Instruction} (table : SymbolTable)
    (hdecode : ∀ inst ∈ insts, decode inst.encode = .ok inst) :
    ∃ cells, Listed (binary (insts.map encode).toArray) table
        (insts.map (·.encode.text.toList)) cells ∧
      cells.map shown = insts.map Instruction.text := by
  have hrows : rows (binary (insts.map encode).toArray).toList =
      insts.map (·.encode.text.toList) := by
    rw [binary_eq_join, hasRows_iff.mp (hasRows_words (insts.map encode)), List.map_map]
    rfl
  refine ⟨(insts.map (·.encode.text.toList)).map cell, hrows ▸ listed_rows _ table, ?_⟩
  rw [List.map_map, List.map_map]
  exact List.map_congr_left fun inst hinst => shown_cell (standsFor_text (hdecode inst hinst))

/-- Listings. Between two rules stands a row for each row of the binary, with its number, the line
itself and what the line stands for, and behind them a row for each label and variable. Of a source
without errors the lines stand for the instructions that its lines denote. -/
theorem listing_shows :
    (∀ (binary : String) (table : SymbolTable), ∃ lines cells, Listed binary table lines cells) ∧
    (∀ number, IsHexadecimal 4 number (hexadecimal 4 number)) ∧
    ∀ (code : String) (table : SymbolTable), symbols code = .ok table →
      ∃ tokens insts output cells, (Lexer.ofString code).tokens = .ok tokens ∧
        assemble code = .ok output ∧
        List.Forall₂ (Denotes (lexemeLines tokens))
          ((lexemeLines tokens).filter isInstruction) insts ∧
        Listed output table (insts.map (·.encode.text.toList)) cells ∧
        cells.map shown = insts.map Instruction.text ∧ ∀ cell ∈ cells, shown cell ≠ "??" := by
  refine ⟨fun binary table => ⟨_, _, listed_rows binary table⟩,
    isHexadecimal_hexadecimal (by decide), fun code table h => ?_⟩
  obtain ⟨program, insts, hreads, hprogram⟩ := Emission.exists_assembles h
  obtain ⟨⟨tokens, htokens, hlines⟩, _⟩ := lines_of_reads hreads
  have hdecode : ∀ inst ∈ insts, decode inst.encode = .ok inst := by
    have hwords := map_decode_of_denotes hprogram.denotes
    rwa [List.map_map, List.map_inj_left] at hwords
  obtain ⟨cells, hlisted, hshown⟩ := listed_words table hdecode
  refine ⟨tokens, insts, _, cells, htokens,
    assemble_eq_ok_iff.mpr ⟨program, insts, hreads, hprogram, rfl⟩, ?_, hlisted, hshown, ?_⟩
  · rw [hlines]
    exact (assembles_append_blank_iff.mpr hprogram).denotes
  · intro cell hcell hunknown
    have hmem : shown cell ∈ insts.map Instruction.text := hshown ▸ List.mem_map_of_mem hcell
    obtain ⟨inst, _, hinst⟩ := List.mem_map.mp hmem
    exact text_ne_unknown inst (hinst.trans hunknown)

def countForever : String := "(LOOP)\n@i\nM=M+1\n@LOOP\n0;JMP"

/-- A word that is no instruction, and a short numeral with a sign and another line ending. -/
def oddBinary : String := "1100000000000000\n+1\r\n"

theorem listing_shows_countForever :
    (∃ table, symbols countForever = .ok table ∧
      ∃ tokens insts output cells, (Lexer.ofString countForever).tokens = .ok tokens ∧
        assemble countForever = .ok output ∧
        List.Forall₂ (Denotes (lexemeLines tokens)) ((lexemeLines tokens).filter isInstruction)
          insts ∧
        Listed output table (insts.map (·.encode.text.toList)) cells ∧
        cells.map shown = insts.map Instruction.text ∧ ∀ cell ∈ cells, shown cell ≠ "??") ∧
    ∃ lines cells, Listed oddBinary .initial lines cells ∧
      lines = ["1100000000000000".toList, "+1".toList] ∧ cells.map shown = ["??", "@1"] := by
  constructor
  · have hok : (symbols countForever).toBool = true := by decide +kernel
    cases h : symbols countForever with
    | error error =>
      rw [h] at hok
      cases hok
    | ok table => exact ⟨table, rfl, listing_shows.2.2 countForever table h⟩
  · obtain ⟨lines, cells, hlisted⟩ := listing_shows.1 oddBinary .initial
    have hlines : lines = ["1100000000000000".toList, "+1".toList] := by
      rw [← hasRows_iff.mp hlisted.rows]
      decide +kernel
    obtain ⟨first, second, hfirst, hsecond, rfl⟩ : ∃ first second,
        Shows "1100000000000000".toList first ∧ Shows "+1".toList second ∧
          cells = [first, second] := by
      have hshows := hlines ▸ hlisted.shows
      rcases hshows with _ | ⟨hfirst, _ | ⟨hsecond, _ | _⟩⟩
      exact ⟨_, _, hfirst, hsecond, rfl⟩
    have hunknown : ¬ ∃ inst, StandsFor "1100000000000000".toList inst := by
      rintro ⟨inst, hinst⟩
      have hnone : decodeLine? "1100000000000000".toList = none := by decide +kernel
      rw [decodeLine?_eq_some_iff.mpr hinst] at hnone
      cases hnone
    have hone : IsNumeral "+1".toList 1 := ⟨['1'], .inr rfl, by simp, by simp, by decide⟩
    refine ⟨lines, _, hlisted, hlines, ?_⟩
    rw [List.map_cons, List.map_singleton, hfirst.unknown_iff.mpr hunknown,
      (hsecond.instruction 1 (.load 1) hone (by decide) (by decide)).1]
    decide +kernel

end Assembled

end HackAssembler.Report
