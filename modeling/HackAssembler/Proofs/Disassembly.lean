import HackAssembler.Proofs.BareText
import HackAssembler.Proofs.SecondReading

/-! # Assembling what was disassembled

The written form of an instruction reads as a line that denotes the instruction. So a program that
is decoded and written line by line assembles to the words that it was decoded from. -/
namespace HackAssembler

namespace Source

open Text

/-- A character that stands in words only. -/
def isPlain (c : Char) : Bool :=
  !isBlank c && c ∉ ['@', '=', ';', '(', ')', '/']

theorem IsSolid.of_isPlain {c : Char} (h : isPlain c = true) : IsSolid c := by
  simp only [isPlain, Bool.and_eq_true, Bool.not_eq_true', decide_eq_true_eq] at h
  exact ⟨h.1, by rintro rfl; simp at h⟩

theorem punctuation?_of_isPlain {c : Char} (h : isPlain c = true) : punctuation? c = none := by
  unfold punctuation?
  split
  all_goals first | rfl | exact absurd h (by decide)

structure IsPlainWord (word : String) : Prop where
  ne_nil : word.toList ≠ []
  isPlain : ∀ c ∈ word.toList, isPlain c = true

theorem isPlainWord_of_all {word : String}
    (h : (!word.toList.isEmpty && word.toList.all isPlain) = true) : IsPlainWord word := by
  rw [Bool.and_eq_true, List.all_eq_true] at h
  exact ⟨by simpa using h.1, h.2⟩

/-- A plain word in front of a sign or of the end of the line. -/
theorem Reads.plain {word : String} {rest : List Char} {line : List Lexeme}
    (hword : IsPlainWord word) (hsign : ∀ c ∈ rest.head?, c = '=' ∨ c = ';')
    (hrest : Reads rest line) :
    Reads (word.toList ++ rest) (.fragment word :: line) := by
  obtain ⟨hne, hplain⟩ := hword
  rw [← String.ofList_toList (s := word), String.toList_ofList]
  generalize word.toList = word at hne hplain
  obtain ⟨first, word, rfl⟩ := List.exists_cons_of_ne_nil hne
  obtain ⟨hfirst, htail⟩ := List.forall_mem_cons.mp hplain
  have hsolid := IsSolid.of_isPlain hfirst
  refine .fragment ⟨hsolid.not_blank, ?_, punctuation?_of_isPlain hfirst,
    fun h => hsolid.not_slash h.1⟩ (splitBefore_word ?_ ?_) ?_ hrest
  · rintro rfl
    exact absurd hfirst (by decide)
  · intro c hc tail
    have hc := htail c hc
    simp only [isPlain, Bool.and_eq_true, Bool.not_eq_true', decide_eq_true_eq, List.mem_cons,
      List.not_mem_nil, or_false, not_or] at hc
    simp [endsWord, hc]
  · rintro c tail rfl
    rcases hsign c rfl with rfl | rfl <;> rfl
  · intro hclose
    rcases hsign ')' hclose with h | h <;> exact absurd h (by decide)

end Source

namespace Assembly

open Source Instruction Text

/-- The lexemes that the written form of an instruction reads as. -/
def lineOf : Instruction → List Lexeme
  | .load value => [.atSign, .number (toString value.toNat)]
  | .compute dest comp jump => computeLine (destText dest) comp.text (jump.map Jump.text)

/-! ### The mnemonics are plain words -/

theorem isPlainWord_comp (comp : Computation) : IsPlainWord comp.text := by
  have h : ∀ comp ∈ Computation.all,
      (!comp.text.toList.isEmpty && comp.text.toList.all isPlain) = true := by
    decide
  exact isPlainWord_of_all (h comp (Computation.mem_all comp))

theorem isPlainWord_jump (jump : Jump) : IsPlainWord jump.text := by
  apply isPlainWord_of_all
  cases jump <;> decide

theorem isPlainWord_dest {dest : Destination} (h : dest.isEmpty = false) :
    IsPlainWord dest.text := by
  apply isPlainWord_of_all
  rcases dest with ⟨_ | _, _ | _, _ | _⟩
  · cases h
  all_goals decide

def jumpText (jump : Option Jump) : List Char :=
  jump.elim [] fun jump => ';' :: jump.text.toList

theorem toList_text_load (value : BitVec 16) :
    (Instruction.load value).text.toList = '@' :: Nat.toDigits 10 value.toNat := by
  simp [Instruction.text]

theorem toList_text_compute (dest : Destination) (comp : Computation) (jump : Option Jump) :
    (Instruction.compute dest comp jump).text.toList =
      (if dest.isEmpty then [] else dest.text.toList ++ ['=']) ++
        (comp.text.toList ++ jumpText jump) := by
  cases jump <;> by_cases h : dest.isEmpty = true <;> simp [Instruction.text, jumpText, h]

theorem reads_jumpText (jump : Option Jump) :
    Reads (jumpText jump) (Statement.jumpLexemes jump) := by
  cases jump with
  | none => exact .nil
  | some jump =>
    have hword := Reads.plain (isPlainWord_jump jump) (by simp) .nil
    rw [List.append_nil] at hword
    exact .punctuation (by decide) rfl hword

theorem reads_compute (comp : Computation) (jump : Option Jump) :
    Reads (comp.text.toList ++ jumpText jump)
      (.fragment comp.text :: Statement.jumpLexemes jump) := by
  refine .plain (isPlainWord_comp comp) ?_ (reads_jumpText jump)
  cases jump <;> simp [jumpText]

theorem reads_text (inst : Instruction) : Reads inst.text.toList (lineOf inst) := by
  cases inst with
  | load value =>
    have hdigits : ∀ c ∈ Nat.toDigits 10 value.toNat, isDigit c = true :=
      fun c => isDigit_of_mem_toDigits
    have hnumber := Reads.number Nat.toDigits_ne_nil hdigits rfl .nil
    rw [toList_text_load, lineOf, Nat.toString_eq_ofList_toDigits]
    rwa [List.append_nil] at hnumber
  | compute dest comp jump =>
    rw [toList_text_compute, lineOf, Statement.computeLine_eq]
    by_cases h : dest.isEmpty = true
    · rw [if_pos h, if_pos h]
      exact reads_compute comp jump
    · rw [if_neg h, if_neg h, List.append_assoc]
      exact .plain (isPlainWord_dest (by simpa using h)) (by simp)
        (.punctuation (by decide) rfl (reads_compute comp jump))

/-- The characters of the written forms of instructions. -/
def isMnemonic (c : Char) : Bool :=
  isDigit c || c ∈ "@=;+-!&|ADMJGTEQLNP".toList

theorem isMnemonic_of_mem_text (inst : Instruction) : ∀ c ∈ inst.text.toList, isMnemonic c := by
  have hcomps : ∀ comp ∈ Computation.all, comp.text.toList.all isMnemonic := by decide
  have hjumps : ∀ jump ∈ Jump.all, jump.text.toList.all isMnemonic := by decide
  have hdest (dest : Destination) : dest.text.toList.all isMnemonic := by
    rcases dest with ⟨_ | _, _ | _, _ | _⟩ <;> decide
  rw [← List.all_eq_true]
  cases inst with
  | load value =>
    rw [toList_text_load, List.all_cons, Bool.and_eq_true, List.all_eq_true]
    refine ⟨by decide, fun c hc => ?_⟩
    rw [isMnemonic, isDigit_of_mem_toDigits hc, Bool.true_or]
  | compute dest comp jump =>
    have hjump : (jumpText jump).all isMnemonic := by
      cases jump with
      | none => rfl
      | some jump => exact hjumps jump (Jump.mem_all jump)
    rw [toList_text_compute, List.all_append, List.all_append,
      hcomps comp (Computation.mem_all comp), hjump]
    split
    · rfl
    · rw [List.all_append, hdest dest]
      rfl

theorem newline_not_mem_text (inst : Instruction) : '\n' ∉ inst.text.toList := fun h =>
  absurd (isMnemonic_of_mem_text inst '\n' h) (by decide)

theorem denotes_lineOf (program : Program) {inst : Instruction}
    (h : ∀ value, inst = .load value → value.toNat ≤ maxLoad) :
    Denotes program (lineOf inst) inst := by
  cases inst with
  | load value =>
    have hdigits : ∀ c ∈ (toString value.toNat).toList, isDigit c = true := by
      rw [Nat.toString_eq_ofList_toDigits, String.toList_ofList]
      exact fun c => isDigit_of_mem_toDigits
    have hvalue : Nat.ofDigitChars 10 (toString value.toNat).toList 0 = value.toNat := by
      rw [Nat.toString_eq_ofList_toDigits, String.toList_ofList, Nat.ofDigitChars_ten_toDigits]
    have hliteral : Denotes program _ _ := .literal hdigits (by rw [hvalue]; exact h _ rfl)
    rwa [hvalue, BitVec.ofNat_toNat, BitVec.setWidth_eq] at hliteral
  | compute dest comp jump => exact .compute dest comp jump

theorem Denotes.decode_encode {program : Program} {line : List Lexeme} {inst : Instruction}
    (h : Denotes program line inst) : decode inst.encode = .ok inst := by
  have hload {value : Nat} (hfits : value ≤ maxLoad) :
      decode (encode (.load (BitVec.ofNat 16 value))) = .ok (.load (BitVec.ofNat 16 value)) := by
    refine decode_encode_load ?_
    rwa [BitVec.toNat_ofNat, Nat.mod_eq_of_lt (Nat.lt_of_le_of_lt hfits (by decide))]
  cases h with
  | literal _ hfits => exact hload hfits
  | symbol hfits => exact hload hfits
  | compute dest comp jump => exact decode_encode_compute dest comp jump

/-! ### Listings -/

/-- A text of the written forms of instructions, one per line; the last line may lack its end. -/
def IsListing (insts : List Instruction) (text : String) : Prop :=
  text = String.join (insts.map fun inst => inst.text ++ "\n") ∨
    text = "\n".intercalate (insts.map Instruction.text)

/-- The pieces of a listing are the lines, and possibly an empty one behind them. -/
theorem IsListing.pieces_eq {insts : List Instruction} {text : String} (h : IsListing insts text) :
    pieces text.toList = insts.map (·.text.toList) ∨
      pieces text.toList = insts.map (·.text.toList) ++ [[]] := by
  have hlines : ∀ line ∈ insts.map (·.text.toList), '\n' ∉ line := by
    rw [List.forall_mem_map]
    exact fun inst _ => newline_not_mem_text inst
  rcases h with rfl | rfl
  · right
    have hjoin : (String.join (insts.map fun inst => inst.text ++ "\n")).toList =
        unlines (insts.map (·.text.toList)) := by
      simp [String.toList_join, unlines, List.flatMap_map]
    rw [hjoin, pieces_unlines hlines]
  · cases insts with
    | nil => exact .inr rfl
    | cons inst insts =>
      left
      have hjoin : ("\n".intercalate ((inst :: insts).map Instruction.text)).toList =
          ['\n'].intercalate ((inst :: insts).map (·.text.toList)) := by
        rw [String.toList_intercalate, List.map_map]
        rfl
      rw [hjoin, pieces_intercalate (by simp) hlines]

section Listing
variable {insts : List Instruction}
  (hloads : ∀ inst ∈ insts, ∀ value, inst = .load value → value.toNat ≤ maxLoad)

theorem labels_map_lineOf : Program.labels (insts.map lineOf) = [] := by
  rw [Program.labels, List.filterMap_map, List.filterMap_eq_nil_iff]
  intro inst _
  cases inst with
  | load value => rfl
  | compute dest comp jump =>
    rw [Option.eq_none_iff_forall_ne_some]
    intro name hname
    have := isInstruction_of_declared? hname
    rw [lineOf, isInstruction_computeLine] at this
    cases this

theorem operands_map_lineOf : Program.operands (insts.map lineOf) = [] := by
  rw [Program.operands, List.filterMap_map, List.filterMap_eq_nil_iff]
  intro inst _
  cases inst with
  | load value => rfl
  | compute dest comp jump => exact operand?_computeLine _ _ _

include hloads in
theorem assembles_map_lineOf : Assembles (insts.map lineOf) insts := by
  have hinstruction : ∀ line ∈ insts.map lineOf, isInstruction line = true := by
    rw [List.forall_mem_map]
    exact fun inst hinst => (denotes_lineOf [] (hloads inst hinst)).isInstruction
  refine ⟨fun line hline => .inr (.inl (hinstruction line hline)), ⟨?_, ?_⟩, ?_⟩
  · rw [labels_map_lineOf]
    exact List.nodup_nil
  · simp [labels_map_lineOf]
  · rw [List.filter_eq_self.mpr hinstruction, List.forall₂_map_left_iff, List.forall₂_same]
    exact fun inst hinst => denotes_lineOf _ (hloads inst hinst)

include hloads in
theorem exists_ofSource_listing {text : String} (h : IsListing insts text) :
    ∃ final, Emission.ofSource text = ⟨(insts.map encode).toArray, .ok final⟩ ∧
      final.user = [] := by
  have hlines : List.Forall₂ Reads (insts.map (·.text.toList)) (insts.map lineOf) := by
    rw [List.forall₂_map_left_iff, List.forall₂_map_right_iff, List.forall₂_same]
    exact fun inst _ => reads_text inst
  have hprogram := assembles_map_lineOf hloads
  rcases h.pieces_eq with hpieces | hpieces
  · obtain ⟨final, hfinal, hsource⟩ := Emission.exists_ofSource (hpieces ▸ hlines) hprogram
    refine ⟨final, hsource, ?_⟩
    rw [hfinal.user_eq, Program.variablesOf, labels_map_lineOf, operands_map_lineOf]
    rfl
  · have hblank :
        List.Forall₂ Reads (insts.map (·.text.toList) ++ [[]]) (insts.map lineOf ++ [[]]) :=
      List.rel_append hlines (.cons .nil .nil)
    obtain ⟨final, hfinal, hsource⟩ := Emission.exists_ofSource (hpieces ▸ hblank)
      (assembles_append_blank_iff.mpr hprogram)
    refine ⟨final, hsource, ?_⟩
    rw [hfinal.user_eq, Program.variablesOf, Program.labels_append_blank,
      Program.operands_append_blank, labels_map_lineOf, operands_map_lineOf]
    rfl

end Listing

/-! ### Instruction lines of a source -/

/-- The bare texts of the lines of a source that are neither blank nor declarations. -/
def instructionTexts (code : String) : List (List Char) :=
  ((pieces code.toList).map bare).filter fun text => text ≠ [] ∧ text.head? ≠ some '('

/-- A text that is the written form of an instruction, unless that is a load. -/
def IsWritten (text : List Char) (inst : Instruction) : Prop :=
  (∀ value, inst ≠ .load value) → String.ofList text = inst.text

theorem solid_written {dest : Destination} {comp : Computation} {jump : Option Jump} :
    ∀ lexeme ∈ lineOf (.compute dest comp jump), ∀ c ∈ lexeme.written, IsSolid c := by
  have hsign {lexeme : Lexeme} (h : lexeme = .equal ∨ lexeme = .semicolon) :
      ∀ c ∈ lexeme.written, IsSolid c := by
    rcases h with rfl | rfl <;> simp [Lexeme.written] <;> exact ⟨rfl, by decide⟩
  have hword {word : String} (h : IsPlainWord word) :
      ∀ c ∈ (Lexeme.fragment word).written, IsSolid c :=
    fun c hc => .of_isPlain (h.isPlain c hc)
  have hjump : ∀ lexeme ∈ Statement.jumpLexemes jump, ∀ c ∈ lexeme.written, IsSolid c := by
    cases jump with
    | none => simp [Statement.jumpLexemes]
    | some jump =>
      simp only [Statement.jumpLexemes, Option.elim_some, List.forall_mem_cons]
      exact ⟨hsign (.inr rfl), hword (isPlainWord_jump jump), by simp⟩
  have hcomp := hword (isPlainWord_comp comp)
  rw [lineOf, Statement.computeLine_eq]
  by_cases h : dest.isEmpty = true
  · simp only [h, if_true, List.nil_append, List.forall_mem_cons]
    exact ⟨hcomp, hjump⟩
  · have hdest := hword (isPlainWord_dest (by simpa using h))
    simp only [h, Bool.false_eq_true, if_false, List.cons_append, List.nil_append,
      List.forall_mem_cons]
    exact ⟨hdest, hsign (.inl rfl), hcomp, hjump⟩

theorem written_lineOf (dest : Destination) (comp : Computation) (jump : Option Jump) :
    (lineOf (.compute dest comp jump)).flatMap Lexeme.written =
      (Instruction.compute dest comp jump).text.toList := by
  rw [lineOf, Statement.computeLine_eq, toList_text_compute]
  cases jump <;> by_cases h : dest.isEmpty = true <;>
    simp [h, Statement.jumpLexemes, jumpText, Lexeme.written]

/-- Without its blanks and its comment, a line that denotes a computation is the written form of
that. -/
theorem Denotes.bare_eq {program : Program} {text : List Char} {line : List Lexeme}
    {inst : Instruction} (hline : Denotes program line inst) (hreads : Reads text line)
    (hcompute : ∀ value, inst ≠ .load value) : String.ofList (bare text) = inst.text := by
  cases hline with
  | literal => exact absurd rfl (hcompute _)
  | symbol => exact absurd rfl (hcompute _)
  | compute dest comp jump =>
    rw [bare_of_reads hreads solid_written]
    exact (congrArg String.ofList (written_lineOf dest comp jump)).trans String.ofList_toList

/-- Of an outlined line the bare text tells whether it is an instruction. -/
theorem isInstruction_iff_bare {text : List Char} {line : List Lexeme} (hreads : Reads text line)
    (houtlined : Outlined line) :
    isInstruction line = true ↔ bare text ≠ [] ∧ (bare text).head? ≠ some '(' := by
  rcases head_bare_of_reads hreads with ⟨rfl, hbare⟩ | ⟨first, rest, c, rfl, hhead, hc⟩
  · simp [hbare, isInstruction]
  · have hne : bare text ≠ [] := by
      intro hbare
      rw [hbare] at hhead
      cases hhead
    rw [hhead]
    rcases houtlined with hnil | hinstruction | ⟨name, hname⟩
    · cases hnil
    · have hopen : first ≠ .openParen := by
        rintro rfl
        cases hinstruction
      simp [hinstruction, hne, hc, hopen]
    · have hinstruction := isInstruction_of_declared? hname
      rw [declared?_eq_some_iff] at hname
      cases hname
      simp [hinstruction, hc]

theorem forall₂_bare {whole program : Program} {texts : List (List Char)} {insts : List Instruction}
    (hreads : List.Forall₂ Reads texts program) (houtlined : ∀ line ∈ program, Outlined line)
    (hdenotes : List.Forall₂ (Denotes whole) (program.filter isInstruction) insts) :
    List.Forall₂ IsWritten
      ((texts.map bare).filter fun text => text ≠ [] ∧ text.head? ≠ some '(') insts := by
  induction hreads generalizing insts with
  | nil =>
    cases hdenotes
    exact .nil
  | @cons text line texts program hline _ ih =>
    obtain ⟨hout, houtlined⟩ := List.forall_mem_cons.mp houtlined
    have hiff := isInstruction_iff_bare hline hout
    rw [List.map_cons]
    by_cases hinstruction : isInstruction line = true
    · rw [List.filter_cons_of_pos hinstruction] at hdenotes
      rw [List.filter_cons_of_pos (by simpa using hiff.mp hinstruction)]
      cases hdenotes with
      | cons hinst hinsts =>
        exact .cons (fun hcompute => hinst.bare_eq hline hcompute) (ih houtlined hinsts)
    · rw [List.filter_cons_of_neg hinstruction] at hdenotes
      rw [List.filter_cons_of_neg (by simpa using mt hiff.mpr hinstruction)]
      exact ih houtlined hdenotes

/-! ### Round trips -/

theorem map_encode_of_map_decode {words : List Word} {insts : List Instruction}
    (h : words.map decode = insts.map .ok) : insts.map encode = words := by
  induction words generalizing insts with
  | nil =>
    cases insts with
    | nil => rfl
    | cons => cases h
  | cons word words ih =>
    cases insts with
    | nil => cases h
    | cons inst insts =>
      rw [List.map_cons, List.map_cons, List.cons.injEq] at h
      rw [List.map_cons, encode_of_decode h.1, ih h.2]

theorem map_decode_of_denotes {program : Program} {lines : List (List Lexeme)}
    {insts : List Instruction} (h : List.Forall₂ (Denotes program) lines insts) :
    (insts.map encode).map decode = insts.map .ok := by
  induction h with
  | nil => rfl
  | cons hinst _ ih => rw [List.map_cons, List.map_cons, List.map_cons, hinst.decode_encode, ih]

/-- A listing of what some words decode to assembles to the words. -/
theorem assemble_listing {words : List Word} {insts : List Instruction} {text : String}
    (hdecode : words.map decode = insts.map .ok) (htext : IsListing insts text) :
    assemble text = .ok (binary words.toArray) ∧
      ∃ table, symbols text = .ok table ∧ table.user = [] := by
  have hloads : ∀ inst ∈ insts, ∀ value, inst = .load value → value.toNat ≤ maxLoad := by
    rintro inst hinst value rfl
    have hmem : Except.ok (.load value) ∈ words.map decode := hdecode ▸ List.mem_map_of_mem hinst
    obtain ⟨word, _, hword⟩ := List.mem_map.mp hmem
    exact toNat_le_of_decode hword
  obtain ⟨final, hsource, huser⟩ := exists_ofSource_listing hloads htext
  rw [map_encode_of_map_decode hdecode] at hsource
  refine ⟨?_, final, ?_, huser⟩
  · simp only [assemble, hsource, Except.map]
  · simp only [symbols, hsource]

/-- Decoded words, written line by line, assemble to the words again and bind no symbols; and the
words of an assembled source decode, are written as the source writes its computations, and
assemble to the same binary again. -/
theorem assemble_disassembly :
    (∀ (words : List Word) (insts : List Instruction) (text : String),
      words.map decode = insts.map .ok → IsListing insts text →
        assemble text = .ok (binary words.toArray) ∧
          ∃ table, symbols text = .ok table ∧ table.user = []) ∧
    ∀ code output : String, assemble code = .ok output →
      ∃ (words : List Word) (insts : List Instruction), output = binary words.toArray ∧
        words.map decode = insts.map .ok ∧
        List.Forall₂ IsWritten (instructionTexts code) insts ∧
        ∀ text, IsListing insts text → assemble text = .ok output := by
  refine ⟨fun words insts text => assemble_listing, fun code output h => ?_⟩
  obtain ⟨program, insts, hreads, hprogram, rfl⟩ := assemble_eq_ok_iff.mp h
  have hdecode := map_decode_of_denotes hprogram.denotes
  exact ⟨insts.map encode, insts, rfl, hdecode,
    forall₂_bare hreads hprogram.outlined hprogram.denotes,
    fun text htext => (assemble_listing hdecode htext).1⟩

/-- Three words, and a source with blanks, a comment and a label. -/
theorem increment_round_trip :
    (assemble "@32767\nAM=M+1\n0;JMP" = .ok (binary [0x7FFF#16, 0xFDE8#16, 0xEA87#16].toArray) ∧
      ∃ table, symbols "@32767\nAM=M+1\n0;JMP" = .ok table ∧ table.user = []) ∧
    ∃ output, assemble " AM=M+1; JGT // next\n(END)\n@END\n0;JMP" = .ok output ∧
      ∃ (words : List Word) (insts : List Instruction), output = binary words.toArray ∧
        words.map decode = insts.map .ok ∧
        List.Forall₂ IsWritten (instructionTexts " AM=M+1; JGT // next\n(END)\n@END\n0;JMP") insts ∧
        ∀ text, IsListing insts text → assemble text = .ok output := by
  have hdecode : [0x7FFF#16, 0xFDE8#16, 0xEA87#16].map decode =
      [.load 0x7FFF#16, .compute ⟨true, true, false⟩ (.operandPlusOne .m) none,
        .compute .none .zero (some .always)].map .ok := by
    decide +kernel
  have hlisting : IsListing
      [.load 0x7FFF#16, .compute ⟨true, true, false⟩ (.operandPlusOne .m) none,
        .compute .none .zero (some .always)] "@32767\nAM=M+1\n0;JMP" :=
    .inr (by decide +kernel)
  have hassemble : assemble " AM=M+1; JGT // next\n(END)\n@END\n0;JMP" =
      .ok "1111110111101001\n0000000000000001\n1110101010000111\n" := by
    decide +kernel
  exact ⟨assemble_disassembly.1 _ _ _ hdecode hlisting,
    _, hassemble, assemble_disassembly.2 _ _ hassemble⟩

end Assembly

end HackAssembler
