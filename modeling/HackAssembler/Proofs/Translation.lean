import HackAssembler.Proofs.SecondReading

/-! # The translation of a program

What the words of a program look like, said of the texts of its lines alone. The main theorem
states that an assembled source is the translation of its instruction lines, one line for each. -/
namespace HackAssembler.Assembly

open Source Instruction Text

/-! ### The reference encoding of a line -/

/-- The control bits of each computation, whose operand is written `A` here. -/
def controlTable : List (String × String) :=
  [("0", "101010"), ("1", "111111"), ("-1", "111010"), ("D", "001100"), ("A", "110000"),
    ("!D", "001101"), ("!A", "110001"), ("-D", "001111"), ("-A", "110011"), ("D+1", "011111"),
    ("A+1", "110111"), ("D-1", "001110"), ("A-1", "110010"), ("D+A", "000010"),
    ("D-A", "010011"), ("A-D", "000111"), ("D&A", "000000"), ("D|A", "010101")]

def jumpTable : List (Option String × String) :=
  [(none, "000"), (some "JGT", "001"), (some "JEQ", "010"), (some "JGE", "011"),
    (some "JLT", "100"), (some "JNE", "101"), (some "JLE", "110"), (some "JMP", "111")]

def letterFlag (letter : Char) (text : String) : String :=
  if letter ∈ text.toList then "1" else "0"

def onAddress (comp : String) : String :=
  comp.map fun c => if c = 'M' then 'A' else c

/-- The destination flags, in the order A, D, M. -/
def destFlags (dest : Option String) : String :=
  let text := dest.getD ""
  letterFlag 'A' text ++ letterFlag 'D' text ++ letterFlag 'M' text

/-- The word that stands for an instruction line of a program. A load is the binary numeral of
its value, which is small enough for the top bit to be clear. -/
inductive Encodes (program : Program) : List Lexeme → String → Prop
  | literal {digits : String} (hfits : Nat.ofDigitChars 10 digits.toList 0 ≤ 32767) :
      Encodes program [.atSign, .number digits]
        (binaryNumeral 16 (Nat.ofDigitChars 10 digits.toList 0))
  | symbol {name : String} (hfits : program.address name ≤ 32767) :
      Encodes program [.atSign, .symbol name] (binaryNumeral 16 (program.address name))
  | compute {dest jump : Option String} {comp control condition : String}
      (hcontrol : (onAddress comp, control) ∈ controlTable)
      (hcondition : (jump, condition) ∈ jumpTable) :
      Encodes program (computeLine dest comp jump)
        ("111" ++ letterFlag 'M' comp ++ control ++ destFlags dest ++ condition)

/-! ### The fields of a word -/

/-- The bits of a field as characters, the most significant first. -/
def fieldText {width : Nat} (field : BitVec width) : String :=
  String.ofList ((List.range width).map fun i => if field.getMsbD i then '1' else '0')

theorem fieldText_append {first second : Nat} (high : BitVec first) (low : BitVec second) :
    fieldText (high ++ low) = fieldText high ++ fieldText low := by
  rw [fieldText, List.range_add, List.map_append, String.ofList_append, List.map_map]
  congr 1
  · congr 1
    refine List.map_congr_left fun i hi => ?_
    rw [BitVec.getMsbD_append, if_neg (Nat.not_le.mpr (List.mem_range.mp hi))]
  · rw [fieldText]
    congr 1
    refine List.map_congr_left fun i _ => ?_
    simp [BitVec.getMsbD_append]

theorem control_mem_controlTable (comp : Computation) :
    (onAddress comp.text, fieldText comp.code) ∈ controlTable := by
  have h : ∀ comp ∈ Computation.all, (onAddress comp.text, fieldText comp.code) ∈ controlTable := by
    decide +kernel
  exact h comp (Computation.mem_all comp)

theorem fieldText_memoryBit (comp : Computation) :
    fieldText comp.memoryBit = letterFlag 'M' comp.text := by
  have h : ∀ comp ∈ Computation.all, fieldText comp.memoryBit = letterFlag 'M' comp.text := by
    decide +kernel
  exact h comp (Computation.mem_all comp)

theorem fieldText_bits (dest : Destination) : fieldText dest.bits = destFlags (destText dest) := by
  rcases dest with ⟨_ | _, _ | _, _ | _⟩ <;> decide +kernel

theorem condition_mem_jumpTable (jump : Option Jump) :
    (jump.map Jump.text, fieldText (Jump.field jump)) ∈ jumpTable := by
  rcases jump with _ | jump
  · decide +kernel
  · cases jump <;> decide +kernel

theorem text_encode_compute (dest : Destination) (comp : Computation) (jump : Option Jump) :
    (encode (.compute dest comp jump)).text =
      "111" ++ letterFlag 'M' comp.text ++ fieldText comp.code ++ destFlags (destText dest) ++
        fieldText (Jump.field jump) := by
  have hclass : fieldText 0b111#3 = "111" := by decide +kernel
  calc
    (encode (.compute dest comp jump)).text = fieldText (encode (.compute dest comp jump)) := rfl
    _ = _ := by
      rw [encode, fieldText_append, fieldText_append, fieldText_append, fieldText_append, hclass,
        fieldText_memoryBit, fieldText_bits]

theorem text_encode_load {value : Nat} (h : value ≤ maxLoad) :
    (encode (.load (BitVec.ofNat 16 value))).text = binaryNumeral 16 value := by
  have hvalue : (BitVec.ofNat 16 value).toNat = value :=
    Nat.mod_eq_of_lt (Nat.lt_of_le_of_lt h (by decide))
  rw [encode_load (by rwa [hvalue]), Word.text_eq_binaryNumeral, hvalue]

theorem Denotes.encodes {program : Program} {line : List Lexeme} {inst : Instruction}
    (h : Denotes program line inst) : Encodes program line inst.encode.text := by
  cases h with
  | literal _ hfits =>
    rw [text_encode_load hfits]
    exact .literal hfits
  | symbol hfits =>
    rw [text_encode_load hfits]
    exact .symbol hfits
  | compute dest comp jump =>
    rw [text_encode_compute]
    exact .compute (control_mem_controlTable comp) (condition_mem_jumpTable jump)

/-! ### The lines of the binary -/

theorem binary_eq_join (words : Array Word) :
    binary words = String.join (words.toList.map fun word => word.text ++ "\n") := by
  rw [binary, String.join, ← Array.foldl_toList, List.foldl_map]
  simp only [String.append_assoc]

/-- What an assembled source consists of: a word for each instruction line, in order, which
encodes the line in the program that the lines of the source are. -/
theorem assemble_translates {code output : String} (h : assemble code = .ok output) :
    ∃ tokens words, (Lexer.ofString code).tokens = .ok tokens ∧
      output = String.join (words.map (· ++ "\n")) ∧
      (∀ word ∈ words, word.length = 16 ∧ ∀ c ∈ word.toList, c = '0' ∨ c = '1') ∧
      List.Forall₂ (Encodes (lexemeLines tokens)) ((lexemeLines tokens).filter isInstruction)
        words := by
  obtain ⟨program, insts, hreads, hprogram, rfl⟩ := assemble_eq_ok_iff.mp h
  obtain ⟨⟨tokens, htokens, hlines⟩, _⟩ := lines_of_reads hreads
  have hdenotes := (assembles_append_blank_iff.mpr hprogram).denotes
  refine ⟨tokens, insts.map fun inst => inst.encode.text, htokens, ?_, ?_, ?_⟩
  · simp [binary_eq_join, Function.comp_def]
  · rw [List.forall_mem_map]
    exact fun inst _ => ⟨Word.length_text _, fun c => Word.mem_text⟩
  · rw [hlines, List.forall₂_map_right_iff]
    exact hdenotes.imp fun _ _ => Denotes.encodes

/-- A loop with labels used before and behind their declarations, two variables, a predefined
symbol and a comment. -/
def countdown : String :=
  "@count // how often\nD=M\n(LOOP)\n  @END\n  D;JLE\n@SCREEN\nM=-1\n@step\nAM=M+1\n" ++
    "@LOOP\n0;JMP\n(END)\n@END\n0;JMP"

theorem countdown_translates :
    ∃ output, assemble countdown = .ok output ∧
      ∃ tokens words, (Lexer.ofString countdown).tokens = .ok tokens ∧
        output = String.join (words.map (· ++ "\n")) ∧
        (∀ word ∈ words, word.length = 16 ∧ ∀ c ∈ word.toList, c = '0' ∨ c = '1') ∧
        List.Forall₂ (Encodes (lexemeLines tokens)) ((lexemeLines tokens).filter isInstruction)
          words := by
  have h : assemble countdown = .ok
      ("0000000000010000\n1111110000010000\n0000000000001010\n1110001100000110\n" ++
        "0100000000000000\n1110111010001000\n0000000000010001\n1111110111101000\n" ++
        "0000000000000010\n1110101010000111\n0000000000001010\n1110101010000111\n") := by
    decide +kernel
  exact ⟨_, h, assemble_translates h⟩

end HackAssembler.Assembly
