import HackAssembler.Instruction.Word

/-! # Reading and writing instructions

A mnemonic is read from its written form and from no other text, and a word that decodes is the
encoding of what it decodes to. -/
namespace HackAssembler.Instruction

/-- Where the forms of all values differ, a value is found for its own form and for no other. -/
theorem find?_form_eq_some_iff {α β : Type} [BEq β] [LawfulBEq β] {all : List α} {form : α → β}
    (hmem : ∀ value, value ∈ all)
    (hfind : ∀ value ∈ all, all.find? (form · == form value) = some value) {written : β}
    {value : α} : all.find? (form · == written) = some value ↔ form value = written := by
  constructor
  · intro h
    simpa using List.find?_some h
  · rintro rfl
    exact hfind value (hmem value)

theorem Computation.read_eq_ok_iff {text : String} {comp : Computation} :
    Computation.read text = .ok comp ↔ comp.text = text := by
  have hfind : ∀ comp ∈ all, all.find? (·.text == comp.text) = some comp := by decide
  rw [← find?_form_eq_some_iff mem_all hfind, read]
  split <;> simp [*]

theorem Computation.read_text (comp : Computation) : Computation.read comp.text = .ok comp :=
  read_eq_ok_iff.mpr rfl

theorem Jump.read_eq_ok_iff {text : String} {jump : Jump} :
    Jump.read text = .ok jump ↔ jump.text = text := by
  have hfind : ∀ jump ∈ all, all.find? (·.text == jump.text) = some jump := by decide
  rw [← find?_form_eq_some_iff mem_all hfind, read]
  split <;> simp [*]

theorem Jump.read_text (jump : Jump) : Jump.read jump.text = .ok jump :=
  read_eq_ok_iff.mpr rfl

theorem Register.read_eq_ok_iff {letter : Char} {register : Register} :
    Register.read letter = .ok register ↔ register.letter = letter := by
  have hfind : ∀ register ∈ all, all.find? (·.letter == register.letter) = some register := by
    decide
  rw [← find?_form_eq_some_iff mem_all hfind, read]
  split <;> simp [*]

namespace Destination

theorem takeLetter_append (letter : Char) (letters : List Char) :
    (if (takeLetter letter letters).1 then [letter] else []) ++ (takeLetter letter letters).2 =
      letters := by
  cases letters with
  | nil => rfl
  | cons c rest => by_cases h : c = letter <;> simp [takeLetter, h]

theorem letters_of_ofLetters? {letters : List Char} {dest : Destination}
    (h : ofLetters? letters = some dest) : dest.isEmpty = false ∧ dest.letters = letters := by
  unfold ofLetters? at h
  dsimp only at h
  split at h
  · next hall =>
    simp only [Bool.and_eq_true, List.isEmpty_iff] at hall
    have ha := takeLetter_append 'A' letters
    have hm := takeLetter_append 'M' (takeLetter 'A' letters).2
    have hd := takeLetter_append 'D' (takeLetter 'M' (takeLetter 'A' letters).2).2
    rw [hall.1, List.append_nil] at hd
    rw [← hd] at hm
    rw [← hm] at ha
    cases h
    refine ⟨by simp [isEmpty, hall.2], ?_⟩
    rw [← ha]
    generalize (takeLetter 'A' letters).1 = a
    generalize (takeLetter 'M' (takeLetter 'A' letters).2).1 = m
    generalize (takeLetter 'D' (takeLetter 'M' (takeLetter 'A' letters).2).2).1 = d
    cases a <;> cases m <;> cases d <;> rfl
  · cases h

theorem ofLetters?_letters {dest : Destination} (h : dest.isEmpty = false) :
    ofLetters? dest.letters = some dest := by
  rcases dest with ⟨_ | _, _ | _, _ | _⟩
  · cases h
  all_goals rfl

theorem read_eq_ok_iff {text : String} {dest : Destination} :
    Destination.read text = .ok dest ↔ dest.isEmpty = false ∧ dest.text = text := by
  constructor
  · intro h
    unfold read at h
    split at h
    · next found hfound =>
      cases h
      obtain ⟨hne, hletters⟩ := letters_of_ofLetters? hfound
      exact ⟨hne, by rw [Destination.text, hletters, String.ofList_toList]⟩
    · cases h
  · rintro ⟨hne, rfl⟩
    rw [read, Destination.text, String.toList_ofList, ofLetters?_letters hne]

theorem eq_none_of_isEmpty {dest : Destination} (h : dest.isEmpty = true) : dest = none := by
  rcases dest with ⟨_ | _, _ | _, _ | _⟩
  · rfl
  all_goals cases h

end Destination

/-- The top bit of a word is clear when the word is small enough to be loaded. -/
theorem getLsbD_top_eq_false_iff (word : Word) :
    word.getLsbD 15 = false ↔ word.toNat ≤ maxLoad := by
  have h : word.msb = word.getLsbD 15 := BitVec.msb_eq_getLsbD_last word
  rw [← h, BitVec.msb_eq_false_iff_two_mul_lt]
  unfold maxLoad
  omega

theorem encode_load {value : BitVec 16} (h : value.toNat ≤ maxLoad) :
    encode (load value) = value := by
  apply BitVec.eq_of_toNat_eq
  have hmod : value.toNat % 2 ^ 15 = value.toNat :=
    Nat.mod_eq_of_lt (Nat.lt_of_le_of_lt h (by decide))
  have hzero : (0#1).toNat <<< 15 = 0 := rfl
  calc
    (encode (load value)).toNat = (0#1).toNat <<< 15 ||| (value.setWidth 15).toNat :=
      BitVec.toNat_append (0#1) (value.setWidth 15)
    _ = value.toNat := by rw [hzero, BitVec.toNat_setWidth, hmod, Nat.zero_or]

theorem decode_encode_load {value : BitVec 16} (h : value.toNat ≤ maxLoad) :
    decode (encode (load value)) = .ok (load value) := by
  rw [encode_load h, decode, if_pos ((getLsbD_top_eq_false_iff value).mpr h)]

/-- The fields of a word make it up. -/
theorem append_fields (word : Word) :
    word.extractLsb' 13 3 ++ word.extractLsb' 12 1 ++ word.extractLsb' 6 6 ++
      word.extractLsb' 3 3 ++ word.extractLsb' 0 3 = word := by
  rw [BitVec.extractLsb'_append_extractLsb'_eq_extractLsb' (by decide),
    BitVec.extractLsb'_append_extractLsb'_eq_extractLsb' (by decide),
    BitVec.extractLsb'_append_extractLsb'_eq_extractLsb' (by decide),
    BitVec.extractLsb'_append_extractLsb'_eq_extractLsb' (by decide)]
  exact BitVec.extractLsb'_eq_self

theorem Computation.ofBits?_eq_some {memoryBit : BitVec 1} {code : BitVec 6} {comp : Computation}
    (h : ofBits? memoryBit.toNat code.toNat = some comp) :
    comp.memoryBit = memoryBit ∧ comp.code = code := by
  have := List.find?_some h
  simp only [Bool.and_eq_true, beq_iff_eq] at this
  exact ⟨BitVec.eq_of_toNat_eq this.1, BitVec.eq_of_toNat_eq this.2⟩

theorem encode_of_decode {word : Word} {inst : Instruction} (h : decode word = .ok inst) :
    encode inst = word := by
  unfold decode at h
  split at h
  · next hload =>
    cases h
    exact encode_load ((getLsbD_top_eq_false_iff word).mp hload)
  · split at h
    · cases h
    · next hclass =>
      split at h
      · cases h
      · next comp hcomp =>
        cases h
        obtain ⟨hmemory, hcode⟩ := Computation.ofBits?_eq_some hcomp
        rw [encode, hmemory, hcode, Destination.bits_ofBits, Jump.field_ofBits?,
          ← Decidable.not_not.mp hclass]
        exact append_fields word

theorem toNat_le_of_decode {word : Word} {value : BitVec 16}
    (h : decode word = .ok (load value)) : value.toNat ≤ maxLoad := by
  unfold decode at h
  split at h
  · next hload =>
    cases h
    exact (getLsbD_top_eq_false_iff word).mp hload
  · split at h
    · cases h
    · split at h <;> cases h

end HackAssembler.Instruction
