import HackAssembler.Proofs.Mnemonics

/-! # Readers of mnemonics

A reader of mnemonics accepts what is written for its kind and refuses every other text. Of a
destination it may as well take one letter after the other: each names a register that stands behind
those before it, and adds the flag of this register to the bits. -/
namespace HackAssembler.Instruction

/-- Accepts the written forms, and refuses every other text by its name. -/
structure ReadsExactly {α : Type} (read : String → Except MnemonicError α)
    (Written : α → String → Prop) (refusal : String → MnemonicError) : Prop where
  ok_iff : ∀ text value, read text = .ok value ↔ Written value text
  error_iff : ∀ text error,
    read text = .error error ↔ error = refusal text ∧ ∀ value, ¬ Written value text

theorem readsExactly_of_ok_iff {α : Type} {read : String → Except MnemonicError α}
    {Written : α → String → Prop} {refusal : String → MnemonicError}
    (hok : ∀ text value, read text = .ok value ↔ Written value text)
    (herror : ∀ text error, read text = .error error → error = refusal text) :
    ReadsExactly read Written refusal where
  ok_iff := hok
  error_iff text error := by
    constructor
    · intro h
      refine ⟨herror text error h, fun value hvalue => ?_⟩
      rw [(hok text value).mpr hvalue] at h
      cases h
    · rintro ⟨rfl, hnone⟩
      cases h : read text with
      | ok value => exact absurd ((hok text value).mp h) (hnone value)
      | error error => rw [herror text error h]

theorem readsExactly_computation :
    ReadsExactly Computation.read (fun comp text => comp.text = text) .computation := by
  apply readsExactly_of_ok_iff
  · exact fun _ _ => Computation.read_eq_ok_iff
  · intro text error h
    unfold Computation.read at h
    split at h <;> cases h
    rfl

theorem readsExactly_jump :
    ReadsExactly Jump.read (fun jump text => jump.text = text) .jump := by
  apply readsExactly_of_ok_iff
  · exact fun _ _ => Jump.read_eq_ok_iff
  · intro text error h
    unfold Jump.read at h
    split at h <;> cases h
    rfl

theorem readsExactly_destination :
    ReadsExactly Destination.read (fun dest text => dest.isEmpty = false ∧ dest.text = text)
      .destination := by
  apply readsExactly_of_ok_iff
  · exact fun _ _ => Destination.read_eq_ok_iff
  · intro text error h
    unfold Destination.read at h
    split at h <;> cases h
    rfl

/-! ### Letter by letter -/

def Register.place : Register → Nat
  | a => 0
  | m => 1
  | d => 2

/-- Reads on behind the register `last`, with the bits of the registers so far. -/
def readOnward (bits : BitVec 3) (last : Option Register) : List Char → Option (BitVec 3)
  | [] => some bits
  | c :: rest =>
    match Register.read c with
    | .error _ => none
    | .ok register =>
      if last.all (·.place < register.place) then
        readOnward (bits ||| register.flag) (some register) rest
      else none

/-- One letter is read when it names a register behind the last one. -/
theorem exists_of_readOnward_cons {bits result : BitVec 3} {last : Option Register} {c : Char}
    {rest : List Char} (h : readOnward bits last (c :: rest) = some result) :
    ∃ register : Register, register.letter = c ∧
      (∀ before ∈ last, before.place < register.place) ∧
      readOnward (bits ||| register.flag) (some register) rest = some result := by
  rw [readOnward] at h
  split at h
  · cases h
  · next register hregister =>
    split at h
    · next hplace =>
      refine ⟨register, Register.read_eq_ok_iff.mp hregister, fun before hbefore => ?_, h⟩
      rw [Option.mem_def.mp hbefore] at hplace
      exact of_decide_eq_true hplace
    · cases h

namespace Destination

def add (dest : Destination) : Register → Destination
  | .a => { dest with a := true }
  | .m => { dest with m := true }
  | .d => { dest with d := true }

theorem contains_add (dest : Destination) (register other : Register) :
    (dest.add register).contains other = (dest.contains other || decide (other = register)) := by
  cases register <;> cases other <;> simp [add, contains]

theorem bits_add (dest : Destination) (register : Register) :
    (dest.add register).bits = dest.bits ||| register.flag := by
  rcases dest with ⟨a, m, d⟩
  cases register <;> cases a <;> cases m <;> cases d <;> rfl

/-- A register behind all others adds its letter at the end. -/
theorem letters_add {dest : Destination} {register : Register}
    (h : ∀ other, dest.contains other = true → other.place < register.place) :
    (dest.add register).letters = dest.letters ++ [register.letter] := by
  have hbefore (other : Register) (hother : register.place ≤ other.place) :
      dest.contains other = false := by
    cases hcontains : dest.contains other with
    | false => rfl
    | true => exact absurd (h other hcontains) (Nat.not_lt.mpr hother)
  rcases dest with ⟨a, m, d⟩
  cases register with
  | a =>
    obtain rfl : a = false := hbefore .a (by decide)
    obtain rfl : m = false := hbefore .m (by decide)
    obtain rfl : d = false := hbefore .d (by decide)
    rfl
  | m =>
    obtain rfl : m = false := hbefore .m (by decide)
    obtain rfl : d = false := hbefore .d (by decide)
    cases a <;> rfl
  | d =>
    obtain rfl : d = false := hbefore .d (by decide)
    cases a <;> cases m <;> rfl

/-- Behind a destination whose registers stand before `last` or are `last`, the letters of a greater
destination are read. -/
theorem exists_of_readOnward {dest : Destination} {result : BitVec 3} {last : Option Register}
    {letters : List Char}
    (hlast : ∀ other, dest.contains other = true → ∃ before ∈ last, other.place ≤ before.place)
    (h : readOnward dest.bits last letters = some result) :
    ∃ whole : Destination, whole.bits = result ∧ whole.letters = dest.letters ++ letters := by
  induction letters generalizing dest last with
  | nil =>
    rw [readOnward, Option.some.injEq] at h
    exact ⟨dest, h, (List.append_nil _).symm⟩
  | cons c rest ih =>
    obtain ⟨register, rfl, hregister, hrest⟩ := exists_of_readOnward_cons h
    have hbehind (other : Register) (hother : dest.contains other = true) :
        other.place < register.place := by
      obtain ⟨before, hbefore, hle⟩ := hlast other hother
      exact Nat.lt_of_le_of_lt hle (hregister before hbefore)
    rw [← bits_add] at hrest
    obtain ⟨whole, hbits, hletters⟩ := ih (fun other hother => ⟨register, rfl, by
      rw [contains_add, Bool.or_eq_true, decide_eq_true_eq] at hother
      rcases hother with hother | rfl
      · exact Nat.le_of_lt (hbehind other hother)
      · exact Nat.le_refl _⟩) hrest
    refine ⟨whole, hbits, ?_⟩
    rw [hletters, letters_add hbehind, List.append_assoc]
    rfl

theorem readOnward_letters (dest : Destination) :
    readOnward 0 Option.none dest.letters = some dest.bits := by
  rcases dest with ⟨a, m, d⟩
  cases a <;> cases m <;> cases d <;> rfl

theorem length_letters_le (dest : Destination) : dest.letters.length ≤ 3 := by
  rw [letters, List.length_map]
  exact List.length_filter_le _ _

theorem text_eq_empty_iff (dest : Destination) : dest.text = "" ↔ dest.isEmpty = true := by
  rw [Destination.text, String.ofList_eq_empty_iff]
  rcases dest with ⟨a, m, d⟩
  cases a <;> cases m <;> cases d <;> decide

/-- Reading letter by letter gives the bits of what is read at once. -/
theorem read_eq_ok_iff_onward {text : String} {dest : Destination} :
    Destination.read text = .ok dest ↔
      text ≠ "" ∧ text.length ≤ 3 ∧ readOnward 0 Option.none text.toList = some dest.bits := by
  rw [read_eq_ok_iff, ← Bool.not_eq_true, ← text_eq_empty_iff]
  constructor
  · rintro ⟨hne, rfl⟩
    refine ⟨hne, ?_, ?_⟩
    · rw [Destination.text, String.length_ofList]
      exact length_letters_le dest
    · rw [Destination.text, String.toList_ofList]
      exact readOnward_letters dest
  · rintro ⟨hne, -, hread⟩
    have hnone : ∀ other, none.contains other = true → ∃ before ∈ (Option.none : Option Register),
        other.place ≤ before.place := by
      intro other hother
      cases other <;> cases hother
    obtain ⟨whole, hbits, hletters⟩ := exists_of_readOnward hnone hread
    have hwhole : whole = dest := by rw [← ofBits_bits whole, hbits, ofBits_bits]
    have htext : dest.text = text := by
      rw [Destination.text, ← hwhole, hletters]
      exact String.ofList_toList
    exact ⟨by rwa [htext], htext⟩

theorem contains_iff_letter_mem (dest : Destination) (register : Register) :
    dest.contains register = true ↔ register.letter ∈ dest.text.toList := by
  have hinj {other : Register} (h : other.letter = register.letter) : other = register := by
    revert h
    cases other <;> cases register <;> decide
  rw [Destination.text, String.toList_ofList, letters, List.mem_map]
  constructor
  · intro h
    exact ⟨register, List.mem_filter.mpr ⟨Register.mem_all register, h⟩, rfl⟩
  · rintro ⟨other, hother, hletter⟩
    rw [← hinj hletter]
    exact (List.mem_filter.mp hother).2

theorem toNat_bits (dest : Destination) :
    dest.bits.toNat = (if dest.a then 4 else 0) + (if dest.d then 2 else 0) +
      if dest.m then 1 else 0 := by
  rcases dest with ⟨a, m, d⟩
  cases a <;> cases m <;> cases d <;> rfl

end Destination

/-- A text is read as a computation, a jump or a destination exactly when it is what is written for
it, and is refused otherwise. A destination has the registers whose letters occur, and its bits are
the sum of their flags; letter by letter, it is read alike. -/
theorem mnemonics_read_as_written :
    ReadsExactly Computation.read (fun comp text => comp.text = text) .computation ∧
      ReadsExactly Jump.read (fun jump text => jump.text = text) .jump ∧
      ReadsExactly Destination.read (fun dest text => dest.isEmpty = false ∧ dest.text = text)
        .destination ∧
      (∀ text dest, Destination.read text = .ok dest ↔
        text ≠ "" ∧ text.length ≤ 3 ∧ readOnward 0 none text.toList = some dest.bits) ∧
      ∀ text dest, Destination.read text = .ok dest →
        (∀ register, dest.contains register = true ↔ register.letter ∈ text.toList) ∧
        dest.bits.toNat = (if 'A' ∈ text.toList then 4 else 0) +
          (if 'D' ∈ text.toList then 2 else 0) + if 'M' ∈ text.toList then 1 else 0 := by
  refine ⟨readsExactly_computation, readsExactly_jump, readsExactly_destination,
    fun _ _ => Destination.read_eq_ok_iff_onward, ?_⟩
  intro text dest h
  obtain ⟨-, rfl⟩ := Destination.read_eq_ok_iff.mp h
  refine ⟨dest.contains_iff_letter_mem, ?_⟩
  have ha : 'A' ∈ dest.text.toList ↔ dest.a = true := (dest.contains_iff_letter_mem .a).symm
  have hd : 'D' ∈ dest.text.toList ↔ dest.d = true := (dest.contains_iff_letter_mem .d).symm
  have hm : 'M' ∈ dest.text.toList ↔ dest.m = true := (dest.contains_iff_letter_mem .m).symm
  simp only [ha, hd, hm]
  exact dest.toNat_bits

/-- The bits of `MD` are two and one, and the same letters in another order are no destination. -/
theorem mnemonics_read_as_written_md :
    Destination.read "MD" = .ok ⟨false, true, true⟩ ∧
      (∀ register, (⟨false, true, true⟩ : Destination).contains register = true ↔
        register.letter ∈ "MD".toList) ∧
      (⟨false, true, true⟩ : Destination).bits.toNat = (if 'A' ∈ "MD".toList then 4 else 0) +
        (if 'D' ∈ "MD".toList then 2 else 0) + (if 'M' ∈ "MD".toList then 1 else 0) ∧
      Destination.read "DM" = .error (.destination "DM") := by
  have hread : Destination.read "MD" = .ok ⟨false, true, true⟩ := by rfl
  obtain ⟨hregisters, hbits⟩ := mnemonics_read_as_written.2.2.2.2 "MD" _ hread
  exact ⟨hread, hregisters, hbits, rfl⟩

end HackAssembler.Instruction
