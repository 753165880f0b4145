import HackAssembler.Proofs.Pieces
import Mathlib.Algebra.Ring.Nat
import Mathlib.Data.List.DropRight

/-! # Lines and columns

The place of an offset is the line that it lies in and its distance from where that line begins. An
offset past the end has the place of the end. -/
namespace HackAssembler.Text

/-- Where the line begins that an offset lies in: behind the last newline in front of the offset, or
with the text. -/
structure LineStart (text : List Char) (pos start : Nat) : Prop where
  le : start ≤ pos
  behind_newline : ∀ i, start = i + 1 → text[i]? = some '\n'
  no_newline : ∀ i, start ≤ i → i < pos → text[i]? ≠ some '\n'

def lineFrom (text : List Char) (start : Nat) : List Char :=
  (text.drop start).takeWhile (· ≠ '\n')

theorem unlines_concat (lines : List (List Char)) (line : List Char) :
    unlines (lines ++ [line]) = unlines lines ++ line ++ ['\n'] := by
  simp [unlines]

theorem length_unlines (lines : List (List Char)) :
    (unlines lines).length = (lines.map (·.length + 1)).sum := by
  simp [unlines, List.length_flatMap]

theorem count_unlines {lines : List (List Char)} (h : ∀ line ∈ lines, '\n' ∉ line) :
    (unlines lines).count '\n' = lines.length := by
  induction lines with
  | nil => rfl
  | cons line lines ih =>
    obtain ⟨hline, hlines⟩ := List.forall_mem_cons.mp h
    rw [unlines_cons, List.count_append, List.count_eq_zero_of_not_mem hline, List.count_cons_self,
      ih hlines, Nat.zero_add, List.length_cons]

/-- Lines that are put together end with a newline. -/
theorem getElem?_unlines {lines : List (List Char)} {i : Nat}
    (h : (unlines lines).length = i + 1) : (unlines lines)[i]? = some '\n' := by
  induction lines using List.reverseRecOn with
  | nil => cases h
  | append_singleton lines line _ =>
    rw [unlines_concat, List.length_append, List.length_singleton, Nat.add_right_cancel_iff] at h
    rw [unlines_concat, ← h, List.getElem?_append_right (Nat.le_refl _), Nat.sub_self]
    rfl

section Piece
variable {code : List Char} {before after : List (List Char)} {text : List Char}

/-- A line of a text, what is in front of it and what is behind it. -/
theorem exists_behind (h : pieces code = before ++ text :: after) :
    ∃ behind, code = unlines before ++ text ++ behind ∧
      ∀ p : Char → Bool, p '\n' = false → behind.takeWhile p = [] := by
  have hlines := unlines_pieces code
  rw [h] at hlines
  have hsplit : unlines (before ++ text :: after) =
      unlines before ++ text ++ '\n' :: unlines after := by
    simp [unlines]
  rw [hsplit] at hlines
  rcases List.eq_nil_or_concat' after with rfl | ⟨lines, line, rfl⟩
  · refine ⟨[], ?_, fun p _ => rfl⟩
    rw [List.append_nil]
    exact (List.append_cancel_right hlines).symm
  · refine ⟨'\n' :: (unlines lines ++ line), ?_, fun p hp => ?_⟩
    · rw [unlines_concat] at hlines
      apply List.append_cancel_right
      rw [← hlines]
      simp
    · rw [List.takeWhile_cons, hp]
      rfl

theorem newline_not_mem_of_pieces (h : pieces code = before ++ text :: after) :
    (∀ line ∈ before, '\n' ∉ line) ∧ '\n' ∉ text := by
  constructor
  · intro line hline
    exact not_mem_of_mem_pieces (h ▸ List.mem_append_left _ hline)
  · exact not_mem_of_mem_pieces (h ▸ List.mem_append_right _ List.mem_cons_self)

variable (h : pieces code = before ++ text :: after)
include h

theorem lineFrom_eq : lineFrom code (unlines before).length = text := by
  obtain ⟨behind, hcode, hbehind⟩ := exists_behind h
  have htext : ∀ c ∈ text, decide (c ≠ '\n') = true := by
    intro c hc
    apply decide_eq_true
    rintro rfl
    exact (newline_not_mem_of_pieces h).2 hc
  rw [lineFrom, hcode, List.append_assoc, List.drop_left, List.takeWhile_append_of_pos htext,
    hbehind _ (by decide), List.append_nil]

theorem lineStart_of_pieces {column : Nat} (hcolumn : column ≤ text.length) :
    LineStart code ((unlines before).length + column) (unlines before).length := by
  obtain ⟨behind, hcode, -⟩ := exists_behind h
  constructor
  · exact Nat.le_add_right _ _
  · intro i hi
    rw [hcode, List.append_assoc, List.getElem?_append_left (by omega)]
    exact getElem?_unlines hi
  · intro i hle hlt
    rw [hcode, List.append_assoc, List.getElem?_append_right hle,
      List.getElem?_append_left (by omega)]
    intro hnewline
    exact (newline_not_mem_of_pieces h).2 (List.mem_of_getElem? hnewline)

theorem count_take_of_pieces {column : Nat} (hcolumn : column ≤ text.length) :
    (code.take ((unlines before).length + column)).count '\n' = before.length := by
  obtain ⟨behind, hcode, -⟩ := exists_behind h
  obtain ⟨hbefore, htext⟩ := newline_not_mem_of_pieces h
  have hpart : '\n' ∉ text.take column := fun hmem => htext (List.mem_of_mem_take hmem)
  rw [hcode, List.append_assoc, List.take_length_add_append, List.take_append_of_le_length hcolumn,
    List.count_append, count_unlines hbefore, List.count_eq_zero_of_not_mem hpart, Nat.add_zero]

end Piece

/-! ### Offsets past the end -/

theorem locate_go_cons_cons (line pos : Nat) (piece next : List Char) (rest : List (List Char)) :
    locate.go line pos (piece :: next :: rest) =
      if pos ≤ piece.length then ⟨line, pos, String.ofList (trimReturns piece)⟩
      else locate.go (line + 1) (pos - (piece.length + 1)) (next :: rest) := rfl

theorem locate_go_last (line pos : Nat) (before : List (List Char)) (last : List Char)
    (h : (unlines before).length + last.length ≤ pos) :
    locate.go line pos (before ++ [last]) =
      ⟨line + before.length, last.length, String.ofList (trimReturns last)⟩ := by
  induction before generalizing line pos with
  | nil =>
    have hmin : min pos last.length = last.length := by
      simp only [unlines, List.flatMap_nil, List.length_nil, Nat.zero_add] at h
      omega
    simp [locate.go, hmin]
  | cons first before ih =>
    rw [unlines_cons, List.length_append, List.length_cons] at h
    obtain ⟨next, rest, hrest⟩ := List.exists_cons_of_ne_nil
      (List.append_ne_nil_of_right_ne_nil before (List.cons_ne_nil last []))
    rw [List.cons_append, hrest, locate_go_cons_cons, if_neg (by omega), ← hrest,
      ih _ _ (by omega), List.length_cons, Nat.add_right_comm, Nat.add_assoc line]

/-! ### The search with running offsets -/

/-- A difference that does not go below zero. -/
def difference? (a b : Nat) : Option Nat :=
  if b ≤ a then some (a - b) else none

/-- The search for the place of an offset that keeps where each line begins, and finds the column
as a difference. Until a line is found, `last` is the end of the line before. -/
def search (pos line start : Nat) (last : Location) : List (List Char) → Option Location
  | [] => some last
  | piece :: rest =>
    if pos ≤ start + piece.length then
      (difference? pos start).map fun column => ⟨line, column, String.ofList (trimReturns piece)⟩
    else
      search pos (line + 1) (start + (piece.length + 1))
        ⟨line, piece.length, String.ofList (trimReturns piece)⟩ rest

/-- No line begins behind the offset while the line of the offset has not been found. -/
theorem search_eq_locate_go {pos start : Nat} (hstart : start ≤ pos) (line : Nat) (last : Location)
    {texts : List (List Char)} (hne : texts ≠ []) :
    search pos line start last texts = some (locate.go line (pos - start) texts) := by
  induction texts generalizing start line last with
  | nil => exact absurd rfl hne
  | cons piece rest ih =>
    rw [search]
    by_cases hfound : pos ≤ start + piece.length
    · have hcolumn : pos - start ≤ piece.length := by omega
      rw [if_pos hfound, difference?, if_pos hstart, Option.map_some]
      cases rest with
      | nil => rw [locate.go, Nat.min_eq_left hcolumn]
      | cons next rest => rw [locate_go_cons_cons, if_pos hcolumn]
    · have hcolumn : ¬pos - start ≤ piece.length := by omega
      rw [if_neg hfound]
      cases rest with
      | nil => rw [search, locate.go, Nat.min_eq_right (by omega)]
      | cons next rest =>
        rw [ih (by omega) (line + 1) _ (List.cons_ne_nil next rest), locate_go_cons_cons,
          if_neg hcolumn, Nat.sub_sub]

/-! ### The place of an offset -/

section Place
variable {code : String} {pos : Nat}

/-- The lines in front of a line are as long as the offset where it begins. -/
theorem sum_take_of_pieces {before after : List (List Char)} {text : List Char}
    (h : pieces code.toList = before ++ text :: after) :
    (((code.toList.splitOn '\n').take before.length).map (·.length + 1)).sum =
      (unlines before).length := by
  rw [← splitOn_eq, ← pieces, h, List.take_left, length_unlines]

theorem exists_lineStart (h : pos ≤ code.length) :
    ∃ start, LineStart code.toList pos start ∧
      locate code pos = ⟨(code.toList.take pos).count '\n', pos - start,
        String.ofList ((lineFrom code.toList start).rdropWhile (· == '\r'))⟩ ∧
      (((code.toList.splitOn '\n').take (locate code pos).line).map (·.length + 1)).sum +
        (locate code pos).column = pos := by
  obtain ⟨before, text, after, column, hpieces, hcolumn, rfl, hlocate⟩ := located_of_le h
  refine ⟨(unlines before).length, lineStart_of_pieces hpieces hcolumn, ?_, ?_⟩
  · rw [hlocate, count_take_of_pieces hpieces hcolumn, lineFrom_eq hpieces, Nat.add_sub_cancel_left]
    rfl
  · rw [hlocate, sum_take_of_pieces hpieces]

theorem exists_last (h : code.length < pos) :
    ∃ last, (code.toList.splitOn '\n').getLast? = some last ∧
      locate code pos = ⟨code.toList.count '\n', last.length,
        String.ofList (last.rdropWhile (· == '\r'))⟩ := by
  obtain ⟨before, last, hpieces⟩ :=
    (List.eq_nil_or_concat' (pieces code.toList)).resolve_left (pieces_ne_nil _)
  have hlength := congrArg List.length (unlines_pieces code.toList)
  have hcount : (pieces code.toList).length = code.toList.count '\n' + 1 :=
    length_splitOn code.toList
  rw [hpieces, unlines_concat, List.length_append, List.length_append, List.length_append,
    Nat.add_right_cancel_iff, String.length_toList] at hlength
  rw [hpieces, List.length_append, List.length_singleton, Nat.add_right_cancel_iff] at hcount
  refine ⟨last, ?_, ?_⟩
  · rw [← splitOn_eq, ← pieces, hpieces, List.getLast?_concat]
  · rw [locate, hpieces, locate_go_last 0 pos before last (by omega), Nat.zero_add, hcount]
    rfl

end Place

/-- The place of an offset in a text is its line, counted by the newlines in front of it, and its
distance from where the line begins; so the lengths of the lines before it and the column make up
the offset. An offset past the end is placed behind the last line. The search that keeps where the
lines begin finds the same place, and its difference never goes below zero. -/
theorem locate_exact (code : String) (pos : Nat) :
    (pos ≤ code.length → ∃ start, LineStart code.toList pos start ∧
        locate code pos = ⟨(code.toList.take pos).count '\n', pos - start,
          String.ofList ((lineFrom code.toList start).rdropWhile (· == '\r'))⟩ ∧
        (((code.toList.splitOn '\n').take (locate code pos).line).map (·.length + 1)).sum +
          (locate code pos).column = pos) ∧
      (code.length < pos → ∃ last, (code.toList.splitOn '\n').getLast? = some last ∧
        locate code pos = ⟨code.toList.count '\n', last.length,
          String.ofList (last.rdropWhile (· == '\r'))⟩) ∧
      search pos 0 0 ⟨0, 0, ""⟩ (pieces code.toList) = some (locate code pos) := by
  refine ⟨exists_lineStart, exists_last, ?_⟩
  exact search_eq_locate_go (Nat.zero_le pos) 0 _ (pieces_ne_nil _)

def threeLines : String := "@1\nD=A\r\r\n(É)"

/-- The newline of the second line, and an offset past the end. -/
theorem locate_exact_threeLines :
    8 ≤ threeLines.length ∧ threeLines.length < 40 ∧
      locate threeLines 8 = ⟨1, 5, "D=A"⟩ ∧ locate threeLines 40 = ⟨2, 3, "(É)"⟩ ∧
      (∃ start, LineStart threeLines.toList 8 start ∧
        locate threeLines 8 = ⟨(threeLines.toList.take 8).count '\n', 8 - start,
          String.ofList ((lineFrom threeLines.toList start).rdropWhile (· == '\r'))⟩) ∧
      ∃ last, (threeLines.toList.splitOn '\n').getLast? = some last ∧
        locate threeLines 40 = ⟨threeLines.toList.count '\n', last.length,
          String.ofList (last.rdropWhile (· == '\r'))⟩ := by
  have hinside : 8 ≤ threeLines.length := by decide +kernel
  have hpast : threeLines.length < 40 := by decide +kernel
  obtain ⟨start, hstart, hplace, -⟩ := (locate_exact threeLines 8).1 hinside
  exact ⟨hinside, hpast, by decide +kernel, by decide +kernel, ⟨start, hstart, hplace⟩,
    (locate_exact threeLines 40).2.1 hpast⟩

end HackAssembler.Text
