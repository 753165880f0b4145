import HackAssembler.Text.Line

/-! # Pieces of a text

The pieces of a text, put together with a newline behind each, are the text with a newline behind
it. An offset that is not past the end lies in one of them, and there it is located. -/
namespace HackAssembler.Text

def unlines (lines : List (List Char)) : List Char :=
  lines.flatMap (· ++ ['\n'])

theorem unlines_cons (line : List Char) (lines : List (List Char)) :
    unlines (line :: lines) = line ++ '\n' :: unlines lines := by
  simp [unlines]

theorem splitOn_eq (separator : Char) (text : List Char) :
    splitOn separator text = List.splitOn separator text := by
  induction text with
  | nil => rfl
  | cons c rest ih =>
    rw [splitOn_cons, List.splitOn_cons_eq_if_modifyHead, ih]
    simp

theorem pieces_ne_nil (text : List Char) : pieces text ≠ [] := by
  rw [pieces, splitOn_eq]
  exact List.splitOn_ne_nil '\n' text

theorem pieces_cons (c : Char) (rest : List Char) :
    pieces (c :: rest) =
      if c = '\n' then [] :: pieces rest else (pieces rest).modifyHead (c :: ·) :=
  splitOn_cons c rest

theorem intercalate_pieces (text : List Char) : ['\n'].intercalate (pieces text) = text := by
  rw [pieces, splitOn_eq, List.intercalate_splitOn]

theorem unlines_eq_intercalate {lines : List (List Char)} (hne : lines ≠ []) :
    unlines lines = ['\n'].intercalate lines ++ ['\n'] := by
  induction lines with
  | nil => exact absurd rfl hne
  | cons line lines ih =>
    cases lines with
    | nil => simp [unlines]
    | cons next lines =>
      rw [unlines_cons, ih (List.cons_ne_nil next lines), List.intercalate_cons_cons]
      simp

theorem unlines_pieces (text : List Char) : unlines (pieces text) = text ++ ['\n'] := by
  rw [unlines_eq_intercalate (pieces_ne_nil text), intercalate_pieces]

theorem not_mem_of_mem_pieces {text line : List Char} (h : line ∈ pieces text) : '\n' ∉ line := by
  induction text generalizing line with
  | nil => simp_all [pieces]
  | cons c rest ih =>
    rw [pieces_cons] at h
    split at h
    · rcases List.mem_cons.mp h with rfl | h
      · simp
      · exact ih h
    · next hc =>
      obtain ⟨head, tail, hlines⟩ := List.exists_cons_of_ne_nil (pieces_ne_nil rest)
      rw [hlines, List.modifyHead_cons] at h
      have hrest (line : List Char) (h : line ∈ head :: tail) : '\n' ∉ line := ih (hlines ▸ h)
      rcases List.mem_cons.mp h with rfl | h
      · simpa [Ne.symm hc] using hrest head (by simp)
      · exact hrest line (by simp [h])

/-- Lines put together with newlines between them come apart again. -/
theorem pieces_intercalate {lines : List (List Char)} (hne : lines ≠ [])
    (hlines : ∀ line ∈ lines, '\n' ∉ line) : pieces (['\n'].intercalate lines) = lines := by
  rw [pieces, splitOn_eq, List.splitOn_intercalate '\n' hlines hne]

theorem pieces_unlines {lines : List (List Char)} (h : ∀ line ∈ lines, '\n' ∉ line) :
    pieces (unlines lines) = lines ++ [[]] := by
  induction lines with
  | nil => rfl
  | cons line lines ih =>
    obtain ⟨hline, hlines⟩ := List.forall_mem_cons.mp h
    rw [unlines_cons, pieces, splitOn_eq, List.splitOn_append_cons_self_of_not_mem hline,
      ← splitOn_eq, ← pieces, ih hlines]
    rfl

theorem pieces_append_newline (first second : List Char) :
    pieces (first ++ '\n' :: second) = pieces first ++ pieces second := by
  rw [pieces, pieces, pieces, splitOn_eq, splitOn_eq, splitOn_eq, List.splitOn_append_cons_self]

/-! ### Offsets -/

theorem locate_go (line pos : Nat) (before after : List (List Char)) (text : List Char)
    (hle : (unlines before).length ≤ pos) (hlt : pos ≤ (unlines before).length + text.length) :
    locate.go line pos (before ++ text :: after) =
      ⟨line + before.length, pos - (unlines before).length, String.ofList (trimReturns text)⟩ := by
  induction before generalizing line pos with
  | nil =>
    simp only [unlines, List.flatMap_nil, List.length_nil, Nat.zero_add] at hlt
    cases after with
    | nil => simp [locate.go, unlines, hlt]
    | cons next after => simp [locate.go, unlines, hlt]
  | cons first before ih =>
    rw [unlines_cons, List.length_append, List.length_cons] at hle hlt
    obtain ⟨next, rest, hrest⟩ := List.exists_cons_of_ne_nil (List.append_ne_nil_of_right_ne_nil
      before (List.cons_ne_nil text after))
    rw [List.cons_append, hrest, locate.go, if_neg (by omega), ← hrest,
      ih _ _ (by omega) (by omega), List.length_cons, unlines_cons, List.length_append,
      List.length_cons, Nat.sub_sub, Nat.add_right_comm, Nat.add_assoc line]
    · congr 1
      omega
    · simp

/-- An offset in a piece, or at its end, is located in the line of that piece, as many columns from
its beginning as the offset is. -/
theorem locate_eq {code : String} {pos : Nat} {before after : List (List Char)} {text : List Char}
    (hpieces : pieces code.toList = before ++ text :: after)
    (hle : (unlines before).length ≤ pos) (hlt : pos ≤ (unlines before).length + text.length) :
    locate code pos =
      ⟨before.length, pos - (unlines before).length, String.ofList (trimReturns text)⟩ := by
  rw [locate, hpieces, locate_go 0 pos before after text hle hlt, Nat.zero_add]

theorem line_locate {code : String} {pos : Nat} {before after : List (List Char)} {text : List Char}
    (hpieces : pieces code.toList = before ++ text :: after)
    (hle : (unlines before).length ≤ pos) (hlt : pos ≤ (unlines before).length + text.length) :
    (locate code pos).line = before.length := by
  rw [locate_eq hpieces hle hlt]

/-- An offset that is found in a line of a text, at a character or at the end of the line. -/
def Located (code : String) (pos : Nat) : Prop :=
  ∃ before text after column, pieces code.toList = before ++ text :: after ∧
    column ≤ text.length ∧ pos = (unlines before).length + column ∧
    locate code pos = ⟨before.length, column, String.ofList (trimReturns text)⟩

theorem exists_piece {texts : List (List Char)} {pos : Nat} (h : pos < (unlines texts).length) :
    ∃ before text after, texts = before ++ text :: after ∧ (unlines before).length ≤ pos ∧
      pos ≤ (unlines before).length + text.length := by
  induction texts generalizing pos with
  | nil => cases h
  | cons text texts ih =>
    rw [unlines_cons, List.length_append, List.length_cons] at h
    rcases Nat.lt_or_ge text.length pos with hlt | hle
    · obtain ⟨before, found, after, rfl, hbefore, hfound⟩ :=
        @ih (pos - (text.length + 1)) (by omega)
      refine ⟨text :: before, found, after, rfl, ?_⟩
      rw [unlines_cons, List.length_append, List.length_cons]
      omega
    · exact ⟨[], text, texts, rfl, Nat.zero_le _, by omega⟩

/-- An offset that is not past the end of a text is found in one of its lines. -/
theorem located_of_le {code : String} {pos : Nat} (h : pos ≤ code.length) : Located code pos := by
  have hlt : pos < (unlines (pieces code.toList)).length := by
    rw [unlines_pieces, List.length_append, String.length_toList]
    exact Nat.lt_succ_of_le h
  obtain ⟨before, text, after, hpieces, hle, hstop⟩ := exists_piece hlt
  exact ⟨before, text, after, pos - (unlines before).length, hpieces, by omega, by omega,
    locate_eq hpieces hle hstop⟩

end HackAssembler.Text
