import HackAssembler.Text.Line

/-! # Rows of a text

The rows of a text are told by their endings: each is ended by a newline, or by a carriage return
and a newline, and what stands behind the last ending is a row of its own unless it is empty. -/
namespace HackAssembler.Text

/-- A text and its rows. A carriage return in front of a newline belongs to the ending, and any
other one to the row. -/
inductive HasRows : List Char → List (List Char) → Prop
  | nil : HasRows [] []
  | last {row : List Char} (hne : row ≠ []) (hrow : '\n' ∉ row) : HasRows row [row]
  | newline {row rest : List Char} {lines : List (List Char)} (hrow : '\n' ∉ row)
      (hreturn : row.getLast? ≠ some '\r') (hrest : HasRows rest lines) :
      HasRows (row ++ '\n' :: rest) (row :: lines)
  | returnNewline {row rest : List Char} {lines : List (List Char)} (hrow : '\n' ∉ row)
      (hrest : HasRows rest lines) : HasRows (row ++ '\r' :: '\n' :: rest) (row :: lines)

theorem rows_go_append {row : List Char} (hrow : '\n' ∉ row) (done : List (List Char))
    (seen rest : List Char) :
    rows.go done seen (row ++ rest) = rows.go done (row.reverse ++ seen) rest := by
  induction row generalizing seen with
  | nil => rfl
  | cons c row ih =>
    rw [List.mem_cons, not_or] at hrow
    rw [List.cons_append, rows.go, if_neg (Ne.symm hrow.1), ih hrow.2]
    simp

theorem rows_go_eq (done : List (List Char)) (seen text : List Char) :
    rows.go done seen text = done.reverse ++ rows.go [] seen text := by
  induction text generalizing done seen with
  | nil => cases seen <;> simp [rows.go]
  | cons c text ih =>
    rw [rows.go, rows.go]
    by_cases hc : c = '\n'
    · rw [if_pos hc, if_pos hc, ih, ih [_]]
      simp
    · rw [if_neg hc, if_neg hc, ih]

theorem rows_of_not_mem {row : List Char} (hne : row ≠ []) (hrow : '\n' ∉ row) :
    rows row = [row] := by
  have h := rows_go_append hrow [] [] []
  rw [List.append_nil, List.append_nil] at h
  rw [rows, h, rows.go]
  simp [hne]

/-- The first row of a text with a newline. -/
theorem rows_append_newline {row : List Char} (hrow : '\n' ∉ row) (rest : List Char) :
    rows (row ++ '\n' :: rest) =
      (if row.getLast? = some '\r' then row.dropLast else row) :: rows rest := by
  rw [rows, rows_go_append hrow, List.append_nil, rows.go, if_pos rfl, rows_go_eq,
    List.head?_reverse, List.tail_reverse]
  by_cases hreturn : row.getLast? = some '\r' <;> simp [hreturn, rows]

theorem HasRows.rows_eq {text : List Char} {lines : List (List Char)} (h : HasRows text lines) :
    rows text = lines := by
  induction h with
  | nil => rfl
  | last hne hrow => exact rows_of_not_mem hne hrow
  | newline hrow hreturn _ ih => rw [rows_append_newline hrow, if_neg hreturn, ih]
  | @returnNewline row rest lines hrow _ ih =>
    have happend : '\n' ∉ row ++ ['\r'] := by simp [hrow]
    rw [List.append_cons, rows_append_newline happend, ih]
    simp

theorem hasRows_rows (text : List Char) : HasRows text (rows text) := by
  by_cases hmem : '\n' ∈ text
  · obtain ⟨row, rest, rfl, hrow⟩ := List.eq_append_cons_of_mem hmem
    have ih := hasRows_rows rest
    rw [rows_append_newline hrow]
    by_cases hreturn : row.getLast? = some '\r'
    · obtain ⟨row, rfl⟩ := List.getLast?_eq_some_iff.mp hreturn
      rw [if_pos hreturn, List.dropLast_concat, List.append_assoc]
      exact .returnNewline (fun h => hrow (List.mem_append_left _ h)) ih
    · rw [if_neg hreturn]
      exact .newline hrow hreturn ih
  · by_cases hne : text = []
    · subst hne
      exact .nil
    · rw [rows_of_not_mem hne hmem]
      exact .last hne hmem
termination_by text.length

theorem hasRows_iff {text : List Char} {lines : List (List Char)} :
    HasRows text lines ↔ rows text = lines :=
  ⟨HasRows.rows_eq, fun h => h ▸ hasRows_rows text⟩

end HackAssembler.Text
