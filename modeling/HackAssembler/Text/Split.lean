/-! # Cutting texts

`splitBefore stop s` cuts `s` in front of the first character that `stop` accepts. The two
pieces always make up `s` again. `splitOn separator s` cuts at every separator, and gives one
piece more than there are separators. -/
namespace HackAssembler.Text

/-- `stop` sees a character together with what follows it. -/
def splitBefore (stop : Char → List Char → Bool) (text : List Char) : List Char × List Char :=
  go [] text
where
  go (seen : List Char) : List Char → List Char × List Char
    | [] => (seen.reverse, [])
    | c :: rest => if stop c rest then (seen.reverse, c :: rest) else go (c :: seen) rest

variable {stop : Char → List Char → Bool}

theorem splitBefore_go (seen text : List Char) :
    splitBefore.go stop seen text =
      (seen.reverse ++ (splitBefore stop text).1, (splitBefore stop text).2) := by
  induction text generalizing seen with
  | nil => simp [splitBefore, splitBefore.go]
  | cons c rest ih =>
    by_cases h : stop c rest
    · simp [splitBefore, splitBefore.go, h]
    · rw [splitBefore, splitBefore.go, splitBefore.go, if_neg h, if_neg h, ih, ih [c]]
      simp

@[simp] theorem splitBefore_nil : splitBefore stop [] = ([], []) := rfl

theorem splitBefore_cons (c : Char) (rest : List Char) :
    splitBefore stop (c :: rest) =
      if stop c rest then ([], c :: rest)
      else (c :: (splitBefore stop rest).1, (splitBefore stop rest).2) := by
  rw [splitBefore, splitBefore.go]
  split
  · rfl
  · rw [splitBefore_go]; rfl

@[simp] theorem splitBefore_append (text : List Char) :
    (splitBefore stop text).1 ++ (splitBefore stop text).2 = text := by
  induction text with
  | nil => rfl
  | cons c rest ih => rw [splitBefore_cons]; split <;> simp [ih]

theorem splitBefore_length (text : List Char) :
    (splitBefore stop text).1.length + (splitBefore stop text).2.length = text.length := by
  rw [← List.length_append, splitBefore_append]

def splitOn (separator : Char) (text : List Char) : List (List Char) :=
  go [] [] text
where
  go (done : List (List Char)) (seen : List Char) : List Char → List (List Char)
    | [] => (seen.reverse :: done).reverse
    | c :: rest =>
      if c = separator then go (seen.reverse :: done) [] rest else go done (c :: seen) rest

variable {separator : Char}

theorem splitOn_go (done : List (List Char)) (seen text : List Char) :
    splitOn.go separator done seen text =
      done.reverse ++ (splitOn separator text).modifyHead (seen.reverse ++ ·) := by
  induction text generalizing done seen with
  | nil => simp [splitOn, splitOn.go]
  | cons c rest ih =>
    rw [splitOn, splitOn.go, splitOn.go]
    by_cases h : c = separator
    · rw [if_pos h, if_pos h, ih, ih]
      simp
    · rw [if_neg h, if_neg h, ih, ih]
      cases splitOn separator rest <;> simp

@[simp] theorem splitOn_nil : splitOn separator [] = [[]] := rfl

theorem splitOn_cons (c : Char) (rest : List Char) :
    splitOn separator (c :: rest) =
      if c = separator then [] :: splitOn separator rest
      else (splitOn separator rest).modifyHead (c :: ·) := by
  rw [splitOn, splitOn.go]
  by_cases h : c = separator
  · rw [if_pos h, if_pos h, splitOn_go]
    cases splitOn separator rest <;> simp
  · rw [if_neg h, if_neg h, splitOn_go]
    rfl

theorem length_splitOn (text : List Char) :
    (splitOn separator text).length = text.count separator + 1 := by
  induction text with
  | nil => rfl
  | cons c rest ih =>
    rw [splitOn_cons]
    by_cases h : c = separator <;> simp [h, ih]

end HackAssembler.Text
