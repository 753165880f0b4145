import HackAssembler.Proofs.QuotedKeys
import HackAssembler.Proofs.TableHistories
import HackAssembler.Symbol.Table

/-! # Exports tell symbols apart

The first character of a key shows its style, and each style shows where the key ends, so that no
two keys are written alike. The lines of an entry end with newlines that belong to no word of the
entry. Main statement: tables have the same export only if they have the same labels and
variables. -/
namespace HackAssembler.Yaml

/-! ### Plain keys -/

/-- By this a plain key is known at its first characters and at its end. -/
structure IsPlain (key : List Char) : Prop where
  newline : '\n' ∉ key
  begins : ∃ c rest, key = c :: rest ∧ c ∉ indicators ∧ (c = '?' → atGap rest = false)

theorem not_mem_indicators {c : Char} {rest : List Char}
    (h : startsWithIndicator (c :: rest) = false) :
    c ∉ indicators ∧ (c = '?' → atGap rest = false) := by
  rw [startsWithIndicator.eq_def] at h
  split at h
  · next hnil => cases hnil
  · cases h
  · cases h
  · next hcons =>
    cases hcons
    simp only [Bool.or_eq_false_iff, Bool.and_eq_false_iff, List.contains_eq_mem,
      decide_eq_false_iff_not] at h
    exact ⟨h.1, fun hc => h.2.resolve_left (by simp [hc])⟩

theorem isPlain_of_ofKey {key : String} (h : KeyStyle.ofKey key = .plain) : IsPlain key.toList := by
  unfold KeyStyle.ofKey at h
  dsimp only at h
  split at h
  · split at h <;> cases h
  next hnewline =>
  split at h
  · next hplain =>
    rw [Bool.and_eq_true, Bool.not_eq_true', plainAllowed, Bool.not_eq_true'] at hplain
    simp only [Bool.or_eq_false_iff] at hplain
    obtain ⟨hquotes, ⟨⟨⟨hstart, -⟩, -⟩, -⟩, -⟩ := hplain
    refine ⟨by simpa using hnewline, ?_⟩
    cases hkey : key.toList with
    | nil =>
      have hempty : key = "" := String.toList_eq_nil_iff.mp hkey
      rw [hempty] at hquotes
      exact absurd hquotes (by decide)
    | cons c rest =>
      rw [hkey] at hstart
      exact ⟨c, rest, rfl, not_mem_indicators hstart⟩
  · split at h <;> cases h

theorem newline_mem_of_ofKey {key : String} (h : KeyStyle.ofKey key = .literal) :
    '\n' ∈ key.toList := by
  unfold KeyStyle.ofKey at h
  dsimp only at h
  split at h
  · next hnewline => simpa using hnewline
  · split at h
    · cases h
    · split at h <;> cases h

/-! ### Styles -/

def KeyStyle.ofText : List Char → KeyStyle
  | '\'' :: _ => single
  | '"' :: _ => double
  | '|' :: _ => literal
  | _ => plain

theorem KeyStyle.ofText_of_not_mem {c : Char} (h : c ∉ indicators) (rest : List Char) :
    KeyStyle.ofText (c :: rest) = plain := by
  unfold ofText
  split
  case h_4 => rfl
  all_goals
    next heq =>
      cases heq
      exact absurd (by decide) h

theorem ofText_keyText_append (key : String) (rest : List Char) :
    KeyStyle.ofText ((keyText key).toList ++ rest) = KeyStyle.ofKey key := by
  rw [keyText]
  cases hstyle : KeyStyle.ofKey key with
  | plain =>
    obtain ⟨-, c, behind, hkey, hc, -⟩ := isPlain_of_ofKey hstyle
    simp only [hkey, List.cons_append]
    exact KeyStyle.ofText_of_not_mem hc _
  | single => simp [singleQuoted, KeyStyle.ofText]
  | double => simp [doubleQuoted, KeyStyle.ofText]
  | literal => simp [literalHeader, KeyStyle.ofText]

/-- A written key that shows no style has no indicator in front, nor the mark of a long key. -/
theorem not_mem_indicators_of_keyText {key : String} {c : Char} {rest behind : List Char}
    (hplain : KeyStyle.ofText (c :: behind) = .plain)
    (h : (keyText key).toList ++ rest = c :: behind) :
    c ∉ indicators ∧ (c = '?' → behind.head? ≠ some ' ') := by
  have hstyle : KeyStyle.ofKey key = .plain := by
    rw [← ofText_keyText_append key rest, h, hplain]
  obtain ⟨-, first, tail, hkey, hfirst, hgap⟩ := isPlain_of_ofKey hstyle
  rw [keyText, hstyle] at h
  simp only [hkey, List.cons_append, List.cons.injEq] at h
  obtain ⟨rfl, rfl⟩ := h
  refine ⟨hfirst, fun hquestion => ?_⟩
  have hnext : atGap tail = false := hgap hquestion
  cases tail with
  | nil => cases hnext
  | cons next tail =>
    intro hspace
    cases hspace
    cases hnext

/-! ### Keys with what follows them -/

/-- What stands between a key and the entries of its mapping. -/
def keyClosing (key : String) : List Char :=
  if isComplex key then
    (if KeyStyle.ofKey key = .literal then blockEnd key.toList else ['\n']) ++ [':', ' ']
  else [':', '\n', ' ', ' ']

theorem keyClosing_of_ne {key : String} (h : KeyStyle.ofKey key ≠ .literal) :
    keyClosing key = if isComplex key then ['\n', ':', ' '] else [':', '\n', ' ', ' '] := by
  simp [keyClosing, h]

theorem isComplex_of_literal {key : String} (h : KeyStyle.ofKey key = .literal) :
    isComplex key = true := by
  have hbreak : key.toList.any isBreak = true :=
    List.any_eq_true.mpr ⟨'\n', newline_mem_of_ofKey h, by decide⟩
  rw [isComplex, hbreak, Bool.or_true]

theorem toList_keyLines (key : String) :
    (keyLines key).toList =
      (if isComplex key then ['?', ' '] else []) ++ ((keyText key).toList ++ keyClosing key) := by
  rw [keyLines, keyClosing]
  by_cases hcomplex : isComplex key
  · simp only [if_pos hcomplex, String.toList_append]
    by_cases hliteral : KeyStyle.ofKey key = .literal
    · by_cases hlast : key.toList.getLast?.any isBreak <;> simp [hliteral, hlast, blockEnd]
    · simp [hliteral]
  · simp [hcomplex]

section Append
variable {key key' : String} {rest rest' : List Char}

theorem keyLines_append_ne (hcomplex : isComplex key = true) (hsimple : isComplex key' = false) :
    (keyLines key).toList ++ rest ≠ (keyLines key').toList ++ rest' := by
  intro h
  simp only [toList_keyLines, hcomplex, hsimple, if_true, if_false, Bool.false_eq_true,
    List.append_assoc, List.cons_append, List.nil_append] at h
  exact (not_mem_indicators_of_keyText rfl h.symm).2 rfl rfl

theorem isComplex_eq_of_append
    (h : (keyLines key).toList ++ rest = (keyLines key').toList ++ rest') :
    isComplex key = isComplex key' := by
  cases hkey : isComplex key with
  | false =>
    cases hkey' : isComplex key' with
    | false => rfl
    | true => exact absurd h.symm (keyLines_append_ne hkey' hkey)
  | true =>
    cases hkey' : isComplex key' with
    | false => exact absurd h (keyLines_append_ne hkey hkey')
    | true => rfl

/-- A key has no newline, and is followed by one, or by a colon and one. -/
theorem eq_of_plain_append {key key' : List Char} (hkey : '\n' ∉ key) (hkey' : '\n' ∉ key')
    {complex : Bool}
    (h : key ++ ((if complex then ['\n', ':', ' '] else [':', '\n', ' ', ' ']) ++ rest) =
      key' ++ ((if complex then ['\n', ':', ' '] else [':', '\n', ' ', ' ']) ++ rest')) :
    key = key' := by
  cases complex with
  | true => exact (eq_of_append_newline hkey hkey' h).1
  | false =>
    have hcolon {key : List Char} (hkey : '\n' ∉ key) : '\n' ∉ key ++ [':'] := by simpa using hkey
    have hline := eq_of_append_newline (hcolon hkey) (hcolon hkey') (by simpa using h)
    exact List.append_cancel_right hline.1

/-- Whatever follows, a key is known by what is written of it. -/
theorem eq_of_keyLines_append
    (h : (keyLines key).toList ++ rest = (keyLines key').toList ++ rest') : key = key' := by
  have hcomplex := isComplex_eq_of_append h
  simp only [toList_keyLines, hcomplex, List.append_assoc, List.append_cancel_left_eq] at h
  have hstyle : KeyStyle.ofKey key = KeyStyle.ofKey key' := by
    rw [← ofText_keyText_append key, h, ofText_keyText_append]
  have hhead {key : String} (hliteral : KeyStyle.ofKey key ≠ .literal) (rest : List Char) :
      (keyClosing key ++ rest).head? ≠ some '\'' := by
    rw [keyClosing_of_ne hliteral]
    split <;> simp
  apply String.toList_inj.mp
  cases hkey : KeyStyle.ofKey key with
  | plain =>
    have hkey' : KeyStyle.ofKey key' = .plain := hstyle ▸ hkey
    rw [keyClosing_of_ne (by simp [hkey]), keyClosing_of_ne (by simp [hkey']), keyText, keyText,
      hkey, hkey', hcomplex] at h
    exact eq_of_plain_append (isPlain_of_ofKey hkey).newline (isPlain_of_ofKey hkey').newline h
  | single =>
    have hkey' : KeyStyle.ofKey key' = .single := hstyle ▸ hkey
    rw [keyText, keyText, hkey, hkey'] at h
    simp only [String.toList_ofList] at h
    exact eq_of_singleQuoted_append (hhead (by simp [hkey]) _) (hhead (by simp [hkey']) _) h
  | double =>
    have hkey' : KeyStyle.ofKey key' = .double := hstyle ▸ hkey
    rw [keyText, keyText, hkey, hkey'] at h
    simp only [String.toList_ofList] at h
    exact eq_of_doubleQuoted_append h
  | literal =>
    have hkey' : KeyStyle.ofKey key' = .literal := hstyle ▸ hkey
    rw [keyText, keyText, keyClosing, keyClosing, hkey, hkey', isComplex_of_literal hkey,
      isComplex_of_literal hkey'] at h
    simp only [String.toList_ofList, if_true, List.append_assoc, List.cons_append,
      List.nil_append] at h
    exact eq_of_literal_append (List.ne_nil_of_mem (newline_mem_of_ofKey hkey))
      (List.ne_nil_of_mem (newline_mem_of_ofKey hkey')) h

theorem keyLines_append_ne_brace : (keyLines key).toList ++ rest ≠ '{' :: rest' := by
  intro h
  rw [toList_keyLines] at h
  cases hcomplex : isComplex key with
  | true =>
    rw [hcomplex] at h
    cases h
  | false =>
    simp only [hcomplex, Bool.false_eq_true, if_false, List.nil_append, List.append_assoc] at h
    exact absurd (by decide) (not_mem_indicators_of_keyText rfl h).1

end Append

end HackAssembler.Yaml

namespace HackAssembler

open Assembly Yaml

/-! ### Entries -/

theorem SymbolKind.newline_not_mem_word (kind : SymbolKind) : '\n' ∉ kind.word.toList := by
  cases kind <;> decide

theorem SymbolKind.eq_of_word {kind kind' : SymbolKind} (h : kind.word = kind'.word) :
    kind = kind' := by
  revert h
  cases kind <;> cases kind' <;> decide

theorem newline_not_mem_toDigits (n : Nat) : '\n' ∉ Nat.toDigits 10 n := by
  intro h
  have hdigit := Nat.isDigit_of_mem_toDigits (by decide) (by decide) h
  revert hdigit
  decide

theorem Binding.toList_entry (binding : Binding) (rest : List Char) :
    binding.entry.toList ++ rest =
      (keyLines binding.name).toList ++ ("kind: ".toList ++ (binding.kind.word.toList ++
        '\n' :: ("  addr: ".toList ++ (Nat.toDigits 10 binding.address ++ '\n' :: rest)))) := by
  simp [entry]

theorem Binding.eq_of_entry_append {binding binding' : Binding} {rest rest' : List Char}
    (h : binding.entry.toList ++ rest = binding'.entry.toList ++ rest') : binding = binding' := by
  rw [toList_entry, toList_entry] at h
  have hname : binding.name = binding'.name := eq_of_keyLines_append h
  rw [hname, List.append_cancel_left_eq, List.append_cancel_left_eq] at h
  obtain ⟨hword, haddress⟩ :=
    eq_of_append_newline binding.kind.newline_not_mem_word binding'.kind.newline_not_mem_word h
  have hkind : binding.kind = binding'.kind := SymbolKind.eq_of_word (String.toList_inj.mp hword)
  rw [List.append_cancel_left_eq] at haddress
  obtain ⟨hdigits, -⟩ := eq_of_append_newline (newline_not_mem_toDigits _)
    (newline_not_mem_toDigits _) haddress
  have haddress : binding.address = binding'.address := by
    rw [← Nat.ofDigitChars_ten_toDigits (n := binding.address), hdigits,
      Nat.ofDigitChars_ten_toDigits]
  rcases binding with ⟨name, kind, address⟩
  rcases binding' with ⟨name', kind', address'⟩
  simp only at hname hkind haddress
  rw [hname, hkind, haddress]

theorem separable_entry : Separable (fun binding : Binding => binding.entry.toList) (· = []) where
  first := Binding.eq_of_entry_append
  not_ends binding rest h := by
    rw [Binding.toList_entry] at h
    simp at h

namespace SymbolTable

theorem toList_toYaml (table : SymbolTable) :
    table.toYaml.toList = if table.user = [] then ['{', '}', '\n']
      else table.user.flatMap fun binding => binding.entry.toList := by
  have hfoldl (symbols : List Binding) (text : String) :
      (symbols.foldl (fun text binding => text ++ binding.entry) text).toList =
        text.toList ++ symbols.flatMap fun binding => binding.entry.toList := by
    induction symbols generalizing text with
    | nil => simp
    | cons binding symbols ih => simp [ih]
  rw [toYaml]
  split
  · next hnone => simp [hnone]
  · next hsome =>
    rw [hfoldl, if_neg hsome]
    rfl

/-- An export without symbols looks like no entry. -/
theorem toYaml_ne {table other : SymbolTable} (hnone : table.user = []) (hsome : other.user ≠ []) :
    table.toYaml ≠ other.toYaml := by
  intro h
  have hlist := congrArg String.toList h
  rw [toList_toYaml, toList_toYaml, if_pos hnone, if_neg hsome] at hlist
  obtain ⟨binding, symbols, hsymbols⟩ := List.exists_cons_of_ne_nil hsome
  rw [hsymbols, List.flatMap_cons, Binding.toList_entry] at hlist
  exact keyLines_append_ne_brace hlist.symm

theorem user_eq_of_toYaml {table other : SymbolTable} (h : table.toYaml = other.toYaml) :
    table.user = other.user := by
  by_cases htable : table.user = []
  · by_cases hother : other.user = []
    · rw [htable, hother]
    · exact absurd h (toYaml_ne htable hother)
  · by_cases hother : other.user = []
    · exact absurd h.symm (toYaml_ne hother htable)
    · have hlist := congrArg String.toList h
      rw [toList_toYaml, toList_toYaml, if_neg htable, if_neg hother,
        ← List.append_nil (table.user.flatMap _), ← List.append_nil (other.user.flatMap _)] at hlist
      exact separable_entry.eq_of_append rfl rfl hlist

theorem bindings_eq_append_user (history : List Operation) :
    (initial.after history).bindings.toList =
      predefinedTable.map (fun entry => ⟨entry.1, .predefined, entry.2⟩) ++
        (initial.after history).user := by
  obtain ⟨user, hbindings, huser⟩ := (kept_after kept_initial history).predefined
  have hpredefined (symbols : List (String × Nat)) :
      (symbols.map fun entry => (⟨entry.1, .predefined, entry.2⟩ : Binding)).filter
        (·.kind ≠ .predefined) = [] := by
    rw [List.filter_eq_nil_iff, List.forall_mem_map]
    simp
  have hall : user.filter (·.kind ≠ .predefined) = user := by
    rw [List.filter_eq_self]
    exact fun binding hbinding => decide_eq_true (huser binding hbinding)
  have hfilter : (initial.after history).user = user := by
    rw [SymbolTable.user, hbindings, List.filter_append, hpredefined, hall, List.nil_append]
  rw [hfilter, hbindings]

/-- Two tables have the same export exactly when they have the same labels and variables, with the
same kinds and addresses and in the same order, whatever their names may be. In a table that is
reached from the initial one these are all the bindings but the predefined ones. -/
theorem exports_tell_symbols_apart :
    (∀ table other : SymbolTable, table.toYaml = other.toYaml ↔ table.user = other.user) ∧
      ∀ history, (initial.after history).bindings.toList =
        predefinedTable.map (fun entry => ⟨entry.1, .predefined, entry.2⟩) ++
          (initial.after history).user := by
  refine ⟨fun table other => ⟨user_eq_of_toYaml, fun h => ?_⟩, bindings_eq_append_user⟩
  rw [toYaml, toYaml, h]

/-- A name that reads as a number is quoted, and the same name with quotes of its own has more. -/
example : keyLines "16" = "'16':\n  " ∧ keyLines "'16'" = "'''16''':\n  " := by
  decide +kernel

end SymbolTable

end HackAssembler
