import HackAssembler.Text.Styled

/-! # What terminals show

A terminal takes the controls out of a text. Of a styled text it shows the plain text, unless that
has controls of its own. -/
namespace HackAssembler.Text

/-- What stands outside the controls of a text; `inside` says that it begins within one. -/
def outside (inside : Bool) : List Char → List Char
  | [] => []
  | c :: rest =>
    if inside then outside (c ≠ 'm') rest
    else if c = '\x1b' then outside true rest
    else c :: outside false rest

def shown (text : String) : String :=
  String.ofList (outside false text.toList)

theorem outside_append {text : List Char} (h : '\x1b' ∉ text) (rest : List Char) :
    outside false (text ++ rest) = text ++ outside false rest := by
  induction text with
  | nil => rfl
  | cons c text ih =>
    rw [List.mem_cons, not_or] at h
    rw [List.cons_append, outside, if_neg Bool.false_ne_true, if_neg (Ne.symm h.1), ih h.2]
    rfl

theorem outside_inside {code : List Char} (h : 'm' ∉ code) (rest : List Char) :
    outside true (code ++ 'm' :: rest) = outside false rest := by
  induction code with
  | nil => rfl
  | cons c code ih =>
    rw [List.mem_cons, not_or] at h
    rw [List.cons_append, outside, if_pos rfl, decide_eq_true (Ne.symm h.1), ih h.2]

theorem outside_control {code : String} (h : 'm' ∉ code.toList) (rest : List Char) :
    outside false ((control code).toList ++ rest) = outside false rest := by
  have hcontrol : (control code).toList ++ rest =
      '\x1b' :: (('[' :: code.toList) ++ 'm' :: rest) := by
    simp [control]
  have hcode : 'm' ∉ '[' :: code.toList := by simpa using h
  rw [hcontrol, outside, if_neg Bool.false_ne_true, if_pos rfl, outside_inside hcode]

theorem outside_change (old new : Style) (rest : List Char) :
    outside false ((old.change new).toList ++ rest) = outside false rest := by
  have hswitch {unchanged : Prop} [Decidable unchanged] {code : String} (rest : List Char)
      (h : 'm' ∉ code.toList) :
      outside false ((if unchanged then "" else control code).toList ++ rest) =
        outside false rest := by
    split
    · rfl
    · exact outside_control h rest
  have hcolor : 'm' ∉ (new.color.elim "39" Color.code).toList := by
    cases new.color with
    | none => decide
    | some color => cases color <;> decide
  rw [Style.change, String.toList_append, String.toList_append, List.append_assoc,
    List.append_assoc, hswitch _ hcolor, hswitch, hswitch]
  · split <;> decide
  · split <;> decide

namespace Styled

theorem plainText_cons (span : Span) (spans : Styled) :
    plainText (span :: spans) = span.text ++ plainText spans := by
  have hfoldl (spans : Styled) (text : String) :
      spans.foldl (fun text span => text ++ span.text) text = text ++ plainText spans := by
    rw [plainText]
    induction spans generalizing text with
    | nil => simp
    | cons span spans ih =>
      rw [List.foldl_cons, List.foldl_cons, ih, ih ("" ++ span.text), String.empty_append,
        String.append_assoc]
  rw [plainText, List.foldl_cons, hfoldl, String.empty_append]

theorem render_go_eq (style : Style) (text : String) (spans : Styled) :
    render.go style text spans = text ++ render.go style "" spans := by
  induction spans generalizing style text with
  | nil => simp [render.go]
  | cons span spans ih =>
    rw [render.go, render.go, ih, ih _ ("" ++ _ ++ _)]
    simp [String.append_assoc]

theorem render_plain_cons (text : String) (spans : Styled) :
    render (.plain text :: spans) = text ++ spans.render := by
  have hchange : Style.plain.change Style.plain = "" := by decide
  rw [render, render.go, render_go_eq, Span.plain, hchange, render]
  simp

/-- Without controls of its own, a styled text is shown as its plain text. -/
theorem shown_render {spans : Styled} (h : '\x1b' ∉ spans.plainText.toList) :
    shown spans.render = spans.plainText := by
  have hgo (style : Style) : outside false (render.go style "" spans).toList =
      spans.plainText.toList := by
    induction spans generalizing style with
    | nil =>
      rw [render.go, String.empty_append, ← List.append_nil (String.toList _), outside_change]
      rfl
    | cons span spans ih =>
      rw [plainText_cons, String.toList_append, List.mem_append, not_or] at h
      rw [render.go, render_go_eq, String.empty_append, String.append_assoc, String.toList_append,
        String.toList_append, outside_change, outside_append h.1, ih h.2, plainText_cons,
        String.toList_append]
  rw [shown, render, hgo, String.ofList_toList]

end Styled

end HackAssembler.Text
