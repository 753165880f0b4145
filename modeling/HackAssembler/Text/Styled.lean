/-! # Styled text

Text for a terminal is a list of spans, each with a colour and weight. Rendering writes only
the changes between one span and the next, so a colour followed by another is not reset in
between. -/
namespace HackAssembler.Text

inductive Color
  | red
  | green
  | yellow
  | blue
  | cyan
  deriving DecidableEq

structure Style where
  color : Option Color := none
  bold : Bool := false
  underline : Bool := false
  deriving DecidableEq

structure Span where
  style : Style
  text : String

abbrev Styled := List Span

def Color.code : Color → String
  | red => "31"
  | green => "32"
  | yellow => "33"
  | blue => "34"
  | cyan => "36"

/-- A terminal attribute is switched by a code between an escape character with a bracket and
the letter m. -/
def control (code : String) : String :=
  "\x1b[" ++ code ++ "m"

namespace Style

def plain : Style := {}

/-- The controls that lead from one style to another: colour, then weight, then underline. -/
def change (old new : Style) : String :=
  (if new.color = old.color then "" else control (new.color.elim "39" Color.code)) ++
    (if new.bold = old.bold then "" else control (if new.bold then "1" else "22")) ++
    (if new.underline = old.underline then "" else control (if new.underline then "4" else "24"))

end Style

namespace Span

def plain (text : String) : Span := ⟨Style.plain, text⟩

def colored (color : Color) (text : String) : Span := ⟨{ color := some color }, text⟩

def strong (color : Color) (text : String) : Span := ⟨{ color := some color, bold := true }, text⟩

def underlined (text : String) : Span := ⟨{ underline := true }, text⟩

end Span

namespace Styled

/-- The text without its styles. -/
def plainText (spans : Styled) : String :=
  spans.foldl (fun text span => text ++ span.text) ""

/-- Every rendering begins and ends in the plain style. -/
def render (spans : Styled) : String :=
  go Style.plain "" spans
where
  go (style : Style) (text : String) : Styled → String
    | [] => text ++ style.change Style.plain
    | span :: rest => go span.style (text ++ style.change span.style ++ span.text) rest

end Styled

end HackAssembler.Text
