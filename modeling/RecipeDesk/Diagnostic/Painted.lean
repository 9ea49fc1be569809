import RecipeDesk.Diagnostic.Basic

/-!
# Coloured text

Text for a terminal, as stretches that are each written in one colour or in none. A colour is the
parameter of the terminal's escape sequence that selects it.
-/

namespace RecipeDesk

/-- A stretch of text in one colour. -/
structure Stroke where
  /-- The colour; none for the terminal's own. -/
  color : Option String
  /-- The text. -/
  text : String
deriving DecidableEq, Repr, Inhabited

/-- Text in colours. -/
abbrev Painted := List Stroke

/-- The colour of a severity: red, yellow, cyan, or a pale blue. -/
def Severity.color : Severity → String
  | error => "31"
  | warning => "33"
  | information => "36"
  | hint => "38;5;147"

namespace Painted

/-- Text in the terminal's own colour. -/
def ofText (text : String) : Painted := [⟨none, text⟩]

/-- The text without its colours. -/
def plain (painted : Painted) : String := String.join (painted.map Stroke.text)

/-- The colours in use, sorted, each once. -/
def colors (painted : Painted) : List String :=
  ((painted.filterMap Stroke.color).eraseDups).mergeSort fun a b => a ≤ b

/-- The text with escape sequences for its colours. -/
def escaped (painted : Painted) : String :=
  String.join <| painted.map fun stroke =>
    match stroke.color with
    | none => stroke.text
    | some color => "\x1b[" ++ color ++ "m" ++ stroke.text ++ "\x1b[0m"

end Painted

end RecipeDesk
