import RecipeDesk.Diagnostic.Painted
import RecipeDesk.Text.Lines
import RecipeDesk.Text.Space

/-!
# Drawing a diagnostic

A diagnostic is drawn as a framed excerpt: its message, the place it begins at, the source line,
and below it the span underlined, with an arrow from the middle of the span to the label.

    Error: need ingredient(s)
       ╭─[ tarte.rct:3:1 ]
       │
     3 │ verser
       │ ───┬──
       │    ╰──── name at least one ingredient after this verb
    ───╯

A tab is drawn as blanks up to the next multiple of four columns, and any other white space as one
blank; what is drawn under a tab is as wide as the tab. Every other character takes one cell. A span
over several lines is drawn on its first line.
-/

namespace RecipeDesk

/-- The part of a source that a diagnostic is drawn on. -/
structure Excerpt where
  /-- The number of the line. -/
  line : Nat
  /-- The line without white space at its end. -/
  source : List Char
  /-- The column where the span begins. -/
  start : Nat
  /-- The column just past the span. -/
  stop : Nat
deriving DecidableEq, Repr, Inhabited

namespace Excerpt

/-- Cells between two places where a tab may end. -/
def tabWidth : Nat := 4

/-- The characters of a line. -/
def lineChars (lines : Lines) (line : Nat) : List Char :=
  match lines.start? line with
  | none => []
  | some start => (lines.chars.drop start.offset).take (lines.lineLength line)

/-- A line without white space at its end. -/
def trimEnd (cs : List Char) : List Char := (cs.reverse.dropWhile isSpace).reverse

/-- The excerpt for a span. The end of a text behind its last line break is drawn behind the end of
the line before it. -/
def ofSpan (lines : Lines) (span : Span) : Excerpt :=
  let line := span.start.line
  let width := lines.lineLength line
  let stop := if span.stop.line = line then span.stop.column else width
  if line + 1 = lines.lineCount ∧ width = 0 ∧ 0 < line then
    let above := lines.lineLength (line - 1) + 1
    ⟨line - 1, trimEnd (lineChars lines (line - 1)), above, above⟩
  else ⟨line, trimEnd (lineChars lines line), span.start.column, stop⟩

variable (excerpt : Excerpt)

/-- The column that the arrow points to: the middle of the span. -/
def middle : Nat := (excerpt.start + excerpt.stop) / 2

/-- How many cells a column takes. -/
def width (column : Nat) : Nat :=
  if excerpt.source[column]? = some '\t' then tabWidth - column % tabWidth else 1

/-- The source line as it is drawn. -/
def sourceRow : String :=
  String.ofList <| (List.range excerpt.source.length).flatMap fun column =>
    match excerpt.source[column]? with
    | none => []
    | some c => List.replicate (excerpt.width column) (if isSpace c then ' ' else c)

/-- A row of cells from column zero to the second one past the span. In each column `first` is
drawn, and `more` in the further cells of a wide column. -/
def row (first more : Nat → Char) : String :=
  String.ofList <| (List.range (excerpt.stop + 2)).flatMap fun column =>
    first column :: List.replicate (excerpt.width column - 1) (more column)

/-- The underline, with the foot of the arrow. -/
def underline : String :=
  let line (column : Nat) : Char :=
    if excerpt.start ≤ column ∧ column < excerpt.stop then '─' else ' '
  let foot : Char := if excerpt.start = excerpt.stop then '│' else '┬'
  excerpt.row (fun column => if column = excerpt.middle then foot else line column) line

/-- The arrow below the underline. -/
def arrow : String :=
  excerpt.row
    (fun column =>
      if column < excerpt.middle then ' ' else if column = excerpt.middle then '╰' else '─')
    (fun column => if column < excerpt.middle then ' ' else '─')

end Excerpt

namespace Diagnostic

/-- The word that opens the drawing of a diagnostic. -/
def kind (d : Diagnostic) : String :=
  match d.severity with
  | .error => "Error"
  | .warning => "Warning"
  | .information => "info"
  | .hint => "Advice"

/-- The drawing of one diagnostic. -/
def draw (lines : Lines) (filename : String) (d : Diagnostic) : Painted :=
  let excerpt := Excerpt.ofSpan lines d.span
  let number := toString (excerpt.line + 1)
  let margin := String.ofList (List.replicate (number.length + 2) ' ')
  let foot := String.ofList (List.replicate (number.length + 2) '─')
  let place := filename ++ ":" ++ number ++ ":" ++ toString (excerpt.start + 1)
  let color := some d.severity.color
  [⟨color, d.kind ++ ":"⟩, ⟨none, " " ++ d.message ++ "\n"⟩,
    ⟨none, margin ++ "╭─[ " ++ place ++ " ]\n"⟩,
    ⟨none, margin ++ "│\n"⟩,
    ⟨none, " " ++ number ++ " │ " ++ excerpt.sourceRow ++ "\n"⟩,
    ⟨none, margin ++ "│ "⟩, ⟨color, excerpt.underline⟩, ⟨none, "\n"⟩,
    ⟨none, margin ++ "│ "⟩, ⟨color, excerpt.arrow⟩, ⟨none, " " ++ d.label.getD d.message ++ "\n"⟩,
    ⟨none, foot ++ "╯\n"⟩]

/-- The drawings of several diagnostics about one text. -/
def drawAll (text filename : String) (ds : List Diagnostic) : Painted :=
  let lines := Lines.ofText text
  ds.flatMap (draw lines filename)

end Diagnostic

end RecipeDesk
