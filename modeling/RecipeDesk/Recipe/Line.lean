import RecipeDesk.Text.Space

/-!
# Lines of a recipe

A recipe is read line by line. A line is blank, or a heading when its first character that is not
blank is `#`, or else a row of words: the maximal runs of characters that are not blank. Blanks are
the space, the tab and the carriage return, so that both customs of ending a line read alike.

The depth of a heading is the number of `#` it opens with, and its text is what follows them, with
the blanks at both ends left out.
-/

namespace RecipeDesk

/-- The characters that separate words. -/
def isWordBlank (c : Char) : Bool := c = ' ' || c = '\t' || c = '\r'

/-- A maximal run of characters that are not blank. -/
structure Run where
  /-- The column of its first character. -/
  column : Nat
  /-- Its characters. -/
  chars : List Char
deriving DecidableEq, Repr, Inhabited

/-- The column just past a run. -/
def Run.stop (run : Run) : Nat := run.column + run.chars.length

/-- The runs of a stretch of line that begins at `column`. -/
def Run.scan (column : Nat) : List Char → List Run
  | [] => []
  | c :: cs =>
    if isWordBlank c then scan (column + 1) cs
    else
      let chars := c :: cs.takeWhile (!isWordBlank ·)
      ⟨column, chars⟩ :: scan (column + chars.length) (cs.dropWhile (!isWordBlank ·))
termination_by cs => cs.length
decreasing_by
  · exact Nat.lt_succ_self _
  · exact Nat.lt_succ_of_le (List.dropWhile_sublist _).length_le

/-- What a line of a recipe is. -/
inductive Line where
  /-- Nothing but blanks. -/
  | blank
  /-- A heading: the number of its `#`, the columns it covers, and its text. -/
  | heading (depth start stop : Nat) (text : String)
  /-- A row of words, of which there is a first one. -/
  | words (first : Run) (others : List Run)
deriving DecidableEq, Repr, Inhabited

/-- The heading whose first run is `first`, on the line `cs`. -/
def Line.headingOf (cs : List Char) (first : Run) (others : List Run) : Line :=
  let depth := (first.chars.takeWhile (· == '#')).length
  let text := trimBoth isWordBlank (cs.drop (first.column + depth))
  .heading depth first.column (others.getLast?.getD first).stop (String.ofList text)

/-- What a line is, told from its characters. -/
def Line.ofChars (cs : List Char) : Line :=
  match Run.scan 0 cs with
  | [] => .blank
  | first :: others =>
    if first.chars.head? = some '#' then headingOf cs first others else .words first others

end RecipeDesk
