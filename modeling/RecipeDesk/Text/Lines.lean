import RecipeDesk.Text.Position

/-!
# The lines of a text

`Lines` keeps, for every line of a text, where it begins in bytes and in characters. With it a
place known in one coordinate system (byte number, character number, line and column) is found in
the others without reading the text from its beginning.

Every text has at least one line: a text that is empty or ends in a line break has an empty last
line. Places outside the text are moved to the nearest one inside it, so every lookup answers.
-/

namespace RecipeDesk

/-- Where a line begins. -/
structure LineStart where
  /-- Bytes of the text's UTF-8 encoding before the line. -/
  byte : Nat
  /-- Characters of the text before the line. -/
  offset : Nat
deriving DecidableEq, Repr, Inhabited

/-- A text together with the beginnings of its lines. -/
structure Lines where
  /-- The characters of the text. -/
  chars : List Char
  /-- The beginning of every line but the first, in order. -/
  laterStarts : List LineStart
deriving DecidableEq, Repr, Inhabited

/-- The beginnings of the lines that open inside `cs`, when `here` is where `cs` itself begins. -/
def LineStart.scan (here : LineStart) : List Char → List LineStart
  | [] => []
  | c :: cs =>
    let next : LineStart := ⟨here.byte + c.utf8Size, here.offset + 1⟩
    if c = '\n' then next :: scan next cs else scan next cs

/-- How many leading characters of a text lie wholly within its first `budget` bytes. -/
def wholeCharsWithin : Nat → List Char → Nat
  | _, [] => 0
  | budget, c :: cs =>
    if c.utf8Size ≤ budget then wholeCharsWithin (budget - c.utf8Size) cs + 1 else 0

namespace Lines

/-- The line table of a text. -/
def ofText (text : String) : Lines :=
  ⟨text.toList, LineStart.scan ⟨0, 0⟩ text.toList⟩

variable (lines : Lines)

/-- The beginnings of all lines, in order. -/
def starts : List LineStart := ⟨0, 0⟩ :: lines.laterStarts

/-- Number of lines; never zero. -/
def lineCount : Nat := lines.starts.length

/-- Number of characters of the text. -/
def charCount : Nat := lines.chars.length

/-- The beginning of a line, if the text has that line. -/
def start? (line : Nat) : Option LineStart := lines.starts[line]?

/-- The number of the line whose beginning, measured by `key`, is the last one at or before `n`.
The first line begins at zero, so at least one beginning qualifies. -/
def lineAt (key : LineStart → Nat) (n : Nat) : Nat :=
  lines.laterStarts.countP fun start => key start ≤ n

/-- The place of a character number. Numbers past the end name the end. -/
def positionAtOffset (offset : Nat) : Position :=
  let offset := min offset lines.charCount
  let line := lines.lineAt LineStart.offset offset
  let start := (lines.start? line).getD default
  ⟨offset, line, offset - start.offset⟩

/-- The place of a byte number. Numbers past the end name the end, and a number inside the bytes
of one character names that character's beginning. -/
def positionAtByte (byte : Nat) : Position :=
  let line := lines.lineAt LineStart.byte byte
  let start := (lines.start? line).getD default
  let column := wholeCharsWithin (byte - start.byte) (lines.chars.drop start.offset)
  ⟨start.offset + column, line, column⟩

/-- The end of the text. -/
def endPosition : Position := lines.positionAtOffset lines.charCount

/-- Number of characters on a line, its line break not counted; zero for a line past the last. -/
def lineLength (line : Nat) : Nat :=
  match lines.start? line, lines.start? (line + 1) with
  | some start, some next => next.offset - start.offset - 1
  | some start, none => lines.charCount - start.offset
  | none, _ => 0

/-- The place of a line and column. Columns past the end of a line name the end of that line, and
lines past the last name the end of the text. -/
def position (line column : Nat) : Position :=
  match lines.start? line with
  | none => lines.endPosition
  | some start =>
    let column := min column (lines.lineLength line)
    ⟨start.offset + column, line, column⟩

/-- The span between two byte numbers. -/
def spanOfBytes (start stop : Nat) : Span :=
  ⟨lines.positionAtByte start, lines.positionAtByte stop⟩

/-- The span between two character numbers. -/
def spanOfOffsets (start stop : Nat) : Span :=
  ⟨lines.positionAtOffset start, lines.positionAtOffset stop⟩

end Lines

end RecipeDesk
