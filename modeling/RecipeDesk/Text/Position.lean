/-!
# Positions and spans

A `Position` names one place of a text three ways at once: by the number of characters before it
(`offset`), by the number of line breaks before it (`line`) and by the number of characters since
the last of those (`column`). A line ends at `'\n'` and nowhere else, so a carriage return is an
ordinary character that takes up a column.

`Position.advance` is the only rule by which a position moves over a character, and
`Position.after` the position reached once a whole stretch of text has been read. Everything that
walks over a text (the readers of both languages) moves its position by these two, so the three
coordinates of a reported place can never drift apart.

Positions are ordered by offset first. Positions of one text are then in document order; the later
coordinates only make the order total on positions of different texts.
-/

namespace RecipeDesk

/-- A place in a text. All three coordinates count from zero, and count characters, not bytes. -/
structure Position where
  /-- Characters before the place. -/
  offset : Nat
  /-- Line breaks before the place. -/
  line : Nat
  /-- Characters between the last line break before the place and the place. -/
  column : Nat
deriving DecidableEq, Repr, Inhabited

namespace Position

/-- The beginning of every text. -/
def origin : Position := ⟨0, 0, 0⟩

/-- The place just past the character `c` when `c` stands at `p`. -/
def advance (p : Position) (c : Char) : Position :=
  if c = '\n' then ⟨p.offset + 1, p.line + 1, 0⟩
  else ⟨p.offset + 1, p.line, p.column + 1⟩

/-- The place just past the stretch `cs` when `cs` begins at `p`. -/
def advanceAll (p : Position) (cs : List Char) : Position :=
  cs.foldl advance p

/-- The place reached after reading `cs` from the beginning of a text. -/
def after (cs : List Char) : Position := origin.advanceAll cs

/-- The place `n` columns further on the same line. -/
def right (p : Position) (n : Nat) : Position :=
  ⟨p.offset + n, p.line, p.column + n⟩

/-- Document order: by offset, then by line, then by column. -/
def precedes (p q : Position) : Bool :=
  p.offset < q.offset ||
    (p.offset == q.offset && (p.line < q.line || (p.line == q.line && p.column ≤ q.column)))

instance : LE Position := ⟨fun p q => p.precedes q = true⟩

instance (p q : Position) : Decidable (p ≤ q) :=
  inferInstanceAs (Decidable (p.precedes q = true))

instance : Min Position := ⟨fun p q => if p ≤ q then p else q⟩

instance : Max Position := ⟨fun p q => if p ≤ q then q else p⟩

/-- The way a position is written in reports: line and column. -/
def display (p : Position) : String := s!"{p.line}:{p.column}"

/-- Line and column as people count them, from one. -/
def displayFromOne (p : Position) : String := s!"{p.line + 1}:{p.column + 1}"

theorem advanceAll_nil (p : Position) : p.advanceAll [] = p := rfl

theorem advanceAll_cons (p : Position) (c : Char) (cs : List Char) :
    p.advanceAll (c :: cs) = (p.advance c).advanceAll cs := rfl

theorem advanceAll_append (p : Position) (cs ds : List Char) :
    p.advanceAll (cs ++ ds) = (p.advanceAll cs).advanceAll ds :=
  List.foldl_append

theorem offset_advance (p : Position) (c : Char) : (p.advance c).offset = p.offset + 1 := by
  unfold advance; split <;> rfl

theorem offset_advanceAll (p : Position) (cs : List Char) :
    (p.advanceAll cs).offset = p.offset + cs.length := by
  induction cs generalizing p with
  | nil => rfl
  | cons c cs ih => rw [advanceAll_cons, ih, offset_advance, List.length_cons]; omega

end Position

/-- A half-open stretch of a text: `start` is covered, `stop` is just past the last covered
character. -/
structure Span where
  /-- Where the stretch begins. -/
  start : Position
  /-- Just past its last character. -/
  stop : Position
deriving DecidableEq, Repr, Inhabited

namespace Span

/-- The stretch without characters at `p`. -/
def empty (p : Position) : Span := ⟨p, p⟩

/-- The smallest span that covers both. -/
def merge (s t : Span) : Span := ⟨min s.start t.start, max s.stop t.stop⟩

/-- The smallest span that covers all of them; none covers nothing. -/
def mergeAll : List Span → Option Span
  | [] => none
  | s :: rest => some (rest.foldl merge s)

/-- Whether the character at `p` is covered. -/
def contains (s : Span) (p : Position) : Bool :=
  s.start.offset ≤ p.offset && p.offset < s.stop.offset

/-- Whether a caret at `p` touches the span: inside it or at either edge. -/
def touches (s : Span) (p : Position) : Bool :=
  s.start.offset ≤ p.offset && p.offset ≤ s.stop.offset

/-- Whether all of `t` lies in `s`. -/
def encloses (s t : Span) : Bool :=
  s.start.offset ≤ t.start.offset && t.stop.offset ≤ s.stop.offset

/-- Number of characters covered. -/
def length (s : Span) : Nat := s.stop.offset - s.start.offset

/-- Whether no character is covered. -/
def isEmpty (s : Span) : Bool := s.start.offset == s.stop.offset

/-- The characters of `text` that the span covers. -/
def slice (s : Span) (text : String) : String :=
  String.ofList ((text.toList.drop s.start.offset).take s.length)

/-- The way a span is written in reports: both ends. -/
def display (s : Span) : String := s!"{s.start.display}-{s.stop.display}"

end Span

end RecipeDesk
