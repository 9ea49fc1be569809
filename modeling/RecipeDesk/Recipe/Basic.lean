import RecipeDesk.Recipe.Line
import RecipeDesk.Recipe.Problem

/-!
# Recipes

A recipe has a title and, after it, sections of sentences. The title is the first heading with a
single `#`; a heading with more of them opens a section; a row of words is a sentence of the section
opened last.

Every line makes one `Entry`, which depends on the lines before it only through two facts: whether
there has been a title, and whether a section is open. The tree is then put together from the
entries, and the lines that have no place in it are the findings. So every line is accounted for
exactly once, in order.
-/

namespace RecipeDesk

/-- A word of a recipe. -/
structure Word where
  /-- Its characters. -/
  text : String
  /-- Where it is written. -/
  span : Span
deriving DecidableEq, Repr, Inhabited

/-- A row of words. Its head says what it is about; there is always one. -/
structure Sentence where
  /-- The first word. -/
  head : Word
  /-- The words after it. -/
  arguments : List Word
deriving DecidableEq, Repr, Inhabited

namespace Sentence

/-- All words of a sentence. -/
def words (sentence : Sentence) : List Word := sentence.head :: sentence.arguments

/-- From the first word to the last. -/
def span (sentence : Sentence) : Span :=
  ⟨sentence.head.span.start, (sentence.arguments.getLast?.getD sentence.head).span.stop⟩

end Sentence

/-- A heading. -/
structure Heading where
  /-- Its text. -/
  text : String
  /-- From its first `#` to its last character that is not blank. -/
  span : Span
deriving DecidableEq, Repr, Inhabited

/-- A heading and the sentences under it. -/
structure Section where
  /-- The heading. -/
  heading : Heading
  /-- The sentences, in document order. -/
  sentences : List Sentence
deriving DecidableEq, Repr, Inhabited

/-- A recipe. -/
structure Recipe where
  /-- The title, if there is one. -/
  title : Option Heading
  /-- The sections, in document order. -/
  sections : List Section
deriving DecidableEq, Repr, Inhabited

/-! ### Lines in their places -/

/-- The lines of a text: what stands between its line breaks. -/
def textLines : List Char → List (List Char)
  | [] => [[]]
  | c :: cs =>
    if c = '\n' then [] :: textLines cs
    else match textLines cs with
      | [] => [[c]]
      | line :: lines => (c :: line) :: lines

/-- A line and the place where it begins. -/
structure PlacedLine where
  /-- The place of its first character. -/
  start : Position
  /-- Its characters, without the line break. -/
  chars : List Char
deriving DecidableEq, Repr, Inhabited

/-- Put lines in their places, the first at `start`. -/
def placeLines (start : Position) : List (List Char) → List PlacedLine
  | [] => []
  | chars :: rest =>
    ⟨start, chars⟩ :: placeLines ((start.advanceAll chars).advance '\n') rest

namespace PlacedLine

/-- The span between two columns of a line. -/
def span (line : PlacedLine) (start stop : Nat) : Span :=
  ⟨line.start.right start, line.start.right stop⟩

/-- A run of the line as a word of the recipe. -/
def word (line : PlacedLine) (run : Run) : Word :=
  ⟨String.ofList run.chars, line.span run.column run.stop⟩

end PlacedLine

/-! ### Entries -/

/-- What one line contributes. -/
inductive Entry where
  /-- Nothing: the line is blank. -/
  | nothing
  /-- The title. -/
  | title (heading : Heading)
  /-- A new section. -/
  | opening (heading : Heading)
  /-- A sentence of the open section. -/
  | sentence (sentence : Sentence)
  /-- A line out of place. -/
  | misplaced (finding : Finding)
deriving DecidableEq, Repr, Inhabited

namespace Entry

/-- What a line contributes, given whether there is a title and whether a section is open. -/
def ofLine (titled opened : Bool) (line : PlacedLine) : Entry :=
  match Line.ofChars line.chars with
  | .blank => nothing
  | .heading depth start stop text =>
    let span := line.span start stop
    if depth = 1 then
      if titled then misplaced ⟨.titleAlreadyDefined, span⟩ else title ⟨text, span⟩
    else if titled then opening ⟨text, span⟩
    else misplaced ⟨.sectionBeforeTitle, span⟩
  | .words first others =>
    let row : Sentence := ⟨line.word first, others.map line.word⟩
    if opened then sentence row else misplaced ⟨.wordsOutsideSection, row.span⟩

/-- The title that an entry sets. -/
def title? : Entry → Option Heading
  | title heading => some heading
  | _ => none

/-- The heading of the section that an entry opens. -/
def opening? : Entry → Option Heading
  | opening heading => some heading
  | _ => none

/-- The finding of a line out of place. -/
def finding? : Entry → Option Finding
  | misplaced finding => some finding
  | _ => none

/-- The entries of a sequence of lines. -/
def ofLines (titled opened : Bool) : List PlacedLine → List Entry
  | [] => []
  | line :: rest =>
    let entry := ofLine titled opened line
    entry :: ofLines (titled || entry.title?.isSome) (opened || entry.opening?.isSome) rest

/-- The entries of a text. -/
def ofText (text : String) : List Entry :=
  ofLines false false (placeLines .origin (textLines text.toList))

/-- Group entries from the right: the sentences before the first section, and the sections. -/
def gather : List Entry → List Sentence × List Section
  | [] => ([], [])
  | opening heading :: rest =>
    let (body, sections) := gather rest
    ([], ⟨heading, body⟩ :: sections)
  | sentence row :: rest =>
    let (body, sections) := gather rest
    (row :: body, sections)
  | _ :: rest => gather rest

end Entry

namespace Recipe

/-- The tree that entries make. -/
def ofEntries (entries : List Entry) : Recipe :=
  ⟨entries.findSome? Entry.title?, (Entry.gather entries).2⟩

/-- The recipe that a text holds. -/
def ofText (text : String) : Recipe := ofEntries (Entry.ofText text)

/-- The lines of a text that have no place in its recipe. -/
def misplaced (text : String) : List Finding :=
  (Entry.ofText text).filterMap Entry.finding?

/-- All sentences, in document order. -/
def sentences (recipe : Recipe) : List Sentence := recipe.sections.flatMap Section.sentences

end Recipe

end RecipeDesk
