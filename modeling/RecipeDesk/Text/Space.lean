import RecipeDesk.Text.CodePoints

/-!
# White space

The Unicode property `White_Space`, which decides what a single word is in a vocabulary and in a
new ingredient name, and what is trimmed from a section's title before it is compared. It is wider
than the blanks that separate the words of a recipe line.
-/

namespace RecipeDesk

/-- The characters with the property `White_Space`. -/
def CodePoints.whiteSpace : CodePoints := ⟨[
  0x9, 0xe, 0x20, 0x21, 0x85, 0x86, 0xa0, 0xa1, 0x1680, 0x1681, 0x2000, 0x200b, 0x2028, 0x202a,
  0x202f, 0x2030, 0x205f, 0x2060, 0x3000, 0x3001]⟩

/-- Whether a character is white space. -/
def isSpace (c : Char) : Bool := CodePoints.whiteSpace.contains c

/-- A list without the longest ends, at both sides, whose elements all satisfy `p`. -/
def trimBoth (p : Char → Bool) (cs : List Char) : List Char :=
  (((cs.dropWhile p).reverse).dropWhile p).reverse

/-- A text without white space at its ends. -/
def trimSpace (text : String) : String := String.ofList (trimBoth isSpace text.toList)

/-- Whether a text is a single word: not empty, and without white space. -/
def isSingleWord (text : String) : Bool :=
  !text.isEmpty && !text.toList.any isSpace

end RecipeDesk
