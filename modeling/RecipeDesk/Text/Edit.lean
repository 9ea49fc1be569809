import RecipeDesk.Text.Position

/-!
# Edits

An edit replaces one span of a text. A list of edits is applied in source order in one pass over
the text, so all spans are places of the text before any replacement. Edits that overlap are applied
as well: characters already passed are neither copied nor dropped again.
-/

namespace RecipeDesk

/-- A replacement of one span. -/
structure Edit where
  /-- What is replaced. -/
  span : Span
  /-- What stands there afterwards. -/
  newText : String
deriving DecidableEq, Repr, Inhabited

namespace Edit

/-- Edits in source order, keeping the order of those that begin at the same place. -/
def sort (edits : List Edit) : List Edit :=
  edits.mergeSort fun a b => a.span.start.precedes b.span.start

/-- Copy `cs`, which begins at offset `here`, with the edits in place of their spans. -/
def splice (here : Nat) (cs : List Char) : List Edit → List Char
  | [] => cs
  | edit :: rest =>
    let kept := edit.span.start.offset - here
    cs.take kept ++ edit.newText.toList ++
      splice (max edit.span.stop.offset here) ((cs.drop kept).drop edit.span.length) rest

/-- A text with all edits applied. -/
def applyAll (text : String) (edits : List Edit) : String :=
  String.ofList (splice 0 text.toList (sort edits))

end Edit

end RecipeDesk
