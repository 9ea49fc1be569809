import RecipeDesk.Recipe.Caret
import RecipeDesk.Text.Edit

/-!
# Renaming an ingredient

An ingredient is renamed by replacing every word that names it: its definition, its duplicates and
its uses. A new name has to read back as one word, also at the beginning of a line.
-/

namespace RecipeDesk

/-- Why a renaming is refused. -/
inductive RenameFault where
  /-- The new name would not read back as one word. -/
  | invalidName (name : String)
deriving DecidableEq, Repr, Inhabited

/-- The wording of a refusal. -/
def RenameFault.message : RenameFault → String
  | invalidName name => "\"" ++ name ++ "\" is not a valid ingredient name"

/-- Whether a name reads back as one word wherever it is written. -/
def isValidName (name : String) : Bool :=
  isSingleWord name && name.toList.head? != some '#'

namespace Analysis

/-- The span that a renaming at the caret would offer: that of a used ingredient. -/
def renameable? (vocabulary : Vocabulary) (analysis : Analysis) (caret : Position) :
    Option Span :=
  match analysis.recipe.locate caret with
  | none => none
  | some location =>
    if location.part.declares vocabulary then none
    else match location.sentence with
      | none => none
      | some sentence =>
        if Location.indexIn caret sentence = 0 then none
        else if vocabulary.needsIngredients sentence.head.text then
          (location.word? caret).map Word.span
        else none

/-- The edits that rename the ingredient under the caret, in source order. There are none if the
caret is on no word, or on a word that names no ingredient. -/
def rename (analysis : Analysis) (caret : Position) (newName : String) :
    Except RenameFault (List Edit) :=
  if isValidName newName then
    .ok <|
      match (analysis.recipe.wordAt? caret).bind (analysis.ingredients.get? ·.text) with
      | none => []
      | some ingredient => Edit.sort (ingredient.words.map fun word => ⟨word.span, newName⟩)
  else .error (.invalidName newName)

end Analysis

end RecipeDesk
