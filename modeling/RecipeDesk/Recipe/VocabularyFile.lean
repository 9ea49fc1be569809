import RecipeDesk.Json.Reader
import RecipeDesk.Recipe.Vocabulary

/-!
# Vocabulary files

A vocabulary is written as a JSON object with a member for each list and one for the section title,
or as an array of the same five values in a fixed order. What is left out keeps its standard value.
Members with other keys are passed over, but a key that is known may stand only once.
-/

namespace RecipeDesk

/-- Why a vocabulary cannot be loaded. -/
inductive VocabularyError where
  /-- Not JSON, or not of the right shape. -/
  | malformed
  /-- Of the right shape, but unusable. -/
  | invalid (fault : VocabularyFault)
deriving DecidableEq, Repr, Inhabited

/-- The wording of an error. -/
def VocabularyError.message : VocabularyError → String
  | malformed => "malformed vocabulary"
  | invalid fault => fault.message

namespace Vocabulary

/-- The text of a JSON string. -/
def text? : Json → Option String
  | .string units => TextUnit.text? units
  | _ => none

/-- The texts of a JSON array of strings. -/
def texts? : Json → Option (List String)
  | .array items => items.mapM text?
  | _ => none

/-- One part of a vocabulary, given what was found for it: nothing keeps the standard value, and
more than one value is refused. -/
def part? {α : Type} (standard : α) (read : Json → Option α) : List Json → Option α
  | [] => some standard
  | [value] => read value
  | _ => none

/-- The keys of the five parts, in the order in which an array lists them. -/
def keys : List String := ["verbs", "ingredientVerbs", "adverbs", "tools", "ingredientsSection"]

/-- A vocabulary from what was found for each of its parts. -/
def ofParts? (found : Nat → List Json) : Option Vocabulary :=
  (part? standard.verbs texts? (found 0)).bind fun verbs =>
  (part? standard.ingredientVerbs texts? (found 1)).bind fun ingredientVerbs =>
  (part? standard.adverbs texts? (found 2)).bind fun adverbs =>
  (part? standard.tools texts? (found 3)).bind fun tools =>
  (part? standard.ingredientsSection text? (found 4)).map fun ingredientsSection =>
    ⟨verbs, ingredientVerbs, adverbs, tools, ingredientsSection⟩

/-- The members of an object under their keys, unless a key has no text. -/
def namedMembers? (members : List (List TextUnit × Json)) : Option (List (String × Json)) :=
  members.mapM fun (key, value) => (TextUnit.text? key).map fun key => (key, value)

/-- The vocabulary that a JSON value describes. -/
def ofJson? : Json → Option Vocabulary
  | .object members =>
    (namedMembers? members).bind fun named =>
      ofParts? fun i =>
        (named.filter fun member => keys[i]? == some member.1).map Prod.snd
  | .array items =>
    if items.length ≤ keys.length then ofParts? fun i => items[i]?.toList else none
  | _ => none

/-- A vocabulary that has no fault. -/
def validate (vocabulary : Vocabulary) : Except VocabularyError Vocabulary :=
  match vocabulary.fault? with
  | some fault => .error (.invalid fault)
  | none => .ok vocabulary

/-- The vocabulary in a JSON value. -/
def ofJson (json : Json) : Except VocabularyError Vocabulary :=
  match ofJson? json with
  | none => .error .malformed
  | some vocabulary => vocabulary.validate

/-- The vocabulary in the text of a file. -/
def ofFileText (text : String) : Except VocabularyError Vocabulary :=
  match Json.parse? text with
  | none => .error .malformed
  | some json => ofJson json

end Vocabulary

end RecipeDesk
