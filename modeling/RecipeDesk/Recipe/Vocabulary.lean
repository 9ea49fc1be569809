import RecipeDesk.Text.Space

/-!
# The vocabulary of recipes

A recipe is written with a closed list of verbs, adverbs and tools. Some verbs take ingredients;
an adverb takes a tool; one section, known by its title, declares the ingredients. The lists keep
the order in which they were given, because words are proposed in that order.
-/

namespace RecipeDesk

/-- The words of the recipe language. -/
structure Vocabulary where
  /-- All verbs. -/
  verbs : List String
  /-- The verbs that are followed by ingredients. -/
  ingredientVerbs : List String
  /-- The words that are followed by a tool. -/
  adverbs : List String
  /-- The tools. -/
  tools : List String
  /-- The title of the section that declares ingredients. -/
  ingredientsSection : String
deriving DecidableEq, Repr, Inhabited

/-- What makes a vocabulary unusable. -/
inductive VocabularyFault where
  /-- An entry that could not be written as one word of a recipe. -/
  | notSingleWord (word : String)
  /-- A verb said to take ingredients that is no verb. -/
  | strayIngredientVerb (verb : String)
  /-- A section title of white space only. -/
  | emptySectionName
deriving DecidableEq, Repr, Inhabited

/-- The wording of a fault. -/
def VocabularyFault.message : VocabularyFault → String
  | notSingleWord word => "invalid vocabulary: \"" ++ word ++ "\" is not a single word"
  | strayIngredientVerb verb =>
    "invalid vocabulary: ingredient verb \"" ++ verb ++ "\" is not listed in verbs"
  | emptySectionName => "invalid vocabulary: ingredients section name is empty"

namespace Vocabulary

/-- The vocabulary used when none is given. -/
def standard : Vocabulary where
  verbs :=
    ["verser", "touiller", "malaxer", "mélanger", "incorporer", "étaler", "fondre", "cuire"]
  ingredientVerbs := ["verser", "mélanger", "incorporer", "étaler", "fondre"]
  adverbs := ["avec", "dans"]
  tools := ["saladier", "cuillère", "plat", "mixeur", "four"]
  ingredientsSection := "ingrédients"

variable (vocabulary : Vocabulary)

/-- Whether a word is a verb. -/
def isVerb (word : String) : Bool := vocabulary.verbs.contains word

/-- Whether a word is a verb that takes ingredients. -/
def needsIngredients (word : String) : Bool := vocabulary.ingredientVerbs.contains word

/-- Whether a word is an adverb. -/
def isAdverb (word : String) : Bool := vocabulary.adverbs.contains word

/-- Whether a word is a tool. -/
def isTool (word : String) : Bool := vocabulary.tools.contains word

/-- Whether a section title, white space at its ends aside, is that of the ingredients. -/
def isIngredientsSection (title : String) : Bool :=
  trimSpace title == vocabulary.ingredientsSection

/-- All words of all lists. -/
def words : List String :=
  vocabulary.verbs ++ vocabulary.ingredientVerbs ++ vocabulary.adverbs ++ vocabulary.tools

/-- The first fault of a vocabulary: a list entry that is no single word, else an ingredient verb
that is no verb, else an empty section title. -/
def fault? : Option VocabularyFault :=
  match vocabulary.words.find? fun word => !isSingleWord word with
  | some word => some (.notSingleWord word)
  | none =>
    match vocabulary.ingredientVerbs.find? fun verb => !vocabulary.isVerb verb with
    | some verb => some (.strayIngredientVerb verb)
    | none =>
      if (trimSpace vocabulary.ingredientsSection).isEmpty then some .emptySectionName else none

end Vocabulary

end RecipeDesk
