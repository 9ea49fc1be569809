import RecipeDesk.Recipe.Ingredients

/-!
# Checking a recipe

Every sentence is checked by itself against the vocabulary and the ingredients of the whole recipe.
In an ingredients section only a repeated declaration is a problem. Elsewhere the head decides: a
verb that takes ingredients wants at least one, each of them declared somewhere; any other verb
takes anything; an adverb wants exactly one tool.

An `Analysis` is all that is known about a text: the tree, the ingredients, and the findings, first
those about lines out of place, then those about sentences.
-/

namespace RecipeDesk

/-- The findings about a verb that takes ingredients. -/
def Sentence.ingredientFindings (ingredients : Ingredients) (sentence : Sentence) : List Finding :=
  (if sentence.arguments.isEmpty then [⟨.missingIngredients, sentence.head.span⟩] else []) ++
  (sentence.arguments.filter fun word => !ingredients.isDefined word.text).map fun word =>
    ⟨.unknownIngredient, word.span⟩

/-- The findings about an adverb. -/
def Sentence.toolFindings (vocabulary : Vocabulary) (sentence : Sentence) : List Finding :=
  match sentence.arguments with
  | [] => [⟨.missingTool, sentence.head.span⟩]
  | tool :: extra =>
    (if vocabulary.isTool tool.text then [] else [⟨.unknownTool, tool.span⟩]) ++
    ((Span.mergeAll (extra.map Word.span)).map fun span => ⟨.tooManyTools, span⟩).toList

/-- The findings about a declaration: one if it is not the first of its name. -/
def Sentence.declarationFindings (ingredients : Ingredients) (sentence : Sentence) :
    List Finding :=
  match ingredients.get? sentence.head.text with
  | none => []
  | some entry =>
    if entry.definition.any fun word => word.span == sentence.head.span then []
    else [⟨.duplicatedIngredient, sentence.head.span⟩]

/-- The findings about one sentence; `declares` tells that it stands in an ingredients section. -/
def Sentence.findings (vocabulary : Vocabulary) (ingredients : Ingredients) (declares : Bool)
    (sentence : Sentence) : List Finding :=
  let head := sentence.head
  if declares then sentence.declarationFindings ingredients
  else if vocabulary.needsIngredients head.text then sentence.ingredientFindings ingredients
  else if vocabulary.isVerb head.text then []
  else if vocabulary.isAdverb head.text then sentence.toolFindings vocabulary
  else [⟨.unknownHead, head.span⟩]

/-- The findings about all sentences, in document order. -/
def Recipe.findings (vocabulary : Vocabulary) (ingredients : Ingredients) (recipe : Recipe) :
    List Finding :=
  recipe.sections.flatMap fun part =>
    part.sentences.flatMap fun sentence =>
      sentence.findings vocabulary ingredients (part.declares vocabulary)

/-- What is known about the text of a recipe. -/
structure Analysis where
  /-- The tree. -/
  recipe : Recipe
  /-- The ingredients. -/
  ingredients : Ingredients
  /-- What is wrong. -/
  findings : List Finding
deriving DecidableEq, Repr, Inhabited

namespace Analysis

/-- Analyse a text. -/
def ofText (vocabulary : Vocabulary) (text : String) : Analysis :=
  let recipe := Recipe.ofText text
  let ingredients := Ingredients.ofRecipe vocabulary recipe
  ⟨recipe, ingredients, Recipe.misplaced text ++ recipe.findings vocabulary ingredients⟩

/-- The findings as diagnostics. -/
def diagnostics (analysis : Analysis) : List Diagnostic :=
  analysis.findings.map Finding.diagnostic

end Analysis

end RecipeDesk
