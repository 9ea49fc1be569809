import RecipeDesk.Recipe.Basic
import RecipeDesk.Recipe.Vocabulary

/-!
# Ingredients

An ingredient is declared by the head of a sentence in an ingredients section, and used as an
argument of a verb that takes ingredients in any other section. The first declaration defines it;
later ones are duplicates. A use may come before the definition.

`Recipe.occurrences` lists all of these in document order, and `Ingredients` sorts them by name,
the names in the order in which they first occur.
-/

namespace RecipeDesk

/-- How a word names an ingredient. -/
inductive Role where
  /-- In an ingredients section. -/
  | declared
  /-- After a verb that takes ingredients. -/
  | used
deriving DecidableEq, Repr, Inhabited

/-- A word that names an ingredient. -/
structure Occurrence where
  /-- How it names it. -/
  role : Role
  /-- The word. -/
  word : Word
deriving DecidableEq, Repr, Inhabited

/-- The words of a sentence that name ingredients; `declares` tells that the sentence stands in an
ingredients section. -/
def Sentence.occurrences (vocabulary : Vocabulary) (declares : Bool) (sentence : Sentence) :
    List Occurrence :=
  if declares then [⟨.declared, sentence.head⟩]
  else if vocabulary.needsIngredients sentence.head.text then
    sentence.arguments.map fun word => ⟨.used, word⟩
  else []

/-- Whether a section declares ingredients. -/
def Section.declares (vocabulary : Vocabulary) (part : Section) : Bool :=
  vocabulary.isIngredientsSection part.heading.text

/-- All words that name ingredients, in document order. -/
def Recipe.occurrences (vocabulary : Vocabulary) (recipe : Recipe) : List Occurrence :=
  recipe.sections.flatMap fun part =>
    part.sentences.flatMap fun sentence =>
      sentence.occurrences vocabulary (part.declares vocabulary)

/-- Everything that is known of one ingredient name. -/
structure Ingredient where
  /-- The name. -/
  name : String
  /-- The first declaration. -/
  definition : Option Word := none
  /-- Later declarations, in document order. -/
  duplicates : List Word := []
  /-- Uses, in document order. -/
  usages : List Word := []
deriving DecidableEq, Repr, Inhabited

namespace Ingredient

/-- Note one more occurrence. -/
def add (ingredient : Ingredient) (occurrence : Occurrence) : Ingredient :=
  match occurrence.role, ingredient.definition with
  | .declared, none => { ingredient with definition := some occurrence.word }
  | .declared, some _ => { ingredient with duplicates := ingredient.duplicates ++ [occurrence.word] }
  | .used, _ => { ingredient with usages := ingredient.usages ++ [occurrence.word] }

/-- All words that name the ingredient: definition, duplicates, uses. -/
def words (ingredient : Ingredient) : List Word :=
  ingredient.definition.toList ++ ingredient.duplicates ++ ingredient.usages

end Ingredient

/-- Whether the declarations and uses of an ingredient go together. -/
inductive IngredientStatus where
  /-- Used, but declared nowhere. -/
  | undeclared
  /-- Declared more than once. -/
  | duplicated
  /-- Declared once, and used nowhere. -/
  | unused
  /-- Declared once, and used. -/
  | ok
deriving DecidableEq, Repr, Inhabited

/-- The word for a status. -/
def IngredientStatus.display : IngredientStatus → String
  | undeclared => "undeclared"
  | duplicated => "duplicated"
  | unused => "unused"
  | ok => "ok"

/-- The status of an ingredient. -/
def Ingredient.status (ingredient : Ingredient) : IngredientStatus :=
  if ingredient.definition.isNone then .undeclared
  else if !ingredient.duplicates.isEmpty then .duplicated
  else if ingredient.usages.isEmpty then .unused
  else .ok

/-- The ingredients of a recipe, by name. -/
structure Ingredients where
  /-- One entry a name, in the order of first occurrence. -/
  entries : List Ingredient
deriving DecidableEq, Repr, Inhabited

namespace Ingredients

/-- Note an occurrence under its name, at the end if the name is new. -/
def note (occurrence : Occurrence) : List Ingredient → List Ingredient
  | [] => [Ingredient.add ⟨occurrence.word.text, none, [], []⟩ occurrence]
  | entry :: rest =>
    if entry.name = occurrence.word.text then entry.add occurrence :: rest
    else entry :: note occurrence rest

/-- The ingredients that a list of occurrences names. -/
def ofOccurrences (occurrences : List Occurrence) : Ingredients :=
  ⟨occurrences.foldl (fun entries occurrence => note occurrence entries) []⟩

/-- The ingredients of a recipe. -/
def ofRecipe (vocabulary : Vocabulary) (recipe : Recipe) : Ingredients :=
  ofOccurrences (recipe.occurrences vocabulary)

variable (ingredients : Ingredients)

/-- The entry of a name. -/
def get? (name : String) : Option Ingredient :=
  ingredients.entries.find? fun entry => entry.name == name

/-- Whether a name is declared. -/
def isDefined (name : String) : Bool :=
  ((ingredients.get? name).bind Ingredient.definition).isSome

/-- The declared names, in the order of their declarations. -/
def defined : List String :=
  let places := ingredients.entries.filterMap fun entry =>
    entry.definition.map fun word => (entry.name, word.span.start)
  (places.mergeSort fun a b => a.2.precedes b.2).map Prod.fst

/-- The names that are used but not declared, in the order of first occurrence. -/
def undeclared : List String :=
  (ingredients.entries.filter fun entry =>
    entry.definition.isNone && !entry.usages.isEmpty).map Ingredient.name

end Ingredients

end RecipeDesk
