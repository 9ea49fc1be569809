import RecipeDesk.Recipe.Check

/-!
# What stands under the caret

A caret in a recipe lies in the last section whose heading is on its line or above it, and in the
sentence of its line, if there is one. The word it belongs to is the first one that ends at or after
it; a caret past the last word counts as standing at a word yet to come. From this follows which
words to propose.
-/

namespace RecipeDesk

/-- What a caret belongs to. -/
structure Location where
  /-- The section of the caret's line. -/
  part : Section
  /-- The sentence of the caret's line. -/
  sentence : Option Sentence
deriving DecidableEq, Repr, Inhabited

namespace Location

/-- The number of the first word of a sentence that ends at or after the caret, or the number of
words if the caret is past all of them. -/
def indexIn (caret : Position) (sentence : Sentence) : Nat :=
  sentence.words.findIdx fun word => caret.column ≤ word.span.stop.column

/-- The number of the caret's word in its sentence. -/
def wordIndex (location : Location) (caret : Position) : Option Nat :=
  location.sentence.map (indexIn caret)

/-- The word that the caret touches. -/
def word? (location : Location) (caret : Position) : Option Word :=
  match location.sentence with
  | none => none
  | some sentence => sentence.words[indexIn caret sentence]?.filter (·.span.touches caret)

end Location

/-- What a caret belongs to; nothing before the first section. -/
def Recipe.locate (recipe : Recipe) (caret : Position) : Option Location :=
  (recipe.sections.reverse.find? fun part => part.heading.span.start.line ≤ caret.line).map
    fun part =>
      ⟨part, part.sentences.find? fun sentence => sentence.span.start.line == caret.line⟩

/-- The word that a caret touches. -/
def Recipe.wordAt? (recipe : Recipe) (caret : Position) : Option Word :=
  (recipe.locate caret).bind (·.word? caret)

/-! ### Proposals -/

/-- What kind of word is proposed. -/
inductive ProposalKind where
  /-- A verb. -/
  | verb
  /-- An adverb. -/
  | adverb
  /-- A tool. -/
  | tool
  /-- An ingredient. -/
  | ingredient
deriving DecidableEq, Repr, Inhabited

/-- A word to write at the caret. -/
structure Proposal where
  /-- The word. -/
  label : String
  /-- Its kind. -/
  kind : ProposalKind
deriving DecidableEq, Repr, Inhabited

/-- Words of one kind as proposals. -/
def Proposal.ofWords (kind : ProposalKind) (words : List String) : List Proposal :=
  words.map fun label => ⟨label, kind⟩

/-- The words a sentence may begin with. -/
def Vocabulary.heads (vocabulary : Vocabulary) : List Proposal :=
  Proposal.ofWords .verb vocabulary.verbs ++ Proposal.ofWords .adverb vocabulary.adverbs

/-- The words to propose at a caret: in an ingredients section the ingredients still to be declared;
after the head of a sentence the declared ingredients or the tools, as the head demands; elsewhere
verbs and adverbs. -/
def Analysis.proposals (vocabulary : Vocabulary) (analysis : Analysis) (caret : Position) :
    List Proposal :=
  match analysis.recipe.locate caret with
  | none => vocabulary.heads
  | some location =>
    if location.part.declares vocabulary then
      Proposal.ofWords .ingredient analysis.ingredients.undeclared
    else match location.sentence with
      | none => vocabulary.heads
      | some sentence =>
        if Location.indexIn caret sentence = 0 then vocabulary.heads
        else if vocabulary.needsIngredients sentence.head.text then
          Proposal.ofWords .ingredient analysis.ingredients.defined
        else Proposal.ofWords .tool vocabulary.tools

end RecipeDesk
