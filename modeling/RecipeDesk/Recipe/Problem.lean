import RecipeDesk.Diagnostic.Basic

/-!
# What can be wrong with a recipe

Each problem has one severity, one wording, and for one of them a label of its own.
-/

namespace RecipeDesk

/-- A problem of a recipe. -/
inductive Problem where
  /-- A second heading with a single `#`. -/
  | titleAlreadyDefined
  /-- A section heading before the title. -/
  | sectionBeforeTitle
  /-- Words before the first section. -/
  | wordsOutsideSection
  /-- An ingredient that was already declared. -/
  | duplicatedIngredient
  /-- A verb that takes ingredients, without any. -/
  | missingIngredients
  /-- An ingredient that is declared nowhere. -/
  | unknownIngredient
  /-- An adverb without a tool. -/
  | missingTool
  /-- A word after an adverb that is no tool. -/
  | unknownTool
  /-- Words after the tool of an adverb. -/
  | tooManyTools
  /-- A sentence that begins with neither a verb nor an adverb. -/
  | unknownHead
deriving DecidableEq, Repr, Inhabited

namespace Problem

/-- The wording of a problem. -/
def message : Problem → String
  | titleAlreadyDefined => "title already defined"
  | sectionBeforeTitle => "must come after title"
  | wordsOutsideSection => "must be in a section"
  | duplicatedIngredient => "duplicated ingredient"
  | missingIngredients => "need ingredient(s)"
  | unknownIngredient => "unknown ingredient"
  | missingTool => "missing tool"
  | unknownTool => "unknown tool"
  | tooManyTools => "too many tools"
  | unknownHead => "unknown verb or adverb"

/-- Superfluous tools are suspicious; every other problem is an error. -/
def severity : Problem → Severity
  | tooManyTools => .warning
  | _ => .error

/-- What is written at the underlined word when it says more than the message. -/
def label? : Problem → Option String
  | missingIngredients => some "name at least one ingredient after this verb"
  | _ => none

end Problem

/-- A problem and the stretch of text that has it. -/
structure Finding where
  /-- The problem. -/
  problem : Problem
  /-- Where it is. -/
  span : Span
deriving DecidableEq, Repr, Inhabited

/-- A finding as a diagnostic. -/
def Finding.diagnostic (finding : Finding) : Diagnostic where
  severity := finding.problem.severity
  span := finding.span
  message := finding.problem.message
  label := finding.problem.label?

end RecipeDesk
