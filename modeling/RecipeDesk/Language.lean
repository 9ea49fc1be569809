import RecipeDesk.Assembler.Listing
import RecipeDesk.Recipe.Check

/-!
# The two languages

A document is written in one of two languages, told from the extension of its name.
-/

namespace RecipeDesk

/-- The language of a document. -/
inductive Language where
  /-- Recipes. -/
  | recipe
  /-- Assembler listings. -/
  | assembler
deriving DecidableEq, Repr, Inhabited

namespace Language

/-- The extensions of assembler listings. -/
def assemblerExtensions : List String := ["mac", "asm"]

/-- The language of an extension, in capital or small letters. Whatever is not known to be a
listing is a recipe. -/
def ofExtension (extension : Option String) : Language :=
  match extension with
  | none => recipe
  | some name =>
    if assemblerExtensions.contains (String.ofList (name.toList.map Char.toLower)) then assembler
    else recipe

/-- What is to be reported about a text in this language. -/
def check (language : Language) (vocabulary : Vocabulary) (text : String) : List Diagnostic :=
  match language with
  | recipe => (Analysis.ofText vocabulary text).diagnostics
  | assembler => (Assembler.Listing.ofText text).diagnostics

end Language

end RecipeDesk
