import RecipeDesk.Command.Basic
import RecipeDesk.Json.Basic

/-!
# The command that lists names

For a recipe the ingredients, with where each is declared, how often it is used, and its status; for
a listing the labels. Both as a table, or as JSON.
-/

namespace RecipeDesk.Command

/-- A text filled up with blanks on the right. -/
def padRight (width : Nat) (text : String) : String :=
  text ++ String.ofList (List.replicate (width - text.length) ' ')

/-- A text filled up with blanks on the left. -/
def padLeft (width : Nat) (text : String) : String :=
  String.ofList (List.replicate (width - text.length) ' ') ++ text

/-- A row of the table of ingredients. -/
def ingredientRow (name defined uses status : String) : String :=
  "  " ++ padRight 20 name ++ " " ++ padRight 10 defined ++ " " ++ padLeft 5 uses ++ "  " ++
    status ++ "\n"

/-- The table of ingredients. -/
def ingredientTable (ingredients : Ingredients) : String :=
  if ingredients.entries.isEmpty then "  No ingredients.\n"
  else
    ingredientRow "INGREDIENT" "DEFINED" "USES" "STATUS" ++
    String.join (ingredients.entries.map fun entry =>
      let defined := (entry.definition.map fun word => word.span.start.displayFromOne).getD "-"
      ingredientRow entry.name defined (toString entry.usages.length) entry.status.display)

/-- The table of labels. -/
def labelTable (labels : List Assembler.Name) : String :=
  "  " ++ padRight 20 "LABEL" ++ " DEFINED\n" ++
  String.join (labels.map fun label =>
    "  " ++ padRight 20 label.text ++ " " ++ label.span.start.displayFromOne ++ "\n")

/-- A place, by all its coordinates. -/
def positionJson (p : Position) : Json :=
  .fields [("character", .nat p.column), ("line", .nat p.line), ("offset", .nat p.offset)]

/-- An ingredient as JSON. -/
def ingredientJson (entry : Ingredient) : Json :=
  let definition := (entry.definition.map fun word => positionJson word.span.start).getD .null
  .fields [("definition", definition), ("duplicates", .nat entry.duplicates.length),
    ("name", .text entry.name), ("status", .text entry.status.display),
    ("usages", .nat entry.usages.length)]

/-- A label as JSON. -/
def labelJson (label : Assembler.Name) : Json :=
  .fields [("name", .text label.text), ("position", positionJson label.span.start)]

/-- The names of a source. -/
def sourceSymbols (json : Bool) (source : Source) : String :=
  match source.language with
  | .recipe =>
    let ingredients := (Analysis.ofText source.vocabulary source.text).ingredients
    if json then (Json.array (ingredients.entries.map ingredientJson)).pretty 0 ++ "\n"
    else ingredientTable ingredients
  | .assembler =>
    let labels := (Assembler.Listing.ofText source.text).labels
    if json then (Json.array (labels.map labelJson)).pretty 0 ++ "\n" else labelTable labels

/-- List the names of a file. -/
def symbols (read : FileReader) (json : Bool) (target : Target) : Output :=
  match read.source target with
  | .error fault => { failure := some fault }
  | .ok source => { stdout := sourceSymbols json source }

end RecipeDesk.Command
