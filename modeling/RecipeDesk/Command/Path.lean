/-!
# Names of files

The extension of a file name is what follows its last point. A name whose only point is its first
character has none, nor have the names of the present and the parent directory.
-/

namespace RecipeDesk.Path

/-- The characters of `cs` between the slashes. -/
def segments : List Char → List (List Char)
  | [] => [[]]
  | c :: cs =>
    if c = '/' then [] :: segments cs
    else match segments cs with
      | [] => [[c]]
      | segment :: rest => (c :: segment) :: rest

/-- The steps of a path: its segments, but for empty ones and those that stay in place. -/
def steps (path : String) : List String :=
  ((segments path.toList).map String.ofList).filter fun segment =>
    segment != "" && segment != "."

/-- The last step of a path, unless it leads to a parent directory. -/
def fileName? (path : String) : Option String :=
  (steps path).getLast?.filter (· != "..")

/-- The extension of a path. -/
def extension? (path : String) : Option String :=
  (fileName? path).bind fun name =>
    let reversed := name.toList.reverse
    match reversed.dropWhile (· != '.') with
    | '.' :: stem =>
      if stem.isEmpty then none else some (String.ofList (reversed.takeWhile (· != '.')).reverse)
    | _ => none

end RecipeDesk.Path
