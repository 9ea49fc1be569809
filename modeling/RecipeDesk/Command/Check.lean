import RecipeDesk.Command.Basic
import RecipeDesk.Diagnostic.Report

/-!
# The command that checks a file

The diagnostics of a file are drawn in order, followed by how many there are. The command fails if
one of them is an error.
-/

namespace RecipeDesk.Command

/-- How many errors and warnings there are; nothing is said of milder diagnostics alone. -/
def summary (ds : List Diagnostic) : String :=
  let errors := Diagnostic.count .error ds
  let warnings := Diagnostic.count .warning ds
  if 0 < errors then "  " ++ counted errors "error" ++ ", " ++ counted warnings "warning" ++ "\n"
  else if 0 < warnings then "  " ++ counted warnings "warning" ++ "\n"
  else ""

/-- Check a source. -/
def checkSource (source : Source) : Output :=
  let ds := Diagnostic.sort (source.language.check source.vocabulary source.text)
  let errors := Diagnostic.count .error ds
  let stderr :=
    Diagnostic.drawAll source.text source.file ds ++ Painted.ofText (summary ds)
  if errors = 0 then
    { stdout := "  All checks passed for '" ++ source.file ++ "'.\n", stderr }
  else { stderr, failure := some (.errors source.file errors) }

/-- Check a file. -/
def check (read : FileReader) (target : Target) : Output :=
  match read.source target with
  | .error fault => { failure := some fault }
  | .ok source => checkSource source

end RecipeDesk.Command
