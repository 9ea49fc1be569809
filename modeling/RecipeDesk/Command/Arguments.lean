import RecipeDesk.Command.Check
import RecipeDesk.Command.Symbols

/-!
# The command line

    check FILE [--grammar recette|asm] [--vocabulary FILE]
    symbols FILE [--grammar recette|asm] [--vocabulary FILE] [--json]
-/

namespace RecipeDesk.Command

/-- A command with all it needs to know. -/
inductive Invocation where
  /-- Report on a file. -/
  | check (target : Target)
  /-- List the names of a file, as a table or as JSON. -/
  | symbols (json : Bool) (target : Target)
deriving DecidableEq, Repr, Inhabited

/-- The options of a command line, read so far. -/
structure Arguments where
  /-- The file named. -/
  file : Option String := none
  /-- The language named. -/
  language : Option Language := none
  /-- The vocabulary named. -/
  vocabulary : Option String := none
  /-- Whether JSON was asked for. -/
  json : Bool := false
deriving DecidableEq, Repr, Inhabited

/-- The language of a name on the command line. -/
def languageOfName? : String → Option Language
  | "recette" => some .recipe
  | "asm" => some .assembler
  | _ => none

/-- Read options after those already read. -/
def Arguments.read? (read : Arguments) : List String → Option Arguments
  | [] => some read
  | [word] =>
    if word = "--json" then some { read with json := true }
    else if read.file.isNone then some { read with file := some word }
    else none
  | word :: value :: rest =>
    if word = "--json" then { read with json := true }.read? (value :: rest)
    else if word = "--grammar" || word = "-g" then
      (languageOfName? value).bind fun language =>
        { read with language := some language }.read? rest
    else if word = "--vocabulary" then { read with vocabulary := some value }.read? rest
    else if read.file.isNone then { read with file := some word }.read? (value :: rest)
    else none

/-- The target that options name. -/
def Arguments.target? (arguments : Arguments) : Option Target :=
  arguments.file.map fun file => ⟨file, arguments.language, arguments.vocabulary⟩

/-- The command that a command line asks for. -/
def Invocation.ofArguments? : List String → Option Invocation
  | "check" :: rest =>
    (Arguments.read? {} rest).bind fun arguments =>
      if arguments.json then none else arguments.target?.map check
  | "symbols" :: rest =>
    (Arguments.read? {} rest).bind fun arguments =>
      arguments.target?.map (symbols arguments.json)
  | _ => none

/-- Carry out a command. -/
def Invocation.run (read : FileReader) : Invocation → Output
  | check target => Command.check read target
  | symbols json target => Command.symbols read json target

/-- The files that a command reads. -/
def Invocation.files : Invocation → List String
  | check target | symbols _ target => target.vocabulary.toList ++ [target.file]

/-- How to use the program. -/
def usage : String :=
  "usage: recette check FILE [--grammar recette|asm] [--vocabulary FILE]\n" ++
  "       recette symbols FILE [--grammar recette|asm] [--vocabulary FILE] [--json]\n"

end RecipeDesk.Command
