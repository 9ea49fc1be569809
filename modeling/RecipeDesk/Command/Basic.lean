import RecipeDesk.Command.Path
import RecipeDesk.Diagnostic.Painted
import RecipeDesk.Language
import RecipeDesk.Recipe.VocabularyFile

/-!
# Commands

A command works on one file, with a vocabulary that may come from another. It reads files through a
function it is given, so that what it does depends on their contents alone; what it writes, and
whether it failed, is its `Output`.

The vocabulary is loaded before the file is read, so that of two unreadable files the vocabulary is
the one reported.
-/

namespace RecipeDesk

/-- Why a file cannot be read as text. -/
inductive ReadFault where
  /-- There is no such file. -/
  | notFound
  /-- It is a directory. -/
  | isDirectory
  /-- Its bytes are not UTF-8. -/
  | notText
  /-- Any other reason, in the words of the system. -/
  | other (reason : String)
deriving DecidableEq, Repr, Inhabited

/-- The wording of a fault. -/
def ReadFault.message : ReadFault → String
  | notFound => "No such file or directory (os error 2)"
  | isDirectory => "Is a directory (os error 21)"
  | notText => "stream did not contain valid UTF-8"
  | other reason => reason

/-- Reading a file by its name. -/
abbrev FileReader := String → Except ReadFault String

/-- The text of a file's bytes. -/
def textOfBytes (bytes : ByteArray) : Except ReadFault String :=
  match String.fromUTF8? bytes with
  | some text => .ok text
  | none => .error .notText

/-- Why a command fails. -/
inductive CommandFault where
  /-- A file cannot be read. -/
  | unreadable (file : String) (fault : ReadFault)
  /-- The vocabulary cannot be used. -/
  | vocabulary (error : VocabularyError)
  /-- The file has errors. -/
  | errors (file : String) (count : Nat)
deriving DecidableEq, Repr, Inhabited

/-- A number of things, with the plural `s` where it belongs. -/
def counted (n : Nat) (thing : String) : String :=
  toString n ++ " " ++ thing ++ (if n = 1 then "" else "s")

/-- The wording of a failure. -/
def CommandFault.message : CommandFault → String
  | unreadable file fault => "cannot read " ++ file ++ ": " ++ fault.message
  | vocabulary error => error.message
  | errors file count => file ++ " has " ++ counted count "error"

/-- What a command leaves behind. -/
structure Output where
  /-- What it writes as its result. -/
  stdout : String := ""
  /-- What it writes beside. -/
  stderr : Painted := []
  /-- Why it failed, if it did. -/
  failure : Option CommandFault := none
deriving Repr, Inhabited

/-- A file to work on. -/
structure Target where
  /-- Its name. -/
  file : String
  /-- The language asked for; the extension decides when none is. -/
  language : Option Language
  /-- The file with the vocabulary; the standard one is used when there is none. -/
  vocabulary : Option String
deriving DecidableEq, Repr, Inhabited

/-- A file that was read, and how to work on it. -/
structure Source where
  /-- Its name. -/
  file : String
  /-- Its language. -/
  language : Language
  /-- The vocabulary. -/
  vocabulary : Vocabulary
  /-- Its text. -/
  text : String
deriving DecidableEq, Repr, Inhabited

/-- Read a file. -/
def FileReader.text (read : FileReader) (file : String) : Except CommandFault String :=
  (read file).mapError (.unreadable file)

/-- Load the vocabulary of a file, or the standard one. -/
def FileReader.vocabulary (read : FileReader) : Option String → Except CommandFault Vocabulary
  | none => .ok .standard
  | some file =>
    (read.text file).bind fun text => (Vocabulary.ofFileText text).mapError .vocabulary

/-- Load all that a command needs. -/
def FileReader.source (read : FileReader) (target : Target) : Except CommandFault Source :=
  (read.vocabulary target.vocabulary).bind fun vocabulary =>
    (read.text target.file).map fun text =>
      let language := target.language.getD (.ofExtension (Path.extension? target.file))
      ⟨target.file, language, vocabulary, text⟩

end RecipeDesk
