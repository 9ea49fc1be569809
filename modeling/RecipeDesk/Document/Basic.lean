import RecipeDesk.Language
import RecipeDesk.Recipe.Rename
import RecipeDesk.Text.Casing
import RecipeDesk.Text.Lines

/-!
# Documents and snapshots

A document is one version of a text that an editor has open. A snapshot is a document together with
everything that is known about it; it is built once and never changed. Only recipes are analysed
further than their diagnostics.
-/

namespace RecipeDesk

/-- One version of an open text. -/
structure Document where
  /-- The name under which the editor knows the text. -/
  uri : String
  /-- The editor's number for this version. -/
  version : Int
  /-- The text. -/
  text : String
deriving DecidableEq, Repr, Inhabited

/-- What follows the last `mark` of a text, if there is one. -/
def afterLast? (mark : Char) (text : String) : Option String :=
  let cs := text.toList.reverse
  if cs.contains mark then some (String.ofList (cs.takeWhile (· != mark)).reverse) else none

namespace Document

/-- Whether this version may replace `other`: it is the same version or a later one. -/
def supersedes (document other : Document) : Bool := other.version ≤ document.version

/-- The last segment of the name. -/
def fileName (document : Document) : String := (afterLast? '/' document.uri).getD document.uri

/-- The extension of the name, in lower case. -/
def extension? (document : Document) : Option String :=
  (afterLast? '.' document.fileName).map lowercase

/-- The language of the document. -/
def language (document : Document) : Language := .ofExtension document.extension?

/-- The line table of the text. -/
def lines (document : Document) : Lines := .ofText document.text

end Document

/-- A document and what is known about it. -/
structure Snapshot where
  /-- The document. -/
  document : Document
  /-- The vocabulary it was read with. -/
  vocabulary : Vocabulary
  /-- The analysis of a recipe; none for a listing. -/
  analysis : Option Analysis
  /-- What is to be reported. -/
  diagnostics : List Diagnostic
deriving DecidableEq, Repr, Inhabited

namespace Snapshot

/-- Read a document. -/
def ofDocument (vocabulary : Vocabulary) (document : Document) : Snapshot :=
  match document.language with
  | .recipe =>
    let analysis := Analysis.ofText vocabulary document.text
    ⟨document, vocabulary, some analysis, analysis.diagnostics⟩
  | .assembler =>
    ⟨document, vocabulary, none, (Assembler.Listing.ofText document.text).diagnostics⟩

variable (snapshot : Snapshot)

/-- The version of the document. -/
def version : Int := snapshot.document.version

/-- The place of a caret given by line and column. -/
def caret (line column : Nat) : Position := snapshot.document.lines.position line column

/-- The words to propose at a caret. -/
def proposals? (line column : Nat) : Option (List Proposal) :=
  snapshot.analysis.map fun analysis =>
    analysis.proposals snapshot.vocabulary (snapshot.caret line column)

/-- The ingredient that a renaming at a caret would replace: where it stands and how it reads. -/
def renameable? (line column : Nat) : Option (Span × String) :=
  snapshot.analysis.bind fun analysis =>
    (analysis.renameable? snapshot.vocabulary (snapshot.caret line column)).map fun span =>
      (span, span.slice snapshot.document.text)

/-- The edits of a renaming at a caret; none in a listing. -/
def rename (line column : Nat) (newName : String) : Except RenameFault (Option (List Edit)) :=
  match snapshot.analysis with
  | none => .ok none
  | some analysis => (analysis.rename (snapshot.caret line column) newName).map some

end Snapshot

end RecipeDesk
