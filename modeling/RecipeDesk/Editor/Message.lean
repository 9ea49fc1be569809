import RecipeDesk.Document.Basic
import RecipeDesk.Json.Basic

/-!
# Messages between editor and server

The messages that an editor sends, what it is sent back, and the form of the latter on the wire. The
wire counts lines and columns from zero and has no character offsets.
-/

namespace RecipeDesk

/-- A message from the editor. Notifications tell something; requests want an answer. -/
inductive Incoming where
  /-- Request: begin the session, with options. -/
  | hello (options : Json)
  /-- Notification: the session has begun. -/
  | helloDone
  /-- Notification: a document was opened. -/
  | opened (uri : String) (version : Int) (text : String)
  /-- Notification: a document was changed; each text is the whole document after one change. -/
  | changed (uri : String) (version : Int) (texts : List String)
  /-- Notification: a document was closed. -/
  | closed (uri : String)
  /-- Request: which words may be written at a caret? -/
  | completion (uri : String) (line column : Nat)
  /-- Request: which ingredient would be renamed at a caret? -/
  | prepareRename (uri : String) (line column : Nat)
  /-- Request: rename the ingredient at a caret. -/
  | rename (uri : String) (line column : Nat) (newName : String)
  /-- Request: end the session. -/
  | shutdown
deriving Repr, Inhabited

/-- Whether a message wants an answer. -/
def Incoming.isRequest : Incoming → Bool
  | helloDone | opened .. | changed .. | closed .. => false
  | hello .. | completion .. | prepareRename .. | rename .. | shutdown => true

/-! ### Pieces of the wire form -/

namespace Wire

/-- A place. -/
def position (p : Position) : Json :=
  .fields [("line", .nat p.line), ("character", .nat p.column)]

/-- A span. -/
def range (span : Span) : Json :=
  .fields [("start", position span.start), ("end", position span.stop)]

/-- A diagnostic. -/
def diagnostic (d : Diagnostic) : Json :=
  .fields [("range", range d.span), ("severity", .nat d.severity.rank),
    ("source", .text "recette"), ("message", .text d.message)]

/-- The number of a proposal's kind. -/
def proposalKind : ProposalKind → Nat
  | .verb => 3
  | .ingredient => 5
  | .tool => 7
  | .adverb => 24

/-- A proposal. -/
def proposal (p : Proposal) : Json :=
  .fields [("label", .text p.label), ("kind", .nat (proposalKind p.kind))]

/-- An edit. -/
def edit (e : Edit) : Json :=
  .fields [("range", range e.span), ("newText", .text e.newText)]

end Wire

/-! ### What the editor is sent -/

/-- A message that answers no request. -/
inductive Notice where
  /-- A line for the log. -/
  | log (message : String)
  /-- The diagnostics of a document; a closed one has no version. -/
  | diagnostics (uri : String) (version : Option Int) (items : List Diagnostic)
deriving DecidableEq, Repr, Inhabited

namespace Notice

/-- The name of the message. -/
def method : Notice → String
  | log _ => "window/logMessage"
  | diagnostics .. => "textDocument/publishDiagnostics"

/-- The content of the message. -/
def params : Notice → Json
  | log message => .fields [("type", .nat 3), ("message", .text message)]
  | diagnostics uri version items =>
    .fields <|
      [("uri", .text uri), ("diagnostics", .array (items.map Wire.diagnostic))] ++
      (version.map fun number => ("version", Json.int number)).toList

end Notice

/-- The answer to a request. -/
inductive Answer where
  /-- What the server can do. -/
  | capabilities
  /-- Nothing to say. -/
  | nothing
  /-- Words to write at the caret. -/
  | proposals (items : List Proposal)
  /-- The word to rename. -/
  | target (span : Span) (word : String)
  /-- Edits of one document. -/
  | edits (uri : String) (items : List Edit)
deriving DecidableEq, Repr, Inhabited

/-- The wire form of an answer. -/
def Answer.json : Answer → Json
  | capabilities =>
    .fields
      [("capabilities", .fields
        [("textDocumentSync", .nat 1),
          ("completionProvider", .fields [("triggerCharacters", .array [.text " "])]),
          ("renameProvider", .fields [("prepareProvider", .bool true)])]),
      ("serverInfo", .fields [("name", .text "recette-lsp"), ("version", .text "0.1.0")])]
  | nothing => .null
  | proposals items =>
    .fields [("isIncomplete", .bool false), ("items", .array (items.map Wire.proposal))]
  | target span word => .fields [("range", Wire.range span), ("placeholder", .text word)]
  | edits uri items =>
    .fields [("changes", .fields [(uri, .array (items.map Wire.edit))])]

/-- Why a request is refused. -/
inductive Refusal where
  /-- The session is over. -/
  | sessionOver
  /-- A renaming to something that is no name. -/
  | rename (fault : RenameFault)
deriving DecidableEq, Repr, Inhabited

namespace Refusal

/-- The number of a refusal. -/
def code : Refusal → Int
  | sessionOver => -32600
  | rename _ => -32602

/-- The wording of a refusal. -/
def message : Refusal → String
  | sessionOver => "Invalid request"
  | rename fault => fault.message

end Refusal

end RecipeDesk
