import RecipeDesk.Document.Store
import RecipeDesk.Editor.Message
import RecipeDesk.Recipe.VocabularyFile

/-!
# A session with an editor

The server keeps the documents that the editor has open and answers questions about them. Every
message about a document draws a ticket when it arrives; when the document is stored, its
diagnostics are sent, unless the write is no longer the last one.

After the session has ended, requests are refused and notifications have no effect.
-/

namespace RecipeDesk

/-- The state of a session. -/
structure Session where
  /-- The documents. -/
  store : Store
  /-- The vocabulary for documents to come. -/
  vocabulary : Vocabulary
  /-- Whether the editor has ended the session. -/
  ended : Bool
deriving DecidableEq, Repr, Inhabited

/-- What a message leads to. -/
structure Outcome where
  /-- The session afterwards. -/
  session : Session
  /-- The notices that are sent meanwhile. -/
  sent : List Notice
  /-- The answer, if one is wanted. -/
  reply : Option (Except Refusal Answer)

namespace Session

/-- A session in which nothing has happened. -/
def fresh : Session := ⟨.empty, .standard, false⟩

/-- The member of an object with a given key; the last one, should there be several. -/
def option? (key : String) : Json → Option Json
  | .object members =>
    (members.reverse.find? fun member => TextUnit.text? member.1 == some key).map Prod.snd
  | _ => none

/-- The vocabulary that the options of a session ask for. One that cannot be used is passed over. -/
def requestedVocabulary? (options : Json) : Option Vocabulary :=
  (option? "vocabulary" options).bind fun json => (Vocabulary.ofJson json).toOption

variable (session : Session)

/-- No answer is wanted. -/
def quiet (sent : List Notice) : Outcome := ⟨session, sent, none⟩

/-- An answer, and nothing else. -/
def answer (reply : Except Refusal Answer) : Outcome := ⟨session, [], some reply⟩

/-- Read and store a version that arrived under `ticket`, and send its diagnostics. -/
def refresh (ticket : Nat) (document : Document) : Outcome :=
  let snapshot := Snapshot.ofDocument session.vocabulary document
  let (stored, store) := session.store.update document.uri ticket snapshot
  let next := { session with store := store }
  if stored && store.isLatest document.uri ticket then
    next.quiet [.diagnostics document.uri (some snapshot.version) snapshot.diagnostics]
  else next.quiet []

/-- Close a document under `ticket`, and take back its diagnostics. -/
def closeDocument (ticket : Nat) (uri : String) : Outcome :=
  let (closed, store) := session.store.close uri ticket
  let next := { session with store := store }
  if closed && store.isLatest uri ticket then next.quiet [.diagnostics uri none []]
  else next.quiet []

/-- Draw the ticket of a message about a document. -/
def arrive : Nat × Session :=
  let (ticket, store) := session.store.drawTicket
  (ticket, { session with store := store })

/-- Answer a question about an open document; nothing is known of any other. -/
def ask (uri : String) (question : Snapshot → Except Refusal Answer) : Outcome :=
  match session.store.get? uri with
  | none => session.answer (.ok .nothing)
  | some snapshot => session.answer (question snapshot)

/-- The answer to a request for a renaming. -/
def renameAnswer (uri : String) (line column : Nat) (newName : String) (snapshot : Snapshot) :
    Except Refusal Answer :=
  match snapshot.rename line column newName with
  | .error fault => .error (.rename fault)
  | .ok none => .ok .nothing
  | .ok (some edits) => .ok (.edits uri edits)

/-- What a message leads to while the session lasts. -/
def serve : Incoming → Outcome
  | .hello options =>
    let vocabulary := (requestedVocabulary? options).getD session.vocabulary
    { session with vocabulary := vocabulary }.answer (.ok .capabilities)
  | .helloDone => session.quiet [.log "Recette LSP initialized"]
  | .opened uri version text =>
    let (ticket, session) := session.arrive
    session.refresh ticket ⟨uri, version, text⟩
  | .changed uri version texts =>
    let (ticket, session) := session.arrive
    match texts.getLast? with
    | none => session.quiet []
    | some text => session.refresh ticket ⟨uri, version, text⟩
  | .closed uri =>
    let (ticket, session) := session.arrive
    session.closeDocument ticket uri
  | .completion uri line column =>
    session.ask uri fun snapshot =>
      .ok (((snapshot.proposals? line column).map Answer.proposals).getD .nothing)
  | .prepareRename uri line column =>
    session.ask uri fun snapshot =>
      .ok (((snapshot.renameable? line column).map fun (span, word) =>
        Answer.target span word).getD .nothing)
  | .rename uri line column newName =>
    session.ask uri (renameAnswer uri line column newName)
  | .shutdown => { session with ended := true }.answer (.ok .nothing)

/-- What a message leads to. -/
def handle (message : Incoming) : Outcome :=
  if session.ended then
    ⟨session, [], if message.isRequest then some (.error .sessionOver) else none⟩
  else session.serve message

end Session

end RecipeDesk
