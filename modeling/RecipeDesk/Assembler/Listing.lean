import RecipeDesk.Assembler.Lexer
import RecipeDesk.Assembler.Line
import RecipeDesk.Assembler.Stage
import RecipeDesk.Diagnostic.Basic

/-!
# A whole listing

The tokens of a listing are divided into lines, and each line is read by itself: a line that
cannot be read is reported and leaves the other lines alone.
-/

namespace RecipeDesk.Assembler

/-- Why a line cannot be read. -/
structure SyntaxError where
  /-- The token at fault, or the empty span behind the line's last token. -/
  span : Span
  /-- What could have stood there. -/
  expected : List Expectation
  /-- The token at fault; none at the end of the line. -/
  found : Option Token
deriving DecidableEq, Repr, Inhabited

namespace SyntaxError

/-- The number of the line, counted from one. -/
def line (error : SyntaxError) : Nat := error.span.start.line + 1

/-- A list of alternatives as a message words it: commas, and `or` before the last. -/
def alternatives : List String → String
  | [] => "something else"
  | [only] => only
  | first :: rest =>
    ", ".intercalate (first :: rest.dropLast) ++ " or " ++ rest.getLast?.getD ""

/-- The wording of a syntax error. -/
def message (error : SyntaxError) : String :=
  "line " ++ toString error.line ++
    ": expected " ++ alternatives (error.expected.map Expectation.display) ++
    ", found " ++ (error.found.map Token.display).getD "end of line"

/-- The error of a line that cannot be read: at the first token that no line goes on with, or
behind the last token of a line that breaks off. -/
def ofLine (ls : List Lexeme) : SyntaxError :=
  match Stage.start.follow ls with
  | (stage, first :: _) => ⟨first.span, stage.expected, some first.token⟩
  | (stage, []) =>
    let stop := (ls.getLast?.map (·.span.stop)).getD .origin
    ⟨.empty stop, stage.expected, none⟩

end SyntaxError

/-- Read one line. -/
def parseLine (ls : List Lexeme) : Except SyntaxError (List Statement) :=
  match readLine? ls with
  | some statements => .ok statements
  | none => .error (.ofLine ls)

/-- Divide tokens at the ends of lines, which belong to no line. -/
def splitLines : List Lexeme → List (List Lexeme)
  | [] => [[]]
  | first :: rest =>
    if first.token.isLineEnd then [] :: splitLines rest
    else match splitLines rest with
      | [] => [[first]]
      | line :: lines => (first :: line) :: lines

/-- The lines of a listing that hold at least one token. -/
def tokenLines (ls : List Lexeme) : List (List Lexeme) :=
  (splitLines ls).filter fun line => !line.isEmpty

/-- The statements of one line, if it can be read. -/
def lineStatements (ls : List Lexeme) : List Statement :=
  match parseLine ls with
  | .ok statements => statements
  | .error _ => []

/-- The error of one line, if it cannot be read. -/
def lineError? (ls : List Lexeme) : Option SyntaxError :=
  match parseLine ls with
  | .ok _ => none
  | .error error => some error

/-- The statements of every line that can be read. -/
def statements (ls : List Lexeme) : List Statement :=
  (tokenLines ls).flatMap lineStatements

/-- The errors of every line that cannot. -/
def syntaxErrors (ls : List Lexeme) : List SyntaxError :=
  (tokenLines ls).filterMap lineError?

/-- All statements, or the first syntax error. -/
def parseStrict (ls : List Lexeme) : Except SyntaxError (List Statement) :=
  match syntaxErrors ls with
  | [] => .ok (statements ls)
  | error :: _ => .error error

/-- A listing as read from its source. -/
structure Listing where
  /-- The statements of every line that can be read, in source order. -/
  statements : List Statement
  /-- The faults of the characters. -/
  lexFaults : List LexFault
  /-- The faults of the lines. -/
  syntaxErrors : List SyntaxError
deriving DecidableEq, Repr, Inhabited

namespace Listing

/-- Read a source. -/
def ofText (text : String) : Listing :=
  let ls := lexemes text
  ⟨Assembler.statements ls, Assembler.lexFaults text, Assembler.syntaxErrors ls⟩

/-- The labels that a listing defines. -/
def labels (listing : Listing) : List Name :=
  listing.statements.filterMap Statement.labelName?

/-- The faults of a listing as diagnostics: first those of the characters, then those of the
lines. -/
def diagnostics (listing : Listing) : List Diagnostic :=
  (listing.lexFaults.map fun fault => ⟨.error, fault.span, fault.cause.message, none⟩) ++
  (listing.syntaxErrors.map fun error => ⟨.error, error.span, error.message, none⟩)

end Listing

end RecipeDesk.Assembler
