import RecipeDesk.Text.Position

/-!
# Tokens of an assembler listing

A listing is a sequence of symbols, names, numbers, character literals and texts, divided into
lines. Mnemonics, registers, labels and directives are all names here: which of them a name is
depends on where it stands in its line.
-/

namespace RecipeDesk.Assembler

/-- The marks that are tokens by themselves. -/
inductive Symbol where
  /-- `@`, one more level of indirection. -/
  | atSign
  /-- `=`, assignment. -/
  | equals
  /-- `+`, addition or post-increment. -/
  | plus
  /-- `-`, subtraction, negation or pre-decrement. -/
  | minus
  /-- `*`, multiplication. -/
  | star
  /-- `:`, end of a label. -/
  | colon
  /-- `#`, immediate value. -/
  | sharp
  /-- `,`, between operands. -/
  | comma
  /-- `(`, before a register. -/
  | leftParen
  /-- `)`, after a register. -/
  | rightParen
deriving DecidableEq, Repr, Inhabited

namespace Symbol

/-- The character of a mark. -/
def char : Symbol → Char
  | atSign => '@'
  | equals => '='
  | plus => '+'
  | minus => '-'
  | star => '*'
  | colon => ':'
  | sharp => '#'
  | comma => ','
  | leftParen => '('
  | rightParen => ')'

/-- The mark that a character is, if it is one. -/
def ofChar? : Char → Option Symbol
  | '@' => some atSign
  | '=' => some equals
  | '+' => some plus
  | '-' => some minus
  | '*' => some star
  | ':' => some colon
  | '#' => some sharp
  | ',' => some comma
  | '(' => some leftParen
  | ')' => some rightParen
  | _ => none

/-- A mark between apostrophes, as messages name it. -/
def display (s : Symbol) : String := String.ofList ['\'', s.char, '\'']

end Symbol

/-- One token of a listing. -/
inductive Token where
  /-- A mark. -/
  | symbol (mark : Symbol)
  /-- A line break, which ends a statement. -/
  | endOfLine
  /-- The end of the listing. -/
  | endOfFile
  /-- A name, local labels such as `10$` included. -/
  | ident (name : String)
  /-- An integer: the value of its leading digits, and the whole literal as written. -/
  | integer (value : Int64) (raw : String)
  /-- A character literal. -/
  | char (c : Char)
  /-- A text between delimiters, without them. -/
  | text (content : String)
deriving DecidableEq, Repr, Inhabited

namespace Token

/-- A token as messages name it. -/
def display : Token → String
  | symbol mark => mark.display
  | endOfLine => "end of line"
  | endOfFile => "end of file"
  | ident name => name
  | integer _ raw => raw
  | char c => String.ofList ['\'', c]
  | text content => "\"" ++ content ++ "\""

/-- Whether the token ends a line. -/
def isLineEnd : Token → Bool
  | endOfLine | endOfFile => true
  | _ => false

end Token

/-- A token and the stretch of source it was read from. -/
structure Lexeme where
  /-- The token. -/
  token : Token
  /-- Where it is written. -/
  span : Span
deriving DecidableEq, Repr, Inhabited

end RecipeDesk.Assembler
