import RecipeDesk.Assembler.Token

/-!
# How far a line can be read

A line that cannot be read as a whole is reported at its first token that no line could have at
that point, together with everything that could have stood there instead. Both are told by the
`Stage` that the tokens before have led to: what a reader may still meet depends on them only
through one of a few stages, because parentheses hold a single name and nothing else in a line is
nested.

`Stage.step` moves from stage to stage over a token, `Stage.mayEnd` says whether the line may end
there, and `Stage.expected` lists what may come next. From every stage some line can be completed,
so a token is at fault exactly when it has no step.
-/

namespace RecipeDesk.Assembler

/-- What a message says could have stood at the place of an error. -/
inductive Expectation where
  /-- A certain mark. -/
  | symbol (mark : Symbol)
  /-- Nothing more on the line. -/
  | endOfLine
  /-- The beginning of an expression, other than a minus sign. -/
  | expression
  /-- A name. -/
  | identifier
  /-- The beginning of an operand. -/
  | operand
deriving DecidableEq, Repr, Inhabited

namespace Expectation

/-- The wording of an expectation. -/
def display : Expectation → String
  | symbol mark => mark.display
  | endOfLine => "end of line"
  | expression => "expression"
  | identifier => "identifier"
  | operand => "operand"

end Expectation

/-- What may follow a complete expression, besides an operator and the end of the line. -/
structure AfterExpr where
  /-- A register in parentheses: the expression is an operand, or the displacement of one. -/
  register : Bool
  /-- A comma: the expression stands in the operands of a mnemonic. -/
  comma : Bool
deriving DecidableEq, Repr, Inhabited

/-- What may follow a register in parentheses, besides the end of the line. -/
structure AfterRegister where
  /-- A plus sign: the register stands by itself. -/
  plus : Bool
  /-- A comma: it stands in the operands of a mnemonic. -/
  comma : Bool
deriving DecidableEq, Repr, Inhabited

/-- Where a reader stands in a line. `listed` tells that the operand at hand is one of a mnemonic,
so that a comma may follow it. -/
inductive Stage where
  /-- At the beginning of the line or behind a label. -/
  | start
  /-- Behind a first name that may turn out to be a label, an assigned name, a mnemonic, or the
  first name of an operand. -/
  | head
  /-- Where an operand has to begin: behind a comma or an at sign. -/
  | operand (listed : Bool)
  /-- Behind a minus sign that begins an operand: a negation or a pre-decrement. -/
  | minus (listed : Bool)
  /-- Where a factor of an expression has to begin. -/
  | factor (after : AfterExpr)
  /-- Behind a factor of an expression. -/
  | expr (after : AfterExpr)
  /-- Behind an opening parenthesis. -/
  | paren (after : AfterRegister)
  /-- Behind the register in parentheses. -/
  | register (after : AfterRegister)
  /-- Behind a closing parenthesis, or behind the plus sign after it. -/
  | closed (after : AfterRegister)
deriving DecidableEq, Repr, Inhabited

namespace Stage

/-- The stage behind the first token of an operand. -/
def beginOperand (listed : Bool) : Token → Option Stage
  | .ident _ | .integer _ _ | .char _ | .text _ => some (expr ⟨true, listed⟩)
  | .symbol .sharp => some (factor ⟨false, listed⟩)
  | .symbol .leftParen => some (paren ⟨true, listed⟩)
  | .symbol .minus => some (minus listed)
  | .symbol .atSign => some (operand listed)
  | _ => none

/-- The stage behind a token, if a line may go on with it. -/
def step : Stage → Token → Option Stage
  | start, .ident _ => some head
  | start, token => beginOperand false token
  | head, .symbol .colon => some start
  | head, .symbol .equals => some (factor ⟨false, false⟩)
  | head, .symbol .plus | head, .symbol .star => some (factor ⟨true, false⟩)
  | head, token => beginOperand true token
  | operand listed, token => beginOperand listed token
  | minus listed, .symbol .leftParen => some (paren ⟨false, listed⟩)
  | minus listed, .symbol .minus => some (factor ⟨true, listed⟩)
  | minus listed, .ident _ | minus listed, .integer _ _ | minus listed, .char _
  | minus listed, .text _ => some (expr ⟨true, listed⟩)
  | factor after, .symbol .minus => some (factor after)
  | factor after, .ident _ | factor after, .integer _ _ | factor after, .char _
  | factor after, .text _ => some (expr after)
  | expr after, .symbol .plus | expr after, .symbol .minus | expr after, .symbol .star =>
    some (factor after)
  | expr after, .symbol .leftParen =>
    if after.register then some (paren ⟨false, after.comma⟩) else none
  | expr after, .symbol .comma => if after.comma then some (operand true) else none
  | paren after, .ident _ => some (register after)
  | register after, .symbol .rightParen => some (closed after)
  | closed after, .symbol .plus =>
    if after.plus then some (closed ⟨false, after.comma⟩) else none
  | closed after, .symbol .comma => if after.comma then some (operand true) else none
  | _, _ => none

/-- Whether a line may end here. -/
def mayEnd : Stage → Bool
  | start | head | expr _ | closed _ => true
  | operand _ | minus _ | factor _ | paren _ | register _ => false

/-- What may come next, in the order in which messages list it. -/
def expected : Stage → List Expectation
  | start => [.endOfLine, .identifier, .operand]
  | head =>
    [.symbol .leftParen, .symbol .star, .symbol .plus, .symbol .minus, .symbol .colon,
      .symbol .equals, .endOfLine, .operand]
  | operand _ => [.operand]
  | minus _ => [.symbol .leftParen, .symbol .minus, .expression]
  | factor _ => [.symbol .minus, .expression]
  | expr after =>
    (if after.register then [.symbol .leftParen] else []) ++
    [.symbol .star, .symbol .plus] ++
    (if after.comma then [.symbol .comma] else []) ++
    [.symbol .minus, .endOfLine]
  | paren _ => [.identifier]
  | register _ => [.symbol .rightParen]
  | closed after =>
    (if after.plus then [.symbol .plus] else []) ++
    (if after.comma then [.symbol .comma] else []) ++
    [.endOfLine]

/-- Follow the tokens of a line as far as they have steps: the last stage reached, and the tokens
from the first one without a step. -/
def follow (stage : Stage) : List Lexeme → Stage × List Lexeme
  | [] => (stage, [])
  | first :: rest =>
    match stage.step first.token with
    | some next => next.follow rest
    | none => (stage, first :: rest)

end Stage

end RecipeDesk.Assembler
