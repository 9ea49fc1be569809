import RecipeDesk.Assembler.Token

/-!
# Arithmetic expressions

Expressions over integers, names and texts with sum, difference, product and negation. Every leaf
knows where it is written and a negation knows its sign, so the span of any expression can be told
from the tree (`Expr.span`).

An expression without names and texts has a constant value, computed as a machine word would: on
64 bits, wrapping around at both ends.
-/

namespace RecipeDesk.Assembler

/-- The operators between two expressions. -/
inductive BinaryOp where
  /-- Sum. -/
  | add
  /-- Difference. -/
  | sub
  /-- Product. -/
  | mul
deriving DecidableEq, Repr, Inhabited

/-- The operation on words. -/
def BinaryOp.apply : BinaryOp → Int64 → Int64 → Int64
  | add, x, y => x + y
  | sub, x, y => x - y
  | mul, x, y => x * y

/-- An arithmetic expression. -/
inductive Expr where
  /-- A name that stands for a value. -/
  | symbol (span : Span) (name : String)
  /-- An integer, or a character as its code point. -/
  | integer (span : Span) (value : Int64)
  /-- A text. -/
  | text (span : Span) (content : String)
  /-- Two expressions with an operator between them. -/
  | binary (op : BinaryOp) (left right : Expr)
  /-- An expression behind a minus sign that begins at `sign`. -/
  | negate (sign : Position) (operand : Expr)
deriving DecidableEq, Repr, Inhabited

namespace Expr

/-- Where an expression is written: from its first token to its last. -/
def span : Expr → Span
  | symbol span _ | integer span _ | text span _ => span
  | binary _ left right => ⟨left.span.start, right.span.stop⟩
  | negate sign operand => ⟨sign, operand.span.stop⟩

/-- The value of an expression in which no name and no text occurs. -/
def constant? : Expr → Option Int64
  | symbol .. | text .. => none
  | integer _ value => some value
  | binary op left right =>
    match left.constant?, right.constant? with
    | some x, some y => some (op.apply x y)
    | _, _ => none
  | negate _ operand => operand.constant?.map fun x => -x

/-- The expression that a single token makes, if it makes one. -/
def ofLexeme? (lexeme : Lexeme) : Option Expr :=
  match lexeme.token with
  | .ident name => some (symbol lexeme.span name)
  | .integer value _ => some (integer lexeme.span value)
  | .char c => some (integer lexeme.span (Int64.ofNat c.toNat))
  | .text content => some (text lexeme.span content)
  | _ => none

end Expr

end RecipeDesk.Assembler
