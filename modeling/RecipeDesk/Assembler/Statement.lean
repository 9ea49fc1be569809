import RecipeDesk.Assembler.Expr

/-!
# Statements of a listing

A line of a listing holds any number of labels and at most one further statement: an assignment, a
directive or an instruction. Operands name their values through the addressing modes of the
machine.
-/

namespace RecipeDesk.Assembler

/-- A name and where it is written. -/
structure Name where
  /-- The name. -/
  text : String
  /-- Where it is written. -/
  span : Span
deriving DecidableEq, Repr, Inhabited

/-- An operand, by its addressing mode. Each knows the span from its first token to its last. -/
inductive Operand where
  /-- `expr` -/
  | absolute (span : Span) (value : Expr)
  /-- `#expr` -/
  | immediate (span : Span) (value : Expr)
  /-- `(register)+` -/
  | postIncrement (span : Span) (register : Name)
  /-- `-(register)` -/
  | preDecrement (span : Span) (register : Name)
  /-- `(register)`, or `expr(register)` with a displacement -/
  | indirect (span : Span) (register : Name) (displacement : Option Expr)
  /-- `@operand` -/
  | doubleIndirect (span : Span) (operand : Operand)
deriving DecidableEq, Repr, Inhabited

/-- Where an operand is written. -/
def Operand.span : Operand → Span
  | absolute span _ | immediate span _ | postIncrement span _ | preDecrement span _
  | indirect span _ _ | doubleIndirect span _ => span

/-- The reserved directives. -/
inductive Directive where
  /-- `.PAGE` -/
  | page
  /-- `.ASCII` -/
  | ascii
  /-- `.ASCIZ` -/
  | asciz
  /-- `.BYTE` -/
  | byte
  /-- `.WORD` -/
  | word
  /-- `.EVEN` -/
  | even
  /-- `.END` -/
  | endOfSource
deriving DecidableEq, Repr, Inhabited

namespace Directive

/-- The spelling of a directive. -/
def name : Directive → String
  | page => ".PAGE"
  | ascii => ".ASCII"
  | asciz => ".ASCIZ"
  | byte => ".BYTE"
  | word => ".WORD"
  | even => ".EVEN"
  | endOfSource => ".END"

/-- All directives. -/
def all : List Directive := [page, ascii, asciz, byte, word, even, endOfSource]

/-- The directive with exactly this spelling. -/
def ofName? (name : String) : Option Directive := all.find? fun d => d.name == name

end Directive

/-- A statement. Each knows the span from its first token to its last. -/
inductive Statement where
  /-- `NAME:` -/
  | label (span : Span) (name : Name)
  /-- `NAME = expr` -/
  | assignment (span : Span) (name : Name) (value : Expr)
  /-- A reserved directive, the place of its name, and its operands. -/
  | directive (span : Span) (kind : Directive) (keyword : Span) (operands : List Operand)
  /-- A mnemonic with its operands, or a single operand by itself. -/
  | instruction (span : Span) (mnemonic : Option Name) (operands : List Operand)
deriving DecidableEq, Repr, Inhabited

namespace Statement

/-- Where a statement is written. -/
def span : Statement → Span
  | label span _ | assignment span _ _ | directive span _ _ _ | instruction span _ _ => span

/-- The name a label defines. -/
def labelName? : Statement → Option Name
  | label _ name => some name
  | _ => none

/-- The operands of a statement. -/
def operands : Statement → List Operand
  | directive _ _ _ operands | instruction _ _ operands => operands
  | label .. | assignment .. => []

end Statement

end RecipeDesk.Assembler
