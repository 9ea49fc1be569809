import RecipeDesk.Assembler.Statement

/-!
# Reading one line

A line of tokens is read by descent along its grammar:

    line      = (name ":")* statement?
    statement = name "=" expr | name (operand ("," operand)*)? | operand
    operand   = "#" expr | "(" name ")" "+"? | "-" "(" name ")" | "@" operand
              | expr ("(" name ")")?
    expr      = product (("+" | "-") product)*
    product   = factor ("*" factor)*
    factor    = "-" factor | name | integer | character | text

Sums and products associate to the left. A line that is both a mnemonic with operands and a single
operand, such as `A - B`, is read as the mnemonic form.

Each reader takes tokens off the front of the line and hands back the rest. What a reader takes is
never nothing (the `length_` lemmas), which is what makes the repetitions end.
-/

namespace RecipeDesk.Assembler

/-- A reader that takes at least one token whenever it succeeds. -/
def Progresses {α : Type} (read : List Lexeme → Option (α × List Lexeme)) : Prop :=
  ∀ ls value rest, read ls = some (value, rest) → rest.length < ls.length

namespace Expr

/-- A factor: minus signs before a name, integer, character or text. -/
def readFactor? : List Lexeme → Option (Expr × List Lexeme)
  | [] => none
  | first :: rest =>
    if first.token = .symbol .minus then
      (readFactor? rest).map fun (operand, rest) => (.negate first.span.start operand, rest)
    else (ofLexeme? first).map fun atom => (atom, rest)

theorem length_readFactor? : Progresses readFactor? := by
  intro ls value rest found
  induction ls generalizing value rest with
  | nil => simp [readFactor?] at found
  | cons first tail ih =>
    unfold readFactor? at found
    split at found
    · obtain ⟨⟨operand, rest'⟩, inner, same⟩ := Option.map_eq_some_iff.mp found
      obtain ⟨-, rfl⟩ := Prod.mk.inj same
      exact Nat.lt_succ_of_lt (ih operand rest' inner)
    · obtain ⟨atom, -, same⟩ := Option.map_eq_some_iff.mp found
      obtain ⟨-, rfl⟩ := Prod.mk.inj same
      exact Nat.lt_succ_self _

/-- Operators and further expressions after `left`, grouped to the left. `op?` tells which tokens
are operators of this chain and `next` reads what stands between them. -/
def readChain? (op? : Token → Option BinaryOp) (next : List Lexeme → Option (Expr × List Lexeme))
    (progress : Progresses next) (left : Expr) (ls : List Lexeme) : Option (Expr × List Lexeme) :=
  match ls with
  | [] => some (left, [])
  | first :: rest =>
    match op? first.token with
    | none => some (left, first :: rest)
    | some op =>
      match _found : next rest with
      | none => none
      | some (right, rest') => readChain? op? next progress (.binary op left right) rest'
termination_by ls.length
decreasing_by exact Nat.lt_succ_of_lt (progress rest right rest' _found)

theorem length_readChain? {op? : Token → Option BinaryOp}
    {next : List Lexeme → Option (Expr × List Lexeme)} (progress : Progresses next)
    (left value : Expr) (ls rest : List Lexeme)
    (found : readChain? op? next progress left ls = some (value, rest)) :
    rest.length ≤ ls.length := by
  fun_induction readChain? op? next progress left ls with
  | case1 => simp_all
  | case2 => simp_all
  | case3 => simp at found
  | case4 left first tail op _ right rest' inner ih =>
    have shorter := progress tail right rest' inner
    have := ih found
    simp only [List.length_cons]
    omega

/-- The operator of products. -/
def productOp? : Token → Option BinaryOp
  | .symbol .star => some .mul
  | _ => none

/-- The operators of sums. -/
def sumOp? : Token → Option BinaryOp
  | .symbol .plus => some .add
  | .symbol .minus => some .sub
  | _ => none

/-- A product of factors. -/
def readProduct? (ls : List Lexeme) : Option (Expr × List Lexeme) :=
  match readFactor? ls with
  | none => none
  | some (left, rest) => readChain? productOp? readFactor? length_readFactor? left rest

theorem length_readProduct? : Progresses readProduct? := by
  intro ls value rest found
  unfold readProduct? at found
  split at found
  · simp at found
  · next left tail first =>
    have := length_readFactor? ls left tail first
    have := length_readChain? length_readFactor? left value tail rest found
    omega

/-- An expression: a sum of products. -/
def read? (ls : List Lexeme) : Option (Expr × List Lexeme) :=
  match readProduct? ls with
  | none => none
  | some (left, rest) => readChain? sumOp? readProduct? length_readProduct? left rest

theorem length_read? : Progresses read? := by
  intro ls value rest found
  unfold read? at found
  split at found
  · simp at found
  · next left tail first =>
    have := length_readProduct? ls left tail first
    have := length_readChain? length_readProduct? left value tail rest found
    omega

end Expr

namespace Operand

/-- A register in parentheses, with the place behind them. -/
def readRegister? : List Lexeme → Option (Name × Position × List Lexeme)
  | ⟨.symbol .leftParen, _⟩ :: ⟨.ident name, span⟩ :: ⟨.symbol .rightParen, close⟩ :: rest =>
    some (⟨name, span⟩, close.stop, rest)
  | _ => none

/-- An expression, as a displacement if a register follows it. -/
def readIndexed? (ls : List Lexeme) : Option (Operand × List Lexeme) :=
  match Expr.read? ls with
  | none => none
  | some (value, rest) =>
    match readRegister? rest with
    | some (register, stop, rest) =>
      some (.indirect ⟨value.span.start, stop⟩ register (some value), rest)
    | none => some (.absolute value.span value, rest)

/-- A register by itself, as a post-increment if a plus sign follows it. -/
def readDeferred? (start : Position) (ls : List Lexeme) : Option (Operand × List Lexeme) :=
  match readRegister? ls with
  | none => none
  | some (register, _, ⟨.symbol .plus, plus⟩ :: rest) =>
    some (.postIncrement ⟨start, plus.stop⟩ register, rest)
  | some (register, stop, rest) => some (.indirect ⟨start, stop⟩ register none, rest)

/-- An operand. -/
def read? : List Lexeme → Option (Operand × List Lexeme)
  | [] => none
  | first :: rest =>
    let start := first.span.start
    match first.token with
    | .symbol .sharp =>
      (Expr.read? rest).map fun (value, rest) => (.immediate ⟨start, value.span.stop⟩ value, rest)
    | .symbol .atSign =>
      (read? rest).map fun (inner, rest) => (.doubleIndirect ⟨start, inner.span.stop⟩ inner, rest)
    | .symbol .leftParen => readDeferred? start (first :: rest)
    | .symbol .minus =>
      match readRegister? rest with
      | some (register, stop, rest) => some (.preDecrement ⟨start, stop⟩ register, rest)
      | none => readIndexed? (first :: rest)
    | _ => readIndexed? (first :: rest)

theorem length_readRegister? (ls rest : List Lexeme) (register : Name) (stop : Position)
    (found : readRegister? ls = some (register, stop, rest)) : rest.length < ls.length := by
  unfold readRegister? at found
  split at found
  · simp only [Option.some.injEq, Prod.mk.injEq] at found
    obtain ⟨-, -, rfl⟩ := found
    simp only [List.length_cons]
    omega
  · simp at found

theorem length_readIndexed? : Progresses readIndexed? := by
  intro ls operand rest found
  unfold readIndexed? at found
  split at found
  · simp at found
  · next value tail first =>
    have shorter := Expr.length_read? ls value tail first
    split at found
    · next register stop tail' second =>
      have := length_readRegister? tail tail' register stop second
      simp only [Option.some.injEq, Prod.mk.injEq] at found
      obtain ⟨-, rfl⟩ := found
      omega
    · simp only [Option.some.injEq, Prod.mk.injEq] at found
      obtain ⟨-, rfl⟩ := found
      exact shorter

theorem length_readDeferred? (start : Position) : Progresses (readDeferred? start) := by
  intro ls operand rest found
  unfold readDeferred? at found
  split at found
  · simp at found
  · next register stop plus tail first =>
    have := length_readRegister? ls _ register stop first
    simp only [Option.some.injEq, Prod.mk.injEq] at found
    obtain ⟨-, rfl⟩ := found
    simp only [List.length_cons] at this
    omega
  · next register stop tail _ first =>
    have := length_readRegister? ls tail register stop first
    simp only [Option.some.injEq, Prod.mk.injEq] at found
    obtain ⟨-, rfl⟩ := found
    exact this

theorem length_read? : Progresses read? := by
  intro ls operand rest found
  induction ls generalizing operand rest with
  | nil => simp [read?] at found
  | cons first tail ih =>
    unfold read? at found
    simp only at found
    split at found
    · obtain ⟨⟨value, rest'⟩, inner, same⟩ := Option.map_eq_some_iff.mp found
      obtain ⟨-, rfl⟩ := Prod.mk.inj same
      exact Nat.lt_succ_of_lt (Expr.length_read? tail value rest' inner)
    · obtain ⟨⟨value, rest'⟩, inner, same⟩ := Option.map_eq_some_iff.mp found
      obtain ⟨-, rfl⟩ := Prod.mk.inj same
      exact Nat.lt_succ_of_lt (ih value rest' inner)
    · exact length_readDeferred? _ _ operand rest found
    · split at found
      · next register stop tail' inner =>
        have := length_readRegister? tail tail' register stop inner
        simp only [Option.some.injEq, Prod.mk.injEq] at found
        obtain ⟨-, rfl⟩ := found
        simp only [List.length_cons]
        omega
      · exact length_readIndexed? _ operand rest found
    · exact length_readIndexed? _ operand rest found

/-- Operands divided by commas, up to the end of the line. -/
def readAll? (ls : List Lexeme) : Option (List Operand) :=
  match _found : read? ls with
  | none => none
  | some (operand, []) => some [operand]
  | some (operand, separator :: rest) =>
    if separator.token = .symbol .comma then (readAll? rest).map (operand :: ·) else none
termination_by ls.length
decreasing_by
  have := length_read? ls operand _ _found
  simp only [List.length_cons] at this
  omega

end Operand

namespace Statement

/-- A name with operands: a directive if the name is reserved, an instruction otherwise. -/
def ofMnemonic (name : Name) (operands : List Operand) : Statement :=
  let stop := (operands.getLast?.map (·.span.stop)).getD name.span.stop
  let span : Span := ⟨name.span.start, stop⟩
  match Directive.ofName? name.text with
  | some kind => .directive span kind name.span operands
  | none => .instruction span (some name) operands

/-- A mnemonic with operands that fill the rest of the line. -/
def readMnemonic? (name : Name) (rest : List Lexeme) : Option Statement :=
  if rest.isEmpty then some (ofMnemonic name [])
  else (Operand.readAll? rest).map (ofMnemonic name)

/-- A single operand that fills the line. -/
def readBare? (ls : List Lexeme) : Option Statement :=
  match Operand.read? ls with
  | some (operand, []) => some (.instruction operand.span none [operand])
  | _ => none

/-- The value of an assignment, which fills the rest of the line. -/
def readAssigned? (name : Name) (rest : List Lexeme) : Option Statement :=
  match Expr.read? rest with
  | some (value, []) => some (.assignment ⟨name.span.start, value.span.stop⟩ name value)
  | _ => none

/-- A statement that fills the line. -/
def read? : List Lexeme → Option Statement
  | ⟨.ident name, span⟩ :: ⟨.symbol .equals, _⟩ :: rest => readAssigned? ⟨name, span⟩ rest
  | ⟨.ident name, span⟩ :: rest =>
    readMnemonic? ⟨name, span⟩ rest <|> readBare? (⟨.ident name, span⟩ :: rest)
  | ls => readBare? ls

end Statement

/-- The statements of a line: its labels, then the one statement after them, if any. -/
def readLine? : List Lexeme → Option (List Statement)
  | [] => some []
  | ⟨.ident name, span⟩ :: ⟨.symbol .colon, colon⟩ :: rest =>
    (readLine? rest).map (.label ⟨span.start, colon.stop⟩ ⟨name, span⟩ :: ·)
  | ls => (Statement.read? ls).map ([·])

end RecipeDesk.Assembler
