import RecipeDesk.Assembler.Line

/-!
# The grammar of a line

What a line of tokens may be, stated without a reader: a relation for every rule of the grammar,
between the tokens it covers and the tree they make. A derivation says nothing about where a reader
looks or in what order it tries. The rules overlap in one place: a name followed by an operand that
begins with a minus sign is a mnemonic form, and also a difference.

`tokens` goes the other way and writes a tree out. A tree does not keep how a number was written,
nor that it was written as a character, so the tokens come back in `plain` form.
-/

namespace RecipeDesk.Assembler

/-! ### Rules -/

namespace Expr

/-- `factor = "-" factor | name | integer | character | text` -/
inductive DerivesFactor : List Lexeme → Expr → Prop where
  | name (span : Span) (name : String) : DerivesFactor [⟨.ident name, span⟩] (.symbol span name)
  | integer (span : Span) (value : Int64) (raw : String) :
    DerivesFactor [⟨.integer value raw, span⟩] (.integer span value)
  | character (span : Span) (c : Char) :
    DerivesFactor [⟨.char c, span⟩] (.integer span (Int64.ofNat c.toNat))
  | text (span : Span) (content : String) :
    DerivesFactor [⟨.text content, span⟩] (.text span content)
  | negate {ls : List Lexeme} {operand : Expr} (sign : Span) (h : DerivesFactor ls operand) :
    DerivesFactor (⟨.symbol .minus, sign⟩ :: ls) (.negate sign.start operand)

/-- Items with operators between them, grouped to the left. -/
inductive DerivesChain (op? : Token → Option BinaryOp) (Item : List Lexeme → Expr → Prop) :
    List Lexeme → Expr → Prop where
  | item {ls : List Lexeme} {value : Expr} (h : Item ls value) : DerivesChain op? Item ls value
  | operate {ls rs : List Lexeme} {left right : Expr} {sign : Lexeme} {op : BinaryOp}
    (hleft : DerivesChain op? Item ls left) (hop : op? sign.token = some op)
    (hright : Item rs right) :
    DerivesChain op? Item (ls ++ sign :: rs) (.binary op left right)

/-- `product = factor ("*" factor)*` -/
def DerivesProduct : List Lexeme → Expr → Prop := DerivesChain productOp? DerivesFactor

/-- `expr = product (("+" | "-") product)*` -/
def Derives : List Lexeme → Expr → Prop := DerivesChain sumOp? DerivesProduct

end Expr

/-- `"(" name ")"` -/
inductive Name.DerivesRegister : List Lexeme → Name → Span → Prop where
  | mk (opening closing : Span) (register : Name) :
    DerivesRegister
      [⟨.symbol .leftParen, opening⟩, ⟨.ident register.text, register.span⟩,
        ⟨.symbol .rightParen, closing⟩]
      register ⟨opening.start, closing.stop⟩

namespace Operand

/-- `operand = "#" expr | "(" name ")" "+"? | "-" "(" name ")" | "@" operand`
`| expr ("(" name ")")?` -/
inductive Derives : List Lexeme → Operand → Prop where
  | immediate {ls : List Lexeme} {value : Expr} (sharp : Span) (h : value.Derives ls) :
    Derives (⟨.symbol .sharp, sharp⟩ :: ls) (.immediate ⟨sharp.start, value.span.stop⟩ value)
  | deferred {ls : List Lexeme} {register : Name} {span : Span}
    (h : register.DerivesRegister ls span) : Derives ls (.indirect span register none)
  | postIncrement {ls : List Lexeme} {register : Name} {span : Span} (plus : Span)
    (h : register.DerivesRegister ls span) :
    Derives (ls ++ [⟨.symbol .plus, plus⟩]) (.postIncrement ⟨span.start, plus.stop⟩ register)
  | preDecrement {ls : List Lexeme} {register : Name} {span : Span} (minus : Span)
    (h : register.DerivesRegister ls span) :
    Derives (⟨.symbol .minus, minus⟩ :: ls) (.preDecrement ⟨minus.start, span.stop⟩ register)
  | doubleIndirect {ls : List Lexeme} {operand : Operand} (atSign : Span)
    (h : Derives ls operand) :
    Derives (⟨.symbol .atSign, atSign⟩ :: ls)
      (.doubleIndirect ⟨atSign.start, operand.span.stop⟩ operand)
  | absolute {ls : List Lexeme} {value : Expr} (h : value.Derives ls) :
    Derives ls (.absolute value.span value)
  | indexed {ls rs : List Lexeme} {value : Expr} {register : Name} {span : Span}
    (h : value.Derives ls) (hregister : register.DerivesRegister rs span) :
    Derives (ls ++ rs) (.indirect ⟨value.span.start, span.stop⟩ register (some value))

/-- `operand ("," operand)*` -/
inductive DerivesList : List Lexeme → List Operand → Prop where
  | last {ls : List Lexeme} {operand : Operand} (h : Derives ls operand) :
    DerivesList ls [operand]
  | more {ls rs : List Lexeme} {operand : Operand} {operands : List Operand} (comma : Span)
    (h : Derives ls operand) (hrest : DerivesList rs operands) :
    DerivesList (ls ++ ⟨.symbol .comma, comma⟩ :: rs) (operand :: operands)

end Operand

/-- `(operand ("," operand)*)?` -/
inductive Operand.DerivesArguments : List Lexeme → List Operand → Prop where
  | none : DerivesArguments [] []
  | some {ls : List Lexeme} {operands : List Operand} (h : DerivesList ls operands) :
    DerivesArguments ls operands

namespace Statement

/-- From a mnemonic to the last of its operands. -/
def mnemonicSpan (name : Name) (operands : List Operand) : Span :=
  ⟨name.span.start, (operands.getLast?.map (·.span.stop)).getD name.span.stop⟩

/-- `statement = name "=" expr | name (operand ("," operand)*)? | operand`, a mnemonic being a
directive if it is spelled like one. -/
inductive Derives : List Lexeme → Statement → Prop where
  | assignment {ls : List Lexeme} {value : Expr} (name : Name) (equals : Span)
    (h : value.Derives ls) :
    Derives (⟨.ident name.text, name.span⟩ :: ⟨.symbol .equals, equals⟩ :: ls)
      (.assignment ⟨name.span.start, value.span.stop⟩ name value)
  | directive {ls : List Lexeme} {operands : List Operand} (name : Name) (kind : Directive)
    (hname : name.text = kind.name) (h : Operand.DerivesArguments ls operands) :
    Derives (⟨.ident name.text, name.span⟩ :: ls)
      (.directive (mnemonicSpan name operands) kind name.span operands)
  | instruction {ls : List Lexeme} {operands : List Operand} (name : Name)
    (hname : ∀ kind : Directive, name.text ≠ kind.name)
    (h : Operand.DerivesArguments ls operands) :
    Derives (⟨.ident name.text, name.span⟩ :: ls)
      (.instruction (mnemonicSpan name operands) (some name) operands)
  | bare {ls : List Lexeme} {operand : Operand} (h : operand.Derives ls) :
    Derives ls (.instruction operand.span none [operand])

/-- Whether a statement is a single operand. -/
def isBare : Statement → Bool
  | instruction _ none _ => true
  | _ => false

end Statement

/-- `line = (name ":")* statement?` -/
inductive DerivesLine : List Lexeme → List Statement → Prop where
  | nothing : DerivesLine [] []
  | statement {ls : List Lexeme} {statement : Statement} (h : statement.Derives ls) :
    DerivesLine ls [statement]
  | label {ls : List Lexeme} {statements : List Statement} (name : Name) (colon : Span)
    (h : DerivesLine ls statements) :
    DerivesLine (⟨.ident name.text, name.span⟩ :: ⟨.symbol .colon, colon⟩ :: ls)
      (.label ⟨name.span.start, colon.stop⟩ name :: statements)

/-! ### Writing trees out -/

namespace Token

/-- An integer written in decimal. -/
def number (value : Int64) : Token := .integer value (toString value)

/-- A token as far as trees keep it: integers in decimal, and characters as their code points. -/
def plain : Token → Token
  | integer value _ => number value
  | char c => number (Int64.ofNat c.toNat)
  | token => token

end Token

/-- The mark of an operator. -/
def BinaryOp.mark : BinaryOp → Symbol
  | add => .plus
  | sub => .minus
  | mul => .star

/-- The tokens of an expression. -/
def Expr.tokens : Expr → List Token
  | symbol _ name => [.ident name]
  | integer _ value => [.number value]
  | text _ content => [.text content]
  | binary op left right => left.tokens ++ .symbol op.mark :: right.tokens
  | negate _ operand => .symbol .minus :: operand.tokens

/-- The tokens of a register in parentheses. -/
def Name.registerTokens (register : Name) : List Token :=
  [.symbol .leftParen, .ident register.text, .symbol .rightParen]

namespace Operand

/-- The tokens of an operand. -/
def tokens : Operand → List Token
  | absolute _ value => value.tokens
  | immediate _ value => .symbol .sharp :: value.tokens
  | postIncrement _ register => register.registerTokens ++ [.symbol .plus]
  | preDecrement _ register => .symbol .minus :: register.registerTokens
  | indirect _ register none => register.registerTokens
  | indirect _ register (some displacement) => displacement.tokens ++ register.registerTokens
  | doubleIndirect _ operand => .symbol .atSign :: operand.tokens

/-- The tokens of operands with commas between them. -/
def listTokens : List Operand → List Token
  | [] => []
  | [operand] => operand.tokens
  | operand :: operands => operand.tokens ++ .symbol .comma :: listTokens operands

end Operand

/-- The tokens of a statement. -/
def Statement.tokens : Statement → List Token
  | label _ name => [.ident name.text, .symbol .colon]
  | assignment _ name value => .ident name.text :: .symbol .equals :: value.tokens
  | directive _ kind _ operands => .ident kind.name :: Operand.listTokens operands
  | instruction _ (some name) operands => .ident name.text :: Operand.listTokens operands
  | instruction _ none operands => Operand.listTokens operands

/-- The tokens of a line, as far as trees keep them. -/
def plainTokens (ls : List Lexeme) : List Token := ls.map fun l => l.token.plain

@[simp] theorem plainTokens_nil : plainTokens [] = [] := rfl

@[simp] theorem plainTokens_cons (l : Lexeme) (ls : List Lexeme) :
    plainTokens (l :: ls) = l.token.plain :: plainTokens ls := rfl

@[simp] theorem plainTokens_append (ls rs : List Lexeme) :
    plainTokens (ls ++ rs) = plainTokens ls ++ plainTokens rs := List.map_append

/-! ### Derived trees write out as their tokens -/

namespace Expr

theorem DerivesFactor.tokens_eq {ls : List Lexeme} {value : Expr} (h : value.DerivesFactor ls) :
    value.tokens = plainTokens ls := by
  induction h with
  | negate sign _ ih => simp [tokens, Token.plain, ih]
  | _ => rfl

theorem DerivesChain.tokens_eq {op? : Token → Option BinaryOp}
    {Item : List Lexeme → Expr → Prop} {ls : List Lexeme} {value : Expr}
    (hop : ∀ token op, op? token = some op → token = .symbol op.mark)
    (hitem : ∀ {ls value}, Item ls value → value.tokens = plainTokens ls)
    (h : DerivesChain op? Item ls value) : value.tokens = plainTokens ls := by
  induction h with
  | item h => exact hitem h
  | operate _ hsign hright ih =>
      simp [tokens, ih, hitem hright, hop _ _ hsign, Token.plain]

theorem eq_of_productOp? {token : Token} {op : BinaryOp} (h : productOp? token = some op) :
    token = .symbol op.mark := by
  unfold productOp? at h
  split at h <;> cases h
  rfl

theorem eq_of_sumOp? {token : Token} {op : BinaryOp} (h : sumOp? token = some op) :
    token = .symbol op.mark := by
  unfold sumOp? at h
  split at h <;> cases h <;> rfl

theorem DerivesProduct.tokens_eq {ls : List Lexeme} {value : Expr}
    (h : value.DerivesProduct ls) : value.tokens = plainTokens ls :=
  DerivesChain.tokens_eq (fun _ _ => eq_of_productOp?) DerivesFactor.tokens_eq h

theorem Derives.tokens_eq {ls : List Lexeme} {value : Expr} (h : value.Derives ls) :
    value.tokens = plainTokens ls :=
  DerivesChain.tokens_eq (fun _ _ => eq_of_sumOp?) DerivesProduct.tokens_eq h

end Expr

theorem Name.DerivesRegister.tokens_eq {ls : List Lexeme} {register : Name} {span : Span}
    (h : register.DerivesRegister ls span) : register.registerTokens = plainTokens ls := by
  cases h
  rfl

namespace Operand

theorem Derives.tokens_eq {ls : List Lexeme} {operand : Operand} (h : operand.Derives ls) :
    operand.tokens = plainTokens ls := by
  induction h with
  | immediate sharp h => simp [tokens, h.tokens_eq, Token.plain]
  | deferred h => exact h.tokens_eq
  | postIncrement plus h => simp [tokens, h.tokens_eq, Token.plain]
  | preDecrement minus h => simp [tokens, h.tokens_eq, Token.plain]
  | doubleIndirect atSign _ ih => simp [tokens, ih, Token.plain]
  | absolute h => exact h.tokens_eq
  | indexed h hregister => simp [tokens, h.tokens_eq, hregister.tokens_eq]

theorem DerivesList.tokens_eq {ls : List Lexeme} {operands : List Operand}
    (h : DerivesList ls operands) : listTokens operands = plainTokens ls := by
  induction h with
  | last h => exact h.tokens_eq
  | more comma h hrest ih =>
      -- what follows a comma is never empty
      cases hrest <;> simp_all [listTokens, h.tokens_eq, Token.plain]

theorem DerivesArguments.tokens_eq {ls : List Lexeme} {operands : List Operand}
    (h : DerivesArguments ls operands) : listTokens operands = plainTokens ls := by
  cases h with
  | none => rfl
  | some h => exact h.tokens_eq

end Operand

theorem Statement.Derives.tokens_eq {ls : List Lexeme} {statement : Statement}
    (h : statement.Derives ls) : statement.tokens = plainTokens ls := by
  cases h with
  | assignment name equals h => simp [tokens, h.tokens_eq, Token.plain]
  | directive name kind hname h => simp [tokens, h.tokens_eq, hname, Token.plain]
  | instruction name hname h => simp [tokens, h.tokens_eq, Token.plain]
  | bare h => exact h.tokens_eq

/-- **A derived line writes out as its tokens.** -/
theorem DerivesLine.tokens_eq {ls : List Lexeme} {statements : List Statement}
    (h : DerivesLine ls statements) : statements.flatMap Statement.tokens = plainTokens ls := by
  induction h with
  | nothing => rfl
  | statement h => simp [h.tokens_eq]
  | label name colon _ ih => simp [Statement.tokens, ih, Token.plain]

/-! ### Tokens of operands

An equals sign makes an assignment and a colon makes a label; neither can stand in an operand. -/

/-- Whether a token can stand in the operands of a statement. -/
def Token.inOperands : Token → Bool
  | symbol .equals | symbol .colon | endOfLine | endOfFile => false
  | _ => true

theorem Token.inOperands_plain (token : Token) : token.plain.inOperands = token.inOperands := by
  cases token <;> rfl

theorem Expr.inOperands_tokens (value : Expr) :
    ∀ token ∈ value.tokens, token.inOperands = true := by
  induction value with
  | binary op left right ihleft ihright =>
      have hop : (Token.symbol op.mark).inOperands = true := by
        cases op <;> rfl
      simp only [tokens, List.forall_mem_append, List.forall_mem_cons]
      exact ⟨ihleft, hop, ihright⟩
  | negate sign operand ih => exact List.forall_mem_cons.mpr ⟨rfl, ih⟩
  | _ => exact List.forall_mem_singleton.mpr rfl

theorem Name.inOperands_registerTokens (register : Name) :
    ∀ token ∈ register.registerTokens, token.inOperands = true := by
  simp [registerTokens, Token.inOperands]

theorem Operand.inOperands_tokens (operand : Operand) :
    ∀ token ∈ operand.tokens, token.inOperands = true := by
  induction operand with
  | absolute span value => exact value.inOperands_tokens
  | immediate span value => exact List.forall_mem_cons.mpr ⟨rfl, value.inOperands_tokens⟩
  | postIncrement span register =>
      exact List.forall_mem_append.mpr
        ⟨register.inOperands_registerTokens, List.forall_mem_singleton.mpr rfl⟩
  | preDecrement span register =>
      exact List.forall_mem_cons.mpr ⟨rfl, register.inOperands_registerTokens⟩
  | indirect span register displacement =>
      cases displacement with
      | none => exact register.inOperands_registerTokens
      | some value =>
          exact List.forall_mem_append.mpr
            ⟨value.inOperands_tokens, register.inOperands_registerTokens⟩
  | doubleIndirect span operand ih => exact List.forall_mem_cons.mpr ⟨rfl, ih⟩

theorem Operand.inOperands_listTokens (operands : List Operand) :
    ∀ token ∈ listTokens operands, token.inOperands = true := by
  fun_induction listTokens operands with
  | case1 => nofun
  | case2 operand => exact operand.inOperands_tokens
  | case3 operand operands _ ih =>
      exact List.forall_mem_append.mpr
        ⟨operand.inOperands_tokens, List.forall_mem_cons.mpr ⟨rfl, ih⟩⟩

/-- What holds of the tokens of a tree holds of the line it comes from. -/
theorem inOperands_of_plainTokens {ls : List Lexeme} {tokens : List Token}
    (heq : tokens = plainTokens ls) (h : ∀ token ∈ tokens, token.inOperands = true) {l : Lexeme}
    (hl : l ∈ ls) : l.token.inOperands = true := by
  rw [← Token.inOperands_plain]
  exact h _ (heq ▸ List.mem_map_of_mem hl)

theorem Operand.Derives.inOperands {ls : List Lexeme} {operand : Operand} (h : operand.Derives ls)
    {l : Lexeme} (hl : l ∈ ls) : l.token.inOperands = true :=
  inOperands_of_plainTokens h.tokens_eq operand.inOperands_tokens hl

theorem Operand.DerivesArguments.inOperands {ls : List Lexeme} {operands : List Operand}
    (h : DerivesArguments ls operands) {l : Lexeme} (hl : l ∈ ls) : l.token.inOperands = true :=
  inOperands_of_plainTokens h.tokens_eq (Operand.inOperands_listTokens operands) hl

/-- There is no colon in a statement. -/
theorem Statement.Derives.colon_not_mem {ls : List Lexeme} {statement : Statement}
    (h : statement.Derives ls) : .symbol .colon ∉ ls.map Lexeme.token := by
  intro hcolon
  obtain ⟨⟨_, span⟩, hl, rfl⟩ := List.mem_map.mp hcolon
  cases h with
  | @assignment ls value name equals h =>
      have hmem : ⟨.symbol .colon, span⟩ ∈ ls := by simpa using hl
      have := inOperands_of_plainTokens h.tokens_eq value.inOperands_tokens hmem
      cases this
  | directive name kind hname h =>
      have := h.inOperands (List.mem_of_ne_of_mem (by simp) hl)
      cases this
  | instruction name hname h =>
      have := h.inOperands (List.mem_of_ne_of_mem (by simp) hl)
      cases this
  | bare h =>
      have := h.inOperands hl
      cases this

end RecipeDesk.Assembler
