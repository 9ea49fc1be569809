import Mathlib.Data.List.Basic
import RecipeDesk.Proofs.Assembler.Reading
import RecipeDesk.Proofs.Text.Relocation

/-!
# Tokens in other places

Reading a line never looks at where its tokens stand. It copies their places into the tree, or into
the error, and that is all. So if the tokens are taken to other places, by whatever map of places,
the same lines are read, and their trees and errors are taken along.

`Commutes` says this of one reader, and is carried from reader to reader along the grammar.
`statements_relocate` and `syntaxErrors_relocate` say it of all lines of a listing.
-/

namespace RecipeDesk.Assembler

section Trees

variable (move : Position → Position)

/-- A token in another place. -/
def Lexeme.relocate (l : Lexeme) : Lexeme := ⟨l.token, l.span.relocate move⟩

/-- A name in another place. -/
def Name.relocate (name : Name) : Name := ⟨name.text, name.span.relocate move⟩

/-- An expression in another place. -/
def Expr.relocate : Expr → Expr
  | symbol span name => symbol (span.relocate move) name
  | integer span value => integer (span.relocate move) value
  | text span content => text (span.relocate move) content
  | binary op left right => binary op left.relocate right.relocate
  | negate sign operand => negate (move sign) operand.relocate

/-- An operand in another place. -/
def Operand.relocate : Operand → Operand
  | absolute span value => absolute (span.relocate move) (value.relocate move)
  | immediate span value => immediate (span.relocate move) (value.relocate move)
  | postIncrement span register => postIncrement (span.relocate move) (register.relocate move)
  | preDecrement span register => preDecrement (span.relocate move) (register.relocate move)
  | indirect span register displacement =>
    indirect (span.relocate move) (register.relocate move)
      (displacement.map (Expr.relocate move))
  | doubleIndirect span operand => doubleIndirect (span.relocate move) operand.relocate

/-- A statement in another place. -/
def Statement.relocate : Statement → Statement
  | label span name => label (span.relocate move) (name.relocate move)
  | assignment span name value =>
    assignment (span.relocate move) (name.relocate move) (value.relocate move)
  | directive span kind keyword operands =>
    directive (span.relocate move) kind (keyword.relocate move)
      (operands.map (Operand.relocate move))
  | instruction span mnemonic operands =>
    instruction (span.relocate move) (mnemonic.map (Name.relocate move))
      (operands.map (Operand.relocate move))

/-- A syntax error in another place. -/
def SyntaxError.relocate (error : SyntaxError) : SyntaxError :=
  ⟨error.span.relocate move, error.expected, error.found⟩

@[simp] theorem Lexeme.token_relocate (l : Lexeme) : (l.relocate move).token = l.token := rfl

@[simp] theorem Lexeme.span_relocate (l : Lexeme) :
    (l.relocate move).span = l.span.relocate move := rfl

@[simp] theorem Expr.span_relocate (value : Expr) :
    (value.relocate move).span = value.span.relocate move := by
  induction value with
  | binary op left right ihleft ihright => simp [relocate, span, ihleft, ihright, Span.relocate]
  | negate sign operand ih => simp [relocate, span, ih, Span.relocate]
  | _ => rfl

@[simp] theorem Operand.span_relocate (operand : Operand) :
    (operand.relocate move).span = operand.span.relocate move := by
  cases operand <;> rfl

end Trees

variable (move : Position → Position)

theorem map_token_relocate (ls : List Lexeme) :
    (ls.map (Lexeme.relocate move)).map Lexeme.token = ls.map Lexeme.token := by
  rw [List.map_map]
  rfl

/-! ### Readers -/

/-- What a reader makes of relocated tokens is what it makes of the tokens, relocated. -/
def Commutes {α : Type} (carry : α → α)
    (read : List Lexeme → Option (α × List Lexeme)) : Prop :=
  ∀ ls, read (ls.map (Lexeme.relocate move)) =
    (read ls).map fun found => (carry found.1, found.2.map (Lexeme.relocate move))

namespace Expr

theorem ofLexeme?_relocate (l : Lexeme) :
    ofLexeme? (l.relocate move) = (ofLexeme? l).map (relocate move) := by
  obtain ⟨token, span⟩ := l
  cases token <;> rfl

theorem readFactor?_commutes : Commutes move (relocate move) readFactor? := by
  intro ls
  induction ls with
  | nil => rfl
  | cons first rest ih =>
      rw [List.map_cons, readFactor?, readFactor?, ofLexeme?_relocate, Lexeme.token_relocate, ih]
      by_cases hminus : first.token = .symbol .minus
      · rw [if_pos hminus, if_pos hminus]
        cases readFactor? rest <;> rfl
      · rw [if_neg hminus, if_neg hminus]
        cases ofLexeme? first <;> rfl

theorem readChain?_relocate {op? : Token → Option BinaryOp}
    {next : List Lexeme → Option (Expr × List Lexeme)} (progress : Progresses next)
    (hnext : Commutes move (relocate move) next) (left : Expr) (ls : List Lexeme) :
    readChain? op? next progress (left.relocate move) (ls.map (Lexeme.relocate move)) =
      (readChain? op? next progress left ls).map fun found =>
        (found.1.relocate move, found.2.map (Lexeme.relocate move)) := by
  fun_induction readChain? op? next progress left ls with
  | case1 left => rw [List.map_nil, readChain?]; rfl
  | case2 left first rest hop =>
      rw [List.map_cons, readChain?, Lexeme.token_relocate, hop]
      rfl
  | case3 left first rest op hop hnone =>
      have hmoved := hnext rest
      rw [hnone] at hmoved
      rw [List.map_cons, readChain?, Lexeme.token_relocate, hop]
      dsimp only
      split
      · rfl
      · next hsome => rw [hsome] at hmoved; cases hmoved
  | case4 left first rest op hop right rest' hsome ih =>
      have hmoved := hnext rest
      rw [hsome] at hmoved
      rw [← ih, List.map_cons, readChain?, Lexeme.token_relocate,
        hop]
      dsimp only
      split
      · next hnone => rw [hnone] at hmoved; cases hmoved
      · next hfound => rw [hfound] at hmoved; cases hmoved; rfl

theorem readProduct?_commutes : Commutes move (relocate move) readProduct? := by
  intro ls
  rw [readProduct?, readProduct?, readFactor?_commutes move ls]
  cases readFactor? ls with
  | none => rfl
  | some found => exact readChain?_relocate move length_readFactor? (readFactor?_commutes move) _ _

theorem read?_commutes : Commutes move (relocate move) read? := by
  intro ls
  rw [read?, read?, readProduct?_commutes move ls]
  cases readProduct? ls with
  | none => rfl
  | some found =>
      exact readChain?_relocate move length_readProduct? (readProduct?_commutes move) _ _

end Expr

namespace Operand

theorem readRegister?_relocate (ls : List Lexeme) :
    readRegister? (ls.map (Lexeme.relocate move)) =
      (readRegister? ls).map fun found =>
        (found.1.relocate move, move found.2.1, found.2.2.map (Lexeme.relocate move)) := by
  fun_cases readRegister? ls with
  | case1 opening name span close rest => rfl
  | case2 ls hother =>
      unfold readRegister?
      split
      · next hmoved =>
          -- relocated tokens are in the shape of a register only if the tokens themselves are
          obtain ⟨⟨_, opening⟩, _, rfl, hfirst, hmoved⟩ := List.map_eq_cons_iff.mp hmoved
          obtain ⟨⟨_, span⟩, _, rfl, hsecond, hmoved⟩ := List.map_eq_cons_iff.mp hmoved
          obtain ⟨⟨_, close⟩, rest, rfl, hthird, -⟩ := List.map_eq_cons_iff.mp hmoved
          cases hfirst
          cases hsecond
          cases hthird
          exact absurd rfl (hother _ _ _ _ _)
      · rfl

theorem readIndexed?_commutes : Commutes move (relocate move) readIndexed? := by
  intro ls
  rw [readIndexed?, readIndexed?, Expr.read?_commutes move ls]
  cases Expr.read? ls with
  | none => rfl
  | some found =>
      obtain ⟨value, rest⟩ := found
      simp only [Option.map_some, readRegister?_relocate]
      cases readRegister? rest with
      | none => simp [relocate]
      | some register => simp [relocate, Span.relocate]

theorem readDeferred?_relocate (start : Position) (ls : List Lexeme) :
    readDeferred? (move start) (ls.map (Lexeme.relocate move)) =
      (readDeferred? start ls).map fun found =>
        (found.1.relocate move, found.2.map (Lexeme.relocate move)) := by
  rw [readDeferred?, readDeferred?, readRegister?_relocate]
  cases readRegister? ls with
  | none => rfl
  | some found =>
      obtain ⟨register, stop, rest⟩ := found
      cases rest with
      | nil => rfl
      | cons first rest =>
          obtain ⟨token, span⟩ := first
          by_cases hplus : token = .symbol .plus
          · subst hplus
            rfl
          · simp [Lexeme.relocate, relocate, Span.relocate, hplus]

theorem read?_commutes : Commutes move (relocate move) read? := by
  intro ls
  induction ls with
  | nil => rfl
  | cons first rest ih =>
      have hindexed := readIndexed?_commutes move (first :: rest)
      rw [List.map_cons] at hindexed ⊢
      rw [read?, read?, Lexeme.token_relocate]
      split
      · rw [Expr.read?_commutes move rest]
        cases Expr.read? rest <;> simp [relocate, Span.relocate]
      · rw [ih]
        cases read? rest <;> simp [relocate, Span.relocate]
      · exact readDeferred?_relocate move first.span.start (first :: rest)
      · rw [readRegister?_relocate]
        cases readRegister? rest with
        | none => exact hindexed
        | some register => rfl
      · exact hindexed

/-- Reading operands, without the proof that the rest gets shorter. -/
theorem readAll?_eq (ls : List Lexeme) :
    readAll? ls = (read? ls).bind fun found =>
      match found.2 with
      | [] => some [found.1]
      | separator :: rest =>
        if separator.token = .symbol .comma then (readAll? rest).map (found.1 :: ·) else none := by
  rw [readAll?]
  split <;> simp_all

theorem readAll?_relocate (ls : List Lexeme) :
    readAll? (ls.map (Lexeme.relocate move)) =
      (readAll? ls).map (List.map (relocate move)) := by
  rw [readAll?_eq, read?_commutes move ls]
  fun_induction readAll? ls with
  | case1 ls hnone => rw [hnone]; rfl
  | case2 ls operand hread => rw [hread]; rfl
  | case3 ls operand separator rest hread hcomma ih =>
      rw [← read?_commutes move rest, ← readAll?_eq] at ih
      rw [hread]
      simp only [Option.map_some, Option.bind_some, List.map_cons, Lexeme.token_relocate, hcomma,
        if_true, ih]
      cases readAll? rest <;> rfl
  | case4 ls operand separator rest hread hcomma =>
      rw [hread]
      simp [hcomma]

end Operand

namespace Statement

theorem ofMnemonic_relocate (name : Name) (operands : List Operand) :
    ofMnemonic (name.relocate move) (operands.map (Operand.relocate move)) =
      (ofMnemonic name operands).relocate move := by
  have hstop : (((operands.map (Operand.relocate move)).getLast?.map (·.span.stop)).getD
      (move name.span.stop)) =
        move ((operands.getLast?.map (·.span.stop)).getD name.span.stop) := by
    rw [List.getLast?_map]
    cases operands.getLast? <;> simp [Span.relocate]
  unfold ofMnemonic
  simp only [Name.relocate, Span.relocate, hstop]
  cases Directive.ofName? name.text <;> rfl

theorem readMnemonic?_relocate (name : Name) (rest : List Lexeme) :
    readMnemonic? (name.relocate move) (rest.map (Lexeme.relocate move)) =
      (readMnemonic? name rest).map (relocate move) := by
  rw [readMnemonic?, readMnemonic?, List.isEmpty_map, Operand.readAll?_relocate]
  split
  · exact congrArg some (ofMnemonic_relocate move name [])
  · cases Operand.readAll? rest with
    | none => rfl
    | some operands => exact congrArg some (ofMnemonic_relocate move name operands)

theorem readBare?_relocate (ls : List Lexeme) :
    readBare? (ls.map (Lexeme.relocate move)) = (readBare? ls).map (relocate move) := by
  rw [readBare?, readBare?, Operand.read?_commutes move ls]
  cases Operand.read? ls with
  | none => rfl
  | some found =>
      obtain ⟨operand, rest⟩ := found
      cases rest with
      | nil => simp [relocate]
      | cons first rest => rfl

theorem readAssigned?_relocate (name : Name) (rest : List Lexeme) :
    readAssigned? (name.relocate move) (rest.map (Lexeme.relocate move)) =
      (readAssigned? name rest).map (relocate move) := by
  rw [readAssigned?, readAssigned?, Expr.read?_commutes move rest]
  cases Expr.read? rest with
  | none => rfl
  | some found =>
      obtain ⟨value, rest⟩ := found
      cases rest with
      | nil => simp [relocate, Name.relocate, Span.relocate]
      | cons first rest => rfl

theorem read?_relocate (ls : List Lexeme) :
    read? (ls.map (Lexeme.relocate move)) = (read? ls).map (relocate move) := by
  fun_cases read? ls with
  | case1 name span equals rest => exact readAssigned?_relocate move ⟨name, span⟩ rest
  | case2 name span rest hequals =>
      have hrest : ∀ tokens,
          (rest.map (Lexeme.relocate move)).map Lexeme.token ≠ .symbol .equals :: tokens := by
        intro tokens heq
        rw [map_token_relocate] at heq
        obtain ⟨⟨_, span'⟩, tail, rfl, rfl, -⟩ := List.map_eq_cons_iff.mp heq
        exact hequals _ _ rfl
      have hmnemonic := readMnemonic?_relocate move ⟨name, span⟩ rest
      have hbare := readBare?_relocate move (⟨.ident name, span⟩ :: rest)
      have hname := read?_of_name (Name.relocate move ⟨name, span⟩) hrest
      rw [hmnemonic] at hname
      refine hname.trans ((congrArg (_ <|> ·) hbare).trans ?_)
      cases readMnemonic? ⟨name, span⟩ rest <;> rfl
  | case3 ls _ hother =>
      rw [read?_of_not_name, readBare?_relocate]
      intro name tokens heq
      rw [map_token_relocate] at heq
      obtain ⟨⟨_, span⟩, rest, rfl, rfl, -⟩ := List.map_eq_cons_iff.mp heq
      exact hother _ _ _ rfl

end Statement

/-! ### Lines -/

theorem readLine?_relocate (ls : List Lexeme) :
    readLine? (ls.map (Lexeme.relocate move)) =
      (readLine? ls).map (List.map (Statement.relocate move)) := by
  fun_induction readLine? ls with
  | case1 => rfl
  | case2 name span colon rest ih =>
      simp only [List.map_cons, Lexeme.relocate, readLine?, ih]
      cases readLine? rest <;> rfl
  | case3 ls hne hlabel =>
      rw [readLine?_of_not_label, Statement.read?_relocate]
      · cases Statement.read? ls <;> rfl
      · intro hnil
        exact hne (List.map_eq_nil_iff.mp hnil)
      · intro name tokens heq
        rw [map_token_relocate] at heq
        obtain ⟨⟨_, span⟩, rest, rfl, rfl, hrest⟩ := List.map_eq_cons_iff.mp heq
        obtain ⟨⟨_, colon⟩, rest, rfl, rfl, -⟩ := List.map_eq_cons_iff.mp hrest
        exact hlabel _ _ _ _ rfl

theorem Stage.follow_relocate (stage : Stage) (ls : List Lexeme) :
    stage.follow (ls.map (Lexeme.relocate move)) =
      ((stage.follow ls).1, (stage.follow ls).2.map (Lexeme.relocate move)) := by
  induction ls generalizing stage with
  | nil => rfl
  | cons first rest ih =>
      rw [List.map_cons, follow, follow, Lexeme.token_relocate]
      cases stage.step first.token with
      | none => rfl
      | some next => exact ih next

/-- The error behind the last token needs a last token. -/
theorem SyntaxError.ofLine_relocate {ls : List Lexeme} (hne : ls ≠ []) :
    ofLine (ls.map (Lexeme.relocate move)) = (ofLine ls).relocate move := by
  rw [ofLine, ofLine, Stage.follow_relocate]
  obtain ⟨stage, rest⟩ := Stage.start.follow ls
  cases rest with
  | cons first rest => rfl
  | nil =>
      rw [List.getLast?_map, List.getLast?_eq_some_getLast hne]
      rfl

theorem parseLine_relocate {ls : List Lexeme} (hne : ls ≠ []) :
    parseLine (ls.map (Lexeme.relocate move)) =
      ((parseLine ls).map (List.map (Statement.relocate move))).mapError
        (SyntaxError.relocate move) := by
  rw [parseLine, parseLine, readLine?_relocate, SyntaxError.ofLine_relocate move hne]
  cases readLine? ls <;> rfl

theorem lineStatements_relocate {ls : List Lexeme} (hne : ls ≠ []) :
    lineStatements (ls.map (Lexeme.relocate move)) =
      (lineStatements ls).map (Statement.relocate move) := by
  rw [lineStatements, lineStatements, parseLine_relocate move hne]
  cases parseLine ls <;> rfl

theorem lineError?_relocate {ls : List Lexeme} (hne : ls ≠ []) :
    lineError? (ls.map (Lexeme.relocate move)) =
      (lineError? ls).map (SyntaxError.relocate move) := by
  rw [lineError?, lineError?, parseLine_relocate move hne]
  cases parseLine ls <;> rfl

theorem splitLines_relocate (ls : List Lexeme) :
    splitLines (ls.map (Lexeme.relocate move)) =
      (splitLines ls).map (List.map (Lexeme.relocate move)) := by
  induction ls with
  | nil => rfl
  | cons first rest ih =>
      rw [List.map_cons, splitLines, splitLines, Lexeme.token_relocate, ih]
      split
      · rfl
      · cases splitLines rest <;> rfl

theorem tokenLines_relocate (ls : List Lexeme) :
    tokenLines (ls.map (Lexeme.relocate move)) =
      (tokenLines ls).map (List.map (Lexeme.relocate move)) := by
  rw [tokenLines, splitLines_relocate, List.filter_map, tokenLines]
  simp [Function.comp_def]

theorem ne_nil_of_mem_tokenLines {ls line : List Lexeme} (h : line ∈ tokenLines ls) :
    line ≠ [] := by
  simpa using (List.mem_filter.mp h).2

/-- **The statements of relocated tokens are the statements, relocated.** -/
theorem statements_relocate (ls : List Lexeme) :
    statements (ls.map (Lexeme.relocate move)) =
      (statements ls).map (Statement.relocate move) := by
  rw [statements, statements, tokenLines_relocate, List.flatMap_map, List.map_flatMap]
  exact List.flatMap_congr fun line hline =>
    lineStatements_relocate move (ne_nil_of_mem_tokenLines hline)

/-- **The errors of relocated tokens are the errors, relocated.** -/
theorem syntaxErrors_relocate (ls : List Lexeme) :
    syntaxErrors (ls.map (Lexeme.relocate move)) =
      (syntaxErrors ls).map (SyntaxError.relocate move) := by
  rw [syntaxErrors, syntaxErrors, tokenLines_relocate, List.filterMap_map, List.map_filterMap]
  exact List.filterMap_congr fun line hline =>
    lineError?_relocate move (ne_nil_of_mem_tokenLines hline)

end RecipeDesk.Assembler
