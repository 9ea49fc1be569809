import RecipeDesk.Proofs.Assembler.Reading

/-!
# Stages and the grammar

The stages of a line are an automaton, and it accepts exactly the lines that derive
(`Stage.accepts_start_iff`). The automaton knows less than the grammar: one stage stands for several
places of a derivation at once. So the two directions go different ways.

* What derives is accepted: every rule is run from the stage where it begins, with any accepted
  tokens behind it. Where one stage stands for several places, it goes on with whatever each of them
  goes on with (`Stage.Below`).
* What is accepted derives: for every stage, `Stage.Completes` says in terms of the grammar which
  tokens complete a line that has come this far, and a step backwards keeps it.

All that a step can do is said once, in `Stage.Steps`.
-/

namespace RecipeDesk.Assembler

/-! ### Steps -/

/-- Whether a token is a factor by itself. -/
def Token.isAtom : Token → Bool
  | ident _ | integer _ _ | char _ | text _ => true
  | _ => false

/-- Whether a token stands between two factors. -/
def Token.isOperator : Token → Bool
  | symbol .plus | symbol .minus | symbol .star => true
  | _ => false

/-- What may stand behind an operand: nothing, or, where operands are listed, a comma and `More`. -/
inductive Operand.Tail (More : List Lexeme → Prop) (listed : Bool) : List Lexeme → Prop where
  | done : Tail More listed []
  | more {ls : List Lexeme} (comma : Span) (hlisted : listed = true) (h : More ls) :
    Tail More listed (⟨.symbol .comma, comma⟩ :: ls)

namespace Stage

/-- The steps over the first token of an operand. -/
inductive Opens (listed : Bool) : Token → Stage → Prop where
  | atom {token : Token} (h : token.isAtom = true) : Opens listed token (expr ⟨true, listed⟩)
  | sharp : Opens listed (.symbol .sharp) (factor ⟨false, listed⟩)
  | paren : Opens listed (.symbol .leftParen) (paren ⟨true, listed⟩)
  | minus : Opens listed (.symbol .minus) (minus listed)
  | atSign : Opens listed (.symbol .atSign) (operand listed)

/-- All steps, stage by stage. -/
inductive Steps : Stage → Token → Stage → Prop where
  | name (name : String) : Steps start (.ident name) head
  | bare {token : Token} {next : Stage} (hname : ∀ name, token ≠ .ident name)
    (h : Opens false token next) : Steps start token next
  | label : Steps head (.symbol .colon) start
  | assign : Steps head (.symbol .equals) (factor ⟨false, false⟩)
  | combine {mark : Symbol} (h : mark = .plus ∨ mark = .star) :
    Steps head (.symbol mark) (factor ⟨true, false⟩)
  | argument {token : Token} {next : Stage} (h : Opens true token next) : Steps head token next
  | operand {listed : Bool} {token : Token} {next : Stage} (h : Opens listed token next) :
    Steps (operand listed) token next
  | decrement (listed : Bool) :
    Steps (minus listed) (.symbol .leftParen) (paren ⟨false, listed⟩)
  | minusNegate (listed : Bool) : Steps (minus listed) (.symbol .minus) (factor ⟨true, listed⟩)
  | minusAtom {listed : Bool} {token : Token} (h : token.isAtom = true) :
    Steps (minus listed) token (expr ⟨true, listed⟩)
  | negate (after : AfterExpr) : Steps (factor after) (.symbol .minus) (factor after)
  | atom {after : AfterExpr} {token : Token} (h : token.isAtom = true) :
    Steps (factor after) token (expr after)
  | operator {after : AfterExpr} {token : Token} (h : token.isOperator = true) :
    Steps (expr after) token (factor after)
  | index {after : AfterExpr} (h : after.register = true) :
    Steps (expr after) (.symbol .leftParen) (paren ⟨false, after.comma⟩)
  | exprComma {after : AfterExpr} (h : after.comma = true) :
    Steps (expr after) (.symbol .comma) (operand true)
  | register {after : AfterRegister} (name : String) :
    Steps (paren after) (.ident name) (register after)
  | close (after : AfterRegister) : Steps (register after) (.symbol .rightParen) (closed after)
  | increment {after : AfterRegister} (h : after.plus = true) :
    Steps (closed after) (.symbol .plus) (closed ⟨false, after.comma⟩)
  | closedComma {after : AfterRegister} (h : after.comma = true) :
    Steps (closed after) (.symbol .comma) (operand true)

theorem beginOperand_eq_some_iff {listed : Bool} {token : Token} {next : Stage} :
    beginOperand listed token = some next ↔ Opens listed token next := by
  constructor
  · intro h
    cases token with
    | symbol mark =>
        cases mark with
        | sharp =>
            cases h
            exact .sharp
        | leftParen =>
            cases h
            exact .paren
        | minus =>
            cases h
            exact .minus
        | atSign =>
            cases h
            exact .atSign
        | _ => nomatch h
    | endOfLine | endOfFile => nomatch h
    | _ =>
        cases h
        exact .atom rfl
  · intro h
    cases h with
    | atom h => cases token <;> first | rfl | nomatch h
    | _ => rfl

theorem steps_of_step {stage : Stage} {token : Token} {next : Stage}
    (h : stage.step token = some next) : Steps stage token next := by
  cases stage with
  | start =>
      cases token with
      | ident name =>
          cases h
          exact .name name
      | _ => exact .bare nofun (beginOperand_eq_some_iff.mp h)
  | head =>
      cases token with
      | symbol mark =>
          cases mark with
          | colon =>
              cases h
              exact .label
          | equals =>
              cases h
              exact .assign
          | plus =>
              cases h
              exact .combine (.inl rfl)
          | star =>
              cases h
              exact .combine (.inr rfl)
          | _ => exact .argument (beginOperand_eq_some_iff.mp h)
      | _ => exact .argument (beginOperand_eq_some_iff.mp h)
  | operand listed => exact .operand (beginOperand_eq_some_iff.mp h)
  | minus listed =>
      cases token with
      | symbol mark =>
          cases mark with
          | leftParen =>
              cases h
              exact .decrement listed
          | minus =>
              cases h
              exact .minusNegate listed
          | _ => nomatch h
      | endOfLine | endOfFile => nomatch h
      | _ =>
          cases h
          exact .minusAtom rfl
  | factor after =>
      cases token with
      | symbol mark =>
          cases mark with
          | minus =>
              cases h
              exact .negate after
          | _ => nomatch h
      | endOfLine | endOfFile => nomatch h
      | _ =>
          cases h
          exact .atom rfl
  | expr after =>
      cases token with
      | symbol mark =>
          cases mark with
          | plus | minus | star =>
              cases h
              exact .operator rfl
          | leftParen =>
              obtain ⟨hregister, ⟨⟩⟩ := Option.ite_none_right_eq_some.mp h
              exact .index hregister
          | comma =>
              obtain ⟨hcomma, ⟨⟩⟩ := Option.ite_none_right_eq_some.mp h
              exact .exprComma hcomma
          | _ => nomatch h
      | _ => nomatch h
  | paren after =>
      cases token with
      | ident name =>
          cases h
          exact .register name
      | _ => nomatch h
  | register after =>
      cases token with
      | symbol mark =>
          cases mark with
          | rightParen =>
              cases h
              exact .close after
          | _ => nomatch h
      | _ => nomatch h
  | closed after =>
      cases token with
      | symbol mark =>
          cases mark with
          | plus =>
              obtain ⟨hplus, ⟨⟩⟩ := Option.ite_none_right_eq_some.mp h
              exact .increment hplus
          | comma =>
              obtain ⟨hcomma, ⟨⟩⟩ := Option.ite_none_right_eq_some.mp h
              exact .closedComma hcomma
          | _ => nomatch h
      | _ => nomatch h

theorem step_eq_some_iff {stage : Stage} {token : Token} {next : Stage} :
    stage.step token = some next ↔ Steps stage token next := by
  refine ⟨steps_of_step, fun h => ?_⟩
  cases h with
  | bare hname h =>
      have hopen := beginOperand_eq_some_iff.mpr h
      cases token with
      | ident name => exact absurd rfl (hname name)
      | _ => exact hopen
  | combine h => rcases h with rfl | rfl <;> rfl
  | argument h =>
      have hopen := beginOperand_eq_some_iff.mpr h
      cases h with
      | atom h => cases token <;> first | exact hopen | nomatch h
      | _ => exact hopen
  | operand h => exact beginOperand_eq_some_iff.mpr h
  | minusAtom h => cases token <;> first | rfl | nomatch h
  | atom h => cases token <;> first | rfl | nomatch h
  | operator h =>
      rcases token with ⟨mark⟩ | _
      · cases mark <;> first | rfl | nomatch h
      all_goals nomatch h
  | index h => exact if_pos h
  | exprComma h => exact if_pos h
  | increment h => exact if_pos h
  | closedComma h => exact if_pos h
  | _ => rfl

/-! ### What is accepted -/

/-- From here the tokens lead to a stage where the line may end. -/
def Accepts : Stage → List Lexeme → Prop
  | stage, [] => stage.mayEnd = true
  | stage, first :: rest => ∃ next, stage.step first.token = some next ∧ next.Accepts rest

/-- The second stage goes on with whatever the first goes on with. -/
inductive Below : Stage → Stage → Prop where
  | refl (stage : Stage) : Below stage stage
  | start : Below (operand false) start
  | arguments : Below (operand true) head
  | head : Below (expr ⟨true, false⟩) head
  | operand (listed : Bool) : Below (factor ⟨true, listed⟩) (operand listed)
  | minus {after : AfterExpr} {listed : Bool} (hcomma : after.comma = true → listed = true) :
    Below (factor after) (minus listed)
  | factor {a b : AfterExpr} (hregister : a.register = true → b.register = true)
    (hcomma : a.comma = true → b.comma = true) : Below (factor a) (factor b)
  | expr {a b : AfterExpr} (hregister : a.register = true → b.register = true)
    (hcomma : a.comma = true → b.comma = true) : Below (expr a) (expr b)
  | paren {a b : AfterRegister} (hplus : a.plus = true → b.plus = true)
    (hcomma : a.comma = true → b.comma = true) : Below (paren a) (paren b)
  | register {a b : AfterRegister} (hplus : a.plus = true → b.plus = true)
    (hcomma : a.comma = true → b.comma = true) : Below (register a) (register b)
  | closed {a b : AfterRegister} (hplus : a.plus = true → b.plus = true)
    (hcomma : a.comma = true → b.comma = true) : Below (closed a) (closed b)

namespace Below

theorem mayEnd {stage other : Stage} (h : Below stage other) (hend : stage.mayEnd = true) :
    other.mayEnd = true := by
  cases h with
  | refl => exact hend
  | _ => first | rfl | nomatch hend

theorem steps {stage other next : Stage} {token : Token} (h : Below stage other)
    (hstep : Steps stage token next) : ∃ next', Steps other token next' ∧ Below next next' := by
  cases h with
  | refl => exact ⟨next, hstep, .refl next⟩
  | start =>
      cases hstep with
      | operand hopen =>
          -- behind a name the two part: `head` has to allow for labels and mnemonics
          cases hopen with
          | @atom token h =>
              cases token with
              | ident name => exact ⟨_, .name name, .head⟩
              | _ => exact ⟨_, .bare nofun (.atom h), .refl _⟩
          | sharp => exact ⟨_, .bare nofun .sharp, .refl _⟩
          | paren => exact ⟨_, .bare nofun .paren, .refl _⟩
          | minus => exact ⟨_, .bare nofun .minus, .refl _⟩
          | atSign => exact ⟨_, .bare nofun .atSign, .refl _⟩
  | arguments =>
      cases hstep with
      | operand hopen => exact ⟨next, .argument hopen, .refl next⟩
  | head =>
      cases hstep with
      | @operator _ token hop =>
          rcases token with ⟨mark⟩ | _
          · cases mark with
            | plus => exact ⟨_, .combine (.inl rfl), .refl _⟩
            | star => exact ⟨_, .combine (.inr rfl), .refl _⟩
            | minus => exact ⟨_, .argument .minus, .minus nofun⟩
            | _ => nomatch hop
          all_goals nomatch hop
      | index => exact ⟨_, .argument .paren, .paren nofun nofun⟩
      | exprComma hcomma => nomatch hcomma
  | operand listed =>
      cases hstep with
      | negate => exact ⟨_, .operand .minus, .minus id⟩
      | atom hatom => exact ⟨_, .operand (.atom hatom), .refl _⟩
  | minus hcomma =>
      cases hstep with
      | negate => exact ⟨_, .minusNegate _, .factor (fun _ => rfl) hcomma⟩
      | atom hatom => exact ⟨_, .minusAtom hatom, .expr (fun _ => rfl) hcomma⟩
  | factor hregister hcomma =>
      cases hstep with
      | negate => exact ⟨_, .negate _, .factor hregister hcomma⟩
      | atom hatom => exact ⟨_, .atom hatom, .expr hregister hcomma⟩
  | expr hregister hcomma =>
      cases hstep with
      | operator hop => exact ⟨_, .operator hop, .factor hregister hcomma⟩
      | index h => exact ⟨_, .index (hregister h), .paren id hcomma⟩
      | exprComma h => exact ⟨_, .exprComma (hcomma h), .refl _⟩
  | paren hplus hcomma =>
      cases hstep with
      | register name => exact ⟨_, .register name, .register hplus hcomma⟩
  | register hplus hcomma =>
      cases hstep with
      | close => exact ⟨_, .close _, .closed hplus hcomma⟩
  | closed hplus hcomma =>
      cases hstep with
      | increment h => exact ⟨_, .increment (hplus h), .closed id hcomma⟩
      | closedComma h => exact ⟨_, .closedComma (hcomma h), .refl _⟩

theorem accepts {stage other : Stage} {ls : List Lexeme} (h : Below stage other)
    (haccepts : stage.Accepts ls) : other.Accepts ls := by
  induction ls generalizing stage other with
  | nil => exact h.mayEnd haccepts
  | cons l ls ih =>
      obtain ⟨next, hstep, hnext⟩ := haccepts
      obtain ⟨next', hstep', hbelow⟩ := h.steps (step_eq_some_iff.mp hstep)
      exact ⟨next', step_eq_some_iff.mpr hstep', ih hbelow hnext⟩

end Below

/-! ### What derives is accepted -/

theorem accepts_factor {after : AfterExpr} {ls rest : List Lexeme} {value : Expr}
    (h : value.DerivesFactor ls) (hrest : (expr after).Accepts rest) :
    (factor after).Accepts (ls ++ rest) := by
  induction h with
  | negate sign _ ih => exact ⟨_, rfl, ih⟩
  | _ => exact ⟨_, rfl, hrest⟩

theorem accepts_chain {after : AfterExpr} {op? : Token → Option BinaryOp}
    {Item : List Lexeme → Expr → Prop}
    (hop : ∀ token op, op? token = some op → (expr after).step token = some (factor after))
    (hitem : ∀ {ls rest value}, Item ls value → (expr after).Accepts rest →
      (factor after).Accepts (ls ++ rest))
    {ls rest : List Lexeme} {value : Expr} (h : Expr.DerivesChain op? Item ls value)
    (hrest : (expr after).Accepts rest) : (factor after).Accepts (ls ++ rest) := by
  induction h generalizing rest with
  | item h => exact hitem h hrest
  | operate _ hsign hright ih =>
      rw [List.append_assoc]
      exact ih ⟨_, hop _ _ hsign, hitem hright hrest⟩

theorem accepts_expr {after : AfterExpr} {ls rest : List Lexeme} {value : Expr}
    (h : value.Derives ls) (hrest : (expr after).Accepts rest) :
    (factor after).Accepts (ls ++ rest) := by
  have hproduct {ls rest : List Lexeme} {value : Expr} (h : value.DerivesProduct ls)
      (hrest : (expr after).Accepts rest) : (factor after).Accepts (ls ++ rest) := by
    refine accepts_chain ?_ accepts_factor h hrest
    intro token op hop
    obtain rfl := Expr.eq_of_productOp? hop
    cases op <;> rfl
  refine accepts_chain ?_ hproduct h hrest
  intro token op hop
  obtain rfl := Expr.eq_of_sumOp? hop
  cases op <;> rfl

theorem expr_accepts_tail {after : AfterExpr} {ls : List Lexeme}
    (h : Operand.Tail (operand true).Accepts after.comma ls) : (expr after).Accepts ls := by
  cases h with
  | done => rfl
  | more comma hlisted h => exact ⟨_, if_pos hlisted, h⟩

theorem closed_accepts_tail {after : AfterRegister} {ls : List Lexeme}
    (h : Operand.Tail (operand true).Accepts after.comma ls) : (closed after).Accepts ls := by
  cases h with
  | done => rfl
  | more comma hlisted h => exact ⟨_, if_pos hlisted, h⟩

theorem accepts_register {stage : Stage} {after : AfterRegister} {ls rest : List Lexeme}
    {register : Name} {span : Span} (h : register.DerivesRegister ls span)
    (hstep : stage.step (.symbol .leftParen) = some (paren after))
    (hrest : (closed after).Accepts rest) : stage.Accepts (ls ++ rest) := by
  cases h
  exact ⟨_, hstep, _, rfl, _, rfl, hrest⟩

theorem accepts_operand {listed : Bool} {ls rest : List Lexeme} {value : Operand}
    (h : value.Derives ls) (hrest : Operand.Tail (operand true).Accepts listed rest) :
    (operand listed).Accepts (ls ++ rest) := by
  induction h with
  | immediate sharp h => exact ⟨_, rfl, accepts_expr h (expr_accepts_tail hrest)⟩
  | deferred h => exact accepts_register h rfl (closed_accepts_tail hrest)
  | postIncrement plus h =>
      rw [List.append_assoc]
      exact accepts_register h rfl ⟨_, rfl, closed_accepts_tail hrest⟩
  | preDecrement minus h => exact ⟨_, rfl, accepts_register h rfl (closed_accepts_tail hrest)⟩
  | doubleIndirect atSign _ ih => exact ⟨_, rfl, ih⟩
  | absolute h =>
      exact (Below.operand listed).accepts (accepts_expr h (expr_accepts_tail hrest))
  | indexed h hregister =>
      rw [List.append_assoc]
      exact (Below.operand listed).accepts
        (accepts_expr h (accepts_register hregister rfl (closed_accepts_tail hrest)))

theorem accepts_list {ls : List Lexeme} {operands : List Operand}
    (h : Operand.DerivesList ls operands) : (operand true).Accepts ls := by
  induction h with
  | @last ls _ h =>
      rw [← List.append_nil ls]
      exact accepts_operand h .done
  | more comma h _ ih => exact accepts_operand h (.more comma rfl ih)

theorem accepts_arguments {ls : List Lexeme} {operands : List Operand}
    (h : Operand.DerivesArguments ls operands) : head.Accepts ls := by
  cases h with
  | none => rfl
  | some h => exact Below.arguments.accepts (accepts_list h)

theorem accepts_statement {ls : List Lexeme} {statement : Statement} (h : statement.Derives ls) :
    start.Accepts ls := by
  cases h with
  | @assignment ls _ name equals h =>
      rw [← List.append_nil ls]
      exact ⟨_, rfl, _, rfl, accepts_expr h rfl⟩
  | directive name kind hname h => exact ⟨_, rfl, accepts_arguments h⟩
  | instruction name hname h => exact ⟨_, rfl, accepts_arguments h⟩
  | bare h =>
      rw [← List.append_nil ls]
      exact Below.start.accepts (accepts_operand h .done)

theorem accepts_line {ls : List Lexeme} {statements : List Statement}
    (h : DerivesLine ls statements) : start.Accepts ls := by
  induction h with
  | nothing => rfl
  | statement h => exact accepts_statement h
  | label name colon _ ih => exact ⟨_, rfl, _, rfl, ih⟩

end Stage

/-! ### Expressions from the front

The grammar groups operators to the left; the stages meet them from the left. Both see the same token
lists as expressions, because whatever is put in front of an expression goes to its first factor or
its first product. -/

namespace Expr

theorem exists_factor_of_isAtom {l : Lexeme} (h : l.token.isAtom = true) :
    ∃ value, DerivesFactor [l] value := by
  obtain ⟨token, span⟩ := l
  cases token with
  | ident name => exact ⟨_, .name span name⟩
  | integer value raw => exact ⟨_, .integer span value raw⟩
  | char c => exact ⟨_, .character span c⟩
  | text content => exact ⟨_, .text span content⟩
  | _ => nomatch h

theorem DerivesChain.prepend {op? : Token → Option BinaryOp} {Item : List Lexeme → Expr → Prop}
    (front : List Lexeme)
    (hitem : ∀ {ls value}, Item ls value → ∃ value', DerivesChain op? Item (front ++ ls) value')
    {ls : List Lexeme} {value : Expr} (h : DerivesChain op? Item ls value) :
    ∃ value', DerivesChain op? Item (front ++ ls) value' := by
  induction h with
  | item h => exact hitem h
  | operate _ hop hright ih =>
      obtain ⟨left, hleft⟩ := ih
      rw [← List.append_assoc]
      exact ⟨_, .operate hleft hop hright⟩

/-- What can be put in front of a factor to make a product can be put in front of an expression. -/
theorem Derives.prepend (front : List Lexeme)
    (hfactor : ∀ {ls value}, DerivesFactor ls value → ∃ value', DerivesProduct (front ++ ls) value')
    {ls : List Lexeme} {value : Expr} (h : value.Derives ls) :
    ∃ value', Derives (front ++ ls) value' := by
  refine DerivesChain.prepend front (fun hproduct => ?_) h
  obtain ⟨value', hproduct'⟩ := DerivesChain.prepend front hfactor hproduct
  exact ⟨value', .item hproduct'⟩

theorem Derives.negate {ls : List Lexeme} {value : Expr} (sign : Span) (h : value.Derives ls) :
    ∃ value', Derives (⟨.symbol .minus, sign⟩ :: ls) value' :=
  h.prepend [⟨.symbol .minus, sign⟩] fun hfactor => ⟨_, .item (.negate sign hfactor)⟩

theorem Derives.operate {l sign : Lexeme} {ls : List Lexeme} {value : Expr}
    (hl : l.token.isAtom = true) (hsign : sign.token.isOperator = true) (h : value.Derives ls) :
    ∃ value', Derives (l :: sign :: ls) value' := by
  obtain ⟨first, hfirst⟩ := exists_factor_of_isAtom hl
  obtain ⟨token, span⟩ := sign
  rcases token with ⟨mark⟩ | _
  · cases mark with
    | star => exact h.prepend [l, _] fun hfactor => ⟨_, .operate (.item hfirst) rfl hfactor⟩
    | plus | minus =>
        refine DerivesChain.prepend [l, _] (fun hproduct => ?_) h
        exact ⟨_, .operate (.item (.item hfirst)) rfl hproduct⟩
    | _ => nomatch hsign
  all_goals nomatch hsign

end Expr

/-! ### What is accepted derives -/

/-- The tokens derive as operands with commas between them. -/
def Operand.IsList (ls : List Lexeme) : Prop := ∃ operands, DerivesList ls operands

/-- An operand and what stands behind it. -/
inductive Operand.Completed (listed : Bool) : List Lexeme → Prop where
  | mk {ls rest : List Lexeme} {operand : Operand} (h : operand.Derives ls)
    (htail : Tail IsList listed rest) : Completed listed (ls ++ rest)

/-- An expression and what stands behind it. -/
inductive AfterExpr.Completed (after : AfterExpr) : List Lexeme → Prop where
  | expr {ls rest : List Lexeme} {value : Expr} (h : value.Derives ls)
    (htail : Operand.Tail Operand.IsList after.comma rest) : Completed after (ls ++ rest)
  | indexed {ls rs rest : List Lexeme} {value : Expr} {register : Name} {span : Span}
    (h : value.Derives ls) (hafter : after.register = true)
    (hregister : register.DerivesRegister rs span)
    (htail : Operand.Tail Operand.IsList after.comma rest) :
    Completed after (ls ++ (rs ++ rest))

/-- What stands behind a register in parentheses. -/
inductive AfterRegister.Completed (after : AfterRegister) : List Lexeme → Prop where
  | closed {rest : List Lexeme} (htail : Operand.Tail Operand.IsList after.comma rest) :
    Completed after rest
  | plus {rest : List Lexeme} (plus : Span) (hafter : after.plus = true)
    (htail : Operand.Tail Operand.IsList after.comma rest) :
    Completed after (⟨.symbol .plus, plus⟩ :: rest)

namespace AfterExpr.Completed

variable {after : AfterExpr} {ls : List Lexeme}

theorem of_atom {l : Lexeme} (hl : l.token.isAtom = true) {rest : List Lexeme}
    (htail : Operand.Tail Operand.IsList after.comma rest) : after.Completed (l :: rest) := by
  obtain ⟨value, hvalue⟩ := Expr.exists_factor_of_isAtom hl
  exact .expr (.item (.item hvalue)) htail

theorem negate (sign : Span) (h : after.Completed ls) :
    after.Completed (⟨.symbol .minus, sign⟩ :: ls) := by
  cases h with
  | expr h htail =>
      obtain ⟨value, hvalue⟩ := h.negate sign
      exact .expr hvalue htail
  | indexed h hafter hregister htail =>
      obtain ⟨value, hvalue⟩ := h.negate sign
      exact .indexed hvalue hafter hregister htail

theorem operate {l sign : Lexeme} (hl : l.token.isAtom = true)
    (hsign : sign.token.isOperator = true) (h : after.Completed ls) :
    after.Completed (l :: sign :: ls) := by
  cases h with
  | expr h htail =>
      obtain ⟨value, hvalue⟩ := h.operate hl hsign
      exact .expr hvalue htail
  | indexed h hafter hregister htail =>
      obtain ⟨value, hvalue⟩ := h.operate hl hsign
      exact .indexed hvalue hafter hregister htail

/-- An expression is an operand, with a register behind it or without. -/
theorem operand {listed : Bool} (h : Completed ⟨true, listed⟩ ls) :
    Operand.Completed listed ls := by
  cases h with
  | expr h htail => exact .mk (.absolute h) htail
  | indexed h _ hregister htail =>
      rw [← List.append_assoc]
      exact .mk (.indexed h hregister) htail

end AfterExpr.Completed

namespace Operand.Completed

/-- Operands of a mnemonic. -/
theorem list {ls : List Lexeme} (h : Completed true ls) : IsList ls := by
  cases h with
  | mk h htail =>
      cases htail with
      | done =>
          rw [List.append_nil]
          exact ⟨_, .last h⟩
      | more comma _ hrest =>
          obtain ⟨operands, hoperands⟩ := hrest
          exact ⟨_, .more comma h hoperands⟩

/-- An operand by itself. -/
theorem bare {ls : List Lexeme} (h : Completed false ls) :
    ∃ statements, DerivesLine ls statements := by
  cases h with
  | mk h htail =>
      cases htail with
      | done =>
          rw [List.append_nil]
          exact ⟨_, .statement (.bare h)⟩
      | more _ hlisted => nomatch hlisted

theorem immediate {listed : Bool} {ls : List Lexeme} (sharp : Span)
    (h : AfterExpr.Completed ⟨false, listed⟩ ls) :
    Completed listed (⟨.symbol .sharp, sharp⟩ :: ls) := by
  cases h with
  | expr h htail => exact .mk (.immediate sharp h) htail
  | indexed _ hafter => nomatch hafter

end Operand.Completed

namespace Stage

/-- The tokens complete every line that has come to this stage. -/
def Completes : Stage → List Lexeme → Prop
  | start, ls => ∃ statements, DerivesLine ls statements
  | head, ls =>
    ∀ name : Name, ∃ statements, DerivesLine (⟨.ident name.text, name.span⟩ :: ls) statements
  | operand listed, ls => Operand.Completed listed ls
  | minus listed, ls => ∀ sign, Operand.Completed listed (⟨.symbol .minus, sign⟩ :: ls)
  | factor after, ls => after.Completed ls
  | expr after, ls => ∀ l : Lexeme, l.token.isAtom = true → after.Completed (l :: ls)
  | paren after, ls =>
    ∃ (name : Name) (closing : Span) (rest : List Lexeme),
      ls = ⟨.ident name.text, name.span⟩ :: ⟨.symbol .rightParen, closing⟩ :: rest ∧
        after.Completed rest
  | register after, ls =>
    ∃ (closing : Span) (rest : List Lexeme),
      ls = ⟨.symbol .rightParen, closing⟩ :: rest ∧ after.Completed rest
  | closed after, ls => after.Completed ls

theorem completes_nil {stage : Stage} (h : stage.mayEnd = true) : stage.Completes [] := by
  cases stage with
  | start => exact ⟨[], .nothing⟩
  | head => exact fun name => ⟨_, .statement (Statement.derives_ofMnemonic name .none)⟩
  | expr after => exact fun l hl => .of_atom hl .done
  | closed after => exact .closed .done
  | _ => nomatch h

theorem completes_opens {listed : Bool} {token : Token} {span : Span} {next : Stage}
    {ls : List Lexeme} (h : Opens listed token next) (hnext : next.Completes ls) :
    Operand.Completed listed (⟨token, span⟩ :: ls) := by
  cases h with
  | atom h => exact (hnext ⟨token, span⟩ h).operand
  | sharp => exact .immediate span hnext
  | paren =>
      obtain ⟨name, closing, rest, rfl, hrest⟩ := hnext
      cases hrest with
      | closed htail => exact .mk (.deferred (.mk span closing name)) htail
      | plus plus _ htail => exact .mk (.postIncrement plus (.mk span closing name)) htail
  | minus => exact hnext span
  | atSign =>
      cases hnext with
      | mk h htail => exact .mk (.doubleIndirect span h) htail

/-- A step backwards: what completes a line behind a token does so, with the token, before it. -/
theorem completes_cons {stage next : Stage} {token : Token} {span : Span} {ls : List Lexeme}
    (h : Steps stage token next) (hnext : next.Completes ls) :
    stage.Completes (⟨token, span⟩ :: ls) := by
  cases h with
  | name name => exact hnext ⟨name, span⟩
  | bare _ h => exact (completes_opens h hnext).bare
  | label =>
      intro name
      obtain ⟨statements, hline⟩ := hnext
      exact ⟨_, .label name span hline⟩
  | assign =>
      intro name
      cases hnext with
      | expr h htail =>
          cases htail with
          | done =>
              rw [List.append_nil]
              exact ⟨_, .statement (.assignment name span h)⟩
          | more _ hlisted => nomatch hlisted
      | indexed _ hafter => nomatch hafter
  | @combine mark h =>
      intro name
      have hop : Token.isOperator (.symbol mark) = true := by rcases h with rfl | rfl <;> rfl
      exact (AfterExpr.Completed.operate rfl hop hnext).operand.bare
  | argument h =>
      intro name
      obtain ⟨operands, hlist⟩ := (completes_opens h hnext).list
      exact ⟨_, .statement (Statement.derives_ofMnemonic name (.some hlist))⟩
  | operand h => exact completes_opens h hnext
  | decrement listed =>
      intro sign
      obtain ⟨name, closing, rest, rfl, hrest⟩ := hnext
      cases hrest with
      | closed htail => exact .mk (.preDecrement sign (.mk span closing name)) htail
      | plus _ hafter => nomatch hafter
  | minusNegate listed => exact fun sign => ((hnext.negate span).negate sign).operand
  | minusAtom h => exact fun sign => ((hnext ⟨token, span⟩ h).negate sign).operand
  | negate after => exact hnext.negate span
  | atom h => exact hnext ⟨token, span⟩ h
  | operator h => exact fun l hl => hnext.operate hl h
  | index hafter =>
      intro l hl
      obtain ⟨value, hvalue⟩ := Expr.exists_factor_of_isAtom hl
      obtain ⟨name, closing, rest, rfl, hrest⟩ := hnext
      cases hrest with
      | closed htail =>
          exact .indexed (.item (.item hvalue)) hafter (.mk span closing name) htail
      | plus _ hplus => nomatch hplus
  | exprComma hcomma =>
      intro l hl
      exact .of_atom hl (.more span hcomma hnext.list)
  | register name =>
      obtain ⟨closing, rest, rfl, hrest⟩ := hnext
      exact ⟨⟨name, span⟩, closing, rest, rfl, hrest⟩
  | close after => exact ⟨span, ls, rfl, hnext⟩
  | increment hplus =>
      cases hnext with
      | closed htail => exact .plus span hplus htail
      | plus _ hafter => nomatch hafter
  | closedComma hcomma => exact .closed (.more span hcomma hnext.list)

theorem completes_of_accepts {stage : Stage} {ls : List Lexeme} (h : stage.Accepts ls) :
    stage.Completes ls := by
  induction ls generalizing stage with
  | nil => exact completes_nil h
  | cons l ls ih =>
      obtain ⟨next, hstep, hnext⟩ := h
      exact completes_cons (step_eq_some_iff.mp hstep) (ih hnext)

/-- **The stages accept exactly the lines that derive.** -/
theorem accepts_start_iff {ls : List Lexeme} :
    start.Accepts ls ↔ ∃ statements, DerivesLine ls statements := by
  refine ⟨completes_of_accepts, ?_⟩
  rintro ⟨statements, h⟩
  exact accepts_line h

end Stage

end RecipeDesk.Assembler
