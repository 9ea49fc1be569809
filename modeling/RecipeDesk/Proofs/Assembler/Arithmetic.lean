import Mathlib.Algebra.Ring.Int.Defs
import Mathlib.Data.List.SplitBy
import RecipeDesk.Proofs.Assembler.Constants
import RecipeDesk.Proofs.Assembler.Reading

/-!
# Arithmetic as it is written

What a row of literals, signs and stars is worth can be told from the row itself, with no tree and
no order of evaluation: cut it before every sign that directly follows a literal, which gives terms
with a sign each; cut a term at its stars, which gives factors; and count the minus signs that a
factor begins with. `conventionalValue` says this in integers of any size.

A minus sign is both an operator and a prefix, and only what stands before it tells which. So what a
derivation has to keep track of is where its tokens end: every expression ends in a literal
(`EndsInLiteral`), hence the sign behind it begins a term, and inside a term no sign does.
-/

namespace RecipeDesk.Assembler

/-! ### The value of a row of tokens -/

namespace Token

/-- The value of an integer or a character literal. -/
def literal? : Token → Option Int
  | integer value _ => some value.toInt
  | char c => some c.toNat
  | _ => none

/-- Whether a token is a literal, a sign or a star. -/
def isArithmetic : Token → Bool
  | integer .. | char _ | symbol .plus | symbol .minus | symbol .star => true
  | _ => false

/-- Whether two neighbours belong to one term. A new term begins with a sign that directly follows a
literal. -/
def sameTerm (before behind : Token) : Bool :=
  !(before.literal?.isSome && (behind = .symbol .plus || behind = .symbol .minus))

end Token

/-- A factor: its literal, times minus one for each minus sign before it. -/
def factorValue (tokens : List Token) : Int :=
  let signs := tokens.takeWhile (· = .symbol .minus)
  let literal := tokens.dropWhile (· = .symbol .minus)
  (-1) ^ signs.length * (literal.head?.bind Token.literal?).getD 0

/-- A term: the product of its factors, which stars divide. -/
def termValue (tokens : List Token) : Int :=
  ((tokens.splitOn (.symbol .star)).map factorValue).prod

/-- A term behind its sign. -/
def signedTerm (tokens : List Token) : Int × List Token :=
  (if tokens.head? = some (.symbol .minus) then -1 else 1, tokens.tail)

/-- The terms of a sum and their signs. The first term has no sign of its own. -/
def signedTerms (tokens : List Token) : List (Int × List Token) :=
  match tokens.splitBy Token.sameTerm with
  | [] => []
  | first :: others => (1, first) :: others.map signedTerm

/-- A sum: its terms, added up with their signs. -/
def conventionalValue (tokens : List Token) : Int :=
  ((signedTerms tokens).map fun term => term.1 * termValue term.2).sum

/-! ### Cutting -/

/-- The last of the tokens is a literal. -/
def EndsInLiteral (tokens : List Token) : Prop :=
  ∃ front literal, tokens = front ++ [literal] ∧ literal.literal?.isSome = true

/-- No new term begins inside these tokens. -/
def IsOneTerm (tokens : List Token) : Prop :=
  tokens.IsChain fun before behind => before.sameTerm behind = true

theorem EndsInLiteral.append {tokens : List Token} (h : EndsInLiteral tokens)
    (before : List Token) : EndsInLiteral (before ++ tokens) := by
  obtain ⟨front, literal, rfl, hliteral⟩ := h
  exact ⟨before ++ front, literal, (List.append_assoc ..).symm, hliteral⟩

theorem EndsInLiteral.ne_nil {tokens : List Token} (h : EndsInLiteral tokens) : tokens ≠ [] := by
  obtain ⟨front, literal, rfl, -⟩ := h
  simp

/-- The tokens behind a mark go on with it. -/
theorem IsOneTerm.cons {tokens : List Token} (h : IsOneTerm tokens) (mark : Symbol) :
    IsOneTerm (.symbol mark :: tokens) :=
  List.isChain_cons.mpr ⟨fun _ _ => rfl, h⟩

theorem termValue_of_star_not_mem {tokens : List Token} (h : .symbol .star ∉ tokens) :
    termValue tokens = factorValue tokens := by
  rw [termValue, List.splitOn_eq_singleton h, List.map_singleton, List.prod_singleton]

theorem termValue_append (left right : List Token) :
    termValue (left ++ .symbol .star :: right) = termValue left * termValue right := by
  simp only [termValue, List.splitOn_append_cons_self, List.map_append, List.prod_append]

theorem conventionalValue_of_isOneTerm {tokens : List Token} (hne : tokens ≠ [])
    (h : IsOneTerm tokens) : conventionalValue tokens = termValue tokens := by
  simp [conventionalValue, signedTerms, List.splitBy_of_isChain hne h]

/-- A sign behind a literal begins a term of its own. -/
theorem conventionalValue_append {left right : List Token} {sign : Symbol}
    (hleft : EndsInLiteral left) (hsign : sign = .plus ∨ sign = .minus) (hright : IsOneTerm right) :
    conventionalValue (left ++ .symbol sign :: right) =
      conventionalValue left + (if sign = .minus then -1 else 1) * termValue right := by
  obtain ⟨first, others, hfirst⟩ :=
    List.exists_cons_of_ne_nil (List.splitBy_ne_nil (r := Token.sameTerm).mpr hleft.ne_nil)
  have hcut : (left ++ .symbol sign :: right).splitBy Token.sameTerm =
      first :: (others ++ [.symbol sign :: right]) := by
    rw [List.splitBy_append_cons, List.splitBy_of_isChain (by simp) (hright.cons sign), hfirst,
      List.cons_append]
    obtain ⟨front, literal, rfl, hliteral⟩ := hleft
    intro last hlast
    obtain rfl : literal = last := by simpa using hlast
    rcases hsign with rfl | rfl <;> simp [Token.sameTerm, hliteral]
  simp [conventionalValue, signedTerms, hcut, hfirst, signedTerm, add_assoc]

/-! ### Along the grammar -/

/-- Tokens that make a sum, and what the tree of the sum is worth. -/
structure ReadsSum (tokens : List Token) (value : Expr) : Prop where
  numeric : value.IsNumeric
  ends : EndsInLiteral tokens
  worth : conventionalValue tokens = value.exactValue

/-- Tokens that make a single term. -/
structure ReadsTerm (tokens : List Token) (value : Expr) : Prop extends ReadsSum tokens value where
  oneTerm : IsOneTerm tokens

/-- Tokens that make a single factor. -/
structure ReadsFactor (tokens : List Token) (value : Expr) : Prop
    extends ReadsTerm tokens value where
  noStar : .symbol .star ∉ tokens

theorem ReadsTerm.termValue_eq {tokens : List Token} {value : Expr} (h : ReadsTerm tokens value) :
    termValue tokens = value.exactValue :=
  (conventionalValue_of_isOneTerm h.ends.ne_nil h.oneTerm).symm.trans h.worth

theorem ReadsFactor.factorValue_eq {tokens : List Token} {value : Expr}
    (h : ReadsFactor tokens value) : factorValue tokens = value.exactValue :=
  (termValue_of_star_not_mem h.noStar).symm.trans h.termValue_eq

/-- A term is worth the same as a sum of one term. -/
theorem ReadsTerm.ofTermValue {tokens : List Token} {value : Expr} (numeric : value.IsNumeric)
    (ends : EndsInLiteral tokens) (oneTerm : IsOneTerm tokens)
    (h : termValue tokens = value.exactValue) : ReadsTerm tokens value :=
  ⟨⟨numeric, ends, (conventionalValue_of_isOneTerm ends.ne_nil oneTerm).trans h⟩, oneTerm⟩

theorem ReadsFactor.literal {token : Token} {span : Span} {value : Int64}
    (h : token.literal? = some value.toInt) : ReadsFactor [token] (.integer span value) := by
  have hmark : ∀ mark, token ≠ .symbol mark := by
    rintro mark rfl
    cases h
  have hstar : .symbol .star ∉ [token] := by simpa using (hmark .star).symm
  refine ⟨.ofTermValue (Expr.isNumeric_integer span value) ⟨[], token, rfl, by simp [h]⟩
    (List.isChain_singleton token) ?_, hstar⟩
  rw [termValue_of_star_not_mem hstar]
  simp [factorValue, Expr.exactValue, hmark .minus, h]

theorem ReadsFactor.negate {tokens : List Token} {operand : Expr} (h : ReadsFactor tokens operand)
    (sign : Position) : ReadsFactor (.symbol .minus :: tokens) (.negate sign operand) := by
  have hstar : .symbol .star ∉ Token.symbol .minus :: tokens := by simpa using h.noStar
  refine ⟨.ofTermValue (Expr.isNumeric_negate.mpr h.numeric) (h.ends.append [.symbol .minus])
    (h.oneTerm.cons .minus) ?_, hstar⟩
  rw [termValue_of_star_not_mem hstar, Expr.exactValue, ← h.factorValue_eq]
  simp [factorValue, pow_succ]

theorem ReadsTerm.times {left right : List Token} {first second : Expr}
    (hleft : ReadsTerm left first) (hright : ReadsTerm right second) :
    ReadsTerm (left ++ .symbol .star :: right) (.binary .mul first second) := by
  refine .ofTermValue (Expr.isNumeric_binary.mpr ⟨hleft.numeric, hright.numeric⟩)
    ((hright.ends.append [.symbol .star]).append left) ?_ ?_
  · refine List.isChain_append.mpr ⟨hleft.oneTerm, hright.oneTerm.cons .star, ?_⟩
    -- a star begins no term, whatever stands before it
    intro before _ star hstar
    obtain rfl : .symbol .star = star := by simpa using hstar
    simp [Token.sameTerm]
  · rw [termValue_append, hleft.termValue_eq, hright.termValue_eq]
    rfl

theorem ReadsSum.operate {left right : List Token} {first second : Expr} {op : BinaryOp}
    (hop : op = .add ∨ op = .sub) (hleft : ReadsSum left first) (hright : ReadsTerm right second) :
    ReadsSum (left ++ .symbol op.mark :: right) (.binary op first second) := by
  refine ⟨Expr.isNumeric_binary.mpr ⟨hleft.numeric, hright.numeric⟩,
    (hright.ends.append [.symbol op.mark]).append left, ?_⟩
  have hmark : op.mark = .plus ∨ op.mark = .minus := by
    rcases hop with rfl | rfl <;> simp [BinaryOp.mark]
  rw [conventionalValue_append hleft.ends hmark hright.oneTerm, hleft.worth, hright.termValue_eq]
  rcases hop with rfl | rfl
  · simp [BinaryOp.mark, Expr.exactValue, BinaryOp.exactApply]
  · simp [BinaryOp.mark, Expr.exactValue, BinaryOp.exactApply, sub_eq_add_neg]

/-- The code point of a character is far below the largest word. -/
theorem toInt_ofNat_toNat (c : Char) : (Int64.ofNat c.toNat).toInt = c.toNat :=
  Int64.toInt_ofNat_of_lt (Nat.lt_trans c.val.toNat_lt (by decide))

namespace Expr

theorem DerivesFactor.readsFactor {ls : List Lexeme} {value : Expr} (h : value.DerivesFactor ls)
    (hls : ∀ l ∈ ls, l.token.isArithmetic = true) : ReadsFactor (ls.map Lexeme.token) value := by
  induction h with
  | name span name => cases hls _ (List.mem_singleton_self _)
  | text span content => cases hls _ (List.mem_singleton_self _)
  | integer span value raw => exact .literal rfl
  | character span c => exact .literal (congrArg some (toInt_ofNat_toNat c).symm)
  | negate sign _ ih => exact (ih fun l hl => hls l (List.mem_cons_of_mem _ hl)).negate sign.start

theorem productOp?_eq_some {token : Token} {op : BinaryOp} (h : productOp? token = some op) :
    op = .mul := by
  unfold productOp? at h
  split at h <;> cases h
  rfl

theorem sumOp?_eq_some {token : Token} {op : BinaryOp} (h : sumOp? token = some op) :
    op = .add ∨ op = .sub := by
  unfold sumOp? at h
  split at h <;> cases h <;> simp

theorem DerivesProduct.readsTerm {ls : List Lexeme} {value : Expr} (h : value.DerivesProduct ls)
    (hls : ∀ l ∈ ls, l.token.isArithmetic = true) : ReadsTerm (ls.map Lexeme.token) value := by
  unfold DerivesProduct at h
  induction h with
  | item h => exact (h.readsFactor hls).toReadsTerm
  | @operate ls rs left right sign op _ hop hright ih =>
      obtain ⟨hleft, hbehind⟩ := List.forall_mem_append.mp hls
      obtain ⟨-, hrest⟩ := List.forall_mem_cons.mp hbehind
      obtain rfl := productOp?_eq_some hop
      rw [List.map_append, List.map_cons, eq_of_productOp? hop]
      exact (ih hleft).times (hright.readsFactor hrest).toReadsTerm

theorem Derives.readsSum {ls : List Lexeme} {value : Expr} (h : value.Derives ls)
    (hls : ∀ l ∈ ls, l.token.isArithmetic = true) : ReadsSum (ls.map Lexeme.token) value := by
  unfold Derives at h
  induction h with
  | item h => exact (DerivesProduct.readsTerm h hls).toReadsSum
  | @operate ls rs left right sign op _ hop hright ih =>
      obtain ⟨hleft, hbehind⟩ := List.forall_mem_append.mp hls
      obtain ⟨-, hrest⟩ := List.forall_mem_cons.mp hbehind
      rw [List.map_append, List.map_cons, eq_of_sumOp? hop]
      exact (ih hleft).operate (sumOp?_eq_some hop) (DerivesProduct.readsTerm hright hrest)

end Expr

/-- **An arithmetic line assigns what it says.** Literals, signs and stars that derive as an
expression are read, behind a name and an equals sign, as an assignment. Its value has a constant,
the one signed word that is congruent to what the tokens are worth by convention. -/
theorem arithmetic_line_assigns (name : Name) (equals : Span) (ls : List Lexeme)
    (hls : ∀ l ∈ ls, l.token.isArithmetic = true) (hderives : ∃ value : Expr, value.Derives ls) :
    ∃ (value : Expr) (constant : Int64),
      parseLine (⟨.ident name.text, name.span⟩ :: ⟨.symbol .equals, equals⟩ :: ls) =
        .ok [.assignment ⟨name.span.start, value.span.stop⟩ name value] ∧
      value.constant? = some constant ∧
      ∀ w, WrapsTo (conventionalValue (ls.map Lexeme.token)) w ↔ w = constant.toInt := by
  obtain ⟨value, hvalue⟩ := hderives
  obtain ⟨hnumeric, -, hworth⟩ := hvalue.readsSum hls
  refine ⟨value, Int64.ofInt value.exactValue, ?_, Expr.constant?_of_isNumeric hnumeric, ?_⟩
  · have hline : readLine? (⟨.ident name.text, name.span⟩ :: ⟨.symbol .equals, equals⟩ :: ls) =
        (Statement.readAssigned? name ls).map ([·]) := readLine?_of_not_label (by simp) (by simp)
    rw [parseLine_eq_ok, hline, Statement.readAssigned?_complete name hvalue]
    rfl
  · rw [hworth]
    exact fun w => wrapsTo_iff_eq_ofInt

/-- `A = 4611686018427387904 * - - 4 + 'A - -3` is worth `2 ^ 64 + 68`, and assigns 68. -/
theorem arithmetic_line_assigns_wrapped :
    let span : Span := .empty .origin
    let product : List Lexeme :=
      [⟨.integer 4611686018427387904 "4611686018427387904", span⟩] ++ ⟨.symbol .star, span⟩ ::
        [⟨.symbol .minus, span⟩, ⟨.symbol .minus, span⟩, ⟨.integer 4 "4", span⟩]
    let sum : List Lexeme := product ++ ⟨.symbol .plus, span⟩ :: [⟨.char 'A', span⟩]
    let ls : List Lexeme :=
      sum ++ ⟨.symbol .minus, span⟩ :: [⟨.symbol .minus, span⟩, ⟨.integer 3 "3", span⟩]
    (∀ l ∈ ls, l.token.isArithmetic = true) ∧ (∃ value : Expr, value.Derives ls) ∧
    conventionalValue (ls.map Lexeme.token) = 2 ^ 64 + 68 ∧
    ∃ value : Expr,
      parseLine (⟨.ident "A", span⟩ :: ⟨.symbol .equals, span⟩ :: ls) =
        .ok [.assignment ⟨span.start, value.span.stop⟩ ⟨"A", span⟩ value] ∧
      value.constant? = some 68 := by
  intro span product sum ls
  have hls : ∀ l ∈ ls, l.token.isArithmetic = true := by decide
  have hderives : ∃ value : Expr, value.Derives ls := by
    have hfactor : (Expr.integer span 4611686018427387904).DerivesProduct _ :=
      .item (.integer span _ "4611686018427387904")
    have hproduct : (Expr.binary .mul _ _).DerivesProduct product :=
      .operate hfactor rfl (.negate span (.negate span (.integer span 4 "4")))
    have hsum : (Expr.binary .add _ _).Derives sum :=
      .operate (.item hproduct) rfl (.item (.character span 'A'))
    exact ⟨_, .operate hsum rfl (.item (.negate span (.integer span 3 "3")))⟩
  have hworth : conventionalValue (ls.map Lexeme.token) = 2 ^ 64 + 68 := by decide
  obtain ⟨value, constant, hparse, hconstant, hword⟩ :=
    arithmetic_line_assigns ⟨"A", span⟩ span ls hls hderives
  have hwrapped : WrapsTo (conventionalValue (ls.map Lexeme.token)) 68 := by
    rw [hworth]
    exact ⟨by decide, by decide, by decide⟩
  obtain rfl : constant = 68 := Int64.toInt_inj.mp ((hword 68).mp hwrapped).symm
  exact ⟨hls, hderives, hworth, value, hparse, hconstant⟩

end RecipeDesk.Assembler
