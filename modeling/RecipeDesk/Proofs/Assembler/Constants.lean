import Mathlib.Data.Int.ModEq
import RecipeDesk.Assembler.Expr

/-!
# Constants on 64 bits

A constant is computed on machine words, and every node of the expression wraps around for itself.
That comes to computing in unbounded integers and wrapping around once, at the end: going from
integers to words (`Int64.ofInt`) keeps sums, differences, products and negations, so it may be done
at the leaves or at the root (`Expr.constant?_of_isNumeric`).

`WrapsTo` says which signed word an integer becomes, without a word in the statement: the one
integer of the range that is congruent to it.
-/

namespace RecipeDesk.Assembler

/-! ### Integers that fit a word -/

/-- `w` is what becomes of `n` on 64 bits with a sign. -/
structure WrapsTo (n w : Int) : Prop where
  lower : -2 ^ 63 ≤ w
  upper : w ≤ 2 ^ 63 - 1
  congruent : w ≡ n [ZMOD 2 ^ 64]

/-- An integer wraps around to one word only. -/
theorem WrapsTo.unique {n v w : Int} (hv : WrapsTo n v) (hw : WrapsTo n w) : v = w := by
  obtain ⟨hvlower, hvupper, hvn⟩ := hv
  obtain ⟨hwlower, hwupper, hwn⟩ := hw
  -- two words differ by less than the modulus
  have hdvd : (2 ^ 64 : Int) ∣ w - v := (hvn.trans hwn.symm).dvd
  omega

theorem wrapsTo_ofInt (n : Int) : WrapsTo n (Int64.ofInt n).toInt := by
  refine ⟨Int64.le_toInt _, Int.le_sub_one_of_lt (Int64.toInt_lt _), ?_⟩
  rw [Int64.toInt_ofInt]
  exact Int.bmod_emod

/-- The word of `n` is all that `n` wraps around to. -/
theorem wrapsTo_iff_eq_ofInt {n w : Int} : WrapsTo n w ↔ w = (Int64.ofInt n).toInt := by
  constructor
  · exact fun h => h.unique (wrapsTo_ofInt n)
  · rintro rfl
    exact wrapsTo_ofInt n

/-! ### Values without bounds -/

/-- The operation on integers of any size. -/
def BinaryOp.exactApply : BinaryOp → Int → Int → Int
  | add, x, y => x + y
  | sub, x, y => x - y
  | mul, x, y => x * y

theorem BinaryOp.ofInt_exactApply (op : BinaryOp) (x y : Int) :
    Int64.ofInt (op.exactApply x y) = op.apply (Int64.ofInt x) (Int64.ofInt y) := by
  cases op with
  | add => exact Int64.ofInt_add x y
  | sub => exact Int64.ofInt_sub x y
  | mul => exact Int64.ofInt_mul x y

namespace Expr

/-- The value of an expression in integers of any size; names and texts have none and count as
zero. -/
def exactValue : Expr → Int
  | symbol .. | text .. => 0
  | integer _ value => value.toInt
  | binary op left right => op.exactApply left.exactValue right.exactValue
  | negate _ operand => -operand.exactValue

/-- An expression and every expression in it. -/
def parts : Expr → List Expr
  | binary op left right => binary op left right :: (left.parts ++ right.parts)
  | negate sign operand => negate sign operand :: operand.parts
  | leaf => [leaf]

/-- Whether an expression is a name or a text. -/
def isUnknown : Expr → Bool
  | symbol .. | text .. => true
  | _ => false

/-- No name and no text occurs in the expression. -/
def IsNumeric (e : Expr) : Prop := ∀ part ∈ e.parts, part.isUnknown = false

@[simp] theorem isNumeric_integer (span : Span) (value : Int64) :
    (integer span value).IsNumeric :=
  List.forall_mem_singleton.mpr rfl

@[simp] theorem not_isNumeric_symbol (span : Span) (name : String) :
    ¬ (symbol span name).IsNumeric := by
  simp [IsNumeric, parts, isUnknown]

@[simp] theorem not_isNumeric_text (span : Span) (content : String) :
    ¬ (text span content).IsNumeric := by
  simp [IsNumeric, parts, isUnknown]

@[simp] theorem isNumeric_binary {op : BinaryOp} {left right : Expr} :
    (binary op left right).IsNumeric ↔ left.IsNumeric ∧ right.IsNumeric := by
  simp [IsNumeric, parts, isUnknown, or_imp, forall_and]

@[simp] theorem isNumeric_negate {sign : Position} {operand : Expr} :
    (negate sign operand).IsNumeric ↔ operand.IsNumeric := by
  simp [IsNumeric, parts, isUnknown]

/-! ### Folding -/

/-- Wrapping around at every node comes to wrapping around once. -/
theorem constant?_of_isNumeric {e : Expr} (h : e.IsNumeric) :
    e.constant? = some (Int64.ofInt e.exactValue) := by
  induction e with
  | symbol span name => exact absurd h (not_isNumeric_symbol span name)
  | text span content => exact absurd h (not_isNumeric_text span content)
  | integer span value => rw [constant?, exactValue, Int64.ofInt_toInt]
  | binary op left right ihleft ihright =>
      obtain ⟨hleft, hright⟩ := isNumeric_binary.mp h
      rw [constant?, ihleft hleft, ihright hright, exactValue, BinaryOp.ofInt_exactApply]
  | negate sign operand ih =>
      rw [constant?, ih (isNumeric_negate.mp h), exactValue, Int64.ofInt_neg]
      rfl

theorem isNumeric_of_constant? {e : Expr} {value : Int64} (h : e.constant? = some value) :
    e.IsNumeric := by
  induction e generalizing value with
  | symbol span name => cases h
  | text span content => cases h
  | integer span n => exact isNumeric_integer span n
  | binary op left right ihleft ihright =>
      unfold constant? at h
      split at h
      · next x y hleft hright => exact isNumeric_binary.mpr ⟨ihleft hleft, ihright hright⟩
      · cases h
  | negate sign operand ih =>
      obtain ⟨x, hoperand, -⟩ := Option.map_eq_some_iff.mp h
      exact isNumeric_negate.mpr (ih hoperand)

end Expr

/-- **Folding is arithmetic modulo `2 ^ 64`.** An expression has a constant exactly if no name and
no text occurs in it, and the constant is the one signed word that is congruent to the value of the
expression in integers of any size, whichever of its parts leave the range of words on the way. -/
theorem constants_exact (e : Expr) :
    ((∃ value, e.constant? = some value) ↔ e.IsNumeric) ∧
    ∀ value, e.constant? = some value ↔
      e.IsNumeric ∧ ∀ w, WrapsTo e.exactValue w ↔ w = value.toInt := by
  refine ⟨⟨?_, ?_⟩, fun value => ⟨?_, ?_⟩⟩
  · rintro ⟨value, h⟩
    exact Expr.isNumeric_of_constant? h
  · exact fun h => ⟨_, Expr.constant?_of_isNumeric h⟩
  · intro h
    have hnumeric := Expr.isNumeric_of_constant? h
    obtain rfl : Int64.ofInt e.exactValue = value :=
      Option.some.inj ((Expr.constant?_of_isNumeric hnumeric).symm.trans h)
    exact ⟨hnumeric, fun w => wrapsTo_iff_eq_ofInt⟩
  · rintro ⟨hnumeric, hword⟩
    have hvalue : (Int64.ofInt e.exactValue).toInt = value.toInt :=
      (hword _).mp (wrapsTo_ofInt _)
    rw [Expr.constant?_of_isNumeric hnumeric, Int64.toInt_inj.mp hvalue]

-- the least word has no opposite in the range of words, and wraps around to itself
example (sign : Position) (span : Span) :
    (Expr.negate sign (.integer span Int64.minValue)).constant? = some Int64.minValue := rfl

end RecipeDesk.Assembler
