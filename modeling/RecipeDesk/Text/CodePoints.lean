/-!
# Sets of characters by code point

A property of characters that a standard lists code point by code point is kept as the increasing
list of code points at which it changes: the property starts out false at zero and flips at every
listed code point. A code point has the property exactly when an odd number of flips lie at or
before it.
-/

namespace RecipeDesk

/-- A set of characters, given by the code points at which membership flips. -/
structure CodePoints where
  /-- The flips, in increasing order. -/
  flips : List Nat

namespace CodePoints

/-- Whether a character is in the set. -/
def contains (set : CodePoints) (c : Char) : Bool :=
  set.flips.countP (fun flip => flip ≤ c.toNat) % 2 == 1

end CodePoints

end RecipeDesk
