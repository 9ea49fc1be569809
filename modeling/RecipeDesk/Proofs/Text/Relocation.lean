import RecipeDesk.Diagnostic.Basic

/-!
# Places taken elsewhere

A relocation is any map of places. Spans, and what is reported at them, are taken along with both
their ends. `Position.shift` is the relocation of what stands below other lines: it commutes with
going on along a text.
-/

namespace RecipeDesk

/-- A span with both its ends taken elsewhere. -/
def Span.relocate (move : Position → Position) (span : Span) : Span :=
  ⟨move span.start, move span.stop⟩

/-- A diagnostic in another place. -/
def Diagnostic.relocate (move : Position → Position) (d : Diagnostic) : Diagnostic :=
  { d with span := d.span.relocate move }

namespace Position

/-- The place that many characters and that many lines further down. -/
def shift (offset line : Nat) (p : Position) : Position :=
  ⟨p.offset + offset, p.line + line, p.column⟩

variable (offset line : Nat)

theorem advance_shift (p : Position) (c : Char) :
    (p.shift offset line).advance c = (p.advance c).shift offset line := by
  by_cases hbreak : c = '\n'
  · simp [advance, shift, hbreak]
    omega
  · simp [advance, shift, hbreak]
    omega

theorem advanceAll_shift (p : Position) (cs : List Char) :
    (p.shift offset line).advanceAll cs = (p.advanceAll cs).shift offset line := by
  induction cs generalizing p with
  | nil => rfl
  | cons c cs ih => rw [advanceAll_cons, advanceAll_cons, advance_shift, ih]

theorem right_shift (p : Position) (n : Nat) :
    (p.shift offset line).right n = (p.right n).shift offset line := by
  simp [right, shift]
  omega

end Position

end RecipeDesk
