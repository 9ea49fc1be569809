import Mathlib.Data.List.Pairwise
import RecipeDesk.Text.Edit

/-!
# Edits along a text

What `Edit.splice` does is told stretch by stretch: a stretch that ends before the next edit begins
is copied (`splice_keep`), and a stretch that is exactly the span of the next edit is replaced
(`splice_replace`). A text cut into such stretches can then be followed from left to right, and no
proof about renaming has to unfold the arithmetic of `splice` again.

Whatever stands at increasing places is what sorting by places makes of it in any order
(`Position.mergeSort_eq_of_perm`), edits among other things.
-/

namespace RecipeDesk

namespace Position

theorem precedes_of_offset_lt {p q : Position} (h : p.offset < q.offset) :
    p.precedes q = true := by
  simp [precedes, h]

theorem offset_le_of_precedes {p q : Position} (h : p.precedes q = true) :
    p.offset ≤ q.offset := by
  simp only [precedes, Bool.or_eq_true, Bool.and_eq_true, decide_eq_true_eq, beq_iff_eq] at h
  omega

theorem precedes_trans (p q r : Position) (hpq : p.precedes q = true)
    (hqr : q.precedes r = true) : p.precedes r = true := by
  simp only [precedes, Bool.or_eq_true, Bool.and_eq_true, decide_eq_true_eq, beq_iff_eq] at *
  omega

theorem precedes_total (p q : Position) : (p.precedes q || q.precedes p) = true := by
  simp only [precedes, Bool.or_eq_true, Bool.and_eq_true, decide_eq_true_eq, beq_iff_eq]
  omega

/-- Sorting puts things in the order of their places. -/
theorem mergeSort_pairwise {α : Type} (place : α → Position) (xs : List α) :
    (xs.mergeSort fun a b => (place a).precedes (place b)).Pairwise
      fun a b => (place a).precedes (place b) = true :=
  List.pairwise_mergeSort (fun a b c => precedes_trans (place a) (place b) (place c))
    (fun a b => precedes_total (place a) (place b)) xs

/-- Things at increasing places are the sorted form of any arrangement of themselves. -/
theorem mergeSort_eq_of_perm {α : Type} (place : α → Position) {xs sorted : List α}
    (hsorted : sorted.Pairwise fun a b => (place a).offset < (place b).offset)
    (hperm : xs.Perm sorted) : xs.mergeSort (fun a b => (place a).precedes (place b)) = sorted := by
  have hsort := (List.mergeSort_perm xs fun a b => (place a).precedes (place b)).trans hperm
  have hapart : sorted.Pairwise fun a b => ¬ (place a).offset = (place b).offset :=
    hsorted.imp fun h => Nat.ne_of_lt h
  -- things that precede each other are at one offset, and no two of them are
  have hanti : ∀ a b : α, a ∈ xs.mergeSort (fun a b => (place a).precedes (place b)) →
      b ∈ sorted → (place a).precedes (place b) = true → (place b).precedes (place a) = true →
      a = b := by
    intro a b ha hb hab hba
    have hle := offset_le_of_precedes hab
    have hge := offset_le_of_precedes hba
    by_contra hne
    have : Std.Symm fun a b : α => ¬ (place a).offset = (place b).offset :=
      ⟨fun _ _ h heq => h heq.symm⟩
    exact hapart.forall (hsort.mem_iff.mp ha) hb hne (by omega)
  have hright : sorted.Pairwise fun a b => (place a).precedes (place b) = true :=
    hsorted.imp fun h => precedes_of_offset_lt h
  exact List.Perm.eq_of_pairwise hanti (mergeSort_pairwise place xs) hright hsort

end Position

namespace Edit

/-! ### One stretch at a time -/

/-- The edit at hand begins at or after `offset`, and its span runs forward. No edit at hand counts
as well. -/
def StartsFrom (offset : Nat) (edits : List Edit) : Prop :=
  ∀ edit ∈ edits.head?, offset ≤ edit.span.start.offset ∧
    edit.span.start.offset ≤ edit.span.stop.offset

theorem startsFrom_nil (offset : Nat) : StartsFrom offset [] := by
  intro edit hmem
  simp at hmem

theorem StartsFrom.mono {offset offset' : Nat} {edits : List Edit} (hle : offset ≤ offset')
    (h : StartsFrom offset' edits) : StartsFrom offset edits := by
  intro edit hedit
  obtain ⟨hstart, hspan⟩ := h edit hedit
  exact ⟨Nat.le_trans hle hstart, hspan⟩

/-- A stretch before the first edit is copied. -/
theorem splice_keep {here : Nat} (kept cs : List Char) {edits : List Edit}
    (h : StartsFrom (here + kept.length) edits) :
    splice here (kept ++ cs) edits = kept ++ splice (here + kept.length) cs edits := by
  cases edits with
  | nil => rfl
  | cons edit rest =>
      obtain ⟨hstart, hspan⟩ := h edit rfl
      have hkept : edit.span.start.offset - here =
          kept.length + (edit.span.start.offset - (here + kept.length)) := by omega
      have hpassed : max edit.span.stop.offset here =
          max edit.span.stop.offset (here + kept.length) := by omega
      simp only [splice]
      rw [hkept, hpassed, List.take_length_add_append, List.drop_length_add_append]
      simp only [List.append_assoc]

/-- A stretch that is the span of the first edit is replaced. -/
theorem splice_replace {here : Nat} (old cs : List Char) {edit : Edit} {rest : List Edit}
    (hstart : edit.span.start.offset = here)
    (hstop : edit.span.stop.offset = here + old.length) :
    splice here (old ++ cs) (edit :: rest) =
      edit.newText.toList ++ splice (here + old.length) cs rest := by
  have hkept : edit.span.start.offset - here = 0 := by omega
  have hlength : edit.span.length = old.length := by
    simp only [Span.length]
    omega
  have hpassed : max edit.span.stop.offset here = here + old.length := by omega
  simp only [splice]
  rw [hkept, hlength, hpassed, List.take_zero, List.drop_zero, List.drop_left, List.nil_append]

/-! ### Source order -/

/-- Edits with increasing starts are the sorted form of any arrangement of themselves. -/
theorem sort_eq_of_perm {edits sorted : List Edit}
    (hsorted : sorted.Pairwise fun a b => a.span.start.offset < b.span.start.offset)
    (hperm : edits.Perm sorted) : sort edits = sorted :=
  Position.mergeSort_eq_of_perm (fun edit : Edit => edit.span.start) hsorted hperm

end Edit

end RecipeDesk
