import RecipeDesk.Proofs.Text.Splice

/-!
# Edits take place at once

The spans of a list of edits are all places of the text before any edit. So a list of edits that do
not overlap says what the new text is without saying in which order to write it: the stretches that
no edit touches stay, and each span gives way to its new text (`Edit.pieces`). Three ways to get
there are shown to be one (`applyAll_simultaneous`):

* one pass over the text, which keeps its place by counting the characters already passed
  (`splice_drop`);
* the same pass over the edits in any other order, since they are put in source order first;
* one edit after the other, each on the text that the others have left, from the last span to the
  first. An edit does not move what lies before it, so the spans still to come are where they were
  (`foldr_applyAll`).

The arithmetic of all three is about edits in source order, each of them behind the one before it
(`InOrder`).
-/

namespace RecipeDesk

theorem Span.offset_add_length {span : Span} (h : span.start.offset ≤ span.stop.offset) :
    span.start.offset + span.length = span.stop.offset := by
  rw [length]
  omega

namespace Edit

/-! ### Edits in source order -/

/-- Edits of a text with `length` characters that can take place at once: they lie in the text, no
two of them overlap, and no two of them begin at one place. -/
structure Apart (length : Nat) (edits : List Edit) : Prop where
  inside : ∀ edit ∈ edits, edit.span.start.offset ≤ edit.span.stop.offset ∧
    edit.span.stop.offset ≤ length
  disjoint : edits.Pairwise fun a b =>
    a.span.stop.offset ≤ b.span.start.offset ∨ b.span.stop.offset ≤ a.span.start.offset
  starts : edits.Pairwise fun a b => a.span.start.offset ≠ b.span.start.offset

/-- Edits from `here` on, each behind the one before it, the last within `length` characters. -/
def InOrder (length here : Nat) : List Edit → Prop
  | [] => here ≤ length
  | edit :: rest =>
    here ≤ edit.span.start.offset ∧ edit.span.start.offset ≤ edit.span.stop.offset ∧
      InOrder length edit.span.stop.offset rest

theorem InOrder.here_le {length here : Nat} {edits : List Edit} (h : InOrder length here edits) :
    here ≤ length := by
  induction edits generalizing here with
  | nil => exact h
  | cons edit rest ih =>
      obtain ⟨hstart, hspan, hrest⟩ := h
      exact Nat.le_trans hstart (Nat.le_trans hspan (ih hrest))

theorem Apart.perm {length : Nat} {edits edits' : List Edit} (h : Apart length edits)
    (hperm : edits'.Perm edits) : Apart length edits' where
  inside edit hedit := h.inside edit (hperm.subset hedit)
  disjoint := h.disjoint.perm hperm.symm fun hab => hab.symm
  starts := h.starts.perm hperm.symm fun hab => hab.symm

/-- Sorting by starts is enough to have each edit behind the one before it. -/
theorem Apart.inOrder {length here : Nat} {edits : List Edit} (h : Apart length edits)
    (hhere : here ≤ length) (hfirst : ∀ edit ∈ edits, here ≤ edit.span.start.offset)
    (hsorted : edits.Pairwise fun a b => a.span.start.offset < b.span.start.offset) :
    InOrder length here edits := by
  induction edits generalizing here with
  | nil => exact hhere
  | cons edit rest ih =>
      obtain ⟨⟨hspan, hstop⟩, hinside⟩ := List.forall_mem_cons.mp h.inside
      obtain ⟨hdisjoint, hdisjointRest⟩ := List.pairwise_cons.mp h.disjoint
      obtain ⟨hless, hsortedRest⟩ := List.pairwise_cons.mp hsorted
      refine ⟨hfirst edit List.mem_cons_self, hspan, ?_⟩
      refine ih ⟨hinside, hdisjointRest, (List.pairwise_cons.mp h.starts).2⟩ hstop ?_ hsortedRest
      -- a later edit that ended before this one began would also begin before it
      intro later hlater
      have hforward := (hinside later hlater).1
      have hbehind := hless later hlater
      rcases hdisjoint later hlater with hbefore | hafter
      · exact hbefore
      · omega

/-- Edits that begin at different places have a source order. -/
theorem Apart.sort_increasing {length : Nat} {edits : List Edit} (h : Apart length edits) :
    (sort edits).Pairwise fun a b => a.span.start.offset < b.span.start.offset := by
  refine (Position.mergeSort_pairwise (fun edit => edit.span.start) edits).imp₂ ?_
    (h.perm (List.mergeSort_perm _ _)).starts
  intro a b hle hne
  exact Nat.lt_of_le_of_ne (Position.offset_le_of_precedes hle) hne

/-! ### What is left and what is written -/

/-- The stretches of `cs` from `here` on that no edit touches, and `fill edit` between them for
every edit. -/
def pieces (cs : List Char) (fill : Edit → List Char) (here : Nat) : List Edit → List (List Char)
  | [] => [cs.drop here]
  | edit :: rest =>
    (cs.drop here).take (edit.span.start.offset - here) :: fill edit ::
      pieces cs fill edit.span.stop.offset rest

/-- The stretches and the spans between them make up the text: nothing is left out. -/
theorem flatten_pieces_slice {text : String} {here : Nat} {edits : List Edit}
    (h : InOrder text.length here edits) :
    (pieces text.toList (fun edit => (edit.span.slice text).toList) here edits).flatten =
      text.toList.drop here := by
  induction edits generalizing here with
  | nil => simp [pieces]
  | cons edit rest ih =>
      obtain ⟨hstart, hspan, hrest⟩ := h
      have hkept : here + (edit.span.start.offset - here) = edit.span.start.offset := by omega
      calc (pieces text.toList (fun edit => (edit.span.slice text).toList) here
            (edit :: rest)).flatten
          = (text.toList.drop here).take (edit.span.start.offset - here) ++
              ((text.toList.drop edit.span.start.offset).take edit.span.length ++
                text.toList.drop edit.span.stop.offset) := by
            rw [pieces, List.flatten_cons, List.flatten_cons, ih hrest, Span.slice,
              String.toList_ofList]
        _ = (text.toList.drop here).take (edit.span.start.offset - here) ++
              text.toList.drop edit.span.start.offset := by
            rw [← Span.offset_add_length hspan, ← List.drop_drop, List.take_append_drop]
        _ = text.toList.drop here := by
            rw [← hkept, ← List.drop_drop, hkept, List.take_append_drop]

/-! ### One pass -/

/-- **One pass** over the text writes the new texts between the stretches. -/
theorem splice_drop {cs : List Char} {here : Nat} {edits : List Edit}
    (h : InOrder cs.length here edits) :
    splice here (cs.drop here) edits = (pieces cs (·.newText.toList) here edits).flatten := by
  induction edits generalizing here with
  | nil => simp [splice, pieces]
  | cons edit rest ih =>
      obtain ⟨hstart, hspan, hrest⟩ := h
      have hpassed : max edit.span.stop.offset here = edit.span.stop.offset := by omega
      have hkept : here + (edit.span.start.offset - here) = edit.span.start.offset := by omega
      simp only [splice, pieces, hpassed, List.drop_drop, hkept, Span.offset_add_length hspan,
        ih hrest, List.flatten_cons, List.append_assoc]

theorem toList_applyAll_singleton (text : String) (edit : Edit)
    (h : edit.span.start.offset ≤ edit.span.stop.offset) :
    (applyAll text [edit]).toList = text.toList.take edit.span.start.offset ++
      (edit.newText.toList ++ text.toList.drop edit.span.stop.offset) := by
  simp [applyAll, sort, splice, List.drop_drop, Span.offset_add_length h]

/-! ### One edit after the other -/

/-- **From the last span to the first.** The edits behind `here` leave the text before `here` as it
was. -/
theorem foldr_applyAll {text : String} {here : Nat} {edits : List Edit}
    (h : InOrder text.length here edits) :
    (edits.foldr (fun edit text => applyAll text [edit]) text).toList =
      text.toList.take here ++ (pieces text.toList (·.newText.toList) here edits).flatten := by
  induction edits generalizing here with
  | nil => simp [pieces]
  | cons edit rest ih =>
      obtain ⟨hstart, hspan, hrest⟩ := h
      have hlength : (text.toList.take edit.span.stop.offset).length = edit.span.stop.offset :=
        List.length_take_of_le (String.length_toList.symm ▸ hrest.here_le)
      have hkept : text.toList.take edit.span.start.offset = text.toList.take here ++
          (text.toList.drop here).take (edit.span.start.offset - here) := by
        rw [← List.take_add]
        congr 1
        omega
      rw [List.foldr_cons, toList_applyAll_singleton _ _ hspan, ih hrest,
        List.take_append_of_le_length (by omega), List.take_take, Nat.min_eq_left hspan,
        List.drop_left' hlength, hkept]
      simp only [pieces, List.flatten_cons, List.append_assoc]

end Edit

/-- **Edits take place at once.** Edits of a text that do not overlap and begin at different places,
in whatever order they are given, have one source order. Between their spans lie the stretches that
they leave alone, and the new text consists of these stretches and the replacements, in that order.
It is the same for every arrangement of the edits, and the same as when they are applied one at a
time, each alone, from the last span to the first. -/
theorem applyAll_simultaneous (text : String) (edits : List Edit)
    (h : Edit.Apart text.length edits) :
    ∃ ordered : List Edit, ordered.Perm edits ∧
      (ordered.Pairwise fun a b => a.span.start.offset < b.span.start.offset) ∧
      (Edit.pieces text.toList (fun edit => (edit.span.slice text).toList) 0 ordered).flatten =
        text.toList ∧
      (Edit.applyAll text edits).toList =
        (Edit.pieces text.toList (fun edit => edit.newText.toList) 0 ordered).flatten ∧
      (∀ edits', edits'.Perm edits → Edit.applyAll text edits' = Edit.applyAll text edits) ∧
      ordered.foldr (fun edit text => Edit.applyAll text [edit]) text =
        Edit.applyAll text edits := by
  have hperm : (Edit.sort edits).Perm edits := List.mergeSort_perm _ _
  have hsorted := h.sort_increasing
  have horder : Edit.InOrder text.length 0 (Edit.sort edits) :=
    (h.perm hperm).inOrder (Nat.zero_le _) (fun _ _ => Nat.zero_le _) hsorted
  have hpass : (Edit.applyAll text edits).toList =
      (Edit.pieces text.toList (fun edit => edit.newText.toList) 0 (Edit.sort edits)).flatten := by
    rw [Edit.applyAll, String.toList_ofList,
      ← Edit.splice_drop (String.length_toList.symm ▸ horder), List.drop_zero]
  refine ⟨Edit.sort edits, hperm, hsorted, ?_, hpass, ?_, ?_⟩
  · exact Edit.flatten_pieces_slice horder
  · intro edits' hperm'
    have hsame := Edit.sort_eq_of_perm hsorted (hperm'.trans hperm.symm)
    rw [Edit.applyAll, hsame, Edit.applyAll]
  · rw [← String.toList_inj, Edit.foldr_applyAll horder, hpass, List.take_zero, List.nil_append]

/-- A replacement, an insertion right behind a deletion, and the deletion, given out of order. -/
theorem applyAll_simultaneous_adjacent :
    let text := "été lait"
    let deletion : Edit := ⟨⟨⟨0, 0, 0⟩, ⟨4, 0, 4⟩⟩, ""⟩
    let insertion : Edit := ⟨⟨⟨4, 0, 4⟩, ⟨4, 0, 4⟩⟩, "du "⟩
    let replacement : Edit := ⟨⟨⟨5, 0, 5⟩, ⟨8, 0, 8⟩⟩, "ard"⟩
    let edits := [replacement, insertion, deletion]
    Edit.Apart text.length edits ∧ Edit.applyAll text edits = "du lard" ∧
      Edit.applyAll text [insertion, deletion, replacement] = "du lard" := by
  intro text deletion insertion replacement edits
  have hapart : Edit.Apart text.length edits := ⟨by decide, by decide, by decide⟩
  have hsort : Edit.sort edits = [deletion, insertion, replacement] :=
    Edit.sort_eq_of_perm (by decide) (by decide)
  have happlied : Edit.applyAll text edits = "du lard" := by
    rw [Edit.applyAll, hsort]
    decide +kernel
  obtain ⟨-, -, -, -, -, hany, -⟩ := applyAll_simultaneous text edits hapart
  refine ⟨hapart, happlied, ?_⟩
  rw [hany [insertion, deletion, replacement] (by decide), happlied]

end RecipeDesk
