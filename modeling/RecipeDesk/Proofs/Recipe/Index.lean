import RecipeDesk.Proofs.Recipe.Occurrences

/-!
# The entries of the index

`get?_ofOccurrences` tells what is found under a name. Here the index is read the other way, entry
by entry: no name has two entries (`names_nodup`), and the entries are exactly what is collected for
the names that occur (`mem_entries_iff`). So every entry has a word, and a word stands in the entry
of its own name only.
-/

namespace RecipeDesk

namespace Ingredients

/-- Noting an occurrence adds its name at the end, unless the name is there. -/
theorem map_name_note (o : Occurrence) (entries : List Ingredient) :
    (note o entries).map Ingredient.name =
      if o.word.text ∈ entries.map Ingredient.name then entries.map Ingredient.name
      else entries.map Ingredient.name ++ [o.word.text] := by
  induction entries with
  | nil => simp [note]
  | cons entry rest ih =>
      unfold note
      by_cases hentry : entry.name = o.word.text
      · simp [hentry]
      · have hne : o.word.text ≠ entry.name := Ne.symm hentry
        rw [if_neg hentry, List.map_cons, List.map_cons, ih]
        by_cases hrest : o.word.text ∈ rest.map Ingredient.name
        · rw [if_pos hrest, if_pos (List.mem_cons_of_mem _ hrest)]
        · have hnot : o.word.text ∉ entry.name :: rest.map Ingredient.name := by
            simp only [List.mem_cons, hne, hrest, or_self, not_false_eq_true]
          rw [if_neg hrest, if_neg hnot, List.cons_append]

theorem entries_append (os : List Occurrence) (o : Occurrence) :
    (ofOccurrences (os ++ [o])).entries = note o (ofOccurrences os).entries := by
  simp only [ofOccurrences, List.foldl_append, List.foldl_cons, List.foldl_nil]

/-- **One entry a name.** -/
theorem names_nodup (os : List Occurrence) :
    ((ofOccurrences os).entries.map Ingredient.name).Nodup := by
  induction os using List.reverseRecOn with
  | nil => exact List.nodup_nil
  | append_singleton os o ih =>
      rw [entries_append, map_name_note]
      split
      · exact ih
      · next hnew =>
          rw [← List.concat_eq_append]
          exact ih.concat hnew

/-- An entry is found under its name. -/
theorem get?_of_mem {os : List Occurrence} {entry : Ingredient}
    (h : entry ∈ (ofOccurrences os).entries) :
    (ofOccurrences os).get? entry.name = some entry := by
  cases hget : (ofOccurrences os).get? entry.name with
  | none =>
      have hnot := List.find?_eq_none.mp hget entry h
      simp at hnot
  | some found =>
      have hname : found.name = entry.name := by simpa using List.find?_some hget
      have hmem := List.mem_of_find?_eq_some hget
      rw [List.inj_on_of_nodup_map (names_nodup os) hmem h hname]

/-- **The entries** are what is collected for the names that occur. -/
theorem mem_entries_iff {os : List Occurrence} {entry : Ingredient} :
    entry ∈ (ofOccurrences os).entries ↔
      (∃ o ∈ os, o.word.text = entry.name) ∧ entry = Ingredient.collect entry.name os := by
  constructor
  · intro h
    have hget := get?_of_mem h
    rw [get?_ofOccurrences] at hget
    split at hget
    · next hoccurs => exact ⟨hoccurs, (Option.some.inj hget).symm⟩
    · cases hget
  · rintro ⟨hoccurs, heq⟩
    have hget : (ofOccurrences os).get? entry.name = some entry := by
      rw [get?_ofOccurrences, if_pos hoccurs, ← heq]
    exact List.mem_of_find?_eq_some hget

/-- The words of an entry have its name, and are words of occurrences. -/
theorem of_mem_words {os : List Occurrence} {entry : Ingredient} {word : Word}
    (hentry : entry ∈ (ofOccurrences os).entries) (hword : word ∈ entry.words) :
    word.text = entry.name ∧ word ∈ os.map Occurrence.word := by
  rw [(mem_entries_iff.mp hentry).2, Ingredient.mem_words_collect] at hword
  obtain ⟨o, ho, rfl, hname⟩ := hword
  exact ⟨hname, List.mem_map_of_mem ho⟩

/-- Every entry has a word. -/
theorem words_ne_nil {os : List Occurrence} {entry : Ingredient}
    (h : entry ∈ (ofOccurrences os).entries) : entry.words ≠ [] := by
  obtain ⟨⟨o, ho, hname⟩, heq⟩ := mem_entries_iff.mp h
  have hmem : o.word ∈ entry.words := by
    rw [heq, Ingredient.mem_words_collect]
    exact ⟨o, ho, rfl, hname⟩
  exact List.ne_nil_of_mem hmem

/-- If no word occurs twice, a selection from the words of each entry holds no word twice. -/
theorem nodup_flatMap_entries {os : List Occurrence} (hnodup : (os.map Occurrence.word).Nodup)
    {select : Ingredient → List Word} (hselect : ∀ entry, (select entry).Sublist entry.words) :
    ((ofOccurrences os).entries.flatMap select).Nodup := by
  have hentries : (ofOccurrences os).entries.Pairwise fun a b => a.name ≠ b.name :=
    List.pairwise_map.mp (names_nodup os)
  rw [List.nodup_flatMap]
  constructor
  · intro entry hentry
    refine List.Nodup.sublist (hselect entry) ?_
    rw [(mem_entries_iff.mp hentry).2, (Ingredient.words_collect_perm _ _).nodup_iff]
    exact hnodup.sublist (List.filter_sublist.map _)
  · refine hentries.imp_of_mem ?_
    intro a b ha hb hne word hleft hright
    have hnamea := (of_mem_words ha ((hselect a).subset hleft)).1
    have hnameb := (of_mem_words hb ((hselect b).subset hright)).1
    exact hne (hnamea.symm.trans hnameb)

end Ingredients

end RecipeDesk
