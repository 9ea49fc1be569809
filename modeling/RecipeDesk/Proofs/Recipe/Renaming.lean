import Mathlib.Data.List.Basic
import RecipeDesk.Proofs.Recipe.Occurrences
import RecipeDesk.Proofs.Recipe.Rewrite
import RecipeDesk.Recipe.Rename

/-!
# A renaming renames

The edits of a renaming are the edits of the words of one entry of the index, put in source order.
Since those words are words of the text, each listed once, they are also the edits of the words
*chosen* by membership in that entry (`sort_edits_eq_wordEdits`), and what such edits do to the text
and to its tree is known from `Rewrite`.

What the renaming does to the index is then a matter of counting. The index is decided by the list
of roles and names of all occurrences, and this list can be computed from the texts of the tree
alone (`map_key_occurrences`). In the renamed tree it is the old list with the new name written for
the old one: a word that names an ingredient is rewritten exactly if it has the old name, and the
words that decide the roles, the heads outside the ingredients sections, are never rewritten.
-/

namespace RecipeDesk

/-! ### Valid names -/

theorem isSpace_of_isWordBlank {c : Char} (h : isWordBlank c = true) : isSpace c = true := by
  simp only [isWordBlank, Bool.or_eq_true, decide_eq_true_eq] at h
  rcases h with (rfl | rfl) | rfl <;> decide

/-- What the validity of a name is for. -/
theorem isName_of_isValidName {name : String} (h : isValidName name = true) : IsName name := by
  simp only [isValidName, isSingleWord, Bool.and_eq_true, Bool.not_eq_true', bne_iff_ne,
    List.any_eq_false] at h
  obtain ⟨⟨hne, hspace⟩, hhead⟩ := h
  refine ⟨⟨?_, fun c hc => ?_⟩, hhead, fun hc => hspace _ hc (by decide)⟩
  · simpa using hne
  · cases hblank : isWordBlank c with
    | false => rfl
    | true => exact absurd (isSpace_of_isWordBlank hblank) (hspace c hc)

/-! ### The edits of a renaming -/

namespace Analysis

/-- A renaming that changes something goes through the entry of the word under the caret. -/
theorem rename_cases {analysis : Analysis} {caret : Position} {newName : String}
    {edits : List Edit} (hok : analysis.rename caret newName = .ok edits) (hne : edits ≠ []) :
    isValidName newName = true ∧ ∃ word ingredient,
      analysis.recipe.wordAt? caret = some word ∧
      analysis.ingredients.get? word.text = some ingredient ∧
      edits = Edit.sort (ingredient.words.map fun w => ⟨w.span, newName⟩) := by
  unfold rename at hok
  split at hok
  · next hvalid =>
      refine ⟨hvalid, ?_⟩
      have hedits := Except.ok.inj hok
      split at hedits
      · exact absurd hedits.symm hne
      · next ingredient hfound =>
          obtain ⟨word, hword, hentry⟩ := Option.bind_eq_some_iff.mp hfound
          exact ⟨word, ingredient, hword, hentry, hedits.symm⟩
  · exact absurd hok (by simp)

end Analysis

/-- The words of an entry, each once and all of them words of the tree. -/
theorem Ingredient.words_collect_nodup (vocabulary : Vocabulary) (text name : String) :
    (collect name ((Recipe.ofText text).occurrences vocabulary)).words.Nodup ∧
      ∀ word ∈ (collect name ((Recipe.ofText text).occurrences vocabulary)).words,
        word ∈ (Recipe.ofText text).words := by
  have hsub := Recipe.occurrences_sublist vocabulary (Recipe.ofText text)
  have hnodup := nodup_of_sublist_textWords (hsub.trans (Recipe.words_sublist text))
  have hperm := words_collect_perm name ((Recipe.ofText text).occurrences vocabulary)
  have hselect := (List.filter_sublist (p := fun o : Occurrence => decide (o.word.text = name))
    (l := (Recipe.ofText text).occurrences vocabulary)).map Occurrence.word
  refine ⟨hperm.nodup_iff.mpr (hnodup.sublist hselect), fun word hword => ?_⟩
  exact hsub.subset (hselect.subset (hperm.subset hword))

/-- In source order, the edits of some words of a text are those of the words chosen for being
among them. -/
theorem sort_edits_eq_wordEdits {text : String} {words : List Word} (newName : String)
    (hnodup : words.Nodup) (hsub : ∀ word ∈ words, word ∈ textWords text) :
    Edit.sort (words.map fun w => ⟨w.span, newName⟩) =
      wordEdits (fun w => decide (w ∈ words)) newName (textWords text) := by
  have hperm : words.Perm ((textWords text).filter fun w => decide (w ∈ words)) := by
    have hfilter : ((textWords text).filter fun w => decide (w ∈ words)).Nodup :=
      nodup_of_sublist_textWords List.filter_sublist
    refine (List.perm_ext_iff_of_nodup hnodup hfilter).mpr fun word => ?_
    simp only [List.mem_filter, decide_eq_true_eq]
    exact ⟨fun h => ⟨hsub word h, h⟩, And.right⟩
  exact Edit.sort_eq_of_perm (wordEdits_sorted _ newName text) (hperm.map _)

/-! ### Names and roles, read off the texts -/

/-- The roles and names in a row of words, from its texts. -/
def rowKeys (vocabulary : Vocabulary) (declares : Bool) : List String → List (Role × String)
  | [] => []
  | head :: arguments =>
    if declares then [(.declared, head)]
    else if vocabulary.needsIngredients head then arguments.map fun name => (.used, name)
    else []

/-- The roles and names in the sections of a recipe, from their texts. -/
def sectionKeys (vocabulary : Vocabulary) (sections : List (String × List (List String))) :
    List (Role × String) :=
  sections.flatMap fun part =>
    part.2.flatMap (rowKeys vocabulary (vocabulary.isIngredientsSection part.1))

theorem Sentence.map_key_occurrences (vocabulary : Vocabulary) (declares : Bool)
    (row : Sentence) :
    (row.occurrences vocabulary declares).map Occurrence.key =
      rowKeys vocabulary declares (row.words.map Word.text) := by
  unfold occurrences
  rw [words, List.map_cons, rowKeys]
  split
  · rfl
  · split
    · rw [List.map_map, List.map_map]
      rfl
    · rfl

theorem Recipe.sectionKeys_reading (vocabulary : Vocabulary) (recipe : Recipe)
    (read : Word → String) :
    sectionKeys vocabulary (recipe.reading read).2 =
      (recipe.placed vocabulary).flatMap fun entry =>
        rowKeys vocabulary entry.1 (entry.2.words.map read) := by
  simp only [sectionKeys, reading, Section.reading, placed, Section.declares, List.flatMap_assoc,
    List.flatMap_map]

theorem Recipe.map_key_occurrences (vocabulary : Vocabulary) (recipe : Recipe) :
    (recipe.occurrences vocabulary).map Occurrence.key =
      sectionKeys vocabulary (recipe.reading Word.text).2 := by
  rw [sectionKeys_reading, occurrences_eq, List.map_flatMap]
  simp only [Sentence.map_key_occurrences]

/-! ### The new name for the old one -/

/-- A role and name, with `newName` for `oldName`. -/
def rekey (oldName newName : String) (key : Role × String) : Role × String :=
  (key.1, if key.2 = oldName then newName else key.2)

theorem count_rekey_old {oldName newName : String} (h : newName ≠ oldName) (role : Role)
    (keys : List (Role × String)) :
    (keys.map (rekey oldName newName)).count (role, oldName) = 0 := by
  refine List.count_eq_zero.mpr fun hmem => ?_
  obtain ⟨key, -, hkey⟩ := List.mem_map.mp hmem
  have hname : (if key.2 = oldName then newName else key.2) = oldName := congrArg Prod.snd hkey
  split at hname
  · exact h hname
  · next hne => exact hne hname

theorem count_rekey_new {oldName newName : String} (h : newName ≠ oldName) (role : Role)
    (keys : List (Role × String)) :
    (keys.map (rekey oldName newName)).count (role, newName) =
      keys.count (role, oldName) + keys.count (role, newName) := by
  induction keys with
  | nil => rfl
  | cons key rest ih =>
      obtain ⟨role', name⟩ := key
      simp only [List.map_cons, List.count_cons, ih, rekey, beq_iff_eq, Prod.mk.injEq]
      by_cases hrole : role' = role
      · by_cases hname : name = oldName
        · simp [hrole, hname, h.symm]
          omega
        · simp [hrole, hname]
          omega
      · simp [hrole]

theorem count_rekey_other {oldName newName name : String} (hold : name ≠ oldName)
    (hnew : name ≠ newName) (role : Role) (keys : List (Role × String)) :
    (keys.map (rekey oldName newName)).count (role, name) = keys.count (role, name) := by
  induction keys with
  | nil => rfl
  | cons key rest ih =>
      obtain ⟨role', name'⟩ := key
      simp only [List.map_cons, List.count_cons, ih, rekey]
      by_cases hname : name' = oldName
      · simp [hname, hold.symm, hnew.symm]
      · simp [hname]

/-- The index after the old name has been replaced in all occurrences. -/
theorem Ingredients.counts_of_rekey {os os' : List Occurrence} {oldName newName : String}
    (h : newName ≠ oldName)
    (hkeys : os'.map Occurrence.key = (os.map Occurrence.key).map (rekey oldName newName)) :
    (ofOccurrences os').get? oldName = none ∧
      ((ofOccurrences os').wordsOf newName).length =
        ((ofOccurrences os).wordsOf oldName).length +
          ((ofOccurrences os).wordsOf newName).length ∧
      ∀ name, name ≠ oldName → name ≠ newName →
        (ofOccurrences os').tally name = (ofOccurrences os).tally name := by
  refine ⟨?_, ?_, fun name hold hnew => ?_⟩
  · rw [(tally_ofOccurrences os' oldName).2.2, hkeys, count_rekey_old h, count_rekey_old h]
  · rw [(tally_ofOccurrences os' newName).2.1, (tally_ofOccurrences os oldName).2.1,
      (tally_ofOccurrences os newName).2.1, hkeys, count_rekey_new h, count_rekey_new h]
    omega
  · rw [(tally_ofOccurrences os' name).1, (tally_ofOccurrences os name).1, hkeys,
      count_rekey_other hold hnew, count_rekey_other hold hnew]

/-- Rewriting the words of an entry renames the occurrences, and nothing else. -/
theorem Recipe.sectionKeys_rewritten (vocabulary : Vocabulary) (recipe : Recipe)
    (hnodup : recipe.words.Nodup) (name newName : String) (chosen : Word → Bool)
    (hchosen : ∀ word, chosen word = true ↔
      ∃ o ∈ recipe.occurrences vocabulary, o.word = word ∧ word.text = name) :
    sectionKeys vocabulary (recipe.reading (rewrittenText chosen newName)).2 =
      ((recipe.occurrences vocabulary).map Occurrence.key).map (rekey name newName) := by
  have hoccurrence : ∀ o ∈ recipe.occurrences vocabulary,
      rewrittenText chosen newName o.word =
        (if o.word.text = name then newName else o.word.text) := by
    intro o ho
    have hiff : chosen o.word = true ↔ o.word.text = name := by
      rw [hchosen]
      exact ⟨fun ⟨_, _, _, hname⟩ => hname, fun hname => ⟨o, ho, rfl, hname⟩⟩
    simp only [rewrittenText, hiff]
  rw [sectionKeys_reading, occurrences_eq, List.map_flatMap, List.map_flatMap]
  refine List.flatMap_congr ?_
  rintro ⟨declares, row⟩ hrow
  have hmem : ∀ o ∈ row.occurrences vocabulary declares, o ∈ recipe.occurrences vocabulary := by
    intro o ho
    rw [occurrences_eq]
    exact List.mem_flatMap.mpr ⟨_, hrow, ho⟩
  cases declares with
  | true =>
      have hhead := hoccurrence _ (hmem ⟨.declared, row.head⟩ (by simp [Sentence.occurrences]))
      simp [Sentence.words, rowKeys, Sentence.occurrences, Occurrence.key, rekey, hhead]
  | false =>
      -- the head decides the role of the others, and it is not rewritten
      have hhead : rewrittenText chosen newName row.head = row.head.text := by
        refine if_neg fun htrue => ?_
        obtain ⟨o, ho, hword, -⟩ := (hchosen _).mp htrue
        exact head_not_occurrence hnodup hrow ho hword
      by_cases hneeds : vocabulary.needsIngredients row.head.text = true
      · have harguments : ∀ word ∈ row.arguments, rewrittenText chosen newName word =
            (if word.text = name then newName else word.text) := by
          intro word hword
          refine hoccurrence ⟨.used, word⟩ (hmem _ ?_)
          simpa [Sentence.occurrences, hneeds] using hword
        simpa [Sentence.words, rowKeys, Sentence.occurrences, Occurrence.key, rekey, hhead, hneeds,
          Function.comp_def] using harguments
      · simp [Sentence.words, rowKeys, Sentence.occurrences, hhead, hneeds]

/-! ### The renamed recipe -/

/-- **A renaming writes over the words of one entry.** -/
theorem Analysis.reading_renamed {vocabulary : Vocabulary} {text newName : String}
    {caret : Position} {edits : List Edit}
    (hok : (Analysis.ofText vocabulary text).rename caret newName = .ok edits) (hne : edits ≠ []) :
    ∃ word ingredient,
      (Analysis.ofText vocabulary text).recipe.wordAt? caret = some word ∧
      (Analysis.ofText vocabulary text).ingredients.get? word.text = some ingredient ∧
      ingredient =
        Ingredient.collect word.text ((Recipe.ofText text).occurrences vocabulary) ∧
      (Recipe.ofText (Edit.applyAll text edits)).reading Word.text =
        (Recipe.ofText text).reading
          (rewrittenText (fun w => decide (w ∈ ingredient.words)) newName) := by
  obtain ⟨hvalid, word, ingredient, hword, hentry, rfl⟩ := rename_cases hok hne
  refine ⟨word, ingredient, hword, hentry, ?_⟩
  have hcollect : ingredient =
      Ingredient.collect word.text ((Recipe.ofText text).occurrences vocabulary) := by
    have hget := Ingredients.get?_ofOccurrences ((Recipe.ofText text).occurrences vocabulary)
      word.text
    rw [show (Ingredients.ofOccurrences ((Recipe.ofText text).occurrences vocabulary)).get?
      word.text = some ingredient from hentry] at hget
    split at hget
    · exact Option.some.inj hget
    · cases hget
  refine ⟨hcollect, ?_⟩
  obtain ⟨hnodup, hwords⟩ := Ingredient.words_collect_nodup vocabulary text word.text
  rw [← hcollect] at hnodup hwords
  rw [sort_edits_eq_wordEdits newName hnodup
      fun w hw => (Recipe.words_sublist text).subset (hwords w hw),
    applyAll_wordEdits]
  refine reading_rewritten _ newName (isName_of_isValidName hvalid) text ?_
  -- the words of a heading are no words of the tree, so headings are not touched
  intro line hline hnot w hw
  have hnotword := Recipe.not_mem_words_of_not_isWords hline hnot hw
  exact decide_eq_false fun hmem => hnotword (hwords w hmem)

/-- **Rename does exactly a renaming.** After the edits the recipe reads as before, with the new
name for the words of the ingredient under the caret. In the index the old name is gone, its words
have gone over to the new name, and all other names keep their counts. -/
theorem rename_renames (vocabulary : Vocabulary) (text newName : String) (caret : Position)
    (edits : List Edit)
    (hok : (Analysis.ofText vocabulary text).rename caret newName = .ok edits) (hne : edits ≠ []) :
    let before := Analysis.ofText vocabulary text
    let after := Analysis.ofText vocabulary (Edit.applyAll text edits)
    ∃ word ingredient,
      before.recipe.wordAt? caret = some word ∧
      before.ingredients.get? word.text = some ingredient ∧
      after.recipe.reading Word.text =
        before.recipe.reading (fun w => if w ∈ ingredient.words then newName else w.text) ∧
      (newName ≠ word.text →
        after.ingredients.get? word.text = none ∧
        (after.ingredients.wordsOf newName).length =
          (before.ingredients.wordsOf word.text).length +
            (before.ingredients.wordsOf newName).length ∧
        ∀ name, name ≠ word.text → name ≠ newName →
          after.ingredients.tally name = before.ingredients.tally name) := by
  intro before after
  obtain ⟨word, ingredient, hword, hentry, hcollect, hreading⟩ :=
    Analysis.reading_renamed hok hne
  refine ⟨word, ingredient, hword, hentry, ?_, fun hnew => ?_⟩
  · have hread : rewrittenText (fun w => decide (w ∈ ingredient.words)) newName =
        fun w => if w ∈ ingredient.words then newName else w.text := by
      funext w
      simp only [rewrittenText, decide_eq_true_eq]
    rw [hread] at hreading
    exact hreading
  · have hkeys :
        ((Recipe.ofText (Edit.applyAll text edits)).occurrences vocabulary).map Occurrence.key =
          (((Recipe.ofText text).occurrences vocabulary).map Occurrence.key).map
            (rekey word.text newName) := by
      have hnodup := nodup_of_sublist_textWords (Recipe.words_sublist text)
      -- the list of roles and names depends on the texts of the tree only
      rw [Recipe.map_key_occurrences, hreading]
      refine Recipe.sectionKeys_rewritten vocabulary _ hnodup word.text newName _ fun w => ?_
      rw [decide_eq_true_eq, hcollect]
      exact Ingredient.mem_words_collect
    exact Ingredients.counts_of_rekey hnew hkeys

/-- A name that is used twice and declared nowhere is merged into one that is declared: afterwards
the declared name has the words of both. -/
theorem rename_renames_merging :
    let analyse := Analysis.ofText ⟨["m"], ["m"], [], [], "i"⟩
    let text := "#T\n##i\na\n##s\nm b b"
    let edits : List Edit :=
      [⟨⟨⟨15, 4, 2⟩, ⟨16, 4, 3⟩⟩, "a"⟩, ⟨⟨⟨17, 4, 4⟩, ⟨18, 4, 5⟩⟩, "a"⟩]
    (analyse text).rename ⟨15, 4, 2⟩ "a" = .ok edits ∧ edits ≠ [] ∧
      let after := analyse (Edit.applyAll text edits)
      after.recipe.reading Word.text = (some "T", [("i", [["a"]]), ("s", [["m", "a", "a"]])]) ∧
        after.ingredients.get? "b" = none ∧ (after.ingredients.wordsOf "a").length = 2 + 1 := by
  intro analyse text edits
  have hlocated : (analyse text).recipe.wordAt? ⟨15, 4, 2⟩ =
      some ⟨"b", ⟨⟨15, 4, 2⟩, ⟨16, 4, 3⟩⟩⟩ := by decide +kernel
  have hfound : (analyse text).ingredients.get? "b" = some ⟨"b", none, [],
      [⟨"b", ⟨⟨15, 4, 2⟩, ⟨16, 4, 3⟩⟩⟩, ⟨"b", ⟨⟨17, 4, 4⟩, ⟨18, 4, 5⟩⟩⟩]⟩ := by decide +kernel
  have hok : (analyse text).rename ⟨15, 4, 2⟩ "a" = .ok edits := by
    rw [Analysis.rename, if_pos (by decide +kernel), hlocated, Option.bind_some, hfound]
    exact congrArg Except.ok (Edit.sort_eq_of_perm (by decide) (by decide))
  have hold : ((analyse text).ingredients.wordsOf "b").length = 2 := by
    rw [Ingredients.wordsOf, hfound]
    rfl
  have hnew : ((analyse text).ingredients.wordsOf "a").length = 1 := by decide +kernel
  obtain ⟨word, ingredient, hword, hentry, hreading, hindex⟩ :=
    rename_renames _ text "a" ⟨15, 4, 2⟩ edits hok (by simp [edits])
  obtain rfl := Option.some.inj (hlocated.symm.trans hword)
  obtain rfl := Option.some.inj (hfound.symm.trans hentry)
  obtain ⟨hgone, hlength, -⟩ := hindex (by decide)
  refine ⟨hok, by simp [edits], hreading.trans ?_, hgone, ?_⟩
  · decide +kernel
  · rw [hlength, hold, hnew]

end RecipeDesk
