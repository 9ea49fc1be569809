import Mathlib.Data.List.Flatten
import Mathlib.Data.List.Nodup
import RecipeDesk.Proofs.Recipe.Index
import RecipeDesk.Proofs.Recipe.WellFormed

/-!
# The checks and the index agree

Whether a declaration is repeated, and whether a used name is declared, is decided twice: by the
index, which sorts the occurrences as they come, and by the checks, which look each word up in the
finished index. Both come to the same (`index_agrees`).

The checks report the declarations that are not the definition of their name, and the uses of names
without definition (`Recipe.spansOf_duplicated`, `Recipe.spansOf_unknown`). The index keeps the same
words, in another order (`mem_duplicates_iff`, `mem_undeclared_usages_iff`). As no two words of a
text have the same place, the two lists are the same up to order.
-/

namespace RecipeDesk

/-- Whether a word has an entry of its name that another word defines, or none. -/
def Ingredients.redeclares (ingredients : Ingredients) (word : Word) : Bool :=
  (ingredients.get? word.text).any fun entry =>
    !entry.definition.any fun first => first.span == word.span

/-! ### What is reported -/

/-- The spans that are reported with a problem. -/
def spansOf (problem : Problem) (findings : List Finding) : List Span :=
  (findings.filter (·.problem = problem)).map Finding.span

theorem spansOf_append (problem : Problem) (fs gs : List Finding) :
    spansOf problem (fs ++ gs) = spansOf problem fs ++ spansOf problem gs := by
  rw [spansOf, List.filter_append, List.map_append]
  rfl

theorem spansOf_flatMap {α : Type} (problem : Problem) (xs : List α) (f : α → List Finding) :
    spansOf problem (xs.flatMap f) = xs.flatMap fun x => spansOf problem (f x) := by
  simp only [spansOf, List.filter_flatMap, List.map_flatMap]

theorem spansOf_eq_nil {problem : Problem} {fs : List Finding}
    (h : ∀ f ∈ fs, f.problem ≠ problem) : spansOf problem fs = [] := by
  rw [spansOf, List.map_eq_nil_iff, List.filter_eq_nil_iff]
  intro f hf heq
  exact h f hf (of_decide_eq_true heq)

/-- Findings that all have one problem. -/
theorem spansOf_map (problem other : Problem) (words : List Word) :
    spansOf problem (words.map fun word => ⟨other, word.span⟩) =
      if other = problem then words.map Word.span else [] := by
  unfold spansOf
  by_cases h : other = problem <;> simp [List.filter_map, Function.comp_def, h]

namespace Sentence

variable (vocabulary : Vocabulary) (ingredients : Ingredients)

theorem declarationFindings_eq (row : Sentence) :
    row.declarationFindings ingredients =
      ([row.head].filter ingredients.redeclares).map fun word =>
        ⟨.duplicatedIngredient, word.span⟩ := by
  rw [List.filter_singleton, declarationFindings, Ingredients.redeclares]
  cases ingredients.get? row.head.text with
  | none => rfl
  | some entry => cases h : entry.definition.any fun word => word.span == row.head.span <;> simp [h]

theorem spansOf_ingredientFindings {problem : Problem} (h : problem ≠ .missingIngredients)
    (row : Sentence) :
    spansOf problem (row.ingredientFindings ingredients) =
      if .unknownIngredient = problem then
        (row.arguments.filter fun word => !ingredients.isDefined word.text).map Word.span
      else [] := by
  have hmissing : spansOf problem (if row.arguments.isEmpty = true then
      [⟨.missingIngredients, row.head.span⟩] else []) = [] := by
    refine spansOf_eq_nil fun f hf => ?_
    split at hf
    · obtain rfl := List.mem_singleton.mp hf
      exact h.symm
    · cases hf
  rw [ingredientFindings, spansOf_append, spansOf_map, hmissing, List.nil_append]

theorem problem_of_mem_toolFindings (row : Sentence) {f : Finding}
    (h : f ∈ row.toolFindings vocabulary) :
    f.problem = .missingTool ∨ f.problem = .unknownTool ∨ f.problem = .tooManyTools := by
  unfold toolFindings at h
  split at h
  · obtain rfl := List.mem_singleton.mp h
    exact .inl rfl
  · rcases List.mem_append.mp h with h | h
    · split at h
      · cases h
      · obtain rfl := List.mem_singleton.mp h
        exact .inr (.inl rfl)
    · obtain ⟨span, -, rfl⟩ := Option.map_eq_some_iff.mp (Option.mem_toList.mp h)
      exact .inr (.inr rfl)

/-- In an ingredients section a word is reported if it declares a name again. -/
theorem spansOf_findings_true (problem : Problem) (row : Sentence) :
    spansOf problem (row.findings vocabulary ingredients true) =
      if .duplicatedIngredient = problem then
        ([row.head].filter ingredients.redeclares).map Word.span
      else [] := by
  rw [findings, if_pos rfl, declarationFindings_eq, spansOf_map]

/-- Elsewhere a word is reported if it uses a name without definition. -/
theorem spansOf_findings_false {problem : Problem}
    (h : problem = .duplicatedIngredient ∨ problem = .unknownIngredient) (row : Sentence) :
    spansOf problem (row.findings vocabulary ingredients false) =
      if .unknownIngredient = problem then
        ((if vocabulary.needsIngredients row.head.text then row.arguments else []).filter
          fun word => !ingredients.isDefined word.text).map Word.span
      else [] := by
  simp only [findings, Bool.false_eq_true, if_false]
  split
  · rw [spansOf_ingredientFindings]
    rcases h with rfl | rfl <;> simp
  · -- nothing else that is reported has one of these problems
    rw [List.filter_nil, List.map_nil, ite_self]
    refine spansOf_eq_nil fun f hf => ?_
    split at hf
    · cases hf
    split at hf
    · rcases row.problem_of_mem_toolFindings vocabulary hf with hf | hf | hf <;>
        rcases h with rfl | rfl <;> simp [hf]
    · obtain rfl := List.mem_singleton.mp hf
      rcases h with rfl | rfl <;> simp

end Sentence

namespace Recipe

variable (vocabulary : Vocabulary) (ingredients : Ingredients) (recipe : Recipe)

/-- **Repeated declarations** are the declarations of names that another word defines. -/
theorem spansOf_duplicated :
    spansOf .duplicatedIngredient (recipe.findings vocabulary ingredients) =
      ((recipe.declarations vocabulary).filter ingredients.redeclares).map Word.span := by
  rw [findings_eq, spansOf_flatMap, declarations]
  induction recipe.placed vocabulary with
  | nil => rfl
  | cons entry rest ih =>
      obtain ⟨declares, row⟩ := entry
      rw [List.flatMap_cons, ih]
      cases declares with
      | true =>
          rw [row.spansOf_findings_true, if_pos rfl, ← List.map_append, ← List.filter_append]
          rfl
      | false =>
          rw [row.spansOf_findings_false _ _ (.inl rfl), if_neg (by simp), List.nil_append,
            List.filter_cons_of_neg (by simp)]

/-- **Unknown ingredients** are the uses of names without definition. -/
theorem spansOf_unknown :
    spansOf .unknownIngredient (recipe.findings vocabulary ingredients) =
      ((recipe.ingredientArguments vocabulary).filter fun word =>
        !ingredients.isDefined word.text).map Word.span := by
  rw [findings_eq, spansOf_flatMap, ingredientArguments]
  induction recipe.placed vocabulary with
  | nil => rfl
  | cons entry rest ih =>
      obtain ⟨declares, row⟩ := entry
      rw [List.flatMap_cons, ih]
      cases declares with
      | true =>
          rw [row.spansOf_findings_true, if_neg (by simp), List.nil_append,
            List.filter_cons_of_neg (by simp)]
      | false =>
          rw [row.spansOf_findings_false _ _ (.inr rfl), if_pos rfl]
          by_cases hneeds : vocabulary.needsIngredients row.head.text = true
          · rw [List.filter_cons_of_pos (by simpa using hneeds), if_pos hneeds, List.flatMap_cons,
              List.filter_append, List.map_append]
          · rw [List.filter_cons_of_neg (by simpa using hneeds), if_neg hneeds]
            rfl

end Recipe

/-! ### What the index keeps -/

/-- Behind the first of some words stand those that have another place than the first. -/
theorem mem_tail_iff {words : List Word} (h : words.Pairwise fun a b => a.span ≠ b.span)
    {word : Word} :
    word ∈ words.tail ↔
      word ∈ words ∧ (words.head?.any fun first => first.span == word.span) = false := by
  cases words with
  | nil => simp
  | cons first later =>
      have hfirst := (List.pairwise_cons.mp h).1
      simp only [List.tail_cons, List.mem_cons, List.head?_cons, Option.any_some,
        beq_eq_false_iff_ne]
      constructor
      · intro hword
        exact ⟨.inr hword, hfirst word hword⟩
      · rintro ⟨rfl | hword, hne⟩
        · exact absurd rfl hne
        · exact hword

namespace Ingredients

variable {os : List Occurrence}

/-- The duplicates of all entries are the declarations of names that another word defines. -/
theorem mem_duplicates_iff
    (hspans : (os.map Occurrence.word).Pairwise fun a b => a.span ≠ b.span) {word : Word} :
    word ∈ (ofOccurrences os).entries.flatMap Ingredient.duplicates ↔
      word ∈ Occurrence.wordsIn .declared os ∧ (ofOccurrences os).redeclares word = true := by
  have hnamed (name : String) : (Occurrence.named .declared name os).Pairwise
      fun a b => a.span ≠ b.span := hspans.sublist (List.filter_sublist.map _)
  rw [List.mem_flatMap]
  constructor
  · rintro ⟨entry, hentry, hword⟩
    have heq := (mem_entries_iff.mp hentry).2
    rw [heq] at hword
    obtain ⟨hmem, hfirst⟩ := (mem_tail_iff (hnamed entry.name)).mp hword
    obtain ⟨hdeclared, hname⟩ := Occurrence.mem_named.mp hmem
    refine ⟨hdeclared, ?_⟩
    rw [redeclares, hname, get?_of_mem hentry, Option.any_some, heq]
    simpa only [Ingredient.collect, Bool.not_eq_true'] using hfirst
  · rintro ⟨hdeclared, hagain⟩
    obtain ⟨entry, hget, hfirst⟩ := (Option.any_eq_true _ _).mp hagain
    have hname : entry.name = word.text := by simpa using List.find?_some hget
    have hentry : entry ∈ (ofOccurrences os).entries := List.mem_of_find?_eq_some hget
    have heq := (mem_entries_iff.mp hentry).2
    rw [heq, Bool.not_eq_true'] at hfirst
    refine ⟨entry, hentry, ?_⟩
    rw [heq]
    exact (mem_tail_iff (hnamed entry.name)).mpr
      ⟨Occurrence.mem_named.mpr ⟨hdeclared, hname.symm⟩, hfirst⟩

/-- The usages of the entries without definition are the uses of names without definition. -/
theorem mem_undeclared_usages_iff {word : Word} :
    word ∈ ((ofOccurrences os).entries.filter (·.definition.isNone)).flatMap Ingredient.usages ↔
      word ∈ Occurrence.wordsIn .used os ∧ (ofOccurrences os).isDefined word.text = false := by
  rw [List.mem_flatMap]
  constructor
  · rintro ⟨entry, hentry, hword⟩
    obtain ⟨hentry, hnone⟩ := List.mem_filter.mp hentry
    rw [(mem_entries_iff.mp hentry).2] at hword
    obtain ⟨hused, hname⟩ := Occurrence.mem_named.mp hword
    refine ⟨hused, ?_⟩
    rw [isDefined, hname, get?_of_mem hentry]
    simpa using hnone
  · rintro ⟨hused, hnone⟩
    have hoccurs : ∃ o ∈ os, o.word.text = word.text := by
      obtain ⟨o, ho, rfl⟩ := List.mem_map.mp hused
      exact ⟨o, (List.mem_filter.mp ho).1, rfl⟩
    have hentry : Ingredient.collect word.text os ∈ (ofOccurrences os).entries :=
      mem_entries_iff.mpr ⟨hoccurs, rfl⟩
    have hget : (ofOccurrences os).get? word.text = some (Ingredient.collect word.text os) :=
      get?_of_mem hentry
    rw [isDefined, hget] at hnone
    exact ⟨_, List.mem_filter.mpr ⟨hentry, by simpa using hnone⟩,
      Occurrence.mem_named.mpr ⟨hused, rfl⟩⟩

/-- Every entry has a definition or a use, and no duplicates without a definition. -/
theorem entry_shape {entry : Ingredient} (h : entry ∈ (ofOccurrences os).entries) :
    (entry.definition.isSome = true ∨ entry.usages ≠ []) ∧
      (entry.duplicates ≠ [] → entry.definition.isSome = true) := by
  have hne := words_ne_nil h
  rw [(mem_entries_iff.mp h).2] at hne ⊢
  simp only [Ingredient.words, Ingredient.collect] at hne ⊢
  generalize Occurrence.named .declared entry.name os = declared at hne ⊢
  cases declared with
  | nil => simpa using hne
  | cons first later => simp

end Ingredients

theorem Ingredient.status_good_iff (entry : Ingredient) :
    (entry.status.display = "ok" ∨ entry.status.display = "unused") ↔
      entry.definition.isSome = true ∧ entry.duplicates = [] := by
  unfold status
  cases entry.definition <;> cases entry.duplicates <;> cases entry.usages <;>
    simp [IngredientStatus.display]

/-! ### Both together -/

theorem Problem.message_inj {p q : Problem} : p.message = q.message ↔ p = q := by
  cases p <;> cases q <;> simp [message]

/-- A line out of place has one of three problems. -/
theorem Recipe.problem_of_misplaced {text : String} {f : Finding} (h : f ∈ misplaced text) :
    f.problem = .titleAlreadyDefined ∨ f.problem = .sectionBeforeTitle ∨
      f.problem = .wordsOutsideSection := by
  obtain ⟨entry, hentry, hfinding⟩ := List.mem_filterMap.mp h
  obtain ⟨titled, opened, line, -, rfl⟩ := Entry.mem_ofLines hentry
  unfold Entry.ofLine at hfinding
  split at hfinding
  · cases hfinding
  · dsimp only at hfinding
    split at hfinding <;> split at hfinding <;> cases hfinding <;> simp
  · dsimp only at hfinding
    split at hfinding <;> cases hfinding
    simp

namespace Analysis

/-- The spans of the diagnostics with these words. -/
def spansSaying (analysis : Analysis) (message : String) : List Span :=
  (analysis.diagnostics.filter (·.message = message)).map Diagnostic.span

theorem spansSaying_message (analysis : Analysis) (problem : Problem) :
    analysis.spansSaying problem.message = spansOf problem analysis.findings := by
  rw [spansSaying, diagnostics, List.filter_map, List.map_map, spansOf]
  congr 1
  refine List.filter_congr fun f _ => ?_
  simp only [Function.comp_apply, Finding.diagnostic, Problem.message_inj]

theorem spansSaying_eq_nil_iff {analysis : Analysis} {message : String} :
    analysis.spansSaying message = [] ↔ ∀ d ∈ analysis.diagnostics, d.message ≠ message := by
  rw [spansSaying, List.map_eq_nil_iff, List.filter_eq_nil_iff]
  simp only [decide_eq_true_eq, ne_eq]

variable (vocabulary : Vocabulary) (text : String)

theorem spansOf_ofText {problem : Problem}
    (h : problem = .duplicatedIngredient ∨ problem = .unknownIngredient) :
    spansOf problem (ofText vocabulary text).findings =
      spansOf problem ((Recipe.ofText text).findings vocabulary
        (Ingredients.ofRecipe vocabulary (Recipe.ofText text))) := by
  have hmisplaced : spansOf problem (Recipe.misplaced text) = [] := by
    refine spansOf_eq_nil fun f hf => ?_
    rcases Recipe.problem_of_misplaced hf with hf | hf | hf <;> rcases h with rfl | rfl <;>
      simp [hf]
  rw [ofText, spansOf_append, hmisplaced, List.nil_append]

/-- The words that name ingredients have different places. -/
theorem occurrences_apart :
    (((Recipe.ofText text).occurrences vocabulary).map Occurrence.word).Pairwise
      fun a b => a.span ≠ b.span := by
  have hsub := (Recipe.occurrences_sublist vocabulary (Recipe.ofText text)).trans
    (Recipe.words_sublist text)
  refine (starts_increase hsub).imp fun hlt heq => ?_
  rw [heq] at hlt
  exact Nat.lt_irrefl _ hlt

theorem occurrences_nodup :
    (((Recipe.ofText text).occurrences vocabulary).map Occurrence.word).Nodup :=
  (occurrences_apart vocabulary text).imp fun hne heq => hne (congrArg Word.span heq)

theorem duplicated_perm :
    ((ofText vocabulary text).spansSaying "duplicated ingredient").Perm
      (((ofText vocabulary text).ingredients.entries.flatMap Ingredient.duplicates).map
        Word.span) := by
  have hnodup := occurrences_nodup vocabulary text
  have hwords : ((Recipe.ofText text).declarations vocabulary).Nodup := by
    rw [Recipe.declarations_eq]
    exact hnodup.sublist (List.filter_sublist.map _)
  have hindex := Ingredients.nodup_flatMap_entries hnodup fun entry =>
    ((List.sublist_append_right entry.definition.toList entry.duplicates).trans
      (List.sublist_append_left _ entry.usages))
  refine (spansSaying_message _ .duplicatedIngredient).symm ▸ ?_
  rw [spansOf_ofText vocabulary text (.inl rfl), Recipe.spansOf_duplicated]
  refine List.Perm.map _ ?_
  refine (List.perm_ext_iff_of_nodup (hwords.filter _) hindex).mpr fun word => ?_
  rw [List.mem_filter, Recipe.declarations_eq,
    Ingredients.mem_duplicates_iff (occurrences_apart vocabulary text)]
  rfl

theorem unknown_perm :
    ((ofText vocabulary text).spansSaying "unknown ingredient").Perm
      ((((ofText vocabulary text).ingredients.entries.filter (·.definition.isNone)).flatMap
        Ingredient.usages).map Word.span) := by
  have hnodup := occurrences_nodup vocabulary text
  have hwords : ((Recipe.ofText text).ingredientArguments vocabulary).Nodup := by
    rw [Recipe.ingredientArguments_eq]
    exact hnodup.sublist (List.filter_sublist.map _)
  have hindex := Ingredients.nodup_flatMap_entries hnodup fun entry =>
    List.sublist_append_right (entry.definition.toList ++ entry.duplicates) entry.usages
  refine (spansSaying_message _ .unknownIngredient).symm ▸ ?_
  rw [spansOf_ofText vocabulary text (.inr rfl), Recipe.spansOf_unknown]
  refine List.Perm.map _ ?_
  refine (List.perm_ext_iff_of_nodup (hwords.filter _)
    (hindex.sublist (List.filter_sublist.flatMap Ingredient.usages))).mpr fun word => ?_
  rw [List.mem_filter, Bool.not_eq_true', Recipe.ingredientArguments_eq,
    Ingredients.mem_undeclared_usages_iff]
  rfl

end Analysis

/-- **Checks, index and symbol table agree.** The diagnostics about repeated declarations are the
duplicates of the index, and those about unknown ingredients the usages of the entries without
definition, each reported once. Every entry has a definition or a use, and has duplicates only with
a definition. There is neither kind of diagnostic if and only if every entry is listed as `ok` or
`unused`. -/
theorem index_agrees (vocabulary : Vocabulary) (text : String) :
    let analysis := Analysis.ofText vocabulary text
    let entries := analysis.ingredients.entries
    (analysis.spansSaying "duplicated ingredient").Perm
        ((entries.flatMap Ingredient.duplicates).map Word.span) ∧
      (analysis.spansSaying "unknown ingredient").Perm
        (((entries.filter (·.definition.isNone)).flatMap Ingredient.usages).map Word.span) ∧
      (∀ entry ∈ entries, (entry.definition.isSome = true ∨ entry.usages ≠ []) ∧
        (entry.duplicates ≠ [] → entry.definition.isSome = true)) ∧
      ((∀ d ∈ analysis.diagnostics,
          d.message ≠ "duplicated ingredient" ∧ d.message ≠ "unknown ingredient") ↔
        ∀ entry ∈ entries, entry.status.display = "ok" ∨ entry.status.display = "unused") := by
  intro analysis entries
  have hduplicated := Analysis.duplicated_perm vocabulary text
  have hunknown := Analysis.unknown_perm vocabulary text
  have hshape : ∀ entry ∈ entries, (entry.definition.isSome = true ∨ entry.usages ≠ []) ∧
      (entry.duplicates ≠ [] → entry.definition.isSome = true) :=
    fun entry hentry => Ingredients.entry_shape hentry
  refine ⟨hduplicated, hunknown, hshape, ?_⟩
  have hempty {as bs : List Span} (h : as.Perm bs) : as = [] ↔ bs = [] := by
    rw [← List.length_eq_zero_iff, h.length_eq, List.length_eq_zero_iff]
  have hnone : (∀ d ∈ analysis.diagnostics,
      d.message ≠ "duplicated ingredient" ∧ d.message ≠ "unknown ingredient") ↔
      (∀ entry ∈ entries, entry.duplicates = []) ∧
        ∀ entry ∈ entries, entry.definition = none → entry.usages = [] := by
    rw [forall₂_and, ← Analysis.spansSaying_eq_nil_iff, ← Analysis.spansSaying_eq_nil_iff,
      hempty hduplicated, hempty hunknown]
    simp only [List.map_eq_nil_iff, List.flatMap_eq_nil_iff, List.mem_filter,
      Option.isNone_iff_eq_none, and_imp]
    rfl
  rw [hnone, ← forall₂_and]
  refine forall₂_congr fun entry hentry => ?_
  rw [Ingredient.status_good_iff]
  obtain ⟨hword, -⟩ := hshape entry hentry
  cases hdefinition : entry.definition with
  | none => simp_all
  | some first => simp

/-- An ingredient declared twice and another declared nowhere: two entries, two diagnostics, and no
entry listed as in order. -/
theorem index_agrees_both_kinds :
    let vocabulary : Vocabulary := ⟨["v"], ["v"], [], [], "i"⟩
    let analysis := Analysis.ofText vocabulary "# t\n## i\na\na\n## s\nv b"
    let twice : Ingredient := ⟨"a", some ⟨"a", ⟨⟨9, 2, 0⟩, ⟨10, 2, 1⟩⟩⟩,
      [⟨"a", ⟨⟨11, 3, 0⟩, ⟨12, 3, 1⟩⟩⟩], []⟩
    twice ∈ analysis.ingredients.entries ∧
      analysis.spansSaying "duplicated ingredient" = [⟨⟨11, 3, 0⟩, ⟨12, 3, 1⟩⟩] ∧
      analysis.spansSaying "unknown ingredient" = [⟨⟨20, 5, 2⟩, ⟨21, 5, 3⟩⟩] ∧
      twice.definition.isSome = true ∧
      ¬ ∀ d ∈ analysis.diagnostics,
        d.message ≠ "duplicated ingredient" ∧ d.message ≠ "unknown ingredient" := by
  intro vocabulary analysis twice
  have hentries : analysis.ingredients.entries =
      [twice, ⟨"b", none, [], [⟨"b", ⟨⟨20, 5, 2⟩, ⟨21, 5, 3⟩⟩⟩]⟩] := by decide +kernel
  obtain ⟨hduplicated, hunknown, hshape, hgood⟩ :=
    index_agrees vocabulary "# t\n## i\na\na\n## s\nv b"
  change List.Perm _ ((analysis.ingredients.entries.flatMap _).map _) at hduplicated
  change List.Perm _ (((analysis.ingredients.entries.filter _).flatMap _).map _) at hunknown
  rw [hentries] at hduplicated hunknown
  have htwice : twice ∈ analysis.ingredients.entries := by
    rw [hentries]
    exact List.mem_cons_self
  refine ⟨htwice, ?_, ?_, (hshape twice htwice).2 (by simp [twice]), ?_⟩
  · exact List.perm_singleton.mp hduplicated
  · exact List.perm_singleton.mp hunknown
  · rw [hgood]
    intro hall
    have hstatus : twice.status = .duplicated := by decide
    simpa [hstatus, IngredientStatus.display] using hall twice htwice

end RecipeDesk
