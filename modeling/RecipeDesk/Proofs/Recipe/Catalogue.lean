import Mathlib.Data.List.Induction
import RecipeDesk.Proofs.Recipe.Agreement
import RecipeDesk.Proofs.Text.Splice

/-!
# The index, read off the recipe

The index of ingredients is filled while the recipe is read, by noting one occurrence after the
other under its name. What it comes to can be said without following it (`index_lists_occurrences`).
There are the words that declare, `Recipe.declarations`, and the words that are used,
`Recipe.ingredientArguments`; an entry holds the words of its name among both, and the names come in
the order in which they first occur.

* Under a name, everything follows from what is collected for it (`collect_eq_told`).
* The list of names is the list of all occurrences with later repetitions left out
  (`map_name_entries`); left out one by one, as the occurrences come, or all at once.
* The declared names are sorted by their definitions, which are the first declarations of each name.
  As words of a text they are sorted already (`defined_eq`).
-/

namespace RecipeDesk

/-! ### The first of each kind -/

section Firsts

variable {α β : Type} [BEq β] (key : α → β)

/-- The first of all elements with the same key, for every key, in order. -/
def firsts (xs : List α) : List α := xs.eraseDupsBy fun a b => key a == key b

theorem firsts_cons (x : α) (xs : List α) :
    firsts key (x :: xs) = x :: firsts key (xs.filter fun y => !key y == key x) := by
  have hfilter : (xs.filter fun y => decide ((key y == key x) = false)) =
      xs.filter fun y => !key y == key x := by
    refine List.filter_congr fun y _ => ?_
    cases key y == key x <;> rfl
  rw [firsts, List.eraseDupsBy_cons, hfilter, firsts]

/-- Going through a list as the first elements are found: behind each, those of its kind are left
out. -/
theorem firsts_induction {motive : List α → Prop} (nil : motive [])
    (cons : ∀ x xs, motive (xs.filter fun y => !key y == key x) → motive (x :: xs)) :
    ∀ xs, motive xs := by
  intro xs
  induction hn : xs.length using Nat.strongRecOn generalizing xs with
  | ind n ih =>
      cases xs with
      | nil => exact nil
      | cons x xs =>
          have hshort := List.length_filter_le (fun y => !key y == key x) xs
          rw [List.length_cons] at hn
          exact cons x xs (ih _ (by omega) _ rfl)

theorem firsts_sublist (xs : List α) : (firsts key xs).Sublist xs := by
  induction xs using firsts_induction key with
  | nil => exact List.Sublist.refl _
  | cons x xs ih =>
      rw [firsts_cons]
      exact (ih.trans List.filter_sublist).cons_cons x

/-- The keys of the first elements are the keys, later repetitions left out. -/
theorem map_firsts (xs : List α) : (firsts key xs).map key = (xs.map key).eraseDups := by
  induction xs using firsts_induction key with
  | nil => rfl
  | cons x xs ih =>
      rw [firsts_cons, List.map_cons, ih, List.map_cons, List.eraseDups_cons, List.filter_map]
      rfl

variable [LawfulBEq β]

/-- The first elements are those found under their own key. -/
theorem mem_firsts_iff {xs : List α} {x : α} :
    x ∈ firsts key xs ↔ (xs.filter fun y => key y == key x).head? = some x := by
  induction xs using firsts_induction key with
  | nil => simp [firsts]
  | cons y ys ih =>
      rw [firsts_cons, List.mem_cons, ih, List.filter_filter]
      by_cases hkey : key y = key x
      · -- those of the kind of `y` are all left out, so `x` would have to be `y`
        have hnone : (ys.filter fun z => key z == key x && !key z == key y) = [] := by
          refine List.filter_eq_nil_iff.mpr fun z _ => ?_
          simp [hkey]
        rw [hnone, List.filter_cons_of_pos (by simp [hkey])]
        simp [eq_comm]
      · have hne : x ≠ y := fun heq => hkey (congrArg key heq.symm)
        have hsame : (ys.filter fun z => key z == key x && !key z == key y) =
            ys.filter fun z => key z == key x := by
          refine List.filter_congr fun z _ => ?_
          by_cases hz : key z = key x
          · simp [hz, Ne.symm hkey]
          · simp [hz]
        rw [hsame, List.filter_cons_of_neg (by simp [hkey])]
        simp [hne]

/-- Selecting by a test and leaving out repetitions go in either order. -/
theorem filter_eraseDups (p : β → Bool) (xs : List β) :
    xs.eraseDups.filter p = (xs.filter p).eraseDups := by
  induction xs using firsts_induction (fun x : β => x) with
  | nil => rfl
  | cons x xs ih =>
      rw [List.eraseDups_cons, List.filter_cons, ih, List.filter_cons, List.filter_comm]
      by_cases hx : p x = true
      · rw [if_pos hx, if_pos hx, List.eraseDups_cons]
      · rw [if_neg hx, if_neg hx]
        congr 1
        refine List.filter_eq_self.mpr fun y hy => ?_
        have hne : y ≠ x := fun heq => hx (heq ▸ (List.mem_filter.mp hy).2)
        simp [hne]

end Firsts

/-! ### What an entry holds -/

/-- What the words that declare and the words that are used say of a name. -/
def Ingredient.told (declared used : List Word) (name : String) : Ingredient where
  name := name
  definition := (declared.filter fun word => word.text = name).head?
  duplicates := (declared.filter fun word => word.text = name).tail
  usages := used.filter fun word => word.text = name

namespace Occurrence

theorem mem_wordsIn {o : Occurrence} {os : List Occurrence} (h : o ∈ os) :
    o.word ∈ wordsIn o.role os :=
  List.mem_map_of_mem (List.mem_filter.mpr ⟨h, decide_eq_true rfl⟩)

/-- Every occurrence declares or uses. -/
theorem words_perm (os : List Occurrence) :
    (os.map word).Perm (wordsIn .declared os ++ wordsIn .used os) := by
  have hused : (os.filter fun o => !decide (o.role = .declared)) =
      os.filter fun o => decide (o.role = .used) := by
    refine List.filter_congr fun o _ => ?_
    cases o.role <;> rfl
  have hsplit := List.filter_append_perm (fun o : Occurrence => decide (o.role = .declared)) os
  rw [hused] at hsplit
  rw [wordsIn, wordsIn, ← List.map_append]
  exact (hsplit.map word).symm

theorem exists_iff (os : List Occurrence) (name : String) :
    (∃ o ∈ os, o.word.text = name) ↔
      ∃ word ∈ wordsIn .declared os ++ wordsIn .used os, word.text = name := by
  simp only [← (words_perm os).mem_iff, List.mem_map, exists_exists_and_eq_and]

end Occurrence

namespace Ingredients

open Occurrence (wordsIn)

variable (os : List Occurrence)

theorem collect_eq_told (name : String) :
    Ingredient.collect name os = .told (wordsIn .declared os) (wordsIn .used os) name := by
  simp only [Ingredient.collect, Ingredient.told, Occurrence.named_eq]

/-- **The names** of the index are those of the occurrences, later repetitions left out. -/
theorem map_name_entries :
    (ofOccurrences os).entries.map Ingredient.name =
      ((os.map Occurrence.word).map Word.text).eraseDups := by
  induction os using List.reverseRecOn with
  | nil => rfl
  | append_singleton os o ih =>
      rw [entries_append, map_name_note, ih, List.map_append, List.map_append,
        List.eraseDups_append]
      generalize (os.map Occurrence.word).map Word.text = names
      by_cases h : o.word.text ∈ names
      · simp [List.removeAll, h]
      · simp [List.removeAll, h, List.eraseDups_cons]

/-- **The entries** are what is told of the names. -/
theorem entries_eq :
    (ofOccurrences os).entries = (((os.map Occurrence.word).map Word.text).eraseDups).map
      (Ingredient.told (wordsIn .declared os) (wordsIn .used os)) := by
  rw [← map_name_entries, List.map_map]
  refine (List.map_id _).symm.trans (List.map_congr_left fun entry hentry => ?_)
  rw [Function.comp_apply, ← collect_eq_told]
  exact (mem_entries_iff.mp hentry).2

/-- A name that no declaration has, but some use, is used by its own occurrences. -/
theorem filter_undeclared {declared used : List String}
    (hdeclared : ∀ o ∈ os, o.role = .declared → o.word.text ∈ declared)
    (hused : ∀ o ∈ os, o.role = .used → o.word.text ∈ used) :
    (((os.map Occurrence.word).map Word.text).filter
        fun name => decide (name ∉ declared) && decide (name ∈ used)) =
      ((wordsIn .used os).map Word.text).filter fun name => name ∉ declared := by
  rw [wordsIn, List.map_map, List.map_map, List.filter_map, List.filter_map, List.filter_filter]
  congr 1
  refine List.filter_congr fun o ho => ?_
  cases hrole : o.role with
  | declared => simp [hdeclared o ho hrole]
  | used => simp [hused o ho hrole]

/-- **The names without declaration** are those of the uses, apart from the declared ones. -/
theorem undeclared_eq :
    (ofOccurrences os).undeclared = (((wordsIn .used os).map Word.text).eraseDups).filter
      fun name => name ∉ (wordsIn .declared os).map Word.text := by
  have htest (name : String) :
      ((Ingredient.told (wordsIn .declared os) (wordsIn .used os) name).definition.isNone &&
        !(Ingredient.told (wordsIn .declared os) (wordsIn .used os) name).usages.isEmpty) =
      (decide (name ∉ (wordsIn .declared os).map Word.text) &&
        decide (name ∈ (wordsIn .used os).map Word.text)) := by
    rw [Bool.eq_iff_iff]
    simp [Ingredient.told, List.filter_eq_nil_iff]
  have hname : Ingredient.name ∘ Ingredient.told (wordsIn .declared os) (wordsIn .used os) = id :=
    rfl
  have hown (o : Occurrence) (ho : o ∈ os) : o.word.text ∈ (wordsIn o.role os).map Word.text :=
    List.mem_map_of_mem (Occurrence.mem_wordsIn ho)
  rw [undeclared, entries_eq, List.filter_map, List.map_map, hname, List.map_id]
  simp only [Function.comp_def, htest]
  rw [filter_eraseDups, filter_eraseDups, filter_undeclared os]
  · intro o ho hrole
    exact hrole ▸ hown o ho
  · intro o ho hrole
    exact hrole ▸ hown o ho

/-- The definitions of the entries are the first declarations of the names. -/
theorem mem_definitions_iff (place : String × Position) :
    place ∈ ((ofOccurrences os).entries.filterMap fun entry =>
        entry.definition.map fun word => (entry.name, word.span.start)) ↔
      place ∈ (firsts Word.text (wordsIn .declared os)).map
        fun word => (word.text, word.span.start) := by
  simp only [List.mem_filterMap, List.mem_map, mem_firsts_iff, beq_eq_decide, entries_eq]
  constructor
  · intro ⟨entry, ⟨name, _, hentry⟩, hplace⟩
    obtain ⟨word, hword, rfl⟩ := Option.map_eq_some_iff.mp hplace
    subst hentry
    have hname : word.text = name :=
      of_decide_eq_true (List.mem_filter.mp (List.mem_of_head? hword)).2
    exact ⟨word, hname ▸ hword, by rw [hname]; rfl⟩
  · intro ⟨word, hword, hplace⟩
    have hdeclared := (List.mem_filter.mp (List.mem_of_head? hword)).1
    have hoccurs : word ∈ os.map Occurrence.word :=
      (Occurrence.words_perm os).mem_iff.mpr (List.mem_append_left _ hdeclared)
    refine ⟨_, ⟨word.text, List.mem_eraseDups.mpr (List.mem_map_of_mem hoccurs), rfl⟩, ?_⟩
    exact Option.map_eq_some_iff.mpr ⟨word, hword, hplace⟩

/-- **The names with a declaration** are those of the declarations, in their order. -/
theorem defined_eq
    (hplaces : (wordsIn .declared os).Pairwise
      fun a b => a.span.start.offset < b.span.start.offset) :
    (ofOccurrences os).defined = ((wordsIn .declared os).map Word.text).eraseDups := by
  have hfirsts : ((firsts Word.text (wordsIn .declared os)).map
      fun word => (word.text, word.span.start)).Pairwise fun a b => a.2.offset < b.2.offset :=
    List.pairwise_map.mpr (hplaces.sublist (firsts_sublist _ _))
  have hleft : ((ofOccurrences os).entries.filterMap fun entry =>
      entry.definition.map fun word => (entry.name, word.span.start)).Nodup := by
    rw [List.Nodup, List.pairwise_filterMap]
    refine (List.pairwise_map.mp (names_nodup os)).imp fun hne a ha b hb heq => hne ?_
    obtain ⟨_, -, rfl⟩ := Option.map_eq_some_iff.mp ha
    obtain ⟨_, -, rfl⟩ := Option.map_eq_some_iff.mp hb
    exact congrArg Prod.fst heq
  have hright : ((firsts Word.text (wordsIn .declared os)).map
      fun word => (word.text, word.span.start)).Nodup := by
    refine hfirsts.imp ?_
    intro a b hlt heq
    exact Nat.ne_of_lt hlt (by rw [heq])
  have hperm := (List.perm_ext_iff_of_nodup hleft hright).mpr (mem_definitions_iff os)
  rw [defined, Position.mergeSort_eq_of_perm Prod.snd hfirsts hperm, List.map_map, ← map_firsts]
  rfl

end Ingredients

/-- **The index lists the occurrences of the tree, and nothing else.** A name has an entry exactly
if a declaration or a used word has it. The entry holds the first declaration of the name, the later
ones and the uses, each in document order, and the entries come in the order in which the names
first occur among the declarations and the uses together. The declared names are those of the
declarations, and the undeclared ones those of the uses that no declaration has, both in the order
of first occurrence. -/
theorem index_lists_occurrences (vocabulary : Vocabulary) (text : String) :
    let analysis := Analysis.ofText vocabulary text
    let declared := analysis.recipe.declarations vocabulary
    let used := analysis.recipe.ingredientArguments vocabulary
    (∀ name, analysis.ingredients.get? name =
        if ∃ word ∈ declared ++ used, word.text = name then
          some (Ingredient.told declared used name)
        else none) ∧
      (∃ together : List Word, together.Perm (declared ++ used) ∧
        (together.Pairwise fun a b => a.span.start.offset < b.span.start.offset) ∧
        analysis.ingredients.entries =
          (together.map Word.text).eraseDups.map (Ingredient.told declared used)) ∧
      analysis.ingredients.defined = (declared.map Word.text).eraseDups ∧
      analysis.ingredients.undeclared =
        (used.map Word.text).eraseDups.filter fun name => name ∉ declared.map Word.text := by
  intro analysis declared used
  let os := (Recipe.ofText text).occurrences vocabulary
  have hdeclared : declared = Occurrence.wordsIn .declared os :=
    Recipe.declarations_eq vocabulary (Recipe.ofText text)
  have hused : used = Occurrence.wordsIn .used os :=
    Recipe.ingredientArguments_eq vocabulary (Recipe.ofText text)
  have hincreasing : (os.map Occurrence.word).Pairwise
      fun a b => a.span.start.offset < b.span.start.offset :=
    starts_increase ((Recipe.occurrences_sublist vocabulary _).trans (Recipe.words_sublist text))
  rw [hdeclared, hused]
  refine ⟨fun name => ?_, ⟨os.map Occurrence.word, Occurrence.words_perm os, hincreasing, ?_⟩,
    ?_, ?_⟩
  · rw [← Ingredients.collect_eq_told]
    simp only [← Occurrence.exists_iff]
    exact Ingredients.get?_ofOccurrences os name
  · exact Ingredients.entries_eq os
  · exact Ingredients.defined_eq os (hincreasing.sublist (List.filter_sublist.map _))
  · exact Ingredients.undeclared_eq os

end RecipeDesk
