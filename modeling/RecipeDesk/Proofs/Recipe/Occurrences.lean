import Mathlib.Data.List.Induction
import RecipeDesk.Proofs.Recipe.Places
import RecipeDesk.Proofs.Text.Sequences

/-!
# Ingredients as their occurrences

The index of ingredients is built by noting one occurrence after the other. Read back, it is simply
the list of occurrences sorted by name: `get?_ofOccurrences` says that the entry of a name holds
the first declaration of that name, the later ones, and the uses, each in document order, and that
there is an entry exactly for the names that occur.

`Recipe.placed` lists the sentences of a recipe, each with what its section makes of it. Occurrences
and findings are both read off that list sentence by sentence.
-/

namespace RecipeDesk

/-! ### Sentences under their sections -/

namespace Recipe

/-- The sentences in document order, each with whether its section declares ingredients. -/
def placed (vocabulary : Vocabulary) (recipe : Recipe) : List (Bool × Sentence) :=
  recipe.sections.flatMap fun part => part.sentences.map fun row => (part.declares vocabulary, row)

theorem occurrences_eq (vocabulary : Vocabulary) (recipe : Recipe) :
    recipe.occurrences vocabulary =
      (recipe.placed vocabulary).flatMap fun entry => entry.2.occurrences vocabulary entry.1 := by
  simp only [occurrences, placed, List.flatMap_assoc, List.flatMap_map]

theorem findings_eq (vocabulary : Vocabulary) (ingredients : Ingredients) (recipe : Recipe) :
    recipe.findings vocabulary ingredients =
      (recipe.placed vocabulary).flatMap fun entry =>
        entry.2.findings vocabulary ingredients entry.1 := by
  simp only [findings, placed, List.flatMap_assoc, List.flatMap_map]

theorem words_eq (vocabulary : Vocabulary) (recipe : Recipe) :
    recipe.words = (recipe.placed vocabulary).flatMap fun entry => entry.2.words := by
  simp only [words, sentences, placed, List.flatMap_assoc, List.flatMap_map]

theorem mem_words_of_placed {vocabulary : Vocabulary} {recipe : Recipe} {entry : Bool × Sentence}
    {word : Word} (hentry : entry ∈ recipe.placed vocabulary) (hword : word ∈ entry.2.words) :
    word ∈ recipe.words := by
  rw [words_eq vocabulary]
  exact List.mem_flatMap.mpr ⟨entry, hentry, hword⟩

theorem mem_textWords_of_placed {vocabulary : Vocabulary} {text : String}
    {entry : Bool × Sentence} {word : Word} (hentry : entry ∈ (ofText text).placed vocabulary)
    (hword : word ∈ entry.2.words) : word ∈ textWords text :=
  (words_sublist text).subset (mem_words_of_placed hentry hword)

end Recipe

/-- The words of a sentence that name ingredients are words of the sentence, in order. -/
theorem Sentence.occurrences_sublist (vocabulary : Vocabulary) (declares : Bool)
    (row : Sentence) :
    ((row.occurrences vocabulary declares).map Occurrence.word).Sublist row.words := by
  unfold occurrences
  split
  · exact (List.nil_sublist _).cons_cons _
  · split
    · rw [List.map_map]
      exact (List.map_id row.arguments).symm ▸ List.sublist_cons_self _ _
    · exact List.nil_sublist _

/-- All words that name ingredients are words of the tree, in order. -/
theorem Recipe.occurrences_sublist (vocabulary : Vocabulary) (recipe : Recipe) :
    ((recipe.occurrences vocabulary).map Occurrence.word).Sublist recipe.words := by
  rw [occurrences_eq, words_eq vocabulary, List.map_flatMap]
  exact List.Sublist.flatMap_right _ fun entry _ => entry.2.occurrences_sublist vocabulary entry.1

/-! ### The entry of a name -/

/-- The words that name `name` in one role, in document order. -/
def Occurrence.named (role : Role) (name : String) (occurrences : List Occurrence) : List Word :=
  (occurrences.filter fun o => o.role = role ∧ o.word.text = name).map Occurrence.word

/-- The words that occur in a role. -/
def Occurrence.wordsIn (role : Role) (os : List Occurrence) : List Word :=
  (os.filter fun o => o.role = role).map Occurrence.word

/-- What the occurrences say of a name: the first declaration, the later ones, and the uses. -/
def Ingredient.collect (name : String) (occurrences : List Occurrence) : Ingredient where
  name := name
  definition := (Occurrence.named .declared name occurrences).head?
  duplicates := (Occurrence.named .declared name occurrences).tail
  usages := Occurrence.named .used name occurrences

namespace Occurrence

theorem wordsIn_append (role : Role) (os ps : List Occurrence) :
    wordsIn role (os ++ ps) = wordsIn role os ++ wordsIn role ps := by
  simp only [wordsIn, List.filter_append, List.map_append]

theorem named_eq (role : Role) (name : String) (os : List Occurrence) :
    named role name os = (wordsIn role os).filter fun word => word.text = name := by
  rw [named, wordsIn, List.filter_map, List.filter_filter]
  congr 1
  refine List.filter_congr fun o _ => ?_
  simp [and_comm]

theorem mem_named {role : Role} {name : String} {os : List Occurrence} {word : Word} :
    word ∈ named role name os ↔ word ∈ wordsIn role os ∧ word.text = name := by
  rw [named_eq, List.mem_filter, decide_eq_true_eq]

theorem named_append (role : Role) (name : String) (os ps : List Occurrence) :
    named role name (os ++ ps) = named role name os ++ named role name ps := by
  simp only [named, List.filter_append, List.map_append]

theorem named_singleton (role : Role) (name : String) (o : Occurrence) :
    named role name [o] = if o.role = role ∧ o.word.text = name then [o.word] else [] := by
  unfold named
  by_cases h : o.role = role ∧ o.word.text = name <;> simp [h]

end Occurrence

namespace Ingredient

/-- An entry keeps its name. -/
@[simp] theorem name_add (entry : Ingredient) (o : Occurrence) :
    (entry.add o).name = entry.name := by
  unfold add
  split <;> rfl

theorem collect_append_of_ne {name : String} {o : Occurrence} (os : List Occurrence)
    (h : o.word.text ≠ name) : collect name (os ++ [o]) = collect name os := by
  simp only [collect, Occurrence.named_append, Occurrence.named_singleton, h, and_false, if_false,
    List.append_nil]

theorem collect_append_self (os : List Occurrence) (o : Occurrence) :
    collect o.word.text (os ++ [o]) = (collect o.word.text os).add o := by
  simp only [collect, Occurrence.named_append, Occurrence.named_singleton, and_true]
  cases hrole : o.role with
  | used => simp [add, hrole]
  | declared =>
      -- the first declaration goes to `definition`, every later one to `duplicates`
      cases hnamed : Occurrence.named .declared o.word.text os with
      | nil => simp [add, hrole]
      | cons first later => simp [add, hrole]

end Ingredient

namespace Ingredients

/-- Looking a name up after one more occurrence has been noted. -/
theorem find?_note (o : Occurrence) (name : String) (entries : List Ingredient) :
    (note o entries).find? (fun entry => entry.name == name) =
      if o.word.text = name then
        some (((entries.find? fun entry => entry.name == name).getD ⟨name, none, [], []⟩).add o)
      else entries.find? fun entry => entry.name == name := by
  induction entries with
  | nil =>
      by_cases h : o.word.text = name
      · simp [note, h]
      · simp [note, h]
  | cons entry rest ih =>
      unfold note
      by_cases hentry : entry.name = o.word.text
      · rw [if_pos hentry]
        by_cases h : o.word.text = name
        · rw [List.find?_cons_of_pos (by simp [hentry, h]),
            List.find?_cons_of_pos (by simp [hentry, h]), if_pos h]
          rfl
        · rw [List.find?_cons_of_neg (by simp [hentry, h]),
            List.find?_cons_of_neg (by simp [hentry, h]), if_neg h]
      · rw [if_neg hentry]
        by_cases hfound : entry.name = name
        · have hne : o.word.text ≠ name := fun h => hentry (hfound.trans h.symm)
          rw [List.find?_cons_of_pos (by simp [hfound]), List.find?_cons_of_pos (by simp [hfound]),
            if_neg hne]
        · rw [List.find?_cons_of_neg (by simp [hfound]), List.find?_cons_of_neg (by simp [hfound]),
            ih]

/-- **The entry of a name** collects its occurrences. There is one exactly if the name occurs. -/
theorem get?_ofOccurrences (occurrences : List Occurrence) (name : String) :
    (ofOccurrences occurrences).get? name =
      if ∃ o ∈ occurrences, o.word.text = name then some (Ingredient.collect name occurrences)
      else none := by
  induction occurrences using List.reverseRecOn with
  | nil => simp [ofOccurrences, get?]
  | append_singleton os o ih =>
      have hstep : (ofOccurrences (os ++ [o])).get? name =
          (note o (ofOccurrences os).entries).find? fun entry => entry.name == name := by
        simp [ofOccurrences, get?]
      rw [hstep, find?_note, ← get?, ih]
      by_cases h : o.word.text = name
      · subst h
        by_cases hold : ∃ p ∈ os, p.word.text = o.word.text
        · simp [hold, Ingredient.collect_append_self]
        · have hnone : Ingredient.collect o.word.text os = ⟨o.word.text, none, [], []⟩ := by
            have hrole : ∀ role, Occurrence.named role o.word.text os = [] := by
              intro role
              simp only [Occurrence.named, List.map_eq_nil_iff, List.filter_eq_nil_iff,
                decide_eq_true_eq]
              exact fun p hp hboth => hold ⟨p, hp, hboth.2⟩
            simp [Ingredient.collect, hrole]
          simp [hold, Ingredient.collect_append_self, hnone]
      · simp [h, Ingredient.collect_append_of_ne os h]

/-- The definition of a name is its first declaration. -/
theorem definition_ofOccurrences (occurrences : List Occurrence) (name : String) :
    ((ofOccurrences occurrences).get? name).bind Ingredient.definition =
      (Occurrence.named .declared name occurrences).head? := by
  rw [get?_ofOccurrences]
  split
  · rfl
  · next hnone =>
      have hnil : Occurrence.named .declared name occurrences = [] := by
        rw [Occurrence.named, List.map_eq_nil_iff, List.filter_eq_nil_iff]
        intro o ho hboth
        exact hnone ⟨o, ho, (of_decide_eq_true hboth).2⟩
      rw [hnil]
      rfl

end Ingredients

/-! ### The words of an entry -/

/-- The entry of a name holds exactly the words of its occurrences. -/
theorem Ingredient.words_collect_perm (name : String) (os : List Occurrence) :
    (collect name os).words.Perm
      ((os.filter fun o => o.word.text = name).map Occurrence.word) := by
  have hdeclared : (collect name os).definition.toList ++ (collect name os).duplicates =
      Occurrence.named .declared name os := by
    simp only [collect]
    cases Occurrence.named .declared name os <;> rfl
  have hsplit := List.filter_append_perm (fun o : Occurrence => decide (o.role = .declared))
    (os.filter fun o => o.word.text = name)
  rw [List.filter_filter, List.filter_filter] at hsplit
  have hused : (os.filter fun o => !decide (o.role = .declared) && decide (o.word.text = name)) =
      os.filter fun o => o.role = .used ∧ o.word.text = name := by
    refine List.filter_congr fun o _ => ?_
    cases o.role <;> simp
  have hfirst : (os.filter fun o => decide (o.role = .declared) && decide (o.word.text = name)) =
      os.filter fun o => o.role = .declared ∧ o.word.text = name := by
    refine List.filter_congr fun o _ => ?_
    cases o.role <;> simp
  rw [hused, hfirst] at hsplit
  rw [words, hdeclared]
  simpa only [collect, Occurrence.named, List.map_append] using hsplit.map Occurrence.word

theorem Ingredient.mem_words_collect {name : String} {os : List Occurrence} {word : Word} :
    word ∈ (collect name os).words ↔ ∃ o ∈ os, o.word = word ∧ word.text = name := by
  rw [(words_collect_perm name os).mem_iff]
  simp only [List.mem_map, List.mem_filter, decide_eq_true_eq]
  constructor
  · rintro ⟨o, ⟨ho, hname⟩, rfl⟩
    exact ⟨o, ho, rfl, hname⟩
  · rintro ⟨o, ho, rfl, hname⟩
    exact ⟨o, ⟨ho, hname⟩, rfl⟩

/-- A word that names an ingredient names it in its own sentence. -/
theorem Recipe.mem_own_occurrences {vocabulary : Vocabulary} {recipe : Recipe}
    {entry : Bool × Sentence} {word : Word} (hnodup : recipe.words.Nodup)
    (hentry : entry ∈ recipe.placed vocabulary) (hword : word ∈ entry.2.words)
    (h : word ∈ (recipe.occurrences vocabulary).map Occurrence.word) :
    word ∈ (entry.2.occurrences vocabulary entry.1).map Occurrence.word := by
  rw [words_eq vocabulary] at hnodup
  rw [occurrences_eq, List.map_flatMap] at h
  have hown := mem_of_mem_flatMap_of_nodup hnodup
    (fun entry _ => (entry.2.occurrences_sublist vocabulary entry.1).subset) hentry hword h
  exact hown

/-- Outside the ingredients sections the first word of a sentence names no ingredient. -/
theorem Recipe.head_not_occurrence {vocabulary : Vocabulary} {recipe : Recipe} {row : Sentence}
    (hnodup : recipe.words.Nodup) (hrow : (false, row) ∈ recipe.placed vocabulary)
    {o : Occurrence} (ho : o ∈ recipe.occurrences vocabulary) : o.word ≠ row.head := by
  intro heq
  have hown := mem_own_occurrences hnodup hrow List.mem_cons_self
    (heq ▸ List.mem_map_of_mem ho)
  rw [words_eq vocabulary] at hnodup
  have hrownodup : row.words.Nodup := (List.nodup_flatMap.mp hnodup).1 _ hrow
  -- its own sentence could only hold it among the arguments
  have hargument : row.head ∈ row.arguments := by
    simp only [Sentence.occurrences, Bool.false_eq_true, if_false] at hown
    split at hown
    · simpa using hown
    · simp at hown
  exact (List.nodup_cons.mp hrownodup).1 hargument

/-! ### Counting -/

/-- What an occurrence counts as: its role and its name. -/
def Occurrence.key (o : Occurrence) : Role × String := (o.role, o.word.text)

theorem Occurrence.length_named (role : Role) (name : String) (os : List Occurrence) :
    (named role name os).length = (os.map key).count (role, name) := by
  rw [named, List.length_map, ← List.countP_eq_length_filter, List.count, List.countP_map]
  refine List.countP_congr fun o _ => ?_
  simp [key]

namespace Ingredients

variable (ingredients : Ingredients)

/-- The words that name an ingredient; none if the name has no entry. -/
def wordsOf (name : String) : List Word := ((ingredients.get? name).map Ingredient.words).getD []

/-- How many definitions, duplicates and uses a name has. -/
def tally (name : String) : Nat × Nat × Nat :=
  match ingredients.get? name with
  | none => (0, 0, 0)
  | some entry => (entry.definition.toList.length, entry.duplicates.length, entry.usages.length)

end Ingredients

/-- All that is counted of a name follows from how often it is declared and how often used. -/
theorem Ingredients.tally_ofOccurrences (os : List Occurrence) (name : String) :
    let declared := (os.map Occurrence.key).count (.declared, name)
    let used := (os.map Occurrence.key).count (.used, name)
    (ofOccurrences os).tally name = (min declared 1, declared - 1, used) ∧
      ((ofOccurrences os).wordsOf name).length = declared + used ∧
      ((ofOccurrences os).get? name = none ↔ declared + used = 0) := by
  intro declared used
  have hdeclared : (Occurrence.named .declared name os).length = declared :=
    Occurrence.length_named ..
  have hused : (Occurrence.named .used name os).length = used := Occurrence.length_named ..
  have htotal : (Ingredient.collect name os).words.length = declared + used := by
    rw [← hdeclared, ← hused]
    simp only [Ingredient.words, Ingredient.collect, List.length_append]
    cases Occurrence.named .declared name os with
    | nil => simp
    | cons first later => simp; omega
  by_cases h : ∃ o ∈ os, o.word.text = name
  · have hget : (ofOccurrences os).get? name = some (Ingredient.collect name os) := by
      rw [get?_ofOccurrences, if_pos h]
    have hpos : declared + used ≠ 0 := by
      obtain ⟨o, ho, hname⟩ := h
      have hword := Ingredient.mem_words_collect.mpr ⟨o, ho, rfl, hname⟩
      have := List.length_pos_of_mem hword
      omega
    refine ⟨?_, by rw [wordsOf, hget]; exact htotal, by simp only [hget, reduceCtorEq, hpos]⟩
    rw [tally, hget, ← hdeclared, ← hused]
    simp only [Ingredient.collect]
    cases Occurrence.named .declared name os <;> simp
  · have hget : (ofOccurrences os).get? name = none := by rw [get?_ofOccurrences, if_neg h]
    have hzero : ∀ role, (os.map Occurrence.key).count (role, name) = 0 := by
      intro role
      refine List.count_eq_zero.mpr fun hmem => h ?_
      obtain ⟨o, ho, hkey⟩ := List.mem_map.mp hmem
      exact ⟨o, ho, congrArg Prod.snd hkey⟩
    have hd : declared = 0 := hzero .declared
    have hu : used = 0 := hzero .used
    simp [tally, wordsOf, hget, hd, hu]

end RecipeDesk
