import Mathlib.Data.Option.Basic
import RecipeDesk.Proofs.Document.RealPositions
import RecipeDesk.Proofs.Recipe.Catalogue
import RecipeDesk.Proofs.Recipe.Completion
import RecipeDesk.Proofs.Recipe.Composition
import RecipeDesk.Proofs.Recipe.Picture

/-!
# What is offered to be renamed is renamed

An editor asks twice about a renaming: first whether there is anything to rename under the caret,
then for the edits. The two answers are found in different ways. The offer looks at the sentence of
the caret and at the verb that begins it; the edits come from the index, under the name of the word
of the caret, whatever sentence it stands in. They agree (`offered_renaming_performed`), because
what is offered is an argument of a verb that takes ingredients
(`Analysis.renameable?_eq_some_iff`), and the index has all of these
(`Recipe.mem_wordsOf_of_mem_ingredientArguments`).

The edits are clean (`Edit.WriteOver`): one for each word of the name, in source order and apart,
each over exactly the characters of the name. All of this is known of words of the text, so only the
sorting is looked at here (`writeOver_sort`).
-/

namespace RecipeDesk

/-! ### Clean edits -/

/-- Edits that write `newName` over `words`, all of which read `name` in the text. -/
structure Edit.WriteOver (text name newName : String) (words : List Word) (edits : List Edit) :
    Prop where
  /-- They come in source order. -/
  increasing : edits.Pairwise fun a b => a.span.start.offset < b.span.start.offset
  /-- No two of them overlap. -/
  disjoint : edits.Pairwise fun a b => a.span.stop.offset ≤ b.span.start.offset
  one_line : ∀ edit ∈ edits, ∃ n, edit.span.OnLine n
  inside : ∀ edit ∈ edits, edit.span.IsIn text
  /-- What they replace is the name. -/
  covers : ∀ edit ∈ edits, edit.span.slice text = name
  writes : ∀ edit ∈ edits, edit.newText = newName
  /-- There is one for each word, where the word stands. -/
  places : (edits.map Edit.span).Perm (words.map Word.span)

/-- In source order, the edits of some words of a text are clean. -/
theorem writeOver_sort {text name : String} {words : List Word} (newName : String)
    (hnodup : words.Nodup) (hsub : ∀ word ∈ words, word ∈ textWords text)
    (hname : ∀ word ∈ words, word.text = name) :
    Edit.WriteOver text name newName words
      (Edit.sort (words.map fun word => ⟨word.span, newName⟩)) := by
  have hperm : (Edit.sort (words.map fun word => ⟨word.span, newName⟩)).Perm
      (words.map fun word => ⟨word.span, newName⟩) := List.mergeSort_perm _ _
  have hmem : ∀ edit ∈ Edit.sort (words.map fun word => ⟨word.span, newName⟩),
      ∃ line ∈ placedLines text, ∃ word ∈ line.words,
        word ∈ words ∧ ⟨word.span, newName⟩ = edit := by
    intro edit hedit
    obtain ⟨word, hword, heq⟩ := List.mem_map.mp (hperm.subset hedit)
    obtain ⟨line, hline, hin⟩ := List.mem_flatMap.mp (hsub word hword)
    exact ⟨line, hline, word, hin, hword, heq⟩
  have hapart : ((textWords text).filter fun word => decide (word ∈ words)).Pairwise
      fun a b => a.span.start.offset < b.span.start.offset ∧
        a.span.stop.offset ≤ b.span.start.offset :=
    ((starts_increase List.filter_sublist).and
      ((textWords_before text).sublist List.filter_sublist)).imp
        fun h => ⟨h.1, Nat.le_of_lt h.2⟩
  have hordered : (Edit.sort (words.map fun word => ⟨word.span, newName⟩)).Pairwise
      fun a b => a.span.start.offset < b.span.start.offset ∧
        a.span.stop.offset ≤ b.span.start.offset := by
    rw [sort_edits_eq_wordEdits newName hnodup hsub, wordEdits, List.pairwise_map]
    exact hapart
  refine ⟨hordered.imp And.left, hordered.imp And.right, ?_, ?_, ?_, ?_, ?_⟩
  · intro edit hedit
    obtain ⟨line, -, word, hword, -, rfl⟩ := hmem edit hedit
    exact ⟨line.start.line, PlacedLine.onLine_word hword⟩
  · intro edit hedit
    obtain ⟨line, hline, word, hword, -, rfl⟩ := hmem edit hedit
    exact (PlacedLine.faithful_word hline hword).isIn
  · intro edit hedit
    obtain ⟨line, hline, word, hword, hin, rfl⟩ := hmem edit hedit
    exact (PlacedLine.faithful_word hline hword).slice.trans (hname word hin)
  · intro edit hedit
    obtain ⟨_, -, _, -, -, rfl⟩ := hmem edit hedit
    rfl
  · have hspans := hperm.map Edit.span
    rw [List.map_map] at hspans
    exact hspans

/-! ### The words of the index -/

variable {vocabulary : Vocabulary} {text : String}

/-- The words under a name are those collected for it, also if there are none. -/
theorem Ingredients.wordsOf_ofOccurrences (os : List Occurrence) (name : String) :
    (ofOccurrences os).wordsOf name = (Ingredient.collect name os).words := by
  rw [wordsOf, get?_ofOccurrences]
  split
  · rfl
  · next hnone =>
      refine (List.eq_nil_iff_forall_not_mem.mpr fun word hword => hnone ?_).symm
      obtain ⟨o, ho, rfl, hname⟩ := Ingredient.mem_words_collect.mp hword
      exact ⟨o, ho, hname⟩

/-- The index has every argument of a verb that takes ingredients. -/
theorem Recipe.mem_wordsOf_of_mem_ingredientArguments {word : Word}
    (h : word ∈ (ofText text).ingredientArguments vocabulary) :
    word ∈ (Analysis.ofText vocabulary text).ingredients.wordsOf word.text := by
  rw [ingredientArguments_eq, Occurrence.wordsIn] at h
  obtain ⟨o, ho, rfl⟩ := List.mem_map.mp h
  have hwords :=
    Ingredients.wordsOf_ofOccurrences ((ofText text).occurrences vocabulary) o.word.text
  exact hwords ▸ Ingredient.mem_words_collect.mpr ⟨o, (List.mem_filter.mp ho).1, rfl, rfl⟩

/-- A word of a sentence is a used one if the section does not declare, the verb takes ingredients,
and the word is not the verb itself. -/
theorem Recipe.mem_ingredientArguments_iff {declares : Bool} {row : Sentence} {k : Nat}
    {word : Word} (hrow : (declares, row) ∈ (ofText text).placed vocabulary)
    (hword : row.words[k]? = some word) :
    word ∈ (ofText text).ingredientArguments vocabulary ↔
      declares = false ∧ k ≠ 0 ∧ vocabulary.needsIngredients row.head.text = true := by
  rw [ingredientArguments, List.mem_flatMap]
  constructor
  · intro hused
    obtain ⟨entry, hentry, hargument⟩ := hused
    obtain ⟨hplaced, htest⟩ := List.mem_filter.mp hentry
    obtain rfl := placed_unique hplaced hrow (List.mem_cons_of_mem _ hargument)
      (List.mem_of_getElem? hword)
    simp only [Bool.and_eq_true, Bool.not_eq_true'] at htest
    refine ⟨htest.1, ?_, htest.2⟩
    rintro rfl
    obtain rfl : row.head = word := Option.some.inj hword
    exact head_not_mem_arguments hrow hargument
  · intro hplace
    obtain ⟨hdeclares, hk, hneeds⟩ := hplace
    obtain ⟨k, rfl⟩ := Nat.exists_eq_succ_of_ne_zero hk
    refine ⟨(declares, row), List.mem_filter.mpr ⟨hrow, by simp [hdeclares, hneeds]⟩, ?_⟩
    exact List.mem_of_getElem? hword

/-! ### The two answers -/

namespace Analysis

/-- **What is offered** is the word under the caret, if it is an argument of a verb that takes
ingredients. -/
theorem renameable?_eq_some_iff {caret : Position} {span : Span} :
    (ofText vocabulary text).renameable? vocabulary caret = some span ↔
      ∃ word ∈ (Recipe.ofText text).ingredientArguments vocabulary,
        (Recipe.ofText text).wordAt? caret = some word ∧ word.span = span := by
  have hrecipe : (ofText vocabulary text).recipe = Recipe.ofText text := rfl
  rw [renameable?, Recipe.wordAt?, hrecipe]
  cases hlocate : (Recipe.ofText text).locate caret with
  | none => simp
  | some location =>
      obtain ⟨hpart, hsentences⟩ := Recipe.of_locate hlocate
      obtain ⟨part, sentence⟩ := location
      cases sentence with
      | none => simp [Location.word?]
      | some row =>
          have hrow : (part.declares vocabulary, row) ∈ (Recipe.ofText text).placed vocabulary :=
            List.mem_flatMap.mpr ⟨part, hpart, List.mem_map_of_mem (hsentences row rfl).1⟩
          rw [Option.bind_some]
          dsimp only
          cases hword : Location.word? ⟨part, some row⟩ caret with
          | none => simp
          | some word =>
              have hget := (Option.filter_eq_some_iff.mp hword).1
              have hargument := Recipe.mem_ingredientArguments_iff hrow hget
              constructor
              · intro hoffer
                split at hoffer
                · cases hoffer
                split at hoffer
                · cases hoffer
                split at hoffer
                · next hother hindex hneeds =>
                    exact ⟨word, hargument.mpr ⟨Bool.not_eq_true _ ▸ hother, hindex, hneeds⟩, rfl,
                      Option.some.inj hoffer⟩
                · cases hoffer
              · intro hword
                obtain ⟨other, hmem, heq, hspan⟩ := hword
                obtain rfl := Option.some.inj heq
                obtain ⟨hother, hindex, hneeds⟩ := hargument.mp hmem
                simp [hother, hindex, hneeds, hspan]

/-- **What is performed**: the word under the caret has its name written over, wherever the index
has it. -/
theorem writeOver_rename {caret : Position} {word : Word} {newName : String}
    (hword : (Recipe.ofText text).wordAt? caret = some word) (hvalid : isValidName newName = true) :
    ∃ edits, (ofText vocabulary text).rename caret newName = .ok edits ∧
      Edit.WriteOver text word.text newName
        ((ofText vocabulary text).ingredients.wordsOf word.text) edits := by
  have hname : (ofText vocabulary text).nameAt? caret = some word.text :=
    Option.map_eq_some_iff.mpr ⟨word, hword, rfl⟩
  have hwords : (ofText vocabulary text).ingredients.wordsOf word.text =
      (Ingredient.collect word.text ((Recipe.ofText text).occurrences vocabulary)).words :=
    Ingredients.wordsOf_ofOccurrences _ _
  obtain ⟨hnodup, htree⟩ := Ingredient.words_collect_nodup vocabulary text word.text
  refine ⟨_, rename_eq hname hvalid, ?_⟩
  rw [hwords]
  refine writeOver_sort newName hnodup (fun w hw => (Recipe.words_sublist text).subset (htree w hw))
    fun w hw => ?_
  obtain ⟨_, -, -, hsame⟩ := Ingredient.mem_words_collect.mp hw
  exact hsame

theorem rename_of_none {caret : Position} {newName : String}
    (hword : (Recipe.ofText text).wordAt? caret = none) (hvalid : isValidName newName = true) :
    (ofText vocabulary text).rename caret newName = .ok [] := by
  have hrecipe : (ofText vocabulary text).recipe = Recipe.ofText text := rfl
  rw [rename, if_pos hvalid, hrecipe, hword, Option.bind_none]

end Analysis

/-- Words have their edit among those that write over them. -/
theorem Edit.WriteOver.mem {name newName : String} {words : List Word} {edits : List Edit}
    (h : WriteOver text name newName words edits) {word : Word} (hword : word ∈ words) :
    ⟨word.span, newName⟩ ∈ edits := by
  obtain ⟨edit, hedit, hspan⟩ :=
    List.mem_map.mp (h.places.symm.subset (List.mem_map_of_mem hword))
  have hnew := h.writes edit hedit
  obtain ⟨_, _⟩ := edit
  obtain rfl : _ = word.span := hspan
  obtain rfl : _ = newName := hnew
  exact hedit

/-- What is offered is performed, and clean. -/
theorem Analysis.rename_of_renameable? {caret : Position} {span : Span} {newName : String}
    (hoffer : (ofText vocabulary text).renameable? vocabulary caret = some span)
    (hvalid : isValidName newName = true) :
    ∃ edits word, (ofText vocabulary text).rename caret newName = .ok edits ∧
      (Recipe.ofText text).wordAt? caret = some word ∧ span.slice text = word.text ∧
      Edit.WriteOver text word.text newName
        ((ofText vocabulary text).ingredients.wordsOf word.text) edits ∧
      ⟨span, newName⟩ ∈ edits := by
  obtain ⟨word, hargument, hword, rfl⟩ := renameable?_eq_some_iff.mp hoffer
  obtain ⟨edits, hrename, hclean⟩ := writeOver_rename hword hvalid
  have hmem := hclean.mem (Recipe.mem_wordsOf_of_mem_ingredientArguments hargument)
  exact ⟨edits, word, hrename, hword, hclean.covers _ hmem, hclean, hmem⟩

namespace Snapshot

variable {document : Document} {line column : Nat}

/-- Only in a recipe something is offered, and it is shown as it is written. -/
theorem renameable?_ofDocument_iff {span : Span} {placeholder : String} :
    (ofDocument vocabulary document).renameable? line column = some (span, placeholder) ↔
      document.language = .recipe ∧
        (Analysis.ofText vocabulary document.text).renameable? vocabulary
          (document.lines.position line column) = some span ∧
        span.slice document.text = placeholder := by
  unfold ofDocument
  cases document.language with
  | assembler => simp [renameable?]
  | recipe =>
      simp only [renameable?, caret, Option.bind_some, Option.map_eq_some_iff, Prod.mk.injEq,
        true_and]
      constructor
      · intro hshown
        obtain ⟨_, htarget, heq, hslice⟩ := hshown
        obtain rfl := heq
        exact ⟨htarget, hslice⟩
      · intro hshown
        obtain ⟨htarget, hslice⟩ := hshown
        exact ⟨span, htarget, rfl, hslice⟩

theorem rename_ofDocument (h : document.language = .recipe) (newName : String) :
    (ofDocument vocabulary document).rename line column newName =
      ((Analysis.ofText vocabulary document.text).rename (document.lines.position line column)
        newName).map some := by
  rw [ofDocument, h]
  rfl

end Snapshot

/-- **What is offered to be renamed is renamed, with clean edits.** At every caret a renaming to a
valid name gives edits that write it over the name of the word under the caret, one for each word
that the index has under this name, and none if there is no such word. A span is offered exactly if
the word under the caret is an argument of a verb that takes ingredients, and then the renaming has
an edit of this span. What an editor is shown with the offer is the name that is written over. -/
theorem offered_renaming_performed (vocabulary : Vocabulary) (text newName : String)
    (hvalid : isValidName newName = true) :
    let analysis := Analysis.ofText vocabulary text
    (∀ caret, ∃ edits, analysis.rename caret newName = .ok edits ∧
        (analysis.recipe.wordAt? caret = none → edits = []) ∧
        (∀ word, analysis.recipe.wordAt? caret = some word →
          Edit.WriteOver text word.text newName (analysis.ingredients.wordsOf word.text) edits) ∧
        ∀ span, analysis.renameable? vocabulary caret = some span → ⟨span, newName⟩ ∈ edits) ∧
      (∀ caret span, analysis.renameable? vocabulary caret = some span ↔
        ∃ word ∈ analysis.recipe.ingredientArguments vocabulary,
          analysis.recipe.wordAt? caret = some word ∧ word.span = span) ∧
      ∀ uri version line column span placeholder,
        let snapshot := Snapshot.ofDocument vocabulary ⟨uri, version, text⟩
        snapshot.renameable? line column = some (span, placeholder) →
          analysis.nameAt? (snapshot.caret line column) = some placeholder ∧
            span.slice text = placeholder ∧
            ∃ edits, snapshot.rename line column newName = .ok (some edits) ∧
              Edit.WriteOver text placeholder newName
                (analysis.ingredients.wordsOf placeholder) edits ∧
              ⟨span, newName⟩ ∈ edits := by
  intro analysis
  refine ⟨fun caret => ?_, fun caret span => Analysis.renameable?_eq_some_iff, ?_⟩
  · cases hword : analysis.recipe.wordAt? caret with
    | none =>
        refine ⟨[], Analysis.rename_of_none hword hvalid, fun _ => rfl, ?_, ?_⟩
        · intro word heq
          cases heq
        · intro span hoffer
          obtain ⟨word, -, hsome, -⟩ := Analysis.renameable?_eq_some_iff.mp hoffer
          exact absurd (hword.symm.trans hsome) (by simp)
    | some word =>
        obtain ⟨edits, hrename, hclean⟩ := Analysis.writeOver_rename hword hvalid
        refine ⟨edits, hrename, ?_, ?_, ?_⟩
        · intro hnone
          cases hnone
        · intro other heq
          exact Option.some.inj heq ▸ hclean
        · intro span hoffer
          obtain ⟨_, _, hagain, -, -, -, hmem⟩ := Analysis.rename_of_renameable? hoffer hvalid
          exact Except.ok.inj (hagain.symm.trans hrename) ▸ hmem
  · intro uri version line column span placeholder snapshot hshown
    obtain ⟨hlanguage, hoffer, hslice⟩ := Snapshot.renameable?_ofDocument_iff.mp hshown
    obtain ⟨edits, word, hrename, hword, hcovers, hclean, hmem⟩ :=
      Analysis.rename_of_renameable? hoffer hvalid
    obtain rfl : word.text = placeholder := hcovers.symm.trans hslice
    refine ⟨?_, hslice, edits, ?_, hclean, hmem⟩
    · rw [Snapshot.caret, Snapshot.document_ofDocument]
      exact Option.map_eq_some_iff.mpr ⟨word, hword, rfl⟩
    · rw [Snapshot.rename_ofDocument hlanguage, hrename]
      rfl

/-- A name that is declared once and used twice, with another one between, is offered at its last
use; the renaming writes over it three times. -/
theorem offered_renaming_performed_thrice :
    let vocabulary : Vocabulary := ⟨["m"], ["m"], [], [], "i"⟩
    let text := "#T\n##i\na\n##s\nm a b a"
    let snapshot := Snapshot.ofDocument vocabulary ⟨"soupe", 1, text⟩
    let span : Span := ⟨⟨19, 4, 6⟩, ⟨20, 4, 7⟩⟩
    isValidName "c" = true ∧ snapshot.renameable? 4 9 = some (span, "a") ∧
      ∃ edits, snapshot.rename 4 9 "c" = .ok (some edits) ∧ ⟨span, "c"⟩ ∈ edits ∧
        edits.length = 3 ∧ edits.Pairwise fun a b => a.span.stop.offset ≤ b.span.start.offset := by
  intro vocabulary text snapshot span
  have hvalid : isValidName "c" = true := by decide +kernel
  have hlanguage : Document.language ⟨"soupe", 1, text⟩ = .recipe := by decide
  have hcaret : (Lines.ofText text).position 4 9 = ⟨20, 4, 7⟩ := by decide +kernel
  have hoffer :
      (Analysis.ofText vocabulary text).renameable? vocabulary ⟨20, 4, 7⟩ = some span := by
    decide +kernel
  have hshown : snapshot.renameable? 4 9 = some (span, "a") :=
    Snapshot.renameable?_ofDocument_iff.mpr ⟨hlanguage, hcaret.symm ▸ hoffer, by decide⟩
  have hcount : ((Analysis.ofText vocabulary text).ingredients.wordsOf "a").length = 3 := by
    decide +kernel
  obtain ⟨-, -, hoffered⟩ := offered_renaming_performed vocabulary text "c" hvalid
  obtain ⟨-, -, edits, hrename, hclean, hmem⟩ := hoffered "soupe" 1 4 9 span "a" hshown
  have hlength := hclean.places.length_eq
  simp only [List.length_map] at hlength
  exact ⟨hvalid, hshown, edits, hrename, hmem, hlength.trans hcount, hclean.disjoint⟩

end RecipeDesk
