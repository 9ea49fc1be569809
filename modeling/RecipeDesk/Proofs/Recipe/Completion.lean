import RecipeDesk.Proofs.Recipe.Agreement
import RecipeDesk.Proofs.Recipe.Replacement
import RecipeDesk.Proofs.Recipe.Spans

/-!
# Proposals are accepted

What is proposed at a caret and what is reported about a sentence are two readings of the same
vocabulary and the same index. They agree: a proposal written over the word under the caret is not
reported, and in an ingredients section it is the definition of its name (`proposals_accepted`).

`Sentence.Rejects` says why a word is reported, `Sentence.Offers` what is proposed for it. Both are
about the sentence of the word, but the first about the sentence after the replacement and the
second about the one before. In between, the heads that decide about the other words of a sentence
keep their texts, and the names that are declared stay declared unless the word is itself a
declaration.
-/

namespace RecipeDesk

/-! ### Why a word is reported -/

/-- The problems of a word that is not the right one in its place. -/
def wordProblems : List Problem :=
  [.unknownHead, .unknownIngredient, .unknownTool, .duplicatedIngredient]

namespace Sentence

variable (vocabulary : Vocabulary) (ingredients : Ingredients)

/-- Why a word of a sentence is reported. -/
inductive Rejects (row : Sentence) : Bool → Problem → Word → Prop where
  | again (hagain : ingredients.redeclares row.head = true) :
    Rejects row true .duplicatedIngredient row.head
  | head (hverb : vocabulary.isVerb row.head.text = false)
    (hadverb : vocabulary.isAdverb row.head.text = false) :
    Rejects row false .unknownHead row.head
  | ingredient {word : Word} (hneeds : vocabulary.needsIngredients row.head.text = true)
    (hword : word ∈ row.arguments) (hdefined : ingredients.isDefined word.text = false) :
    Rejects row false .unknownIngredient word
  | tool {word : Word} (hneeds : vocabulary.needsIngredients row.head.text = false)
    (hword : word ∈ row.arguments) (htool : vocabulary.isTool word.text = false) :
    Rejects row false .unknownTool word

variable {vocabulary ingredients}

theorem rejects_of_mem_toolFindings {row : Sentence} {f : Finding}
    (hneeds : vocabulary.needsIngredients row.head.text = false)
    (hf : f ∈ row.toolFindings vocabulary) (hproblem : f.problem ∈ wordProblems) :
    ∃ word ∈ row.words, word.span = f.span ∧
      row.Rejects vocabulary ingredients false f.problem word := by
  unfold toolFindings at hf
  split at hf
  · obtain rfl := List.mem_singleton.mp hf
    simp [wordProblems] at hproblem
  · next tool extra hsplit =>
      have htool : tool ∈ row.arguments := hsplit ▸ List.mem_cons_self
      rcases List.mem_append.mp hf with hf | hf
      · split at hf
        · cases hf
        · next hnot =>
            obtain rfl := List.mem_singleton.mp hf
            exact ⟨tool, List.mem_cons_of_mem _ htool, rfl,
              .tool hneeds htool (by simpa using hnot)⟩
      · obtain ⟨span, -, rfl⟩ := Option.map_eq_some_iff.mp (Option.mem_toList.mp hf)
        simp [wordProblems] at hproblem

theorem rejects_of_mem_ingredientFindings {row : Sentence} {f : Finding}
    (hneeds : vocabulary.needsIngredients row.head.text = true)
    (hf : f ∈ row.ingredientFindings ingredients) (hproblem : f.problem ∈ wordProblems) :
    ∃ word ∈ row.words, word.span = f.span ∧
      row.Rejects vocabulary ingredients false f.problem word := by
  rcases List.mem_append.mp hf with hf | hf
  · split at hf
    · obtain rfl := List.mem_singleton.mp hf
      simp [wordProblems] at hproblem
    · cases hf
  · obtain ⟨word, hword, rfl⟩ := List.mem_map.mp hf
    obtain ⟨hargument, hdefined⟩ := List.mem_filter.mp hword
    exact ⟨word, List.mem_cons_of_mem _ hargument, rfl,
      .ingredient hneeds hargument (by simpa using hdefined)⟩

/-- **Whatever is reported about a word has its reason.** -/
theorem rejects_of_mem_findings {row : Sentence} {declares : Bool} {f : Finding}
    (hf : f ∈ row.findings vocabulary ingredients declares)
    (hproblem : f.problem ∈ wordProblems) :
    ∃ word ∈ row.words, word.span = f.span ∧
      row.Rejects vocabulary ingredients declares f.problem word := by
  unfold findings at hf
  dsimp only at hf
  cases declares with
  | true =>
      rw [if_pos rfl, declarationFindings_eq] at hf
      obtain ⟨word, hword, rfl⟩ := List.mem_map.mp hf
      obtain ⟨hhead, hagain⟩ := List.mem_filter.mp hword
      obtain rfl := List.mem_singleton.mp hhead
      exact ⟨row.head, List.mem_cons_self, rfl, .again hagain⟩
  | false =>
      rw [if_neg (by simp)] at hf
      split at hf
      · next hneeds => exact rejects_of_mem_ingredientFindings hneeds hf hproblem
      next hneeds =>
      split at hf
      · cases hf
      next hverb =>
      split at hf
      · exact rejects_of_mem_toolFindings (by simpa using hneeds) hf hproblem
      next hadverb =>
      obtain rfl := List.mem_singleton.mp hf
      exact ⟨row.head, List.mem_cons_self, rfl,
        .head (by simpa using hverb) (by simpa using hadverb)⟩

end Sentence

/-! ### What is proposed for a word -/

/-- The words that are proposed for the word `old` of a sentence. -/
inductive Sentence.Offers (vocabulary : Vocabulary) (ingredients : Ingredients) (row : Sentence)
    (old : Word) (label : String) : Bool → Prop where
  | declaration (hlabel : label ∈ ingredients.undeclared) :
    Offers vocabulary ingredients row old label true
  | head (hold : old = row.head) (hlabel : label ∈ vocabulary.verbs ++ vocabulary.adverbs) :
    Offers vocabulary ingredients row old label false
  | ingredient (hold : old ∈ row.arguments)
    (hneeds : vocabulary.needsIngredients row.head.text = true)
    (hlabel : label ∈ ingredients.defined) : Offers vocabulary ingredients row old label false
  | tool (hold : old ∈ row.arguments)
    (hneeds : vocabulary.needsIngredients row.head.text = false)
    (hlabel : label ∈ vocabulary.tools) : Offers vocabulary ingredients row old label false

theorem Proposal.mem_ofWords {kind : ProposalKind} {words : List String} {proposal : Proposal}
    (h : proposal ∈ ofWords kind words) : proposal.label ∈ words := by
  obtain ⟨label, hlabel, rfl⟩ := List.mem_map.mp h
  exact hlabel

theorem Vocabulary.mem_heads {vocabulary : Vocabulary} {proposal : Proposal}
    (h : proposal ∈ vocabulary.heads) : proposal.label ∈ vocabulary.verbs ++ vocabulary.adverbs :=
  List.mem_append.mpr ((List.mem_append.mp h).imp Proposal.mem_ofWords Proposal.mem_ofWords)

/-- The word under the caret, its sentence, and what is proposed for it. -/
theorem Analysis.offers_of_mem_proposals {vocabulary : Vocabulary} {analysis : Analysis}
    {caret : Position} {location : Location} {old : Word} {proposal : Proposal}
    (hlocate : analysis.recipe.locate caret = some location)
    (hword : location.word? caret = some old)
    (hproposed : proposal ∈ analysis.proposals vocabulary caret) :
    ∃ row, (location.part.declares vocabulary, row) ∈ analysis.recipe.placed vocabulary ∧
      old ∈ row.words ∧ (location.wordIndex caret = some 0 → old = row.head) ∧
      row.Offers vocabulary analysis.ingredients old proposal.label
        (location.part.declares vocabulary) := by
  obtain ⟨row, hrow, hget⟩ := Location.of_word? hword
  obtain ⟨hpart, hsentence⟩ := Recipe.of_locate hlocate
  have hfirst (hzero : Location.indexIn caret row = 0) : old = row.head := by
    rw [hzero] at hget
    exact (Option.some.inj hget).symm
  refine ⟨row, ?_, List.mem_of_getElem? hget, ?_, ?_⟩
  · exact List.mem_flatMap.mpr ⟨_, hpart, List.mem_map_of_mem (hsentence row hrow).1⟩
  · intro hindex
    rw [Location.wordIndex, hrow] at hindex
    exact hfirst (Option.some.inj hindex)
  · simp only [proposals, hlocate, hrow] at hproposed
    cases hdeclares : location.part.declares vocabulary with
    | true =>
        rw [hdeclares, if_pos rfl] at hproposed
        exact .declaration (Proposal.mem_ofWords hproposed)
    | false =>
        rw [hdeclares, if_neg (by simp)] at hproposed
        split at hproposed
        · next hzero => exact .head (hfirst hzero) (Vocabulary.mem_heads hproposed)
        next hlater =>
        have hargument : old ∈ row.arguments := by
          obtain ⟨n, hn⟩ := Nat.exists_eq_succ_of_ne_zero hlater
          rw [hn] at hget
          exact List.mem_of_getElem? hget
        split at hproposed
        · next hneeds => exact .ingredient hargument hneeds (Proposal.mem_ofWords hproposed)
        · next hneeds =>
            exact .tool hargument (by simpa using hneeds) (Proposal.mem_ofWords hproposed)

namespace Ingredients

variable {os : List Occurrence} {name : String}

/-- A name that is listed as declared has a definition. -/
theorem of_mem_defined (h : name ∈ (ofOccurrences os).defined) :
    (ofOccurrences os).isDefined name = true ∧ ∃ o ∈ os, o.word.text = name := by
  obtain ⟨place, hplace, rfl⟩ := List.mem_map.mp h
  obtain ⟨entry, hentry, hdefinition⟩ := List.mem_filterMap.mp (List.mem_mergeSort.mp hplace)
  obtain ⟨word, hword, rfl⟩ := Option.map_eq_some_iff.mp hdefinition
  refine ⟨?_, (mem_entries_iff.mp hentry).1⟩
  rw [isDefined, get?_of_mem hentry, Option.bind_some, hword, Option.isSome_some]

/-- A name that is listed as undeclared has none. -/
theorem of_mem_undeclared (h : name ∈ (ofOccurrences os).undeclared) :
    (ofOccurrences os).isDefined name = false ∧ ∃ o ∈ os, o.word.text = name := by
  obtain ⟨entry, hentry, rfl⟩ := List.mem_map.mp h
  obtain ⟨hentry, hnone⟩ := List.mem_filter.mp hentry
  refine ⟨?_, (mem_entries_iff.mp hentry).1⟩
  rw [isDefined, get?_of_mem hentry, Option.bind_some]
  simpa using (Bool.and_eq_true_iff.mp hnone).1

end Ingredients

/-! ### Proposals are names -/

theorem Vocabulary.isSingleWord_of_mem {vocabulary : Vocabulary} (hvalid : vocabulary.fault? = none)
    {word : String} (hword : word ∈ vocabulary.words) : isSingleWord word = true := by
  unfold fault? at hvalid
  split at hvalid
  · cases hvalid
  · next hall => simpa using List.find?_eq_none.mp hall word hword

/-- A word of a text reads as a word wherever it is written, unless it would make a heading. -/
theorem isName_of_mem_textWords {text : String} {word : Word} (h : word ∈ textWords text)
    (hhead : word.text.toList.head? ≠ some '#') : IsName word.text := by
  obtain ⟨line, hline, hword⟩ := List.mem_flatMap.mp h
  obtain ⟨run, hrun, rfl⟩ := List.mem_map.mp hword
  have hchars : (line.word run).text.toList = run.chars := String.toList_ofList
  refine ⟨?_, hhead, ?_⟩
  · rw [hchars]
    exact (Run.mem_scan hrun).2.2
  · rw [hchars]
    exact fun hmem => newline_not_mem_placedLines hline (Run.chars_subset_of_mem_scan hrun hmem)

theorem isName_of_occurs {vocabulary : Vocabulary} {text label : String}
    (h : ∃ o ∈ (Recipe.ofText text).occurrences vocabulary, o.word.text = label)
    (hhead : label.toList.head? ≠ some '#') : IsName label := by
  obtain ⟨o, ho, rfl⟩ := h
  have hword := (Recipe.occurrences_sublist vocabulary _).subset (List.mem_map_of_mem ho)
  exact isName_of_mem_textWords ((Recipe.words_sublist text).subset hword) hhead

theorem Sentence.Offers.isName {vocabulary : Vocabulary} {text label : String} {row : Sentence}
    {old : Word} {declares : Bool} (hvalid : vocabulary.fault? = none)
    (h : row.Offers vocabulary (Ingredients.ofRecipe vocabulary (Recipe.ofText text)) old label
      declares) (hhead : label.toList.head? ≠ some '#') : IsName label := by
  have hvocabulary (hmem : label ∈ vocabulary.words) : IsName label := by
    refine isName_of_isValidName ?_
    rw [isValidName, Vocabulary.isSingleWord_of_mem hvalid hmem, Bool.true_and]
    simpa using hhead
  cases h with
  | declaration hlabel => exact isName_of_occurs (Ingredients.of_mem_undeclared hlabel).2 hhead
  | head _ hlabel =>
      refine hvocabulary ?_
      rcases List.mem_append.mp hlabel with hlabel | hlabel <;> simp [Vocabulary.words, hlabel]
  | ingredient _ _ hlabel => exact isName_of_occurs (Ingredients.of_mem_defined hlabel).2 hhead
  | tool _ _ hlabel => exact hvocabulary (by simp [Vocabulary.words, hlabel])

/-! ### Words told apart by their places -/

theorem stop_of_mem_textWords {text : String} {word : Word} (h : word ∈ textWords text) :
    word.span.stop = word.span.start.right word.text.length := by
  obtain ⟨line, -, hword⟩ := List.mem_flatMap.mp h
  obtain ⟨run, -, rfl⟩ := List.mem_map.mp hword
  simp [PlacedLine.word, PlacedLine.span, Position.right, Run.stop, Nat.add_assoc]

namespace Recipe

/-- A word stands in one sentence only. -/
theorem placed_unique {vocabulary : Vocabulary} {text : String} {a b : Bool × Sentence}
    (ha : a ∈ (ofText text).placed vocabulary) (hb : b ∈ (ofText text).placed vocabulary)
    {word : Word} (hwa : word ∈ a.2.words) (hwb : word ∈ b.2.words) : a = b := by
  have hnodup := nodup_of_sublist_textWords (words_sublist text)
  rw [words_eq vocabulary] at hnodup
  exact block_unique hnodup ha hb hwa hwb

theorem head_not_mem_arguments {vocabulary : Vocabulary} {text : String}
    {entry : Bool × Sentence} (hentry : entry ∈ (ofText text).placed vocabulary) :
    entry.2.head ∉ entry.2.arguments := by
  have hnodup := nodup_of_sublist_textWords (words_sublist text)
  rw [words_eq vocabulary] at hnodup
  exact (List.nodup_cons.mp ((List.nodup_flatMap.mp hnodup).1 entry hentry)).1

end Recipe

/-! ### The sentence of the new word -/

/-- The word `label` where `old` began. -/
def Word.replacement (old : Word) (label : String) : Word :=
  ⟨label, old.span.start, old.span.start.right label.length⟩

theorem Word.Replaced.eq_replacement {old word : Word} {label text : String}
    (h : Word.Replaced old label old word) (hmem : word ∈ (Recipe.ofText text).words) :
    word = old.replacement label := by
  have htext : word.text = label := by simpa using h.text
  have hstop := stop_of_mem_textWords ((Recipe.words_sublist text).subset hmem)
  rw [htext, h.start rfl] at hstop
  obtain ⟨content, start, stop⟩ := word
  obtain rfl : content = label := htext
  obtain rfl : start = old.span.start := h.start rfl
  rw [replacement, ← show stop = _ from hstop]

/-- What is known of the sentence of the new word. -/
structure Sentence.Replaced (old : Word) (label : String) (row row' : Sentence) : Prop where
  head : old = row.head → row'.head = old.replacement label
  argument : old ∈ row.arguments →
    old.replacement label ∈ row'.arguments ∧ row'.head.text = row.head.text

section Replaced

variable {vocabulary : Vocabulary} {label text : String} (hname : IsName label) {old : Word}
  {declares : Bool} {row : Sentence}
  (hrow : (declares, row) ∈ (Recipe.ofText text).placed vocabulary) (hold : old ∈ row.words)
include hname hrow hold

/-- **The sentence of the new word** stands where that of the old word stood. -/
theorem Recipe.exists_replaced :
    ∃ row', (declares, row') ∈
        (ofText (Edit.applyAll text [⟨old.span, label⟩])).placed vocabulary ∧
      old.replacement label ∈ row'.words ∧ row.Replaced old label row' := by
  have hrows := placed_replaced vocabulary hname (mem_words_of_placed hrow hold)
  obtain ⟨⟨declares', row'⟩, hrow', hsame, hwords⟩ := exists_of_forall₂_left hrows hrow
  obtain rfl : declares' = declares := hsame
  obtain ⟨hhead, harguments⟩ := List.forall₂_cons.mp hwords
  have hmem (word : Word) (hword : word ∈ row'.words) := mem_words_of_placed hrow' hword
  refine ⟨row', hrow', ?_, fun hfirst => ?_, fun hlater => ⟨?_, ?_⟩⟩
  · obtain ⟨word, hword, hreplaced⟩ := exists_of_forall₂_left hwords hold
    exact hreplaced.eq_replacement (hmem word hword) ▸ hword
  · rw [← hfirst] at hhead
    exact hhead.eq_replacement (hmem _ List.mem_cons_self)
  · obtain ⟨word, hword, hreplaced⟩ := exists_of_forall₂_left harguments hlater
    exact hreplaced.eq_replacement (hmem word (List.mem_cons_of_mem _ hword)) ▸ hword
  · have hne : row.head ≠ old := fun heq => head_not_mem_arguments hrow (heq ▸ hlater)
    rw [hhead.text, if_neg hne]

/-! ### Declarations -/

theorem Recipe.forall₂_declarations :
    List.Forall₂ (Word.Replaced old label) ((ofText text).declarations vocabulary)
      ((ofText (Edit.applyAll text [⟨old.span, label⟩])).declarations vocabulary) := by
  have hrows := placed_replaced vocabulary hname (mem_words_of_placed hrow hold)
  rw [declarations, declarations, List.forall₂_map_left_iff, List.forall₂_map_right_iff]
  have hfilter := List.rel_filter (p := fun entry : Bool × Sentence => entry.1)
    (q := fun entry => entry.1) (fun _ _ h => Bool.eq_iff_iff.mp h.1.symm) hrows
  exact hfilter.imp fun entry entry' h => (List.forall₂_cons.mp h.2).1

theorem Recipe.isDefined_replaced (hother : declares = false) (name : String) :
    (Ingredients.ofRecipe vocabulary
        (ofText (Edit.applyAll text [⟨old.span, label⟩]))).isDefined name =
      (Ingredients.ofRecipe vocabulary (ofText text)).isDefined name := by
  -- the word is in none of the rows that declare
  have hnot : ∀ word ∈ (ofText text).declarations vocabulary, word ≠ old := by
    rintro word hword rfl
    obtain ⟨entry, hentry, rfl⟩ := List.mem_map.mp hword
    obtain ⟨hentry, hdeclares⟩ := List.mem_filter.mp hentry
    have hsame := placed_unique hentry hrow List.mem_cons_self hold
    rw [hsame, hother] at hdeclares
    cases hdeclares
  have htexts : ((ofText (Edit.applyAll text [⟨old.span, label⟩])).declarations vocabulary).map
      Word.text = ((ofText text).declarations vocabulary).map Word.text := by
    have hkept := (List.forall₂_and_left _ _).mpr
      ⟨hnot, forall₂_declarations hname hrow hold⟩
    rw [eq_comm, ← List.forall₂_eq_eq_eq, List.forall₂_map_left_iff, List.forall₂_map_right_iff]
    refine hkept.imp fun word word' h => ?_
    rw [h.2.text, if_neg h.1]
  rw [Bool.eq_iff_iff, isDefined_iff, isDefined_iff, htexts]

theorem Recipe.definition_replaced (hdeclares : declares = true) (hhead : old = row.head)
    (hnew : (Ingredients.ofRecipe vocabulary (ofText text)).isDefined label = false) :
    ((Ingredients.ofRecipe vocabulary
        (ofText (Edit.applyAll text [⟨old.span, label⟩]))).get? label).bind Ingredient.definition =
      some (old.replacement label) := by
  obtain ⟨row', hrow', -, hreplaced⟩ := exists_replaced hname hrow hold
  let named := ((ofText (Edit.applyAll text [⟨old.span, label⟩])).declarations vocabulary).filter
    fun word => word.text = label
  have hmem : old.replacement label ∈ named := by
    refine List.mem_filter.mpr ⟨?_, decide_eq_true rfl⟩
    rw [← hreplaced.head hhead, declarations]
    exact List.mem_map_of_mem (f := fun entry : Bool × Sentence => entry.2.head)
      (List.mem_filter.mpr ⟨hrow', hdeclares⟩)
  -- no old declaration has the name, so no new one but the replacement has it
  have honly : ∀ word ∈ named, word = old.replacement label := by
    intro word hword
    obtain ⟨hdeclared, htext⟩ := List.mem_filter.mp hword
    obtain ⟨before, hbefore, hbecomes : Word.Replaced old label before word⟩ :=
      exists_of_forall₂_left (forall₂_declarations hname hrow hold).flip hdeclared
    by_cases hsame : before = old
    · rw [hsame] at hbecomes
      obtain ⟨entry, hentry, rfl⟩ := List.mem_map.mp hdeclared
      exact hbecomes.eq_replacement
        (mem_words_of_placed (List.mem_filter.mp hentry).1 List.mem_cons_self)
    · have hlabel : before.text = label := by
        rw [← of_decide_eq_true htext, hbecomes.text, if_neg hsame]
      have hdefined := (isDefined_iff vocabulary (ofText text) label).mpr
        (hlabel ▸ List.mem_map_of_mem hbefore)
      rw [hnew] at hdefined
      cases hdefined
  have hfirst : named.head? = some (old.replacement label) := by
    cases hnamed : named with
    | nil => exact absurd hmem (by simp [hnamed])
    | cons first later =>
        rw [honly first (hnamed ▸ List.mem_cons_self), List.head?_cons]
  rw [Ingredients.ofRecipe, Ingredients.definition_ofOccurrences, named_declared]
  exact hfirst

/-! ### Accepted -/

/-- **What is proposed for a word is not rejected in its place.** -/
theorem Sentence.Offers.not_rejects {row' : Sentence} {problem : Problem}
    (h : row.Offers vocabulary (Ingredients.ofRecipe vocabulary (Recipe.ofText text)) old label
      declares)
    (hrow' : (declares, row') ∈
      (Recipe.ofText (Edit.applyAll text [⟨old.span, label⟩])).placed vocabulary)
    (hreplaced : row.Replaced old label row') :
    ¬ row'.Rejects vocabulary (Ingredients.ofRecipe vocabulary
      (Recipe.ofText (Edit.applyAll text [⟨old.span, label⟩]))) declares problem
      (old.replacement label) := by
  have hapart := Recipe.head_not_mem_arguments hrow'
  intro hrejects
  generalize hword : old.replacement label = word at hrejects
  cases h with
  | declaration hlabel =>
      cases hrejects with
      | again hagain =>
          rcases List.mem_cons.mp hold with hhead | hargument
          · have hdefinition := Recipe.definition_replaced hname hrow hold rfl hhead
              (Ingredients.of_mem_undeclared hlabel).1
            obtain ⟨entry, hentry, hfirst⟩ := Option.bind_eq_some_iff.mp hdefinition
            rw [← hword, Ingredients.redeclares,
              show (old.replacement label).text = label from rfl, hentry] at hagain
            simp [hfirst] at hagain
          · exact hapart (hword ▸ (hreplaced.argument hargument).1)
  | head hhead hlabel =>
      have hnew := hreplaced.head hhead
      cases hrejects with
      | head hverb hadverb =>
          rw [hnew] at hverb hadverb
          simp only [Vocabulary.isVerb, Vocabulary.isAdverb, List.contains_eq_mem,
            decide_eq_false_iff_not] at hverb hadverb
          exact (List.mem_append.mp hlabel).elim hverb hadverb
      | ingredient _ hargument _ => exact hapart (hnew.trans hword ▸ hargument)
      | tool _ hargument _ => exact hapart (hnew.trans hword ▸ hargument)
  | ingredient hargument hneeds hlabel =>
      obtain ⟨hmem, hhead⟩ := hreplaced.argument hargument
      cases hrejects with
      | head _ _ => exact hapart (hword ▸ hmem)
      | ingredient _ _ hdefined =>
          rw [← hword, Recipe.isDefined_replaced hname hrow hold rfl] at hdefined
          have hlisted := (Ingredients.of_mem_defined hlabel).1
          exact absurd (hlisted.symm.trans hdefined) (by simp)
      | tool hother _ _ =>
          rw [hhead, hneeds] at hother
          cases hother
  | tool hargument hneeds hlabel =>
      obtain ⟨hmem, hhead⟩ := hreplaced.argument hargument
      cases hrejects with
      | head _ _ => exact hapart (hword ▸ hmem)
      | ingredient hother _ _ =>
          rw [hhead, hneeds] at hother
          cases hother
      | tool _ _ htool =>
          rw [← hword, Vocabulary.isTool] at htool
          exact absurd hlabel (by simpa [Word.replacement] using htool)

end Replaced

/-- Of a word that no sentence rejects, nothing is reported. -/
theorem Analysis.problem_of_not_rejects {vocabulary : Vocabulary} {text : String}
    {declares : Bool} {row : Sentence} {word : Word}
    (hrow : (declares, row) ∈ (Recipe.ofText text).placed vocabulary) (hword : word ∈ row.words)
    (h : ∀ problem, ¬ row.Rejects vocabulary
      (Ingredients.ofRecipe vocabulary (Recipe.ofText text)) declares problem word)
    {f : Finding} (hf : f ∈ (ofText vocabulary text).findings) (hspan : f.span = word.span) :
    f.problem ∉ wordProblems := by
  intro hproblem
  rcases List.mem_append.mp hf with hf | hf
  · rcases Recipe.problem_of_misplaced hf with hf | hf | hf <;>
      simp [hf, wordProblems] at hproblem
  · rw [Recipe.findings_eq] at hf
    obtain ⟨entry, hentry, hf⟩ := List.mem_flatMap.mp hf
    obtain ⟨reported, hreported, hplace, hrejects⟩ := Sentence.rejects_of_mem_findings hf hproblem
    -- the span tells the word, and the word tells the sentence
    obtain rfl : reported = word :=
      textWords_unique (Recipe.mem_textWords_of_placed hentry hreported)
        (Recipe.mem_textWords_of_placed hrow hword) (by rw [hplace, hspan])
    obtain rfl := Recipe.placed_unique hentry hrow hreported hword
    exact h _ hrejects

/-- **Proposals are accepted.** Let a proposal that makes no heading be written over the word under
the caret. Then the new word is a word of the recipe, and no diagnostic about it says that it is
unknown. Where it is the first word of a line in an ingredients section, it is the definition of its
name, and not a repeated one. -/
theorem proposals_accepted (vocabulary : Vocabulary) (hvalid : vocabulary.fault? = none)
    (text : String) (caret : Position) (location : Location) (old : Word) (proposal : Proposal)
    (hlocate : (Analysis.ofText vocabulary text).recipe.locate caret = some location)
    (hword : location.word? caret = some old)
    (hproposed : proposal ∈ (Analysis.ofText vocabulary text).proposals vocabulary caret)
    (hhead : proposal.label.toList.head? ≠ some '#') :
    let after := Analysis.ofText vocabulary (Edit.applyAll text [⟨old.span, proposal.label⟩])
    let new : Word := ⟨proposal.label, old.span.start, old.span.start.right proposal.label.length⟩
    new ∈ after.recipe.words ∧
      (∀ d ∈ after.diagnostics, d.span = new.span →
        d.message ∉ ["unknown verb or adverb", "unknown ingredient", "unknown tool"]) ∧
      (location.part.declares vocabulary = true → location.wordIndex caret = some 0 →
        (after.ingredients.get? proposal.label).bind Ingredient.definition = some new ∧
        ∀ d ∈ after.diagnostics, d.span = new.span → d.message ≠ "duplicated ingredient") := by
  intro after new
  obtain ⟨row, hrow, hold, hfirst, hoffers⟩ :=
    Analysis.offers_of_mem_proposals hlocate hword hproposed
  have hname := hoffers.isName hvalid hhead
  obtain ⟨row', hrow', hnew, hreplaced⟩ := Recipe.exists_replaced hname hrow hold
  have hquiet : ∀ d ∈ after.diagnostics, d.span = new.span →
      d.message ∉ wordProblems.map Problem.message := by
    intro d hd hspan hmessage
    obtain ⟨f, hf, rfl⟩ := List.mem_map.mp hd
    obtain ⟨problem, hproblem, hsame⟩ := List.mem_map.mp hmessage
    have hnone := Analysis.problem_of_not_rejects hrow' hnew
      (fun _ => hoffers.not_rejects hname hrow hold hrow' hreplaced) hf hspan
    exact hnone (Problem.message_inj.mp hsame ▸ hproblem)
  refine ⟨Recipe.mem_words_of_placed hrow' hnew, fun d hd hspan hmessage => ?_,
    fun hdeclares hindex => ⟨?_, fun d hd hspan hmessage => ?_⟩⟩
  · exact hquiet d hd hspan (List.mem_append_left ["duplicated ingredient"] hmessage)
  · rw [hdeclares] at hoffers
    cases hoffers with
    | declaration hlabel =>
        exact Recipe.definition_replaced hname hrow hold hdeclares (hfirst hindex)
          (Ingredients.of_mem_undeclared hlabel).1
  · exact hquiet d hd hspan (hmessage ▸ by simp [wordProblems, Problem.message])

/-- A name that is used and declared nowhere is proposed in the ingredients section. Written over the
declaration there, it declares what was missing. -/
theorem proposals_accepted_declaring :
    let vocabulary : Vocabulary := ⟨["m"], ["m"], [], [], "i"⟩
    let text := "#T\n##i\nx\n##s\nm ail"
    let caret : Position := ⟨7, 2, 0⟩
    let old : Word := ⟨"x", ⟨7, 2, 0⟩, ⟨8, 2, 1⟩⟩
    let new : Word := ⟨"ail", ⟨7, 2, 0⟩, ⟨10, 2, 3⟩⟩
    let after := Analysis.ofText vocabulary (Edit.applyAll text [⟨old.span, "ail"⟩])
    vocabulary.fault? = none ∧
      (Analysis.ofText vocabulary text).recipe.wordAt? caret = some old ∧
      (Analysis.ofText vocabulary text).proposals vocabulary caret = [⟨"ail", .ingredient⟩] ∧
      new ∈ after.recipe.words ∧
      (after.ingredients.get? "ail").bind Ingredient.definition = some new ∧
      ∀ d ∈ after.diagnostics, d.span = new.span → d.message ≠ "duplicated ingredient" := by
  intro vocabulary text caret old new after
  have hvalid : vocabulary.fault? = none := by decide
  have hlocate : (Analysis.ofText vocabulary text).recipe.locate caret =
      some ⟨⟨⟨"i", ⟨3, 1, 0⟩, ⟨6, 1, 3⟩⟩, [⟨old, []⟩]⟩, some ⟨old, []⟩⟩ := by decide +kernel
  have hproposals : (Analysis.ofText vocabulary text).proposals vocabulary caret =
      [⟨"ail", .ingredient⟩] := by decide +kernel
  obtain ⟨hmem, -, hdeclaration⟩ := proposals_accepted vocabulary hvalid text caret _ old
    ⟨"ail", .ingredient⟩ hlocate (by decide) (hproposals ▸ List.mem_singleton.mpr rfl) (by decide)
  obtain ⟨hdefinition, hquiet⟩ := hdeclaration (by decide) (by decide)
  refine ⟨hvalid, ?_, hproposals, hmem, hdefinition, hquiet⟩
  rw [Recipe.wordAt?, hlocate]
  decide

end RecipeDesk
