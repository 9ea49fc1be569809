import Mathlib.Data.List.Nodup
import RecipeDesk.Proofs.Recipe.Completion
import RecipeDesk.Proofs.Recipe.Verdict

/-!
# Nothing is reported twice

The findings about lines out of place and those about sentences are put one behind the other, and
nothing looks for repetitions. There are none (`findings_nodup`), because findings have places of
their own:

* a line out of place is reported once, on its line;
* a sentence is reported at its words only, and words of different sentences begin at different
  places;
* within a sentence, either the problems differ or the words do.

With that, what is reported of the heads of sentences is counted by looking who is reported
(`spansSaying_unknownHead`): exactly the heads that are neither verb nor adverb. Verbs that take
ingredients are looked up first, so this needs a vocabulary in which they are verbs.
-/

namespace RecipeDesk

/-- A problem at a place is one finding. -/
theorem Finding.eq_of_problem_span {f g : Finding} (hproblem : f.problem = g.problem)
    (hspan : f.span = g.span) : f = g := by
  cases f
  cases g
  cases hproblem
  cases hspan
  rfl

/-! ### Lines out of place -/

/-- The problems of lines out of place. All others are problems of sentences. -/
def Problem.isMisplacement : Problem → Bool
  | titleAlreadyDefined | sectionBeforeTitle | wordsOutsideSection => true
  | _ => false

theorem Recipe.isMisplacement_of_misplaced {text : String} {f : Finding} (h : f ∈ misplaced text) :
    f.problem.isMisplacement = true := by
  rcases problem_of_misplaced h with hf | hf | hf <;> rw [hf] <;> rfl

theorem Recipe.misplaced_nodup (text : String) : (misplaced text).Nodup := by
  refine (misplaced_pairwise text).imp ?_
  rintro f g hlt rfl
  exact Nat.lt_irrefl _ hlt

/-! ### One sentence -/

namespace Sentence

variable (vocabulary : Vocabulary) (ingredients : Ingredients) (declares : Bool) (row : Sentence)

theorem not_isMisplacement_findings {f : Finding}
    (h : f ∈ row.findings vocabulary ingredients declares) : f.problem.isMisplacement = false := by
  unfold findings at h
  dsimp only at h
  split at h
  · rw [declarationFindings_eq] at h
    obtain ⟨word, -, rfl⟩ := List.mem_map.mp h
    rfl
  split at h
  · rcases List.mem_append.mp h with h | h
    · split at h
      · obtain rfl := List.mem_singleton.mp h
        rfl
      · cases h
    · obtain ⟨word, -, rfl⟩ := List.mem_map.mp h
      rfl
  split at h
  · cases h
  split at h
  · rcases row.problem_of_mem_toolFindings vocabulary h with hf | hf | hf <;> rw [hf] <;> rfl
  · obtain rfl := List.mem_singleton.mp h
    rfl

/-- A sentence is reported at its words. -/
theorem exists_word_of_mem_findings {f : Finding}
    (h : f ∈ row.findings vocabulary ingredients declares) :
    ∃ word ∈ row.words, f.span.start = word.span.start := by
  have hmerge (s t : Span) (hs : ∃ word ∈ row.words, s.start = word.span.start)
      (ht : ∃ word ∈ row.words, t.start = word.span.start) :
      ∃ word ∈ row.words, (s.merge t).start = word.span.start := by
    have hmin : min s.start t.start = if s.start ≤ t.start then s.start else t.start := rfl
    rw [Span.merge, hmin]
    dsimp only
    split
    · exact hs
    · exact ht
  exact span_findings hmerge (fun word hword => ⟨word, hword, rfl⟩) vocabulary ingredients declares
    f h

variable {row}

theorem ingredientFindings_nodup (h : row.arguments.Pairwise fun a b => a.span ≠ b.span) :
    (row.ingredientFindings ingredients).Nodup := by
  refine List.nodup_append.mpr ⟨?_, ?_, ?_⟩
  · split <;> simp
  · rw [List.Nodup, List.pairwise_map]
    refine (h.filter _).imp ?_
    intro a b hne heq
    exact hne (Finding.mk.inj heq).2
  · intro f hf g hg
    obtain ⟨word, -, rfl⟩ := List.mem_map.mp hg
    split at hf
    · obtain rfl := List.mem_singleton.mp hf
      simp
    · cases hf

theorem toolFindings_nodup : (row.toolFindings vocabulary).Nodup := by
  unfold toolFindings
  cases row.arguments with
  | nil => exact List.nodup_singleton _
  | cons tool extra =>
      dsimp only
      cases Span.mergeAll (extra.map Word.span) <;> split <;> simp

/-- A sentence whose words have places of their own is not reported twice. -/
theorem findings_nodup (h : row.words.Pairwise fun a b => a.span ≠ b.span) :
    (row.findings vocabulary ingredients declares).Nodup := by
  unfold findings
  dsimp only
  split
  · rw [declarationFindings_eq, List.filter_singleton]
    cases ingredients.redeclares row.head <;> simp
  split
  · exact ingredientFindings_nodup ingredients (List.pairwise_cons.mp h).2
  split
  · exact List.nodup_nil
  split
  · exact toolFindings_nodup vocabulary
  · exact List.nodup_singleton _

end Sentence

/-! ### All sentences -/

namespace Recipe

variable (vocabulary : Vocabulary) (text : String)

theorem mem_placed_iff {recipe : Recipe} {declares : Bool} {row : Sentence} :
    (declares, row) ∈ recipe.placed vocabulary ↔
      ∃ part ∈ recipe.sections, part.declares vocabulary = declares ∧ row ∈ part.sentences := by
  simp only [placed, List.mem_flatMap, List.mem_map, Prod.mk.injEq]
  constructor
  · rintro ⟨part, hpart, row, hrow, hdeclares, rfl⟩
    exact ⟨part, hpart, hdeclares, hrow⟩
  · rintro ⟨part, hpart, hdeclares, hrow⟩
    exact ⟨part, hpart, row, hrow, hdeclares, rfl⟩

/-- The words of a sentence increase, and those of a later sentence lie behind those of an earlier
one. -/
theorem placed_pairwise :
    (∀ entry ∈ (ofText text).placed vocabulary,
      entry.2.words.Pairwise fun a b => a.span.start.offset < b.span.start.offset) ∧
    ((ofText text).placed vocabulary).Pairwise fun x y =>
      ∀ a ∈ x.2.words, ∀ b ∈ y.2.words, a.span.start.offset < b.span.start.offset := by
  have hwords := starts_increase (words_sublist text)
  rw [words_eq vocabulary] at hwords
  exact List.pairwise_flatMap.mp hwords

theorem findings_nodup (ingredients : Ingredients) :
    ((ofText text).findings vocabulary ingredients).Nodup := by
  obtain ⟨hwithin, hbetween⟩ := placed_pairwise vocabulary text
  rw [findings_eq, List.nodup_flatMap]
  constructor
  · intro entry hentry
    refine Sentence.findings_nodup vocabulary ingredients entry.1 ((hwithin entry hentry).imp ?_)
    intro a b hlt heq
    rw [heq] at hlt
    exact Nat.lt_irrefl _ hlt
  · refine hbetween.imp ?_
    intro x y hlt f hx hy
    obtain ⟨a, ha, hstart⟩ := Sentence.exists_word_of_mem_findings _ _ _ _ hx
    obtain ⟨b, hb, hstart'⟩ := Sentence.exists_word_of_mem_findings _ _ _ _ hy
    have hlt := hlt a ha b hb
    rw [← hstart, ← hstart'] at hlt
    exact Nat.lt_irrefl _ hlt

end Recipe

namespace Analysis

variable (vocabulary : Vocabulary) (text : String)

/-- **No finding comes twice.** -/
theorem findings_nodup : (ofText vocabulary text).findings.Nodup := by
  refine List.nodup_append.mpr ⟨Recipe.misplaced_nodup text, Recipe.findings_nodup _ text _, ?_⟩
  rintro f hf g hg rfl
  rw [Recipe.findings_eq] at hg
  obtain ⟨entry, -, hg⟩ := List.mem_flatMap.mp hg
  have hsentence := entry.2.not_isMisplacement_findings vocabulary _ entry.1 hg
  rw [Recipe.isMisplacement_of_misplaced hf] at hsentence
  cases hsentence

/-- Diagnostics are told apart by what they say and where. -/
theorem diagnostics_nodup :
    ((ofText vocabulary text).diagnostics.map fun d => (d.message, d.span)).Nodup := by
  rw [diagnostics, List.map_map]
  refine (findings_nodup vocabulary text).map ?_
  intro f g heq
  obtain ⟨hmessage, hspan⟩ := Prod.mk.inj heq
  exact Finding.eq_of_problem_span (Problem.message_inj.mp hmessage) hspan

end Analysis

/-! ### Heads -/

namespace Vocabulary

/-- Whether a word can be the head of a sentence. -/
def isHead (vocabulary : Vocabulary) (word : String) : Bool :=
  vocabulary.isVerb word || vocabulary.isAdverb word

theorem isVerb_of_needsIngredients {vocabulary : Vocabulary} (hvalid : vocabulary.fault? = none)
    {word : String} (hword : vocabulary.needsIngredients word = true) :
    vocabulary.isVerb word = true := by
  unfold fault? at hvalid
  split at hvalid
  · cases hvalid
  split at hvalid
  · cases hvalid
  · next hall =>
      have hmem : word ∈ vocabulary.ingredientVerbs := by simpa [needsIngredients] using hword
      simpa using List.find?_eq_none.mp hall word hmem

end Vocabulary

/-- Of a sentence the head is reported as unknown if it cannot be one, and nothing else is. -/
theorem Sentence.spansOf_unknownHead {vocabulary : Vocabulary} (hvalid : vocabulary.fault? = none)
    (ingredients : Ingredients) (declares : Bool) (row : Sentence) :
    spansOf .unknownHead (row.findings vocabulary ingredients declares) =
      if declares || vocabulary.isHead row.head.text then [] else [row.head.span] := by
  cases declares with
  | true => rw [row.spansOf_findings_true, if_neg (by simp), Bool.true_or, if_pos rfl]
  | false =>
      simp only [findings, Bool.false_eq_true, if_false, Bool.false_or]
      split
      · next hneeds =>
          rw [spansOf_ingredientFindings ingredients (by simp), if_neg (by simp), if_pos]
          simp [Vocabulary.isHead, Vocabulary.isVerb_of_needsIngredients hvalid hneeds]
      split
      · next hverb => simp [Vocabulary.isHead, hverb, spansOf]
      split
      · next hadverb =>
          rw [spansOf_eq_nil, if_pos (by simp [Vocabulary.isHead, hadverb])]
          intro f hf heq
          rcases row.problem_of_mem_toolFindings vocabulary hf with h | h | h <;> simp [h] at heq
      · next hverb hadverb => simp [Vocabulary.isHead, hverb, hadverb, spansOf]

namespace Analysis

/-- The sentences whose head cannot be one, outside the ingredients sections. -/
def unknownHeads (vocabulary : Vocabulary) (text : String) : List Word :=
  (((Recipe.ofText text).placed vocabulary).filter fun entry =>
    !(entry.1 || vocabulary.isHead entry.2.head.text)).map fun entry => entry.2.head

/-- **Unknown heads** are reported in document order, and nothing else is reported as one. -/
theorem spansSaying_unknownHead {vocabulary : Vocabulary} (hvalid : vocabulary.fault? = none)
    (text : String) :
    (ofText vocabulary text).spansSaying "unknown verb or adverb" =
      (unknownHeads vocabulary text).map Word.span := by
  have hmisplaced : spansOf .unknownHead (Recipe.misplaced text) = [] := by
    refine spansOf_eq_nil fun f hf heq => ?_
    have hline := Recipe.isMisplacement_of_misplaced hf
    rw [heq] at hline
    cases hline
  refine (spansSaying_message _ .unknownHead).trans ?_
  rw [ofText, spansOf_append, hmisplaced, List.nil_append, Recipe.findings_eq, spansOf_flatMap,
    unknownHeads]
  simp only [Sentence.spansOf_unknownHead hvalid]
  induction (Recipe.ofText text).placed vocabulary with
  | nil => rfl
  | cons entry rest ih =>
      rw [List.flatMap_cons, ih]
      by_cases hentry : (entry.1 || vocabulary.isHead entry.2.head.text) = true
      · rw [if_pos hentry, List.filter_cons_of_neg (by rw [hentry]; decide), List.nil_append]
      · rw [if_neg hentry, List.filter_cons_of_pos (by simpa using hentry)]
        rfl

/-- Unknown heads are words of the text. -/
theorem mem_textWords_of_mem_unknownHeads {vocabulary : Vocabulary} {text : String} {word : Word}
    (h : word ∈ unknownHeads vocabulary text) : word ∈ textWords text := by
  obtain ⟨entry, hentry, rfl⟩ := List.mem_map.mp h
  exact Recipe.mem_textWords_of_placed (List.mem_filter.mp hentry).1 List.mem_cons_self

/-- Whether the head of a sentence is among them is seen from its characters. -/
theorem mem_unknownHeads_iff {vocabulary : Vocabulary} {text : String} {row : Sentence}
    (hrow : (false, row) ∈ (Recipe.ofText text).placed vocabulary) :
    row.head.span ∈ (unknownHeads vocabulary text).map Word.span ↔
      vocabulary.isHead row.head.text = false := by
  constructor
  · intro hmem
    obtain ⟨word, hword, hspan⟩ := List.mem_map.mp hmem
    have hhead : row.head ∈ textWords text :=
      Recipe.mem_textWords_of_placed hrow List.mem_cons_self
    obtain rfl : word = row.head :=
      textWords_unique (mem_textWords_of_mem_unknownHeads hword) hhead (by rw [hspan])
    obtain ⟨entry, hentry, hsame⟩ := List.mem_map.mp hword
    have hunknown := (List.mem_filter.mp hentry).2
    rw [Bool.not_eq_true', Bool.or_eq_false_iff] at hunknown
    rw [← hsame]
    exact hunknown.2
  · intro hunknown
    refine List.mem_map_of_mem (List.mem_map.mpr ⟨(false, row), ?_, rfl⟩)
    exact List.mem_filter.mpr ⟨hrow, by simpa using hunknown⟩

end Analysis

theorem spansOf_nodup {findings : List Finding} (h : findings.Nodup) (problem : Problem) :
    (spansOf problem findings).Nodup := by
  rw [spansOf, List.Nodup, List.pairwise_map]
  refine (h.filter _).imp_of_mem ?_
  intro f g hf hg hne hspan
  have hproblem : f.problem = g.problem := by
    rw [of_decide_eq_true (List.mem_filter.mp hf).2, of_decide_eq_true (List.mem_filter.mp hg).2]
  exact hne (Finding.eq_of_problem_span hproblem hspan)

/-- **Every offence is reported once.** No two diagnostics of a recipe say the same about the same
place. With an accepted vocabulary, the head of a sentence outside the ingredients sections is
reported once as unknown if it is neither a verb nor an adverb, and otherwise not at all, and no
other place is. -/
theorem offences_reported_once (vocabulary : Vocabulary) (text : String)
    (hvalid : vocabulary.fault? = none) :
    let analysis := Analysis.ofText vocabulary text
    let unknown := analysis.spansSaying "unknown verb or adverb"
    (analysis.diagnostics.map fun d => (d.message, d.span)).Nodup ∧
      (∀ part ∈ analysis.recipe.sections, part.declares vocabulary = false →
        ∀ row ∈ part.sentences, unknown.count row.head.span =
          if vocabulary.isVerb row.head.text || vocabulary.isAdverb row.head.text then 0 else 1) ∧
      ∀ span ∈ unknown, ∃ part ∈ analysis.recipe.sections, part.declares vocabulary = false ∧
        ∃ row ∈ part.sentences, span = row.head.span := by
  intro analysis unknown
  have hunknown : unknown = (Analysis.unknownHeads vocabulary text).map Word.span :=
    Analysis.spansSaying_unknownHead hvalid text
  have hnodup : unknown.Nodup := by
    have hspans : unknown = spansOf .unknownHead analysis.findings :=
      analysis.spansSaying_message .unknownHead
    rw [hspans]
    exact spansOf_nodup (Analysis.findings_nodup vocabulary text) _
  refine ⟨Analysis.diagnostics_nodup vocabulary text, ?_, ?_⟩
  · intro part hpart hdeclares row hrow
    have hplaced : (false, row) ∈ (Recipe.ofText text).placed vocabulary :=
      (Recipe.mem_placed_iff vocabulary).mpr ⟨part, hpart, hdeclares, hrow⟩
    rw [hnodup.count, hunknown, if_congr (Analysis.mem_unknownHeads_iff hplaced) rfl rfl]
    show _ = if vocabulary.isHead row.head.text then 0 else 1
    cases vocabulary.isHead row.head.text <;> rfl
  · intro span hspan
    rw [hunknown] at hspan
    obtain ⟨word, hword, rfl⟩ := List.mem_map.mp hspan
    obtain ⟨entry, hentry, rfl⟩ := List.mem_map.mp hword
    obtain ⟨hplaced, hhead⟩ := List.mem_filter.mp hentry
    rw [Bool.not_eq_true', Bool.or_eq_false_iff] at hhead
    obtain ⟨part, hpart, hdeclares, hrow⟩ := (Recipe.mem_placed_iff vocabulary).mp hplaced
    exact ⟨part, hpart, hdeclares.trans hhead.1, entry.2, hrow, rfl⟩

/-- One word three times: it declares an ingredient, and twice it is the head of a sentence that has
no verb. -/
theorem offences_reported_once_same_word :
    let vocabulary : Vocabulary := ⟨["v"], ["v"], ["d"], ["p"], "i"⟩
    let analysis := Analysis.ofText vocabulary "# t\n## i\nz\n## s\nz z\nv\nz"
    let unknown := analysis.spansSaying "unknown verb or adverb"
    vocabulary.fault? = none ∧
      (analysis.diagnostics.map fun d => (d.message, d.span)).Nodup ∧
      unknown.count ⟨⟨16, 4, 0⟩, ⟨17, 4, 1⟩⟩ = 1 ∧
      unknown.count ⟨⟨20, 5, 0⟩, ⟨21, 5, 1⟩⟩ = 0 ∧
      unknown.count ⟨⟨22, 6, 0⟩, ⟨23, 6, 1⟩⟩ = 1 ∧
      ⟨⟨9, 2, 0⟩, ⟨10, 2, 1⟩⟩ ∉ unknown := by
  intro vocabulary analysis unknown
  have hvalid : vocabulary.fault? = none := by decide
  let declared : Section := ⟨⟨"i", ⟨⟨4, 1, 0⟩, ⟨8, 1, 4⟩⟩⟩, [⟨⟨"z", ⟨⟨9, 2, 0⟩, ⟨10, 2, 1⟩⟩⟩, []⟩]⟩
  let part : Section := ⟨⟨"s", ⟨⟨11, 3, 0⟩, ⟨15, 3, 4⟩⟩⟩,
    [⟨⟨"z", ⟨⟨16, 4, 0⟩, ⟨17, 4, 1⟩⟩⟩, [⟨"z", ⟨⟨18, 4, 2⟩, ⟨19, 4, 3⟩⟩⟩]⟩,
      ⟨⟨"v", ⟨⟨20, 5, 0⟩, ⟨21, 5, 1⟩⟩⟩, []⟩, ⟨⟨"z", ⟨⟨22, 6, 0⟩, ⟨23, 6, 1⟩⟩⟩, []⟩]⟩
  have hsections : analysis.recipe.sections = [declared, part] := by decide +kernel
  have hpart : part ∈ analysis.recipe.sections := by
    rw [hsections]
    exact List.mem_cons_of_mem _ List.mem_cons_self
  obtain ⟨hnodup, hcount, honly⟩ :=
    offences_reported_once vocabulary "# t\n## i\nz\n## s\nz z\nv\nz" hvalid
  have hheads := hcount part hpart (by decide)
  refine ⟨hvalid, hnodup, hheads _ List.mem_cons_self, ?_, ?_, ?_⟩
  · exact hheads _ (List.mem_cons_of_mem _ List.mem_cons_self)
  · exact hheads _ (List.mem_cons_of_mem _ (List.mem_cons_of_mem _ List.mem_cons_self))
  · intro hmem
    obtain ⟨found, hfound, hdeclares, row, hrow, hspan⟩ := honly _ hmem
    change found ∈ analysis.recipe.sections at hfound
    rw [hsections] at hfound
    rcases List.mem_cons.mp hfound with rfl | hfound
    · exact absurd hdeclares (by decide)
    · obtain rfl := List.mem_singleton.mp hfound
      have hother : ∀ row ∈ part.sentences, row.head.span ≠ ⟨⟨9, 2, 0⟩, ⟨10, 2, 1⟩⟩ := by decide
      exact hother row hrow hspan.symm

end RecipeDesk
