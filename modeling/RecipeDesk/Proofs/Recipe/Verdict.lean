import RecipeDesk.Proofs.Recipe.Agreement
import RecipeDesk.Proofs.Recipe.Composition
import RecipeDesk.Proofs.Recipe.LineByLine
import RecipeDesk.Proofs.Recipe.Spans

/-!
# The verdict on a renamed recipe

Renaming an ingredient to a fresh name changes nothing about what is reported, the columns aside
(`fresh_name_keeps_verdict`).

A line out of place stays out of place for the same reason, since every line stays what it is. A
sentence is checked against the vocabulary and against the index. Of what is looked up in the
vocabulary, heads and tools, nothing is renamed, and of what is looked up in the index, everything is
renamed in the same way: if the new name is fresh, two words have the same name after the renaming
exactly if they had the same name before, so the first declaration of a name is the successor of the
first declaration of its old name (`Tracks.named_eq`).
-/

namespace RecipeDesk

/-! ### Findings that say the same -/

/-- The second finding is of the same problem as the first, on the same lines. -/
structure Finding.SameVerdict (f f' : Finding) : Prop where
  problem : f'.problem = f.problem
  first_line : f'.span.start.line = f.span.start.line
  last_line : f'.span.stop.line = f.span.stop.line

/-- The second diagnostic says what the first one says, on the same lines. -/
structure Diagnostic.SameVerdict (d d' : Diagnostic) : Prop where
  severity : d'.severity = d.severity
  message : d'.message = d.message
  label : d'.label = d.label
  first_line : d'.span.start.line = d.span.start.line
  last_line : d'.span.stop.line = d.span.stop.line

theorem Finding.SameVerdict.diagnostic {f f' : Finding} (h : f.SameVerdict f') :
    f.diagnostic.SameVerdict f'.diagnostic where
  severity := congrArg Problem.severity h.problem
  message := congrArg Problem.message h.problem
  label := congrArg Problem.label? h.problem
  first_line := h.first_line
  last_line := h.last_line

/-- Findings on one line say the same if their problems are the same. -/
theorem Finding.forall₂_sameVerdict {n : Nat} {fs fs' : List Finding}
    (hproblems : fs'.map Finding.problem = fs.map Finding.problem)
    (hold : ∀ f ∈ fs, f.span.OnLine n) (hnew : ∀ f ∈ fs', f.span.OnLine n) :
    List.Forall₂ SameVerdict fs fs' := by
  have hpairs := forall₂_eq_iff.mpr hproblems
  induction hpairs with
  | nil => exact .nil
  | cons hproblem _ ih =>
      obtain ⟨hfirst, hold⟩ := List.forall_mem_cons.mp hold
      obtain ⟨hfirst', hnew⟩ := List.forall_mem_cons.mp hnew
      refine .cons ⟨hproblem, ?_, ?_⟩ (ih (List.cons.inj hproblems).2 hold hnew)
      · rw [hfirst.1, hfirst'.1]
      · rw [hfirst.2, hfirst'.2]

theorem Span.OnLine.merge {n : Nat} {s t : Span} (hs : s.OnLine n) (ht : t.OnLine n) :
    (s.merge t).OnLine n := by
  have hmin : min s.start t.start = if s.start ≤ t.start then s.start else t.start := rfl
  have hmax : max s.stop t.stop = if s.stop ≤ t.stop then t.stop else s.stop := rfl
  rw [Span.merge, hmin, hmax]
  constructor
  · dsimp only
    split
    · exact hs.1
    · exact ht.1
  · dsimp only
    split
    · exact ht.2
    · exact hs.2

/-! ### Lines out of place -/

/-- A line out of place is reported on its line. -/
theorem Entry.onLine_finding {titled opened : Bool} {line : PlacedLine} {f : Finding}
    (h : (ofLine titled opened line).finding? = some f) : f.span.OnLine line.start.line := by
  refine onLine_ofLine titled opened line _ ?_
  cases hentry : ofLine titled opened line with
  | misplaced finding =>
      rw [hentry] at h
      cases h
      rfl
  | _ =>
      rw [hentry] at h
      cases h

/-- Lines of the same kinds and numbers are out of place alike. -/
theorem Entry.forall₂_findings {read : Word → String} (titled opened : Bool)
    {lines lines' : List PlacedLine}
    (h : List.Forall₂ (fun line line' => line.Reads read line'.chars ∧
      line'.start.line = line.start.line) lines lines') :
    List.Forall₂ Finding.SameVerdict ((ofLines titled opened lines).filterMap finding?)
      ((ofLines titled opened lines').filterMap finding?) := by
  have hentries := forall₂_ofLines (Q := fun entry entry' => ∃ n,
      (∀ f ∈ entry.finding?, f.span.OnLine n) ∧ ∀ f ∈ entry'.finding?, f.span.OnLine n)
    titled opened (h.imp fun line line' hline => ⟨hline.1, fun titled opened =>
      ⟨line.start.line, fun f hf => onLine_finding hf,
        fun f hf => hline.2 ▸ onLine_finding hf⟩⟩)
  refine List.rel_filterMap ?_ hentries
  intro entry entry' hentry
  obtain ⟨hreads, n, hold, hnew⟩ := hentry
  cases hreads with
  | misplaced hproblem =>
      have hfirst := hold _ rfl
      have hfirst' := hnew _ rfl
      exact .some ⟨hproblem, hfirst'.1.trans hfirst.1.symm, hfirst'.2.trans hfirst.2.symm⟩
  | _ => exact .none

theorem Tracks.forall₂_misplaced {chosen : Word → Bool} {newName text : String}
    {track : Word → Word} (h : Tracks chosen newName text track) (hname : IsName newName)
    (hsentences : ∀ line ∈ placedLines text, ¬ line.IsWords → ∀ word ∈ line.words,
      chosen word = false) :
    List.Forall₂ Finding.SameVerdict (Recipe.misplaced text)
      (Recipe.misplaced (overwritten chosen newName text)) := by
  have hlines : List.Forall₂ (fun line line' =>
      line.Reads (rewrittenText chosen newName) line'.chars ∧
        line'.start.line = line.start.line)
      (placedLines text) (placedLines (overwritten chosen newName text)) := by
    refine ((List.forall₂_and_left _ _).mpr ⟨hsentences, h.lines⟩).imp ?_
    intro line line' hline
    obtain ⟨hfree, hchars, hnumber, -⟩ := hline
    exact ⟨hchars ▸ PlacedLine.rewritten_reads chosen newName hname hfree, hnumber⟩
  exact Entry.forall₂_findings false false hlines

/-! ### Sentences -/

namespace Sentence

variable {vocabulary : Vocabulary} {ingredients ingredients' : Ingredients} {f : Word → Word}
  {row : Sentence}

/-- A sentence is reported on its line. -/
theorem onLine_findings {n : Nat} {declares : Bool}
    (h : ∀ word ∈ row.words, word.span.OnLine n) :
    ∀ f ∈ row.findings vocabulary ingredients declares, f.span.OnLine n :=
  span_findings (P := fun span => span.OnLine n) (fun _ _ => Span.OnLine.merge) h _ _ _

theorem problems_ingredientFindings
    (h : ∀ word ∈ row.arguments,
      ingredients'.isDefined (f word).text = ingredients.isDefined word.text) :
    ((row.mapWords f).ingredientFindings ingredients').map Finding.problem =
      (row.ingredientFindings ingredients).map Finding.problem := by
  have hfilter : ((row.arguments.map f).filter fun word => !ingredients'.isDefined word.text) =
      (row.arguments.filter fun word => !ingredients.isDefined word.text).map f := by
    rw [List.filter_map]
    refine congrArg (List.map f) (List.filter_congr fun word hword => ?_)
    exact congrArg not (h word hword)
  simp only [ingredientFindings, mapWords, hfilter, List.isEmpty_map, List.map_append,
    List.map_map, Function.comp_def]
  split <;> rfl

theorem problems_toolFindings (h : ∀ word ∈ row.arguments, (f word).text = word.text) :
    ((row.mapWords f).toolFindings vocabulary).map Finding.problem =
      (row.toolFindings vocabulary).map Finding.problem := by
  unfold toolFindings mapWords
  cases harguments : row.arguments with
  | nil => rfl
  | cons tool extra =>
      rw [harguments] at h
      have htool := h tool List.mem_cons_self
      cases extra with
      | nil => simp only [List.map_cons, List.map_nil, htool]; split <;> rfl
      | cons next rest =>
          simp only [List.map_cons, htool, Span.mergeAll]
          split <;> rfl

/-- What is wrong with a sentence depends on its head, on what the index says of its declaration or
of its ingredients, and on the names of its tools. -/
theorem problems_mapWords {declares : Bool}
    (hdeclares : declares = true →
      ingredients'.redeclares (f row.head) = ingredients.redeclares row.head)
    (hhead : declares = false → (f row.head).text = row.head.text)
    (hneeds : declares = false → vocabulary.needsIngredients row.head.text = true →
      ∀ word ∈ row.arguments,
        ingredients'.isDefined (f word).text = ingredients.isDefined word.text)
    (hothers : declares = false → vocabulary.needsIngredients row.head.text = false →
      ∀ word ∈ row.arguments, (f word).text = word.text) :
    ((row.mapWords f).findings vocabulary ingredients' declares).map Finding.problem =
      (row.findings vocabulary ingredients declares).map Finding.problem := by
  cases declares with
  | true =>
      simp only [findings, if_true, declarationFindings_eq, List.filter_singleton]
      rw [show (row.mapWords f).head = f row.head from rfl, hdeclares rfl]
      cases ingredients.redeclares row.head <;> rfl
  | false =>
      simp only [findings, Bool.false_eq_true, if_false]
      rw [show (row.mapWords f).head.text = row.head.text from hhead rfl]
      cases hhead' : vocabulary.needsIngredients row.head.text with
      | true =>
          rw [if_pos rfl, if_pos rfl]
          exact problems_ingredientFindings (hneeds rfl hhead')
      | false =>
          rw [if_neg Bool.false_ne_true, if_neg Bool.false_ne_true]
          split
          · rfl
          split
          · exact problems_toolFindings (hothers rfl hhead')
          · rfl

end Sentence

/-! ### The index -/

/-- A word whose name has an entry declares it again unless it is the first declaration. -/
theorem Ingredients.redeclares_ofOccurrences {os : List Occurrence} {word : Word}
    (h : word ∈ os.map Occurrence.word) :
    (ofOccurrences os).redeclares word =
      !(Occurrence.named .declared word.text os).head?.any fun first =>
        first.span == word.span := by
  obtain ⟨o, ho, rfl⟩ := List.mem_map.mp h
  rw [redeclares, get?_ofOccurrences, if_pos ⟨o, ho, rfl⟩]
  rfl

namespace Tracks

variable {vocabulary : Vocabulary} {name newName text : String} {track : Word → Word}
  (h : Tracks (isNamed vocabulary text name) newName text track) (hname : IsName newName)
  (hfresh : (Analysis.ofText vocabulary text).ingredients.get? newName = none)
include h hname hfresh

/-- A fresh name merges no names. -/
theorem text_eq_iff {a b : Word} (ha : a ∈ (Recipe.ofText text).naming vocabulary)
    (hb : b ∈ (Recipe.ofText text).naming vocabulary) :
    (track a).text = (track b).text ↔ a.text = b.text := by
  have hnewa := text_ne_of_fresh hfresh ha
  have hnewb := text_ne_of_fresh hfresh hb
  rw [h.text_naming hname ha, h.text_naming hname hb, replaceName, replaceName]
  by_cases hna : a.text = name
  · by_cases hnb : b.text = name
    · simp [hna, hnb]
    · simp [hna, hnb, Ne.symm hnewb, Ne.symm hnb]
  · by_cases hnb : b.text = name
    · simp [hna, hnb, hnewa]
    · simp [hna, hnb]

/-- **The words of a name are the successors of the words of the old name**, in each role. -/
theorem named_eq (role : Role) {word : Word} (hword : word ∈ (Recipe.ofText text).naming vocabulary) :
    Occurrence.named role (track word).text
        ((Recipe.ofText (renamed vocabulary name newName text)).occurrences vocabulary) =
      (Occurrence.named role word.text ((Recipe.ofText text).occurrences vocabulary)).map track := by
  rw [h.occurrences_eq hname, Occurrence.named, Occurrence.named, List.filter_map, List.map_map,
    List.map_map]
  refine congrArg (List.map _) (List.filter_congr fun o ho => ?_)
  have hsame := h.text_eq_iff hname hfresh (List.mem_map_of_mem ho) hword
  simp only [Function.comp_apply, Occurrence.mapWord, hsame]

theorem isDefined_eq {word : Word} (hword : word ∈ (Recipe.ofText text).naming vocabulary) :
    (Analysis.ofText vocabulary (renamed vocabulary name newName text)).ingredients.isDefined
        (track word).text =
      (Analysis.ofText vocabulary text).ingredients.isDefined word.text := by
  simp only [Analysis.ofText, Ingredients.ofRecipe, Ingredients.isDefined,
    Ingredients.definition_ofOccurrences, h.named_eq hname hfresh .declared hword,
    List.head?_map, Option.isSome_map]

theorem redeclares_eq {word : Word} (hword : word ∈ (Recipe.ofText text).naming vocabulary) :
    (Analysis.ofText vocabulary (renamed vocabulary name newName text)).ingredients.redeclares
        (track word) =
      (Analysis.ofText vocabulary text).ingredients.redeclares word := by
  have htext := Recipe.mem_textWords_of_mem_naming hword
  have hsuccessor := (h.mem_naming_iff hname htext).mpr hword
  simp only [Analysis.ofText, Ingredients.ofRecipe]
  rw [Ingredients.redeclares_ofOccurrences hword, Ingredients.redeclares_ofOccurrences hsuccessor,
    h.named_eq hname hfresh .declared hword, List.head?_map, Option.any_map]
  cases hfirst : (Occurrence.named .declared word.text
      ((Recipe.ofText text).occurrences vocabulary)).head? with
  | none => rfl
  | some first =>
      -- the first declaration is known by its place, and successors differ in theirs
      obtain ⟨o, ho, rfl⟩ := List.mem_map.mp (List.mem_of_head? hfirst)
      have hdeclared : o.word ∈ (Recipe.ofText text).naming vocabulary :=
        List.mem_map_of_mem (List.mem_filter.mp ho).1
      have hspan := h.span_eq_iff (Recipe.mem_textWords_of_mem_naming hdeclared) htext
      simp only [Option.any_some, Bool.beq_eq_decide_eq, hspan]

/-- The problems of a sentence are those of its successor. -/
theorem problems_eq {declares : Bool} {row : Sentence}
    (hrow : (declares, row) ∈ (Recipe.ofText text).placed vocabulary) :
    ((row.mapWords track).findings vocabulary
        (Analysis.ofText vocabulary (renamed vocabulary name newName text)).ingredients
        declares).map Finding.problem =
      (row.findings vocabulary (Analysis.ofText vocabulary text).ingredients declares).map
        Finding.problem := by
  have hnaming : ∀ o ∈ row.occurrences vocabulary declares,
      o.word ∈ (Recipe.ofText text).naming vocabulary := by
    intro o ho
    rw [Recipe.naming, Recipe.occurrences_eq]
    exact List.mem_map_of_mem (List.mem_flatMap.mpr ⟨_, hrow, ho⟩)
  refine Sentence.problems_mapWords ?_ ?_ ?_ ?_
  · intro hdeclares
    exact h.redeclares_eq hname hfresh
      (hnaming ⟨.declared, row.head⟩ (by simp [Sentence.occurrences, hdeclares]))
  · intro hother
    subst hother
    exact h.text_head hname hrow
  · intro hother hneeds word hword
    exact h.isDefined_eq hname hfresh
      (hnaming ⟨.used, word⟩ (by simpa [Sentence.occurrences, hother, hneeds] using hword))
  · intro hother hneeds word hword
    have hmem : word ∈ row.words := List.mem_cons_of_mem _ hword
    refine h.text_of_not_naming hname (Recipe.mem_textWords_of_placed hrow hmem) ?_
    intro hnamed
    have hown := Recipe.mem_own_occurrences
      (nodup_of_sublist_textWords (Recipe.words_sublist text)) hrow hmem hnamed
    simp [Sentence.occurrences, hother, hneeds] at hown

/-- **The findings about the renamed recipe** say what the findings about the recipe said. -/
theorem forall₂_findings :
    List.Forall₂ Finding.SameVerdict (Analysis.ofText vocabulary text).findings
      (Analysis.ofText vocabulary (renamed vocabulary name newName text)).findings := by
  refine List.rel_append
    (h.forall₂_misplaced hname (isNamed_of_not_isWords vocabulary text name)) ?_
  rw [Recipe.findings_eq, Recipe.findings_eq, h.placed_renamed hname, List.flatMap_map]
  refine forall₂_flatMap fun entry hentry => ?_
  have hrow : entry.2 ∈ (Recipe.ofText text).sentences := by
    rw [← Recipe.map_snd_placed vocabulary]
    exact List.mem_map_of_mem hentry
  obtain ⟨n, hline⟩ := h.exists_line hrow
  refine Finding.forall₂_sameVerdict (n := n) (h.problems_eq hname hfresh hentry) ?_ ?_
  · exact Sentence.onLine_findings fun word hword => (hline word hword).1
  · refine Sentence.onLine_findings ?_
    rw [Sentence.words_mapWords, List.forall_mem_map]
    exact fun word hword => (hline word hword).2

end Tracks

/-- **Renaming to a fresh name keeps the verdict.** Wherever the caret stands, the name under it is
replaced where it names an ingredient, and the diagnostics of the renamed recipe are as many as
before, and say the same in the same order, on the same lines. -/
theorem fresh_name_keeps_verdict (vocabulary : Vocabulary) (text newName : String)
    (caret : Position) (hvalid : isValidName newName = true)
    (hfresh : (Analysis.ofText vocabulary text).ingredients.get? newName = none) :
    ∃ text', renameAt vocabulary text caret newName = .ok text' ∧
      (∀ name, (Analysis.ofText vocabulary text).nameAt? caret = some name →
        text' = renamed vocabulary name newName text) ∧
      List.Forall₂ Diagnostic.SameVerdict (Analysis.ofText vocabulary text).diagnostics
        (Analysis.ofText vocabulary text').diagnostics := by
  cases hcaret : (Analysis.ofText vocabulary text).nameAt? caret with
  | none =>
      refine ⟨text, renameAt_of_none hcaret hvalid, by simp, List.forall₂_same.mpr fun d _ => ?_⟩
      exact ⟨rfl, rfl, rfl, rfl, rfl⟩
  | some name =>
      have hname := isName_of_isValidName hvalid
      obtain ⟨track, h⟩ := exists_tracks (isNamed vocabulary text name) text hname
      refine ⟨_, renameAt_eq hcaret hvalid, by simp, ?_⟩
      rw [Analysis.diagnostics, Analysis.diagnostics, List.forall₂_map_left_iff,
        List.forall₂_map_right_iff]
      exact (h.forall₂_findings hname hfresh).imp fun _ _ hsame => hsame.diagnostic

/-- A recipe with six findings, in which an ingredient is given the name of a verb. Of the five words
`a`, the one out of place and the one after the adverb name no ingredient, and stay. -/
theorem fresh_name_keeps_verdict_verb :
    let vocabulary : Vocabulary := ⟨["mix"], ["mix"], ["in"], ["pot"], "i"⟩
    let analyse := Analysis.ofText vocabulary
    let text := "a\n#T\n##i\na\na\n##s\nmix a b\nin a pot\nz"
    let text' := "a\n#T\n##i\nmix\nmix\n##s\nmix mix b\nin a pot\nz"
    isValidName "mix" = true ∧ (analyse text).ingredients.get? "mix" = none ∧
      renameAt vocabulary text ⟨9, 3, 0⟩ "mix" = .ok text' ∧
      (analyse text).diagnostics.length = 6 ∧
      List.Forall₂ Diagnostic.SameVerdict (analyse text).diagnostics
        (analyse text').diagnostics := by
  intro vocabulary analyse text text'
  have hvalid : isValidName "mix" = true := by decide
  have hfresh : (analyse text).ingredients.get? "mix" = none := by decide +kernel
  have hcaret : (analyse text).nameAt? ⟨9, 3, 0⟩ = some "a" := by decide +kernel
  have hrenamed : renameAt vocabulary text ⟨9, 3, 0⟩ "mix" = .ok text' :=
    (renameAt_eq hcaret hvalid).trans (congrArg Except.ok (by decide +kernel))
  obtain ⟨new, hnew, -, hsame⟩ :=
    fresh_name_keeps_verdict vocabulary text "mix" ⟨9, 3, 0⟩ hvalid hfresh
  obtain rfl : new = text' := Except.ok.inj (hnew.symm.trans hrenamed)
  exact ⟨hvalid, hfresh, hrenamed, by decide +kernel, hsame⟩

end RecipeDesk
