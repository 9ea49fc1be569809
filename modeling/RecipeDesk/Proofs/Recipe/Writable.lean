import RecipeDesk.Proofs.Recipe.Completion

/-!
# Writing the words of a vocabulary

A vocabulary is checked with one notion of white space, and a line of a recipe is read with another,
narrower one. Hence every accepted word is read back in one piece, and a title that is written
behind two `#` is read back with nothing lost but blanks at its ends.

The check does not look further than that, and two things slip through it:

* a word that begins with `#` opens a heading when it stands at the head of a line;
* a section title that is given with white space at its ends is never recognised, since titles are
  trimmed before they are compared and the given one is not.

Nothing else is in the way (`accepted_words_readable`).
-/

namespace RecipeDesk

/-! ### Trimming -/

/-- Blanks are white space. -/
theorem trimSpace_trimBoth (cs : List Char) :
    trimSpace (String.ofList (trimBoth isWordBlank cs)) = trimSpace (String.ofList cs) := by
  simp only [trimSpace, String.toList_ofList, trimBoth_trimBoth fun _ => isSpace_of_isWordBlank]

/-! ### Words -/

theorem isWordText_of_isSingleWord {word : String} (h : isSingleWord word = true) :
    IsWordText word.toList := by
  simp only [isSingleWord, Bool.and_eq_true, Bool.not_eq_true', List.any_eq_false] at h
  obtain ⟨hne, hspace⟩ := h
  refine ⟨by simpa using hne, ?_⟩
  intro c hc
  by_contra hblank
  exact hspace c hc (isSpace_of_isWordBlank (by simpa using hblank))

/-- A word alone on its line is read in one piece. -/
theorem IsWordText.scan_eq {w : List Char} (hw : IsWordText w) : Run.scan 0 w = [⟨0, w⟩] := by
  have hscan := Run.scan_word 0 hw stopsWord_nil
  rwa [List.append_nil, Run.scan_nil] at hscan

theorem Line.ofChars_word {w : List Char} (hw : IsWordText w) :
    Line.ofChars w =
      if w.head? = some '#' then Line.headingOf w ⟨0, w⟩ [] else .words ⟨0, w⟩ [] := by
  rw [Line.ofChars, hw.scan_eq]

/-! ### Section titles -/

/-- What stands behind two `#` and a space is the title of a section. -/
theorem Line.ofChars_section (title : List Char) :
    ∃ stop, Line.ofChars ('#' :: '#' :: ' ' :: title) =
      .heading 2 0 stop (String.ofList (trimBoth isWordBlank title)) := by
  have hmark : IsWordText ['#', '#'] := by simp [IsWordText, isWordBlank]
  have hspace : isWordBlank ' ' = true := rfl
  have hstops : StopsWord (' ' :: title) := stopsWord_cons hspace
  have htitle : trimBoth isWordBlank ([' '] ++ (title ++ [])) = trimBoth isWordBlank title :=
    trimBoth_append (List.forall_mem_singleton.mpr hspace) (List.forall_mem_nil _) title
  rw [List.append_nil] at htitle
  have hscan := Run.scan_word 0 hmark hstops
  rw [← htitle, Line.ofChars]
  simp only [List.cons_append, List.nil_append] at hscan
  rw [hscan]
  exact ⟨_, rfl⟩

theorem Vocabulary.isIngredientsSection_trimmed (vocabulary : Vocabulary) :
    vocabulary.isIngredientsSection
        (String.ofList (trimBoth isWordBlank vocabulary.ingredientsSection.toList)) = true ↔
      trimSpace vocabulary.ingredientsSection = vocabulary.ingredientsSection := by
  rw [isIngredientsSection, beq_iff_eq, trimSpace_trimBoth, String.ofList_toList]

/-- What becomes of the words of an accepted vocabulary when they are written down. A verb or an
adverb that does not begin with `#` is read back as the one word of its line, and one that does is
read as a heading. The title of the ingredients section, written behind two `#`, is read back as a
section, and this section is the one of the ingredients exactly if the title has no white space at
its ends. -/
theorem accepted_words_readable (vocabulary : Vocabulary) (hvalid : vocabulary.fault? = none) :
    (∀ word ∈ vocabulary.verbs ++ vocabulary.adverbs,
      (Line.ofChars word.toList = .words ⟨0, word.toList⟩ [] ↔ word.toList.head? ≠ some '#') ∧
      ((∃ depth stop title, Line.ofChars word.toList = .heading depth 0 stop title) ↔
        word.toList.head? = some '#')) ∧
    ∃ stop title,
      Line.ofChars ("## " ++ vocabulary.ingredientsSection).toList = .heading 2 0 stop title ∧
      (vocabulary.isIngredientsSection title = true ↔
        trimSpace vocabulary.ingredientsSection = vocabulary.ingredientsSection) := by
  constructor
  · intro word hword
    have hmem : word ∈ vocabulary.words := by
      rcases List.mem_append.mp hword with hverb | hadverb <;> simp [Vocabulary.words, *]
    have hsingle := Vocabulary.isSingleWord_of_mem hvalid hmem
    rw [Line.ofChars_word (isWordText_of_isSingleWord hsingle)]
    split
    · next hmark => simp [Line.headingOf, hmark]
    · next hmark => simp [hmark]
  · obtain ⟨stop, hline⟩ := Line.ofChars_section vocabulary.ingredientsSection.toList
    refine ⟨stop, _, ?_, vocabulary.isIngredientsSection_trimmed⟩
    rw [String.toList_append]
    exact hline

/-- A `#` inside a word or a title does no harm, and neither do blanks inside a title. -/
theorem accepted_words_readable_marks :
    (⟨["étaler", "#mix"], ["étaler"], ["d#"], [], "#2  œufs"⟩ : Vocabulary).fault? = none ∧
    Line.ofChars "d#".toList = .words ⟨0, "d#".toList⟩ [] ∧
    (∃ depth stop title, Line.ofChars "#mix".toList = .heading depth 0 stop title) ∧
    ∃ stop title, Line.ofChars ("## " ++ "#2  œufs").toList = .heading 2 0 stop title ∧
      (⟨["étaler", "#mix"], ["étaler"], ["d#"], [], "#2  œufs"⟩ : Vocabulary).isIngredientsSection
        title = true := by
  have hvalid :
      (⟨["étaler", "#mix"], ["étaler"], ["d#"], [], "#2  œufs"⟩ : Vocabulary).fault? = none := by
    decide
  obtain ⟨hwords, stop, title, hline, htitle⟩ := accepted_words_readable _ hvalid
  exact ⟨hvalid, (hwords "d#" (by simp)).1.mpr (by decide),
    (hwords "#mix" (by simp)).2.mpr (by decide), stop, title, hline, htitle.mpr (by decide)⟩

/-- Accepted, and yet not to be written: a verb whose line is a heading, and a title of the
ingredients section under which no ingredients are declared. -/
theorem accepted_words_lost :
    (⟨["#x"], [], [], [], " stock "⟩ : Vocabulary).fault? = none ∧
    Line.ofChars "#x".toList = .heading 1 0 2 "x" ∧
    (∃ stop, Line.ofChars ("## " ++ " stock ").toList = .heading 2 0 stop "stock") ∧
    (⟨["#x"], [], [], [], " stock "⟩ : Vocabulary).isIngredientsSection "stock" = false := by
  refine ⟨by decide, ?_, ?_, by decide⟩
  · rw [Line.ofChars_word (isWordText_of_isSingleWord (by decide))]
    decide
  · have htrim : String.ofList (trimBoth isWordBlank " stock ".toList) = "stock" := by decide
    rw [← htrim, String.toList_append]
    exact Line.ofChars_section _

end RecipeDesk
