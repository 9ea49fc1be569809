import Mathlib.Data.List.Basic
import RecipeDesk.Proofs.Recipe.LineByLine
import RecipeDesk.Proofs.Recipe.Spans

/-!
# The tree is a picture of its text

What the tree of a recipe says of its text is true, and in the order of the text: every word is what
is written under its span, and could not be longer (`Word.Faithful`); the words of a sentence stand
on one line, from left to right (`Sentence.Faithful`); and everything in the tree has a line of its
own, the lines increasing in document order (`tree_pictures_text`).

Columns are counted along a line and offsets along the text, so a word is found in the text in two
steps: a run is cut out of its line between blanks or ends of the line (`Run.cut`), and a line out
of the text between line breaks or ends of the text (`mem_placedLines`).
-/

namespace RecipeDesk

/-- The characters that stand in no word. -/
def IsSeparator (c : Char) : Prop := c ∈ [' ', '\t', '\r', '\n']

/-- A word is what is written under its span, with separators or ends of the text around it. -/
structure Word.Faithful (text : String) (word : Word) : Prop where
  isIn : word.span.IsIn text
  slice : word.span.slice text = word.text
  nonempty : word.text ≠ ""
  solid : ∀ c ∈ word.text.toList, ¬ IsSeparator c
  left : ∀ c ∈ (text.toList.take word.span.start.offset).getLast?, IsSeparator c
  right : ∀ c ∈ (text.toList.drop word.span.stop.offset).head?, IsSeparator c

/-- The words of a sentence are on one line, in order and apart, and bound its span. -/
structure Sentence.Faithful (text : String) (row : Sentence) : Prop where
  words : ∀ word ∈ row.words, word.Faithful text
  one_line : ∃ n, ∀ word ∈ row.words, word.span.OnLine n
  ordered : row.words.Pairwise Word.Before
  start : row.words.head?.map (fun word => word.span.start) = some row.span.start
  stop : row.words.getLast?.map (fun word => word.span.stop) = some row.span.stop

/-! ### Words -/

theorem isSeparator_of_isWordBlank {c : Char} (h : isWordBlank c = true) : IsSeparator c := by
  simp only [isWordBlank, Bool.or_eq_true, decide_eq_true_eq] at h
  rcases h with (rfl | rfl) | rfl <;> simp [IsSeparator]

theorem not_isSeparator {c : Char} (hblank : isWordBlank c = false) (hbreak : c ≠ '\n') :
    ¬ IsSeparator c := by
  simpa [IsSeparator, isWordBlank, hbreak, and_assoc] using hblank

/-- A word is cut out of its text between separators or ends of the text. -/
theorem PlacedLine.cut {text : String} {line : PlacedLine} {run : Run}
    (h : line ∈ placedLines text) (hrun : run ∈ Run.scan 0 line.chars) :
    ∃ before rest, text.toList = before ++ (run.chars ++ rest) ∧
      (line.word run).span = ⟨.after before, .after (before ++ run.chars)⟩ ∧
      (∀ c ∈ before.getLast?, IsSeparator c) ∧ ∀ c ∈ rest.head?, IsSeparator c := by
  obtain ⟨above, below, htext, hstart, habove, hbelow⟩ := mem_placedLines h
  obtain ⟨before, rest, hchars, hcolumn, hbefore, hrest⟩ := Run.cut hrun
  have hplace {cs : List Char} (hsub : cs ⊆ line.chars) :
      line.start.right cs.length = .after (above ++ cs) := by
    have hnewline : '\n' ∉ cs := fun hmem => newline_not_mem_placedLines h (hsub hmem)
    rw [Position.after, Position.advanceAll_append, Position.advanceAll_of_not_mem _ hnewline,
      hstart, Position.after]
  refine ⟨above ++ before, rest ++ below, ?_, ?_, ?_, ?_⟩
  · rw [htext, hchars]
    simp only [List.append_assoc]
  · rw [Nat.zero_add] at hcolumn
    rw [word, span, Run.stop, hcolumn, ← List.length_append, List.append_assoc above,
      hplace (by simp [hchars]), hplace (by simp [hchars])]
  · rw [List.getLast?_append]
    intro c hc
    cases hlast : before.getLast? with
    | none =>
        obtain rfl := habove c (by simpa [hlast] using hc)
        simp [IsSeparator]
    | some d =>
        obtain rfl : d = c := by simpa [hlast] using hc
        exact isSeparator_of_isWordBlank (hbefore d hlast)
  · intro c hc
    cases rest with
    | nil =>
        obtain rfl := hbelow c hc
        simp [IsSeparator]
    | cons d rest => exact isSeparator_of_isWordBlank (hrest c hc)

/-- A word of a line is faithful. -/
theorem PlacedLine.faithful_word {text : String} {line : PlacedLine} {word : Word}
    (h : line ∈ placedLines text) (hword : word ∈ line.words) : word.Faithful text := by
  obtain ⟨run, hrun, rfl⟩ := List.mem_map.mp hword
  obtain ⟨before, rest, htext, hspan, hbefore, hrest⟩ := cut h hrun
  obtain ⟨-, -, hne, hblank⟩ := Run.mem_scan hrun
  have htoList : (line.word run).text.toList = run.chars := String.toList_ofList
  refine ⟨isIn_word h hrun, ?_, ?_, ?_, ?_, ?_⟩
  · rw [hspan, ← String.toList_inj, toList_slice htext, htoList]
  · rw [← String.toList_inj.ne, htoList]
    exact hne
  · rw [htoList]
    intro c hc
    refine not_isSeparator (hblank c hc) ?_
    rintro rfl
    exact newline_not_mem_placedLines h (Run.chars_subset_of_mem_scan hrun hc)
  · rw [hspan, htext, Position.offset_after, List.take_left]
    exact hbefore
  · rw [hspan, htext, Position.offset_after, ← List.append_assoc, List.drop_left]
    exact hrest

theorem Recipe.faithful_sentences (text : String) :
    ∀ row ∈ (ofText text).sentences, row.Faithful text := by
  intro row hrow
  obtain ⟨line, hline, -, hwords⟩ := mem_sentences hrow
  refine ⟨?_, ⟨line.start.line, ?_⟩, ?_, rfl, ?_⟩
  · rw [hwords]
    exact fun word hword => PlacedLine.faithful_word hline hword
  · rw [hwords]
    exact fun word hword => PlacedLine.onLine_word hword
  · rw [hwords]
    exact line.words_pairwise
  · rw [Sentence.words, List.getLast?_cons]
    rfl

/-! ### Everything in the tree -/

namespace Recipe

theorem sentence_mem_contents {recipe : Recipe} {heading : Heading} {row : Sentence}
    (h : .sentence heading row ∈ recipe.contents) :
    ∃ part ∈ recipe.sections, part.heading = heading ∧ row ∈ part.sentences := by
  rcases List.mem_append.mp h with htitle | hsections
  · obtain ⟨_, -, hne⟩ := Option.map_eq_some_iff.mp (Option.mem_toList.mp htitle)
    cases hne
  · obtain ⟨part, hpart, hmem⟩ := List.mem_flatMap.mp hsections
    obtain ⟨_, hrow, heq⟩ := List.mem_map.mp ((List.mem_cons.mp hmem).resolve_left (by simp))
    cases heq
    exact ⟨part, hpart, rfl, hrow⟩

theorem span_mem_spans {recipe : Recipe} {item : LineResult} (h : item ∈ recipe.contents) :
    item.span ∈ recipe.spans := by
  rcases List.mem_append.mp h with htitle | hsections
  · obtain ⟨heading, hheading, rfl⟩ := Option.map_eq_some_iff.mp (Option.mem_toList.mp htitle)
    exact List.mem_append_left _ (by simp [hheading, LineResult.span])
  · obtain ⟨part, hpart, hmem⟩ := List.mem_flatMap.mp hsections
    refine List.mem_append_right _ (List.mem_flatMap.mpr ⟨part, hpart, ?_⟩)
    rcases List.mem_cons.mp hmem with rfl | hsentence
    · exact List.mem_cons_self
    · obtain ⟨row, hrow, rfl⟩ := List.mem_map.mp hsentence
      exact List.mem_cons_of_mem _ (List.mem_flatMap.mpr ⟨row, hrow, List.mem_cons_self⟩)

theorem onLine_contents {text : String} {item : LineResult} (h : item ∈ (ofText text).contents) :
    item.span.OnLine item.line := by
  rw [contents_ofText] at h
  obtain ⟨line, -, hstart, hstop⟩ := mem_lineResults (List.mem_of_mem_filter h)
  exact ⟨rfl, hstop.trans hstart.symm⟩

theorem contents_pairwise (text : String) :
    (ofText text).contents.Pairwise fun a b => a.line < b.line := by
  rw [contents_ofText]
  exact (lineResults_pairwise [] (placedLines_pairwise text)).filter _

/-- A row of words behind a section header is a sentence of that section. -/
theorem exists_sentence {text : String} {earlier later : List PlacedLine} {line : PlacedLine}
    {heading : Heading} (h : placedLines text = earlier.reverse ++ line :: later)
    (hopen : OpenSection earlier heading) (hwords : line.IsWords) :
    ∃ part ∈ (ofText text).sections, part.heading = heading ∧
      ∃ row ∈ part.sentences, row.words = line.words := by
  obtain ⟨first, others, hkind⟩ := hwords
  have hresult : lineResult? earlier line =
      some (.sentence heading (line.row first others)) := by
    rw [lineResult?, Entry.behindLines, Entry.ofLine, hkind, openSection_iff.mp hopen]
    rfl
  have hmem : .sentence heading (line.row first others) ∈ (ofText text).contents := by
    have hmem := Option.mem_toList.mpr hresult
    rw [← filter_lineResults h] at hmem
    rw [contents_ofText]
    exact List.mem_filter.mpr ⟨List.mem_of_mem_filter hmem, rfl⟩
  obtain ⟨part, hpart, hheading, hrow⟩ := sentence_mem_contents hmem
  refine ⟨part, hpart, hheading, _, hrow, ?_⟩
  rw [PlacedLine.words, Line.scan_of_words hkind]
  rfl

end Recipe

/-- **The tree is a faithful picture of the text, in its order.** Every word is what is written
under its span; the words of a sentence are in order on one line; the title, the section headers and
the sentences all lie on lines of their own, which increase in document order, a section's sentences
behind its header and before the next one. And no sentence is left out of the picture: a row of
words behind a section header is a sentence of that section, with all its words. -/
theorem tree_pictures_text (text : String) :
    let recipe := Recipe.ofText text
    (∀ row ∈ recipe.sentences, row.Faithful text) ∧
      (∀ item ∈ recipe.contents, item.span.IsIn text ∧ item.span.OnLine item.line) ∧
      (recipe.contents.Pairwise fun a b => a.line < b.line) ∧
      ∀ earlier line later heading, placedLines text = earlier.reverse ++ line :: later →
        OpenSection earlier heading → line.IsWords →
          ∃ part ∈ recipe.sections, part.heading = heading ∧
            ∃ row ∈ part.sentences, row.words = line.words := by
  refine ⟨Recipe.faithful_sentences text, fun item hitem => ⟨?_, ?_⟩, Recipe.contents_pairwise text,
    fun earlier line later heading h hopen hwords => Recipe.exists_sentence h hopen hwords⟩
  · exact Recipe.isIn_spans _ (Recipe.span_mem_spans hitem)
  · exact Recipe.onLine_contents hitem

/-- Two words under a section. -/
theorem tree_pictures_text_soup :
    let text := "# Soup\n## Stock\nboil  water"
    let heading : Heading := ⟨"Stock", ⟨⟨7, 1, 0⟩, ⟨15, 1, 8⟩⟩⟩
    ∃ part ∈ (Recipe.ofText text).sections, part.heading = heading ∧
      ∃ row ∈ part.sentences, row.words.length = 2 ∧ row.Faithful text := by
  intro text heading
  let earlier : List PlacedLine :=
    [⟨⟨7, 1, 0⟩, "## Stock".toList⟩, ⟨⟨0, 0, 0⟩, "# Soup".toList⟩]
  let line : PlacedLine := ⟨⟨16, 2, 0⟩, "boil  water".toList⟩
  have hlines : placedLines text = earlier.reverse ++ line :: [] := by decide +kernel
  have hopen : OpenSection earlier heading := openSection_iff.mpr (by decide +kernel)
  have hkind : Line.ofChars line.chars = .words ⟨0, "boil".toList⟩ [⟨6, "water".toList⟩] := by
    decide +kernel
  obtain ⟨hfaithful, -, -, hall⟩ := tree_pictures_text text
  obtain ⟨part, hpart, hheading, row, hrow, hwords⟩ :=
    hall earlier line [] heading hlines hopen ⟨_, _, hkind⟩
  have hlength : row.words.length = 2 := by
    rw [hwords, PlacedLine.words, Line.scan_of_words hkind]
    rfl
  exact ⟨part, hpart, hheading, row, hrow, hlength,
    hfaithful row (List.mem_flatMap.mpr ⟨part, hpart, hrow⟩)⟩

end RecipeDesk
