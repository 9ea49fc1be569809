import RecipeDesk.Proofs.Recipe.Index
import RecipeDesk.Proofs.Text.LineTable
import RecipeDesk.Recipe.Rename

/-!
# Where a recipe is written

Everything that is known about a recipe is known with its place, and all of these places are places
of the text (`Analysis.isIn_spans`).

A line begins where the text before it ends (`mem_placedLines`), so any two columns of a line bound
a span of the text. Words and headings are such spans, sentences reach from their first word to
their last, and findings are about one of these or about several words at once.
-/

namespace RecipeDesk

/-! ### Lines and their columns -/

theorem mem_placeLines_joinLines {start : Position} {lines : List (List Char)} {line : PlacedLine}
    (h : line ∈ placeLines start lines) :
    ∃ before rest, joinLines lines = before ++ (line.chars ++ rest) ∧
      line.start = start.advanceAll before ∧ (∀ c ∈ before.getLast?, c = '\n') ∧
      ∀ c ∈ rest.head?, c = '\n' := by
  induction lines generalizing start with
  | nil => cases h
  | cons chars lines ih =>
      rcases List.mem_cons.mp h with rfl | hlater
      · cases lines with
        | nil => exact ⟨[], [], by simp [joinLines], rfl, by simp, by simp⟩
        | cons next lines =>
            exact ⟨[], '\n' :: joinLines (next :: lines), rfl, rfl, by simp, by simp⟩
      · obtain ⟨before, rest, hjoin, hstart, hbefore, hrest⟩ := ih hlater
        cases lines with
        | nil => cases hlater
        | cons next lines =>
            refine ⟨chars ++ '\n' :: before, rest, ?_, ?_, ?_, hrest⟩
            · rw [joinLines, hjoin]
              simp
            · rw [hstart, Position.advanceAll_append, Position.advanceAll_cons]
            · rw [List.getLast?_append_cons, List.getLast?_cons]
              cases hlast : before.getLast? with
              | none => simp
              | some c => simpa using hbefore c hlast

/-- A line begins where the text before it ends, between line breaks or ends of the text. -/
theorem mem_placedLines {text : String} {line : PlacedLine} (h : line ∈ placedLines text) :
    ∃ before rest, text.toList = before ++ (line.chars ++ rest) ∧ line.start = .after before ∧
      (∀ c ∈ before.getLast?, c = '\n') ∧ ∀ c ∈ rest.head?, c = '\n' := by
  obtain ⟨before, rest, hjoin, hstart, hends⟩ := mem_placeLines_joinLines h
  exact ⟨before, rest, by rw [← hjoin, joinLines_textLines], hstart, hends⟩

namespace PlacedLine

variable {text : String} {line : PlacedLine} (h : line ∈ placedLines text)
include h

theorem isIn_right {n : Nat} (hn : n ≤ line.chars.length) : (line.start.right n).IsIn text := by
  obtain ⟨before, rest, htext, hstart, -⟩ := mem_placedLines h
  have hnewline : '\n' ∉ line.chars.take n :=
    fun hmem => newline_not_mem_placedLines h (List.mem_of_mem_take hmem)
  have hcut : text.toList = (before ++ line.chars.take n) ++ (line.chars.drop n ++ rest) := by
    rw [List.append_assoc, ← List.append_assoc (line.chars.take n), List.take_append_drop, htext]
  have hplace : line.start.right n = .after (before ++ line.chars.take n) := by
    rw [Position.after, Position.advanceAll_append, Position.advanceAll_of_not_mem _ hnewline,
      List.length_take_of_le hn, hstart]
    rfl
  rw [hplace]
  exact Position.isIn_after hcut

theorem isIn_span {a b : Nat} (hab : a ≤ b) (hb : b ≤ line.chars.length) :
    (line.span a b).IsIn text where
  start := isIn_right h (Nat.le_trans hab hb)
  stop := isIn_right h hb
  ordered := Nat.add_le_add_left hab _

theorem isIn_word {run : Run} (hrun : run ∈ Run.scan 0 line.chars) :
    (line.word run).span.IsIn text := by
  obtain ⟨-, hstop, -⟩ := Run.mem_scan hrun
  exact isIn_span h (Nat.le_add_right _ _) (by omega)

end PlacedLine

/-- A heading covers columns of its line. -/
theorem Line.heading_columns {cs : List Char} {depth start stop : Nat} {text : String}
    (h : Line.ofChars cs = .heading depth start stop text) : start ≤ stop ∧ stop ≤ cs.length := by
  unfold Line.ofChars at h
  split at h
  · cases h
  · next first others hscan =>
      split at h
      · obtain ⟨-, rfl, rfl, -⟩ : _ ∧ first.column = start ∧
            (others.getLast?.getD first).stop = stop ∧ _ := by simpa [headingOf] using h
        have hpairwise := Run.scan_pairwise 0 cs
        rw [hscan] at hpairwise
        cases hlast : others.getLast? with
        | none =>
            have hfirst := Run.mem_scan (hscan ▸ List.mem_cons_self : first ∈ Run.scan 0 cs)
            simp only [Option.getD_none, Run.stop] at hfirst ⊢
            omega
        | some last =>
            have hmem := List.mem_of_getLast? hlast
            have hbefore := (List.pairwise_cons.mp hpairwise).1 last hmem
            have hend := Run.mem_scan
              (hscan ▸ List.mem_cons_of_mem _ hmem : last ∈ Run.scan 0 cs)
            simp only [Option.getD_some, Run.stop] at hbefore hend ⊢
            omega
      · cases h

/-! ### Entries -/

/-- The spans of a sentence and of its words. -/
def Sentence.spans (row : Sentence) : List Span := row.span :: row.words.map Word.span

/-- The spans of what a line contributes. -/
def Entry.spans : Entry → List Span
  | nothing => []
  | title heading | opening heading => [heading.span]
  | sentence row => row.spans
  | misplaced finding => [finding.span]

/-- A sentence reaches from its first word to its last. -/
theorem Sentence.isIn_span {text : String} {row : Sentence}
    (hwords : ∀ word ∈ row.words, word.span.IsIn text)
    (hordered : row.words.Pairwise Word.Before) : row.span.IsIn text := by
  have hhead := hwords row.head List.mem_cons_self
  rw [Sentence.span]
  cases hlast : row.arguments.getLast? with
  | none => exact hhead
  | some last =>
      have hmem := List.mem_of_getLast? hlast
      have hbefore : row.head.span.stop.offset < last.span.start.offset :=
        (List.pairwise_cons.mp hordered).1 last hmem
      exact hhead.reach (hwords last (List.mem_cons_of_mem _ hmem))
        (Nat.le_trans hhead.ordered (Nat.le_of_lt hbefore))

theorem Entry.isIn_ofLine {text : String} {line : PlacedLine} (h : line ∈ placedLines text)
    (titled opened : Bool) : ∀ span ∈ (ofLine titled opened line).spans, span.IsIn text := by
  unfold ofLine
  cases hline : Line.ofChars line.chars with
  | blank => simp [spans]
  | heading depth start stop content =>
      obtain ⟨hle, hstop⟩ := Line.heading_columns hline
      have hspan := PlacedLine.isIn_span h hle hstop
      dsimp only
      split <;> split <;> simpa [spans] using hspan
  | words first others =>
      have hscan := Line.scan_of_words hline
      let row : Sentence := ⟨line.word first, others.map line.word⟩
      have hall : row.words = line.words := by
        rw [PlacedLine.words, hscan]
        rfl
      have hwords : ∀ word ∈ line.words, word.span.IsIn text := by
        intro word hword
        obtain ⟨run, hrun, rfl⟩ := List.mem_map.mp hword
        exact PlacedLine.isIn_word h hrun
      have hrow : row.span.IsIn text :=
        Sentence.isIn_span (hall ▸ hwords) (hall ▸ line.words_pairwise)
      dsimp only
      split
      · refine List.forall_mem_cons.mpr ⟨hrow, ?_⟩
        change ∀ span ∈ row.words.map Word.span, span.IsIn text
        rw [hall]
        simpa using hwords
      · simpa [spans] using hrow

/-! ### Trees -/

namespace Recipe

/-- The spans of a recipe: title, headings, sentences and words. -/
def spans (recipe : Recipe) : List Span :=
  (recipe.title.map Heading.span).toList ++ recipe.sections.flatMap fun part =>
    part.heading.span :: part.sentences.flatMap Sentence.spans

/-- Putting the tree together adds no span. -/
theorem mem_spans_gather {entries : List Entry} {span : Span}
    (h : span ∈ (Entry.gather entries).1.flatMap Sentence.spans ∨
      span ∈ (Entry.gather entries).2.flatMap fun part =>
        part.heading.span :: part.sentences.flatMap Sentence.spans) :
    ∃ entry ∈ entries, span ∈ entry.spans := by
  induction entries with
  | nil => simp [Entry.gather] at h
  | cons entry rest ih =>
      have hlater (h : ∃ entry ∈ rest, span ∈ entry.spans) :
          ∃ entry' ∈ entry :: rest, span ∈ entry'.spans := by
        obtain ⟨entry', hmem, hspan⟩ := h
        exact ⟨entry', List.mem_cons_of_mem _ hmem, hspan⟩
      cases entry with
      | nothing => exact hlater (ih h)
      | title heading => exact hlater (ih h)
      | misplaced finding => exact hlater (ih h)
      | opening heading =>
          simp only [Entry.gather, List.flatMap_nil, List.not_mem_nil, List.flatMap_cons,
            List.cons_append, List.mem_cons, List.mem_append, false_or] at h
          rcases h with rfl | h
          · exact ⟨_, List.mem_cons_self, List.mem_singleton.mpr rfl⟩
          · exact hlater (ih h)
      | sentence row =>
          simp only [Entry.gather, List.flatMap_cons, List.mem_append, or_assoc] at h
          rcases h with h | h
          · exact ⟨_, List.mem_cons_self, h⟩
          · exact hlater (ih h)

theorem mem_spans_ofText {text : String} {span : Span} (h : span ∈ (ofText text).spans) :
    ∃ entry ∈ Entry.ofText text, span ∈ entry.spans := by
  rcases List.mem_append.mp h with htitle | hsections
  · obtain ⟨heading, hheading, rfl⟩ := Option.map_eq_some_iff.mp (Option.mem_toList.mp htitle)
    obtain ⟨entry, hentry, htitle⟩ := List.exists_of_findSome?_eq_some hheading
    refine ⟨entry, hentry, ?_⟩
    cases entry <;> cases htitle
    exact List.mem_singleton.mpr rfl
  · exact mem_spans_gather (.inr hsections)

/-- What a line contributes lies in the text. -/
theorem isIn_entry {text : String} {entry : Entry} (h : entry ∈ Entry.ofText text) :
    ∀ span ∈ entry.spans, span.IsIn text := by
  obtain ⟨titled, opened, line, hline, rfl⟩ := Entry.mem_ofLines h
  exact Entry.isIn_ofLine hline titled opened

theorem isIn_spans {text : String} : ∀ span ∈ (ofText text).spans, span.IsIn text := by
  intro span hspan
  obtain ⟨entry, hentry, hspan⟩ := mem_spans_ofText hspan
  exact isIn_entry hentry span hspan

theorem isIn_words {text : String} : ∀ word ∈ (ofText text).words, word.span.IsIn text := by
  intro word hword
  obtain ⟨line, hline, hmem⟩ := List.mem_flatMap.mp ((words_sublist text).subset hword)
  obtain ⟨run, hrun, rfl⟩ := List.mem_map.mp hmem
  exact PlacedLine.isIn_word hline hrun

theorem isIn_misplaced {text : String} : ∀ f ∈ misplaced text, f.span.IsIn text := by
  intro f hf
  obtain ⟨entry, hentry, hfinding⟩ := List.mem_filterMap.mp hf
  refine isIn_entry hentry f.span ?_
  cases entry <;> cases hfinding
  exact List.mem_singleton.mpr rfl

end Recipe

/-! ### Findings -/

namespace Sentence

/- What holds of the spans of the words, and is kept by merging, holds of the spans of findings. -/
variable {P : Span → Prop} (hmerge : ∀ s t, P s → P t → P (s.merge t)) {row : Sentence}
  (h : ∀ word ∈ row.words, P word.span)
include h

include hmerge in
theorem span_toolFindings (vocabulary : Vocabulary) :
    ∀ f ∈ row.toolFindings vocabulary, P f.span := by
  intro f hf
  obtain ⟨hhead, harguments⟩ := List.forall_mem_cons.mp h
  unfold toolFindings at hf
  split at hf
  · obtain rfl := List.mem_singleton.mp hf
    exact hhead
  · next tool extra hsplit =>
      rw [hsplit] at harguments
      obtain ⟨htool, hextra⟩ := List.forall_mem_cons.mp harguments
      rcases List.mem_append.mp hf with hf | hf
      · split at hf
        · cases hf
        · obtain rfl := List.mem_singleton.mp hf
          exact htool
      · obtain ⟨span, hspan, rfl⟩ := Option.map_eq_some_iff.mp (Option.mem_toList.mp hf)
        exact Span.mergeAll_induction hmerge (by simpa using hextra) hspan

theorem span_ingredientFindings (ingredients : Ingredients) :
    ∀ f ∈ row.ingredientFindings ingredients, P f.span := by
  intro f hf
  obtain ⟨hhead, harguments⟩ := List.forall_mem_cons.mp h
  rcases List.mem_append.mp hf with hf | hf
  · split at hf
    · obtain rfl := List.mem_singleton.mp hf
      exact hhead
    · cases hf
  · obtain ⟨word, hword, rfl⟩ := List.mem_map.mp hf
    exact harguments word (List.mem_filter.mp hword).1

include hmerge in
/-- A finding is about one word, or about several merged. -/
theorem span_findings (vocabulary : Vocabulary) (ingredients : Ingredients) (declares : Bool) :
    ∀ f ∈ row.findings vocabulary ingredients declares, P f.span := by
  have hhead := h row.head List.mem_cons_self
  intro f hf
  unfold findings at hf
  dsimp only at hf
  split at hf
  · unfold declarationFindings at hf
    split at hf
    · cases hf
    · split at hf
      · cases hf
      · obtain rfl := List.mem_singleton.mp hf
        exact hhead
  split at hf
  · exact span_ingredientFindings h ingredients f hf
  split at hf
  · cases hf
  split at hf
  · exact span_toolFindings hmerge h vocabulary f hf
  · obtain rfl := List.mem_singleton.mp hf
    exact hhead

end Sentence

/-! ### Words under the caret -/

/-- A caret is located in a section, and in a sentence of it that begins on its line. -/
theorem Recipe.of_locate {recipe : Recipe} {caret : Position} {location : Location}
    (h : recipe.locate caret = some location) :
    location.part ∈ recipe.sections ∧ ∀ row, location.sentence = some row →
      row ∈ location.part.sentences ∧ row.span.start.line = caret.line := by
  obtain ⟨part, hpart, rfl⟩ := Option.map_eq_some_iff.mp h
  refine ⟨List.mem_reverse.mp (List.mem_of_find?_eq_some hpart), fun row hrow => ?_⟩
  exact ⟨List.mem_of_find?_eq_some hrow, by simpa using List.find?_some hrow⟩

/-- The word under the caret is the word of its number in the sentence of the line. -/
theorem Location.of_word? {location : Location} {caret : Position} {word : Word}
    (h : location.word? caret = some word) :
    ∃ row, location.sentence = some row ∧ row.words[indexIn caret row]? = some word := by
  unfold Location.word? at h
  split at h
  · cases h
  · next row hrow => exact ⟨row, hrow, (Option.filter_eq_some_iff.mp h).1⟩

theorem Recipe.mem_words_of_word? {recipe : Recipe} {caret : Position} {location : Location}
    {word : Word} (hlocate : recipe.locate caret = some location)
    (hword : location.word? caret = some word) : word ∈ recipe.words := by
  obtain ⟨row, hrow, hget⟩ := Location.of_word? hword
  obtain ⟨hpart, hsentence⟩ := of_locate hlocate
  exact List.mem_flatMap.mpr ⟨row, List.mem_flatMap.mpr ⟨_, hpart, (hsentence row hrow).1⟩,
    List.mem_of_getElem? hget⟩

/-! ### Analyses -/

namespace Analysis

/-- All spans of an analysis: of the tree, of the words of the index, and of the diagnostics. -/
def spans (analysis : Analysis) : List Span :=
  analysis.recipe.spans ++ (analysis.ingredients.entries.flatMap Ingredient.words).map Word.span ++
    analysis.diagnostics.map Diagnostic.span

variable (vocabulary : Vocabulary) (text : String)

theorem isIn_index :
    ∀ entry ∈ (ofText vocabulary text).ingredients.entries, ∀ word ∈ entry.words,
      word.span.IsIn text := by
  intro entry hentry word hword
  have hmem := (Ingredients.of_mem_words hentry hword).2
  exact Recipe.isIn_words word ((Recipe.occurrences_sublist vocabulary _).subset hmem)

theorem isIn_diagnostics : ∀ d ∈ (ofText vocabulary text).diagnostics, d.span.IsIn text := by
  intro d hd
  obtain ⟨f, hf, rfl⟩ := List.mem_map.mp hd
  rcases List.mem_append.mp hf with hf | hf
  · exact Recipe.isIn_misplaced f hf
  · rw [Recipe.findings_eq] at hf
    obtain ⟨entry, hentry, hf⟩ := List.mem_flatMap.mp hf
    refine Sentence.span_findings (fun _ _ hs ht => hs.merge ht)
      (fun word hword => Recipe.isIn_words word ?_) _ _ _ f hf
    rw [Recipe.words_eq vocabulary]
    exact List.mem_flatMap.mpr ⟨entry, hentry, hword⟩

/-- **Everything in an analysis is written in the text.** -/
theorem isIn_spans : ∀ span ∈ (ofText vocabulary text).spans, span.IsIn text := by
  intro span hspan
  rcases List.mem_append.mp hspan with hspan | hspan
  · rcases List.mem_append.mp hspan with hspan | hspan
    · exact Recipe.isIn_spans span hspan
    · obtain ⟨word, hword, rfl⟩ := List.mem_map.mp hspan
      obtain ⟨entry, hentry, hword⟩ := List.mem_flatMap.mp hword
      exact isIn_index vocabulary text entry hentry word hword
  · obtain ⟨d, hd, rfl⟩ := List.mem_map.mp hspan
    exact isIn_diagnostics vocabulary text d hd

end Analysis

end RecipeDesk
