import RecipeDesk.Proofs.Recipe.Renaming
import RecipeDesk.Proofs.Recipe.WellFormed

/-!
# One word for another

`Rewrite` follows the texts of a tree when a name is written over chosen words. Here their places
are followed as well, as far as they stay: up to the first chosen word nothing moves, and that word
begins where it began.

For a single word this says all that is needed about the new tree (`placed_replaced`). It has the
old rows, under sections that declare what they declared, and each word of a row has become a word
with the same text, except for the one that was replaced: this has the new text and begins where the
old word began.
-/

namespace RecipeDesk

/-! ### Words and what becomes of them -/

variable (chosen : Word → Bool) (newName : String)

/-- What a word becomes when the chosen words are written over; words up to the offset `edge` stay
where they begin. -/
structure Word.Becomes (edge : Nat) (word word' : Word) : Prop where
  text : word'.text = rewrittenText chosen newName word
  start : word.span.start.offset ≤ edge → word'.span.start = word.span.start

variable {chosen newName}

/-- The words of a rewritten line, at its old place or at a new one. -/
theorem PlacedLine.forall₂_becomes {edge : Nat} {line line' : PlacedLine} (hname : IsName newName)
    (hchars : line'.chars = line.rewritten chosen newName)
    (hstart : line.start.offset ≤ edge → line'.start = line.start)
    (hkept : ∀ word ∈ line.words, word.span.start.offset < edge → chosen word = false) :
    List.Forall₂ (Word.Becomes chosen newName edge) line.words line'.words := by
  have hruns := Run.forall₂_scan_rewrite (edge - line.start.offset) 0
    (fun run hrun => isWordText_rewrittenText chosen newName hname hrun) (fun run hrun hlt => by
      have hfree := hkept _ (List.mem_map_of_mem hrun)
        (by rw [PlacedLine.start_offset_word]; omega)
      rw [rewrittenText, if_neg (by simp [hfree])]
      exact String.toList_ofList)
  rw [words, words, hchars, List.forall₂_map_left_iff, List.forall₂_map_right_iff]
  refine hruns.imp ?_
  rintro run run' ⟨hrun, hcolumn⟩
  refine ⟨?_, fun hle => ?_⟩
  · rw [word, hrun, String.ofList_toList]
  · rw [PlacedLine.start_offset_word] at hle
    have hsame := hcolumn (by omega)
    have : run'.column = run.column := by omega
    simp only [word, span, this, hstart (by omega)]

/-- Lines up to the edge stay where they begin. -/
theorem forall₂_placeLines_rewritten (newName : String) {edge : Nat} (lines : List (List Char))
    {start start' : Position} (hstart : start.offset ≤ edge → start' = start)
    (hkept : ∀ line ∈ placeLines start lines, ∀ word ∈ line.words,
      word.span.start.offset < edge → chosen word = false) :
    List.Forall₂ (fun line line' => line'.chars = line.rewritten chosen newName ∧
        (line.start.offset ≤ edge → line'.start = line.start))
      (placeLines start lines)
      (placeLines start' ((placeLines start lines).map (PlacedLine.rewritten chosen newName))) := by
  induction lines generalizing start start' with
  | nil => exact .nil
  | cons chars rest ih =>
      obtain ⟨hfirst, hrest⟩ := List.forall_mem_cons.mp hkept
      refine .cons ⟨rfl, hstart⟩ (ih (fun hle => ?_) hrest)
      -- if the next line begins before the edge, all of this one lies before it
      rw [(start.offset_line_break chars).1] at hle
      have hfree : ∀ word ∈ (⟨start, chars⟩ : PlacedLine).words, chosen word = false := by
        intro word hword
        have := PlacedLine.mem_words hword
        exact hfirst word hword (by dsimp only at this; omega)
      rw [PlacedLine.rewritten_of_not_chosen chosen newName hfree, hstart (by omega)]

/-! ### The sentences of the tree -/

/-- Lines of the same kinds, with words that go together, make sentences that go together. -/
theorem Entry.forall₂_sentences {R : Word → Word → Prop} {read : Word → String}
    (titled opened : Bool) {lines lines' : List PlacedLine}
    (h : List.Forall₂ (fun line line' => line.Reads read line'.chars ∧
      List.Forall₂ R line.words line'.words) lines lines') :
    List.Forall₂ (fun row row' => List.Forall₂ R row.words row'.words)
      ((ofLines titled opened lines).filterMap sentence?)
      ((ofLines titled opened lines').filterMap sentence?) := by
  have hentries := forall₂_ofLines (Q := fun entry entry' => ∀ row ∈ entry.sentence?,
      ∀ row' ∈ entry'.sentence?, List.Forall₂ R row.words row'.words) titled opened
    (h.imp fun line line' hline => ⟨hline.1, fun titled opened row hrow row' hrow' => by
      rw [(sentence?_ofLine hrow).2, (sentence?_ofLine hrow').2]
      exact hline.2⟩)
  refine List.rel_filterMap ?_ hentries
  rintro entry entry' ⟨hreads, hwords⟩
  cases hreads with
  | sentence => exact .some (hwords _ rfl _ rfl)
  | _ => exact .none

namespace Recipe

/-- The sentences are those of all lines: before the first section no line makes one. -/
theorem sentences_ofText (text : String) :
    (ofText text).sentences = (Entry.ofText text).filterMap Entry.sentence? := by
  have hnone : (Entry.gather (Entry.ofText text)).1 = [] :=
    Entry.gather_of_not_opened false (placedLines text)
  rw [← Entry.gather_sentences, hnone, List.nil_append]
  rfl

theorem map_snd_placed (vocabulary : Vocabulary) (recipe : Recipe) :
    (recipe.placed vocabulary).map Prod.snd = recipe.sentences := by
  simp [placed, sentences, List.map_flatMap, Function.comp_def]

/-- Which sentences declare can be told from the texts. -/
theorem map_fst_placed (vocabulary : Vocabulary) (recipe : Recipe) (read : Word → String) :
    (recipe.placed vocabulary).map Prod.fst =
      (recipe.reading read).2.flatMap fun part =>
        part.2.map fun _ => vocabulary.isIngredientsSection part.1 := by
  simp [placed, reading, Section.reading, Section.declares, List.map_flatMap, List.flatMap_map,
    Function.comp_def]

end Recipe

/-- Rewriting keeps the rows: if the words of the lines go together, so do the words of the rows. -/
theorem Recipe.forall₂_placed (vocabulary : Vocabulary) (hname : IsName newName) {text : String}
    {R : Word → Word → Prop}
    (hsentences : ∀ line ∈ placedLines text, ¬ line.IsWords → ∀ word ∈ line.words,
      chosen word = false)
    (hlines : List.Forall₂ (fun line line' => line'.chars = line.rewritten chosen newName ∧
        List.Forall₂ R line.words line'.words) (placedLines text)
      (placeLines .origin (rewrittenLines chosen newName text))) :
    List.Forall₂ (fun entry entry' => entry'.1 = entry.1 ∧
        List.Forall₂ R entry.2.words entry'.2.words)
      ((ofText text).placed vocabulary)
      ((ofText (String.ofList (joinLines (rewrittenLines chosen newName text)))).placed
        vocabulary) := by
  have hreads := ((List.forall₂_and_left _ _).mpr ⟨hsentences, hlines⟩).imp fun line line' h =>
    And.intro (h.2.1 ▸ PlacedLine.rewritten_reads chosen newName hname h.1 :
      line.Reads (rewrittenText chosen newName) line'.chars) h.2.2
  have hrows := Entry.forall₂_sentences false false hreads
  rw [← placedLines_rewritten chosen newName hname] at hrows
  refine forall₂_pairs
    (S := fun row row' : Sentence => List.Forall₂ R row.words row'.words) ?_ ?_
  · rw [map_fst_placed vocabulary _ Word.text,
      map_fst_placed vocabulary _ (rewrittenText chosen newName),
      reading_rewritten chosen newName hname text hsentences]
  · rw [map_snd_placed, map_snd_placed, sentences_ofText, sentences_ofText]
    exact hrows

/-- **The rows of the rewritten text**, word by word. -/
theorem Recipe.placed_rewritten (vocabulary : Vocabulary) (hname : IsName newName) {text : String}
    (edge : Nat)
    (hsentences : ∀ line ∈ placedLines text, ¬ line.IsWords → ∀ word ∈ line.words,
      chosen word = false)
    (hkept : ∀ word ∈ textWords text, word.span.start.offset < edge → chosen word = false) :
    List.Forall₂ (fun entry entry' => entry'.1 = entry.1 ∧
        List.Forall₂ (Word.Becomes chosen newName edge) entry.2.words entry'.2.words)
      ((ofText text).placed vocabulary)
      ((ofText (String.ofList (joinLines (rewrittenLines chosen newName text)))).placed
        vocabulary) := by
  have hkeptline : ∀ line ∈ placedLines text, ∀ word ∈ line.words,
      word.span.start.offset < edge → chosen word = false :=
    fun line hline word hword => hkept word (List.mem_flatMap.mpr ⟨line, hline, hword⟩)
  have hplaces := (List.forall₂_and_left _ _).mpr
    ⟨hkeptline, forall₂_placeLines_rewritten newName (textLines text.toList)
      (fun _ => rfl) hkeptline⟩
  exact forall₂_placed vocabulary hname hsentences
    (hplaces.imp fun line line' h =>
      ⟨h.2.1, PlacedLine.forall₂_becomes hname h.2.1 h.2.2 h.1⟩)

/-! ### A single word -/

/-- What a word becomes when `label` is written over the word `old`. -/
structure Word.Replaced (old : Word) (label : String) (word word' : Word) : Prop where
  text : word'.text = if word = old then label else word.text
  start : word = old → word'.span.start = old.span.start

/-- **The rows after one word has been replaced.** -/
theorem Recipe.placed_replaced (vocabulary : Vocabulary) {label text : String}
    (hname : IsName label) {old : Word} (hold : old ∈ (ofText text).words) :
    List.Forall₂ (fun entry entry' => entry'.1 = entry.1 ∧
        List.Forall₂ (Word.Replaced old label) entry.2.words entry'.2.words)
      ((ofText text).placed vocabulary)
      ((ofText (Edit.applyAll text [⟨old.span, label⟩])).placed vocabulary) := by
  have hedit : [⟨old.span, label⟩] = Edit.sort ([old].map fun word => ⟨word.span, label⟩) := by
    simp [Edit.sort]
  have hmem := (words_sublist text).subset hold
  rw [hedit, sort_edits_eq_wordEdits label (List.nodup_singleton old)
    (by simpa using hmem), applyAll_wordEdits]
  refine (placed_rewritten vocabulary hname old.span.start.offset ?_ ?_).imp ?_
  · intro line hline hnot word hword
    have hnotword := not_mem_words_of_not_isWords hline hnot hword
    exact decide_eq_false fun hsame => hnotword (List.mem_singleton.mp hsame ▸ hold)
  · intro word _ hlt
    refine decide_eq_false fun hsame => ?_
    rw [List.mem_singleton.mp hsame] at hlt
    exact Nat.lt_irrefl _ hlt
  · rintro entry entry' ⟨hdeclares, hwords⟩
    refine ⟨hdeclares, hwords.imp fun word word' h => ⟨?_, ?_⟩⟩
    · simpa [rewrittenText] using h.text
    · rintro rfl
      exact h.start (Nat.le_refl _)

end RecipeDesk
