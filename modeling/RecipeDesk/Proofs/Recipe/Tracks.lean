import RecipeDesk.Proofs.Recipe.Replacement
import RecipeDesk.Proofs.Text.LineTable

/-!
# Where every word goes

When a name is written over chosen words of a text, every word of the text has a successor in the
new text: the word that comes at the same place in the row of words of the same line. Offsets and
columns change, so nothing of this can be read off the places of the words; it is the order of words
that stays. `Tracks` says of a function on words that it takes every word to its successor.

* Such a function exists (`exists_tracks`), and it confuses no two words (`Tracks.inj`).
* A successor reads as its word was rewritten, on the line of the same number
  (`Tracks.text_eq`, `Tracks.exists_line`).
* The rows of the new tree are the successors of the old rows, under the same sections
  (`Tracks.placed_eq`).
-/

namespace RecipeDesk

/-! ### Lines keep their numbers -/

theorem Position.line_after_break (p : Position) {cs : List Char} (h : '\n' ∉ cs) :
    ((p.advanceAll cs).advance '\n').line = p.line + 1 := by
  rw [advanceAll_of_not_mem p h]
  rfl

theorem forall₂_placeLines_line {start start' : Position} {lines : List (List Char)}
    {f : PlacedLine → List Char} (hstart : start'.line = start.line)
    (hlines : ∀ line ∈ placeLines start lines, '\n' ∉ line.chars ∧ '\n' ∉ f line) :
    List.Forall₂ (fun line line' => line'.chars = f line ∧ line'.start.line = line.start.line)
      (placeLines start lines) (placeLines start' ((placeLines start lines).map f)) := by
  induction lines generalizing start start' with
  | nil => exact .nil
  | cons chars rest ih =>
      obtain ⟨⟨hold, hnew⟩, hrest⟩ := List.forall_mem_cons.mp hlines
      refine .cons ⟨rfl, hstart⟩ (ih ?_ hrest)
      rw [Position.line_after_break _ hold, Position.line_after_break _ hnew, hstart]

/-- All of the span lies on the line of this number. -/
def Span.OnLine (span : Span) (n : Nat) : Prop := span.start.line = n ∧ span.stop.line = n

theorem PlacedLine.onLine_span (line : PlacedLine) (start stop : Nat) :
    (line.span start stop).OnLine line.start.line := ⟨rfl, rfl⟩

theorem PlacedLine.onLine_word {line : PlacedLine} {word : Word} (h : word ∈ line.words) :
    word.span.OnLine line.start.line := by
  obtain ⟨run, -, rfl⟩ := List.mem_map.mp h
  exact line.onLine_span run.column run.stop

/-! ### Successors -/

namespace Sentence

/-- A sentence with every word replaced by another. -/
def mapWords (f : Word → Word) (row : Sentence) : Sentence := ⟨f row.head, row.arguments.map f⟩

theorem words_mapWords (f : Word → Word) (row : Sentence) :
    (row.mapWords f).words = row.words.map f := rfl

theorem eq_of_words {row row' : Sentence} (h : row'.words = row.words) : row' = row := by
  obtain ⟨hhead, harguments⟩ := List.cons.inj h
  cases row
  cases row'
  simp_all

end Sentence

/-- A text with the new name over its chosen words. -/
def overwritten (chosen : Word → Bool) (newName text : String) : String :=
  String.ofList (joinLines (rewrittenLines chosen newName text))

/-- `track` takes the words of every line to the words of the rewritten line, in order. -/
structure Tracks (chosen : Word → Bool) (newName text : String) (track : Word → Word) : Prop where
  lines : List.Forall₂ (fun line line' => line'.chars = line.rewritten chosen newName ∧
      line'.start.line = line.start.line ∧ line'.words = line.words.map track)
    (placedLines text) (placedLines (overwritten chosen newName text))

variable {chosen : Word → Bool} {newName text : String}

/-- The words of a rewritten line read as the words of the line were rewritten. -/
theorem PlacedLine.map_text_words {line line' : PlacedLine} (hname : IsName newName)
    (hchars : line'.chars = line.rewritten chosen newName) :
    line'.words.map Word.text = line.words.map (rewrittenText chosen newName) := by
  have hruns := Run.scan_rewrite 0 fun run (hrun : run ∈ Run.scan 0 line.chars) =>
    isWordText_rewrittenText chosen newName hname hrun
  rw [← rewritten, ← hchars] at hruns
  have htexts := congrArg (List.map String.ofList) hruns
  rw [List.map_map, List.map_map] at htexts
  simp only [Function.comp_def, String.ofList_toList] at htexts
  rw [words, words, List.map_map, List.map_map]
  exact htexts

/-- Every word has a successor. -/
theorem exists_tracks (chosen : Word → Bool) (text : String) (hname : IsName newName) :
    ∃ track, Tracks chosen newName text track := by
  have hlines : List.Forall₂ (fun line line' => line'.chars = line.rewritten chosen newName ∧
      line'.start.line = line.start.line) (placedLines text)
      (placedLines (overwritten chosen newName text)) := by
    rw [overwritten, placedLines_rewritten chosen newName hname]
    refine forall₂_placeLines_line rfl fun line hline => ?_
    have hold := newline_not_mem_placedLines hline
    exact ⟨hold, newline_not_mem_rewritten chosen newName hname hold⟩
  have hlength : List.Forall₂ (fun line line' => line'.words.length = line.words.length)
      (placedLines text) (placedLines (overwritten chosen newName text)) := by
    refine hlines.imp fun line line' h => ?_
    simpa using congrArg List.length (PlacedLine.map_text_words hname h.1)
  -- one function for all lines: it is found on the words of the whole text and cut at the lines
  have htotal : (textWords (overwritten chosen newName text)).length = (textWords text).length := by
    rw [textWords, textWords, List.length_flatMap, List.length_flatMap]
    exact congrArg List.sum (forall₂_eq_iff.mp hlength)
  obtain ⟨track, htrack⟩ := exists_eq_map (nodup_of_sublist_textWords (List.Sublist.refl _)) htotal
  refine ⟨track, ⟨?_⟩⟩
  exact hlines.mp (fun _ _ h hwords => ⟨h.1, h.2, hwords⟩) (forall₂_blocks hlength htrack)

namespace Tracks

variable {track : Word → Word} (h : Tracks chosen newName text track)
include h

theorem textWords_eq : textWords (overwritten chosen newName text) = (textWords text).map track := by
  have hwords := forall₂_eq_iff.mp (h.lines.imp fun _ _ hline => hline.2.2)
  rw [textWords, textWords, List.flatMap_def, hwords, ← List.flatMap_def, List.map_flatMap]

/-- No two words have the same successor. -/
theorem inj {a b : Word} (ha : a ∈ textWords text) (hb : b ∈ textWords text)
    (heq : track a = track b) : a = b := by
  have hnodup : (textWords (overwritten chosen newName text)).Nodup :=
    nodup_of_sublist_textWords (List.Sublist.refl _)
  rw [h.textWords_eq] at hnodup
  exact List.inj_on_of_nodup_map hnodup ha hb heq

theorem mem_textWords {word : Word} (hword : word ∈ textWords text) :
    track word ∈ textWords (overwritten chosen newName text) :=
  h.textWords_eq ▸ List.mem_map_of_mem hword

/-- Places tell successors apart as they told the words apart. -/
theorem span_eq_iff {a b : Word} (ha : a ∈ textWords text) (hb : b ∈ textWords text) :
    (track a).span = (track b).span ↔ a.span = b.span := by
  constructor
  · intro hspan
    have heq := textWords_unique (h.mem_textWords ha) (h.mem_textWords hb)
      (congrArg Span.start hspan)
    rw [h.inj ha hb heq]
  · intro hspan
    rw [textWords_unique ha hb (congrArg Span.start hspan)]

/-- A successor reads as its word was rewritten. -/
theorem text_eq (hname : IsName newName) {word : Word} (hword : word ∈ textWords text) :
    (track word).text = rewrittenText chosen newName word := by
  obtain ⟨line, hline, hword⟩ := List.mem_flatMap.mp hword
  obtain ⟨line', -, hchars, -, hwords⟩ := exists_of_forall₂_left h.lines hline
  have htexts := PlacedLine.map_text_words hname hchars
  rw [hwords, List.map_map] at htexts
  exact List.map_inj_left.mp htexts word hword

/-- The words of a row, and their successors, stand on one line. -/
theorem exists_line {row : Sentence} (hrow : row ∈ (Recipe.ofText text).sentences) :
    ∃ n, ∀ word ∈ row.words, word.span.OnLine n ∧ (track word).span.OnLine n := by
  obtain ⟨line, hline, -, hall⟩ := Recipe.mem_sentences hrow
  obtain ⟨line', -, -, hnumber, hwords⟩ := exists_of_forall₂_left h.lines hline
  refine ⟨line.start.line, fun word hword => ?_⟩
  rw [hall] at hword
  have hsuccessor : track word ∈ line'.words := hwords ▸ List.mem_map_of_mem hword
  exact ⟨PlacedLine.onLine_word hword, hnumber ▸ PlacedLine.onLine_word hsuccessor⟩

/-- **The rows of the new tree are the successors of the old rows**, if no heading is touched. -/
theorem placed_eq (vocabulary : Vocabulary) (hname : IsName newName)
    (hsentences : ∀ line ∈ placedLines text, ¬ line.IsWords → ∀ word ∈ line.words,
      chosen word = false) :
    (Recipe.ofText (overwritten chosen newName text)).placed vocabulary =
      ((Recipe.ofText text).placed vocabulary).map fun entry =>
        (entry.1, entry.2.mapWords track) := by
  have hlines := h.lines
  rw [overwritten, placedLines_rewritten chosen newName hname] at hlines
  have hrows := Recipe.forall₂_placed (R := fun word word' => word' = track word) vocabulary hname
    hsentences (hlines.imp fun line line' hline =>
      ⟨hline.1, forall₂_eq_map_iff.mpr hline.2.2⟩)
  refine forall₂_eq_map_iff.mp (hrows.imp ?_)
  rintro ⟨declares, row⟩ ⟨declares', row'⟩ ⟨rfl, hwords⟩
  have hall : row'.words = (row.mapWords track).words := by
    rw [Sentence.words_mapWords, ← forall₂_eq_map_iff.mp hwords]
  rw [Sentence.eq_of_words hall]

end Tracks

end RecipeDesk
