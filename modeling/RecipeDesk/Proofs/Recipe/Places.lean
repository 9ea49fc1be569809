import Mathlib.Data.List.Basic
import Mathlib.Data.List.Flatten
import Mathlib.Data.List.Pairwise
import Mathlib.Data.List.TakeWhile
import RecipeDesk.Recipe.Check

/-!
# Words in their places

Where the words of a recipe stand. A line is a sequence of blanks and words, and
`stretch_induction` follows it that way: one blank, or one whole word up to the next blank. The
three equations of `Run.scan` for these steps are all that the rest of the development uses of it.

All words of all lines of a text, headings included, are `textWords`. They come in increasing order
and never touch (`textWords_before`), and the words of the recipe's sentences are among them, in
the same order (`Recipe.words_sublist`). So two words of a tree are never confused: a word is told
apart from every other by its place alone.
-/

namespace RecipeDesk

/-! ### Blanks and words along a line -/

/-- The characters of one word: at least one, and no blank among them. -/
def IsWordText (w : List Char) : Prop := w ≠ [] ∧ ∀ c ∈ w, isWordBlank c = false

/-- A word before `rest` ends there: `rest` is empty or begins with a blank. -/
def StopsWord (rest : List Char) : Prop := ∀ c ∈ rest.head?, isWordBlank c = true

theorem stopsWord_nil : StopsWord [] := by
  intro c hc
  simp at hc

theorem stopsWord_cons {c : Char} {cs : List Char} (hc : isWordBlank c = true) :
    StopsWord (c :: cs) := by
  intro d hd
  obtain rfl : c = d := by simpa using hd
  exact hc

theorem isWordText_takeWhile {c : Char} (cs : List Char) (hc : isWordBlank c = false) :
    IsWordText (c :: cs.takeWhile (!isWordBlank ·)) := by
  refine ⟨by simp, ?_⟩
  intro d hd
  rcases List.mem_cons.mp hd with rfl | hd
  · exact hc
  · simpa using List.mem_takeWhile_imp hd

theorem stopsWord_dropWhile (cs : List Char) : StopsWord (cs.dropWhile (!isWordBlank ·)) := by
  intro c hc
  have := List.head?_dropWhile_not (fun d => !isWordBlank d) cs
  rw [Option.mem_def.mp hc] at this
  simpa using this

/-- Reading a word off the front of a line stops exactly behind it. -/
theorem IsWordText.cut {w rest : List Char} (hw : IsWordText w) (hrest : StopsWord rest) :
    ∃ c cs, w = c :: cs ∧ isWordBlank c = false ∧
      (cs ++ rest).takeWhile (!isWordBlank ·) = cs ∧
      (cs ++ rest).dropWhile (!isWordBlank ·) = rest := by
  obtain ⟨hne, hall⟩ := hw
  cases w with
  | nil => exact absurd rfl hne
  | cons c cs =>
      have hcs : ∀ d ∈ cs, (!isWordBlank d) = true := by
        intro d hd
        simp [hall d (List.mem_cons_of_mem c hd)]
      refine ⟨c, cs, rfl, hall c List.mem_cons_self, ?_, ?_⟩
      · rw [List.takeWhile_append_of_pos hcs]
        cases rest with
        | nil => simp
        | cons d ds => simp [hrest d rfl]
      · rw [List.dropWhile_append_of_pos hcs]
        cases rest with
        | nil => rfl
        | cons d ds => simp [hrest d rfl]

/-- Following a line from left to right, one blank or one whole word at a time. -/
theorem stretch_induction {motive : List Char → Prop} (nil : motive [])
    (blank : ∀ c cs, isWordBlank c = true → motive cs → motive (c :: cs))
    (word : ∀ w rest, IsWordText w → StopsWord rest → motive rest → motive (w ++ rest)) :
    ∀ cs, motive cs := by
  intro cs
  induction hn : cs.length using Nat.strongRecOn generalizing cs with
  | ind n ih =>
      cases cs with
      | nil => exact nil
      | cons c cs =>
          simp only [List.length_cons] at hn
          cases hc : isWordBlank c with
          | true => exact blank c cs hc (ih cs.length (by omega) cs rfl)
          | false =>
              have hshort := (List.dropWhile_sublist (l := cs) (!isWordBlank ·)).length_le
              have hrest := ih _ (by omega) (cs.dropWhile (!isWordBlank ·)) rfl
              have := word _ _ (isWordText_takeWhile cs hc) (stopsWord_dropWhile cs) hrest
              rwa [List.cons_append, List.takeWhile_append_dropWhile] at this

namespace Run

theorem scan_nil (column : Nat) : scan column [] = [] := by
  rw [scan]

theorem scan_blank {c : Char} (column : Nat) (cs : List Char) (hc : isWordBlank c = true) :
    scan column (c :: cs) = scan (column + 1) cs := by
  rw [scan, if_pos hc]

theorem scan_word {w rest : List Char} (column : Nat) (hw : IsWordText w)
    (hrest : StopsWord rest) :
    scan column (w ++ rest) = ⟨column, w⟩ :: scan (column + w.length) rest := by
  obtain ⟨c, cs, rfl, hc, htake, hdrop⟩ := hw.cut hrest
  rw [List.cons_append, scan, if_neg (by simp [hc]), htake, hdrop]

/-- Every run lies within the stretch it was read from and is a word. -/
theorem mem_scan {column : Nat} {cs : List Char} {run : Run} (h : run ∈ scan column cs) :
    column ≤ run.column ∧ run.stop ≤ column + cs.length ∧ IsWordText run.chars := by
  induction cs using stretch_induction generalizing column with
  | nil => simp [scan_nil] at h
  | blank c cs hc ih =>
      rw [scan_blank column cs hc] at h
      obtain ⟨hle, hstop, hword⟩ := ih h
      refine ⟨by omega, ?_, hword⟩
      simp only [List.length_cons]
      omega
  | word w rest hw hrest ih =>
      rw [scan_word column hw hrest] at h
      rcases List.mem_cons.mp h with rfl | h
      · refine ⟨Nat.le_refl _, ?_, hw⟩
        simp only [stop, List.length_append]
        omega
      · obtain ⟨hle, hstop, hword⟩ := ih h
        refine ⟨by omega, ?_, hword⟩
        simp only [List.length_append]
        omega

theorem chars_subset_of_mem_scan {column : Nat} {cs : List Char} {run : Run}
    (h : run ∈ scan column cs) : run.chars ⊆ cs := by
  induction cs using stretch_induction generalizing column with
  | nil => simp [scan_nil] at h
  | blank c cs hc ih =>
      rw [scan_blank column cs hc] at h
      exact List.subset_cons_of_subset c (ih h)
  | word w rest hw hrest ih =>
      rw [scan_word column hw hrest] at h
      rcases List.mem_cons.mp h with rfl | h
      · exact List.subset_append_left w rest
      · exact List.subset_append_of_subset_right w (ih h)

/-- Behind a word there is a blank before the next one. -/
theorem column_lt_of_mem_scan {column : Nat} {rest : List Char} {run : Run}
    (hrest : StopsWord rest) (h : run ∈ scan column rest) : column < run.column := by
  cases rest with
  | nil => simp [scan_nil] at h
  | cons c cs =>
      rw [scan_blank column cs (hrest c rfl)] at h
      have := mem_scan h
      omega

theorem scan_pairwise (column : Nat) (cs : List Char) :
    (scan column cs).Pairwise fun a b => a.stop < b.column := by
  induction cs using stretch_induction generalizing column with
  | nil => simp [scan_nil]
  | blank c cs hc ih =>
      rw [scan_blank column cs hc]
      exact ih (column + 1)
  | word w rest hw hrest ih =>
      rw [scan_word column hw hrest, List.pairwise_cons]
      exact ⟨fun run hrun => column_lt_of_mem_scan hrest hrun, ih _⟩

/-- A run is cut out of its line between blanks or ends of the line. -/
theorem cut {column : Nat} {cs : List Char} {run : Run} (h : run ∈ scan column cs) :
    ∃ before rest, cs = before ++ (run.chars ++ rest) ∧ run.column = column + before.length ∧
      (∀ c ∈ before.getLast?, isWordBlank c = true) ∧ StopsWord rest := by
  induction cs using stretch_induction generalizing column with
  | nil => simp [scan_nil] at h
  | blank c cs hc ih =>
      rw [scan_blank column cs hc] at h
      obtain ⟨before, rest, rfl, hcolumn, hbefore, hrest⟩ := ih h
      refine ⟨c :: before, rest, rfl, ?_, ?_, hrest⟩
      · rw [hcolumn, List.length_cons]
        omega
      · rw [List.getLast?_cons]
        cases hlast : before.getLast? with
        | none => simpa using hc
        | some d => simpa using hbefore d hlast
  | word w cs hw hcs ih =>
      rw [scan_word column hw hcs] at h
      rcases List.mem_cons.mp h with rfl | hlater
      · exact ⟨[], cs, rfl, rfl, by simp, hcs⟩
      · have hlt := column_lt_of_mem_scan hcs hlater
        obtain ⟨before, rest, rfl, hcolumn, hbefore, hrest⟩ := ih hlater
        have hne : before ≠ [] := by
          rintro rfl
          exact Nat.ne_of_gt hlt hcolumn
        refine ⟨w ++ before, rest, (List.append_assoc _ _ _).symm, ?_, ?_, hrest⟩
        · rw [hcolumn, List.length_append, Nat.add_assoc]
        · rwa [List.getLast?_append_of_ne_nil _ hne]

end Run

/-! ### A text and its lines -/

/-- Lines put together again, with a line break between them. -/
def joinLines : List (List Char) → List Char
  | [] => []
  | [line] => line
  | line :: next :: rest => line ++ '\n' :: joinLines (next :: rest)

theorem textLines_ne_nil (cs : List Char) : textLines cs ≠ [] := by
  cases cs with
  | nil => simp [textLines]
  | cons c cs =>
      unfold textLines
      split
      · simp
      · split <;> simp

theorem joinLines_textLines (cs : List Char) : joinLines (textLines cs) = cs := by
  induction cs with
  | nil => rfl
  | cons c cs ih =>
      cases hlines : textLines cs with
      | nil => exact absurd hlines (textLines_ne_nil cs)
      | cons line lines =>
          rw [hlines] at ih
          by_cases hc : c = '\n'
          · simp only [textLines, hc, if_true, hlines, joinLines, List.nil_append, ih]
          · simp only [textLines, hc, if_false, hlines]
            cases lines with
            | nil => simpa [joinLines] using ih
            | cons next rest => simpa [joinLines] using ih

theorem newline_not_mem_textLines {cs line : List Char} (h : line ∈ textLines cs) :
    '\n' ∉ line := by
  induction cs generalizing line with
  | nil =>
      obtain rfl : line = [] := by simpa [textLines] using h
      simp
  | cons c cs ih =>
      cases hlines : textLines cs with
      | nil => exact absurd hlines (textLines_ne_nil cs)
      | cons first rest =>
          rw [hlines] at ih
          by_cases hc : c = '\n'
          · simp only [textLines, hc, if_true, hlines, List.mem_cons] at h
            rcases h with rfl | h
            · simp
            · exact ih (List.mem_cons.mpr h)
          · simp only [textLines, hc, if_false, hlines, List.mem_cons] at h
            rcases h with rfl | h
            · simpa [Ne.symm hc] using ih List.mem_cons_self
            · exact ih (List.mem_cons_of_mem _ h)

theorem textLines_append_newline {line : List Char} (cs : List Char) (h : '\n' ∉ line) :
    textLines (line ++ '\n' :: cs) = line :: textLines cs := by
  induction line with
  | nil => simp [textLines]
  | cons c line ih =>
      obtain ⟨hc, hline⟩ : c ≠ '\n' ∧ '\n' ∉ line := by
        simpa [eq_comm, not_or] using h
      simp [textLines, hc, ih hline]

theorem textLines_of_not_mem {line : List Char} (h : '\n' ∉ line) : textLines line = [line] := by
  induction line with
  | nil => rfl
  | cons c line ih =>
      obtain ⟨hc, hline⟩ : c ≠ '\n' ∧ '\n' ∉ line := by
        simpa [eq_comm, not_or] using h
      simp [textLines, hc, ih hline]

/-- Lines without line breaks in them are the lines of what they are put together to. -/
theorem textLines_joinLines {lines : List (List Char)} (hne : lines ≠ [])
    (h : ∀ line ∈ lines, '\n' ∉ line) : textLines (joinLines lines) = lines := by
  induction lines with
  | nil => exact absurd rfl hne
  | cons line rest ih =>
      cases rest with
      | nil => exact textLines_of_not_mem (h line List.mem_cons_self)
      | cons next rest =>
          rw [joinLines, textLines_append_newline _ (h line List.mem_cons_self),
            ih (by simp) fun l hl => h l (List.mem_cons_of_mem _ hl)]

/-! ### Lines in their places -/

theorem Position.line_le_advanceAll (p : Position) (cs : List Char) :
    p.line ≤ (p.advanceAll cs).line := by
  induction cs generalizing p with
  | nil => exact Nat.le_refl _
  | cons c cs ih =>
      have hstep : p.line ≤ (p.advance c).line := by
        unfold advance
        split
        · exact Nat.le_succ _
        · exact Nat.le_refl _
      rw [advanceAll_cons]
      exact Nat.le_trans hstep (ih _)

/-- Where the line after `cs` begins. -/
theorem Position.offset_line_break (p : Position) (cs : List Char) :
    ((p.advanceAll cs).advance '\n').offset = p.offset + cs.length + 1 ∧
      p.line < ((p.advanceAll cs).advance '\n').line := by
  refine ⟨?_, Nat.lt_succ_of_le (p.line_le_advanceAll cs)⟩
  rw [offset_advance, offset_advanceAll]

/-- The lines of a text in their places. -/
def placedLines (text : String) : List PlacedLine := placeLines .origin (textLines text.toList)

theorem map_chars_placeLines (start : Position) (lines : List (List Char)) :
    (placeLines start lines).map PlacedLine.chars = lines := by
  induction lines generalizing start with
  | nil => rfl
  | cons chars rest ih => rw [placeLines, List.map_cons, ih]

theorem newline_not_mem_placedLines {text : String} {line : PlacedLine}
    (h : line ∈ placedLines text) : '\n' ∉ line.chars := by
  have hmem : line.chars ∈ (placedLines text).map PlacedLine.chars := List.mem_map_of_mem h
  rw [placedLines, map_chars_placeLines] at hmem
  exact newline_not_mem_textLines hmem

theorem mem_placeLines {start : Position} {lines : List (List Char)} {line : PlacedLine}
    (h : line ∈ placeLines start lines) :
    start.offset ≤ line.start.offset ∧ start.line ≤ line.start.line := by
  induction lines generalizing start with
  | nil => simp [placeLines] at h
  | cons chars rest ih =>
      rcases List.mem_cons.mp h with rfl | h
      · exact ⟨Nat.le_refl _, Nat.le_refl _⟩
      · have hnext := ih h
        have hbreak := start.offset_line_break chars
        omega

/-- Later lines begin behind the line break of earlier ones, and have greater numbers. -/
theorem placeLines_pairwise (start : Position) (lines : List (List Char)) :
    (placeLines start lines).Pairwise fun a b =>
      a.start.offset + a.chars.length < b.start.offset ∧ a.start.line < b.start.line := by
  induction lines generalizing start with
  | nil => exact List.Pairwise.nil
  | cons chars rest ih =>
      refine List.Pairwise.cons ?_ (ih _)
      intro line hline
      have hnext := mem_placeLines hline
      have hbreak := start.offset_line_break chars
      dsimp only
      omega

/-! ### All words of a text -/

namespace PlacedLine

/-- All words of a line, whatever the line is. -/
def words (line : PlacedLine) : List Word := (Run.scan 0 line.chars).map line.word

@[simp] theorem start_offset_word (line : PlacedLine) (run : Run) :
    (line.word run).span.start.offset = line.start.offset + run.column := rfl

@[simp] theorem stop_offset_word (line : PlacedLine) (run : Run) :
    (line.word run).span.stop.offset = line.start.offset + run.stop := rfl

/-- A word stands on its line, and covers at least one character of it. -/
theorem mem_words {line : PlacedLine} {word : Word} (h : word ∈ line.words) :
    line.start.offset ≤ word.span.start.offset ∧
      word.span.start.offset < word.span.stop.offset ∧
      word.span.stop.offset ≤ line.start.offset + line.chars.length ∧
      word.span.start.line = line.start.line := by
  obtain ⟨run, hrun, rfl⟩ := List.mem_map.mp h
  obtain ⟨-, hstop, hne, -⟩ := Run.mem_scan hrun
  have hpos := List.length_pos_iff.mpr hne
  simp only [start_offset_word, stop_offset_word, Run.stop] at hstop ⊢
  exact ⟨by omega, by omega, by omega, rfl⟩

end PlacedLine

/-- `a` ends before `b` begins, with at least one character between them. -/
def Word.Before (a b : Word) : Prop := a.span.stop.offset < b.span.start.offset

theorem PlacedLine.words_pairwise (line : PlacedLine) : line.words.Pairwise Word.Before := by
  rw [words, List.pairwise_map]
  refine (Run.scan_pairwise 0 line.chars).imp ?_
  intro a b hab
  simp only [Word.Before, start_offset_word, stop_offset_word]
  omega

/-- All words of all lines of a text, in document order. -/
def textWords (text : String) : List Word := (placedLines text).flatMap PlacedLine.words

/-- **Words come in order and never touch.** -/
theorem textWords_before (text : String) : (textWords text).Pairwise Word.Before := by
  rw [textWords, List.pairwise_flatMap]
  refine ⟨fun line _ => line.words_pairwise, ?_⟩
  refine (placeLines_pairwise _ _).imp ?_
  rintro a b ⟨hoffset, -⟩ x hx y hy
  have hleft := PlacedLine.mem_words hx
  have hright := PlacedLine.mem_words hy
  simp only [Word.Before]
  omega

theorem start_lt_stop_of_mem_textWords {text : String} {word : Word} (h : word ∈ textWords text) :
    word.span.start.offset < word.span.stop.offset := by
  obtain ⟨line, -, hword⟩ := List.mem_flatMap.mp h
  exact (PlacedLine.mem_words hword).2.1

/-- The starts of the words of a text increase, along any selection of them. -/
theorem starts_increase {text : String} {words : List Word} (h : words.Sublist (textWords text)) :
    words.Pairwise fun a b => a.span.start.offset < b.span.start.offset := by
  refine ((textWords_before text).sublist h).imp_of_mem ?_
  intro a b ha _ hab
  exact Nat.lt_trans (start_lt_stop_of_mem_textWords (h.subset ha)) hab

theorem nodup_of_sublist_textWords {text : String} {words : List Word}
    (h : words.Sublist (textWords text)) : words.Nodup := by
  refine (starts_increase h).imp ?_
  intro a b hab heq
  rw [heq] at hab
  exact Nat.lt_irrefl _ hab

/-- Two words that begin at one place are one word. -/
theorem textWords_unique {text : String} {a b : Word} (ha : a ∈ textWords text)
    (hb : b ∈ textWords text) (h : a.span.start = b.span.start) : a = b := by
  have hapart : (textWords text).Pairwise fun a b => a.span.start ≠ b.span.start :=
    (starts_increase (List.Sublist.refl _)).imp fun hlt heq => by simp [heq] at hlt
  have : Std.Symm fun a b : Word => a.span.start ≠ b.span.start := ⟨fun _ _ h => h.symm⟩
  by_contra hne
  exact hapart.forall ha hb hne h

/-- Lines with one number are one line. -/
theorem placedLines_inj {text : String} {a b : PlacedLine} (ha : a ∈ placedLines text)
    (hb : b ∈ placedLines text) (h : a.start.line = b.start.line) : a = b := by
  have hapart : (placedLines text).Pairwise fun a b => ¬ a.start.line = b.start.line :=
    (placeLines_pairwise _ _).imp fun h => Nat.ne_of_lt h.2
  have : Std.Symm fun a b : PlacedLine => ¬ a.start.line = b.start.line :=
    ⟨fun _ _ h heq => h heq.symm⟩
  by_contra hne
  exact hapart.forall ha hb hne h

/-- A place belongs to one line only. -/
theorem placedLine_unique {text : String} {a b : PlacedLine} {word : Word}
    (ha : a ∈ placedLines text) (hb : b ∈ placedLines text) (hwa : word ∈ a.words)
    (hwb : word ∈ b.words) : a = b := by
  have hleft := PlacedLine.mem_words hwa
  have hright := PlacedLine.mem_words hwb
  exact placedLines_inj ha hb (by omega)

/-! ### The sentences of the tree -/

theorem Line.scan_of_words {cs : List Char} {first : Run} {others : List Run}
    (h : Line.ofChars cs = .words first others) : Run.scan 0 cs = first :: others := by
  unfold Line.ofChars at h
  split at h
  · exact absurd h (by simp)
  · next first' others' hscan =>
      split at h
      · exact absurd h (by simp [Line.headingOf])
      · obtain ⟨rfl, rfl⟩ : first' = first ∧ others' = others := by simpa using h
        exact hscan

/-- A line of words. -/
def PlacedLine.IsWords (line : PlacedLine) : Prop :=
  ∃ first others, Line.ofChars line.chars = .words first others

namespace Entry

/-- The sentence that an entry holds. -/
def sentence? : Entry → Option Sentence
  | sentence row => some row
  | _ => none

/-- Grouping loses no sentence and keeps their order. -/
theorem gather_sentences (entries : List Entry) :
    (gather entries).1 ++ (gather entries).2.flatMap Section.sentences =
      entries.filterMap sentence? := by
  induction entries with
  | nil => rfl
  | cons entry rest ih =>
      cases entry with
      | opening heading => simpa [gather, List.filterMap_cons, sentence?] using ih
      | sentence row => simpa [gather, List.filterMap_cons, sentence?] using ih
      | _ => simpa [gather, List.filterMap_cons, sentence?] using ih

/-- Only a line of words makes a sentence, and it holds all words of the line. -/
theorem sentence?_ofLine {titled opened : Bool} {line : PlacedLine} {row : Sentence}
    (h : (ofLine titled opened line).sentence? = some row) :
    line.IsWords ∧ row.words = line.words := by
  unfold ofLine at h
  cases hline : Line.ofChars line.chars with
  | blank => simp [hline, sentence?] at h
  | heading depth start stop text =>
      simp only [hline] at h
      split at h <;> split at h <;> simp [sentence?] at h
  | words first others =>
      simp only [hline] at h
      split at h
      · obtain rfl := Option.some.inj h
        refine ⟨⟨first, others, hline⟩, ?_⟩
        rw [PlacedLine.words, Line.scan_of_words hline]
        rfl
      · simp [sentence?] at h

theorem mem_ofLines {titled opened : Bool} {lines : List PlacedLine} {entry : Entry}
    (h : entry ∈ ofLines titled opened lines) :
    ∃ titled' opened', ∃ line ∈ lines, entry = ofLine titled' opened' line := by
  induction lines generalizing titled opened with
  | nil => simp [ofLines] at h
  | cons line rest ih =>
      rcases List.mem_cons.mp h with rfl | h
      · exact ⟨titled, opened, line, List.mem_cons_self, rfl⟩
      · obtain ⟨titled', opened', line', hmem, rfl⟩ := ih h
        exact ⟨titled', opened', line', List.mem_cons_of_mem _ hmem, rfl⟩

theorem sentences_sublist (titled opened : Bool) (lines : List PlacedLine) :
    (((ofLines titled opened lines).filterMap sentence?).flatMap Sentence.words).Sublist
      (lines.flatMap PlacedLine.words) := by
  induction lines generalizing titled opened with
  | nil => exact List.Sublist.refl _
  | cons line rest ih =>
      rw [ofLines, List.filterMap_cons, List.flatMap_cons]
      cases hrow : (ofLine titled opened line).sentence? with
      | none => exact (ih _ _).trans (List.sublist_append_right _ _)
      | some row =>
          rw [List.flatMap_cons, (sentence?_ofLine hrow).2]
          exact (List.Sublist.refl _).append (ih _ _)

end Entry

namespace Recipe

/-- All words of all sentences, in document order. -/
def words (recipe : Recipe) : List Word := recipe.sentences.flatMap Sentence.words

theorem sentences_ofText_sublist (text : String) :
    (ofText text).sentences.Sublist ((Entry.ofText text).filterMap Entry.sentence?) := by
  rw [← Entry.gather_sentences]
  exact List.sublist_append_right _ _

/-- **The words of the tree are words of the text**, in the same order. -/
theorem words_sublist (text : String) : (ofText text).words.Sublist (textWords text) :=
  ((sentences_ofText_sublist text).flatMap Sentence.words).trans
    (Entry.sentences_sublist false false _)

/-- Every sentence is a line of words. -/
theorem mem_sentences {text : String} {row : Sentence} (h : row ∈ (ofText text).sentences) :
    ∃ line ∈ placedLines text, line.IsWords ∧ row.words = line.words := by
  obtain ⟨entry, hentry, hrow⟩ :=
    List.mem_filterMap.mp ((sentences_ofText_sublist text).subset h)
  obtain ⟨titled, opened, line, hline, rfl⟩ := Entry.mem_ofLines hentry
  exact ⟨line, hline, Entry.sentence?_ofLine hrow⟩

/-- A line that is not one of words holds no word of the tree. -/
theorem not_mem_words_of_not_isWords {text : String} {line : PlacedLine} {word : Word}
    (hline : line ∈ placedLines text) (hnot : ¬ line.IsWords) (hword : word ∈ line.words) :
    word ∉ (ofText text).words := by
  intro hmem
  obtain ⟨row, hrow, hin⟩ := List.mem_flatMap.mp hmem
  obtain ⟨line', hline', hwords, hall⟩ := mem_sentences hrow
  rw [hall] at hin
  exact hnot (placedLine_unique hline' hline hin hword ▸ hwords)

end Recipe

end RecipeDesk
