import Mathlib.Data.List.Pairwise
import RecipeDesk.Proofs.Recipe.Picture
import RecipeDesk.Proofs.Text.Sequences

/-!
# What is found under a caret

A caret is looked up by lines and columns: the last section opened on its line or above, the
sentence of its line, the first word that ends at its column or behind. What it finds is told here
without following the search (`Location.IsAt`), and the word that it finds is told by character
numbers alone: it is the word of the tree that the caret touches (`locate_finds`).

Two facts carry this. The tree is in the order of the lines of its text
(`Recipe.contents_pairwise`), so a sentence on the line of the caret can only stand in the section
that is found (`Recipe.mem_sentences_of_last`). And every caret stands on a line of the text
(`exists_line_of_isIn`); on a line, columns and character numbers increase together and words never
touch, so a word touches the caret exactly when it is on its line and around its column
(`touches_iff`).
-/

namespace RecipeDesk

/-! ### Carets on lines -/

/-- Reading a beginning of some lines ends on one of them. -/
theorem exists_line_of_prefix {start : Position} {lines : List (List Char)} {before : List Char}
    (hne : lines ≠ []) (hlines : ∀ chars ∈ lines, '\n' ∉ chars) (h : before <+: joinLines lines) :
    ∃ line ∈ placeLines start lines, ∃ n ≤ line.chars.length,
      start.advanceAll before = line.start.right n := by
  induction lines generalizing start before with
  | nil => exact absurd rfl hne
  | cons chars lines ih =>
      obtain ⟨hchars, hrest⟩ := List.forall_mem_cons.mp hlines
      -- a beginning that does not reach the line break
      have hfirst (hshort : before <+: chars) :
          ∃ line ∈ placeLines start (chars :: lines), ∃ n ≤ line.chars.length,
            start.advanceAll before = line.start.right n :=
        ⟨⟨start, chars⟩, List.mem_cons_self, before.length, hshort.length_le,
          Position.advanceAll_of_not_mem _ fun hmem => hchars (hshort.subset hmem)⟩
      cases lines with
      | nil => exact hfirst h
      | cons next lines =>
          rw [joinLines] at h
          rcases List.prefix_or_prefix_of_prefix h (List.prefix_append _ _) with
            hshort | ⟨tail, rfl⟩
          · exact hfirst hshort
          · rcases List.prefix_cons_iff.mp ((List.prefix_append_right_inj chars).mp h) with
              rfl | ⟨later, rfl, hlater⟩
            · exact hfirst (by simp)
            · obtain ⟨line, hline, n, hn, hplace⟩ := ih (by simp) hrest hlater
              refine ⟨line, List.mem_cons_of_mem _ hline, n, hn, ?_⟩
              rw [Position.advanceAll_append, Position.advanceAll_cons, hplace]

/-- Every place of a text stands on one of its lines, or at the end of it. -/
theorem exists_line_of_isIn {text : String} {p : Position} (h : p.IsIn text) :
    ∃ line ∈ placedLines text, ∃ n ≤ line.chars.length, p = line.start.right n := by
  obtain ⟨before, hbefore, rfl⟩ := h
  rw [← joinLines_textLines text.toList] at hbefore
  exact exists_line_of_prefix (textLines_ne_nil _) (fun _ => newline_not_mem_textLines) hbefore

/-- Lines that share a character number, their ends included, are one line. -/
theorem placedLines_inj_of_offset {text : String} {a b : PlacedLine} (ha : a ∈ placedLines text)
    (hb : b ∈ placedLines text) {n m : Nat} (hn : n ≤ a.chars.length) (hm : m ≤ b.chars.length)
    (h : a.start.offset + n = b.start.offset + m) : a = b := by
  have hapart : (placedLines text).Pairwise fun a b =>
      a.start.offset + a.chars.length < b.start.offset ∨
        b.start.offset + b.chars.length < a.start.offset :=
    (placeLines_pairwise _ _).imp fun hlt => Or.inl hlt.1
  have : Std.Symm fun a b : PlacedLine => a.start.offset + a.chars.length < b.start.offset ∨
      b.start.offset + b.chars.length < a.start.offset := ⟨fun _ _ => Or.symm⟩
  by_contra hne
  have := hapart.forall ha hb hne
  omega

/-- **Touching by character numbers is touching by line and column.** -/
theorem touches_iff {text : String} {word : Word} {caret : Position} (hword : word ∈ textWords text)
    (hcaret : caret.IsIn text) :
    word.span.touches caret = true ↔ word.span.start.line = caret.line ∧
      word.span.start.column ≤ caret.column ∧ caret.column ≤ word.span.stop.column := by
  obtain ⟨line, hline, hmem⟩ := List.mem_flatMap.mp hword
  obtain ⟨run, hrun, rfl⟩ := List.mem_map.mp hmem
  obtain ⟨here, hhere, n, hn, rfl⟩ := exists_line_of_isIn hcaret
  obtain ⟨-, hstop, -⟩ := Run.mem_scan hrun
  have hle : run.column ≤ run.stop := Nat.le_add_right _ _
  rw [Span.touches, Bool.and_eq_true, decide_eq_true_eq, decide_eq_true_eq]
  simp only [PlacedLine.word, PlacedLine.span, Position.right]
  constructor
  · intro htouch
    obtain rfl : line = here := by
      refine placedLines_inj_of_offset (n := here.start.offset + n - line.start.offset) hline hhere
        ?_ hn ?_ <;> omega
    omega
  · intro hplace
    obtain ⟨hnumber, hcolumn⟩ := hplace
    obtain rfl := placedLines_inj hline hhere hnumber
    omega

/-! ### Sections and sentences -/

/-- What a caret belongs to, told without a search. -/
structure Location.IsAt (recipe : Recipe) (caret : Position) (location : Location) : Prop where
  /-- The last section whose heading is on the line of the caret or above. -/
  part : ∃ before after, recipe.sections = before ++ location.part :: after ∧
    location.part.heading.span.start.line ≤ caret.line ∧
    ∀ later ∈ after, caret.line < later.heading.span.start.line
  /-- The one sentence of the whole tree on the line of the caret. -/
  sentence : ∀ row, location.sentence = some row ↔
    row ∈ recipe.sentences ∧ row.span.OnLine caret.line
  /-- As many words as end before the caret. -/
  index : location.wordIndex caret = location.sentence.map fun row =>
    row.words.countP fun word => word.span.stop.column < caret.column

namespace Recipe

theorem sections_pairwise (text : String) :
    (∀ part ∈ (ofText text).sections, part.contents.Pairwise fun a b => a.line < b.line) ∧
      (ofText text).sections.Pairwise fun a b =>
        ∀ x ∈ a.contents, ∀ y ∈ b.contents, x.line < y.line :=
  List.pairwise_flatMap.mp (List.pairwise_append.mp (contents_pairwise text)).2.1

theorem line_lt_of_mem_sentences {text : String} {part : Section} {row : Sentence}
    (hpart : part ∈ (ofText text).sections) (hrow : row ∈ part.sentences) :
    part.heading.span.start.line < row.span.start.line :=
  (List.pairwise_cons.mp ((sections_pairwise text).1 part hpart)).1 _ (List.mem_map_of_mem hrow)

theorem sentences_pairwise {text : String} {part : Section}
    (hpart : part ∈ (ofText text).sections) :
    part.sentences.Pairwise fun a b => a.span.start.line < b.span.start.line := by
  have hsentences := (List.pairwise_cons.mp ((sections_pairwise text).1 part hpart)).2
  rw [List.pairwise_map] at hsentences
  exact hsentences

theorem onLine_iff {text : String} {row : Sentence} (h : row ∈ (ofText text).sentences) (n : Nat) :
    row.span.OnLine n ↔ row.span.start.line = n := by
  obtain ⟨part, hpart, hrow⟩ := List.mem_flatMap.mp h
  have hmem : .sentence part.heading row ∈ (ofText text).contents :=
    List.mem_append_right _ (List.mem_flatMap.mpr
      ⟨part, hpart, List.mem_cons_of_mem _ (List.mem_map_of_mem hrow)⟩)
  refine ⟨fun hline => hline.1, fun hline => ⟨hline, ?_⟩⟩
  exact (onLine_contents hmem).2.trans hline

section LastSection

variable {text : String} {before after : List Section} {part : Section} {n : Nat}
  (h : (ofText text).sections = before ++ part :: after)
  (hpart : part.heading.span.start.line ≤ n)
  (hafter : ∀ later ∈ after, n < later.heading.span.start.line)
include h hpart hafter

/-- A sentence below a heading and above the next one stands in the section between. -/
theorem mem_sentences_of_last {row : Sentence} (hrow : row ∈ (ofText text).sentences)
    (hline : row.span.start.line = n) : row ∈ part.sentences := by
  obtain ⟨other, hother, hmem⟩ := List.mem_flatMap.mp hrow
  have hbelow := line_lt_of_mem_sentences hother hmem
  have hordered := (sections_pairwise text).2
  rw [h] at hother hordered
  rcases List.mem_append.mp hother with hbefore | hother
  · have hlt : row.span.start.line < part.heading.span.start.line :=
      (List.pairwise_append.mp hordered).2.2 other hbefore part List.mem_cons_self
        (.sentence other.heading row) (List.mem_cons_of_mem _ (List.mem_map_of_mem hmem))
        (.part part.heading) List.mem_cons_self
    omega
  · rcases List.mem_cons.mp hother with rfl | hlater
    · exact hmem
    · have := hafter other hlater
      omega

/-- Looking in that section only finds what looking in the whole tree would find. -/
theorem find?_sentence_iff (row : Sentence) :
    (part.sentences.find? fun row => row.span.start.line == n) = some row ↔
      row ∈ (ofText text).sentences ∧ row.span.OnLine n := by
  have hmem : part ∈ (ofText text).sections := by simp [h]
  refine (find?_key_eq_some_iff (fun row : Sentence => row.span.start.line) n
    (sentences_pairwise hmem)).trans ?_
  constructor
  · intro hfound
    obtain ⟨hrow, hline⟩ := hfound
    have hrow : row ∈ (ofText text).sentences := List.mem_flatMap.mpr ⟨part, hmem, hrow⟩
    exact ⟨hrow, (onLine_iff hrow n).mpr hline⟩
  · intro hstands
    obtain ⟨hrow, hline⟩ := hstands
    exact ⟨mem_sentences_of_last h hpart hafter hrow hline.1, hline.1⟩

end LastSection

/-- Along a sentence every word begins behind the one before it, and ends behind its beginning. -/
theorem columns_increase {text : String} {row : Sentence} (h : row ∈ (ofText text).sentences) :
    row.words.Pairwise fun a b =>
      a.span.stop.column < b.span.start.column ∧ b.span.start.column ≤ b.span.stop.column := by
  obtain ⟨line, -, -, hwords⟩ := mem_sentences h
  rw [hwords, PlacedLine.words, List.pairwise_map]
  refine (Run.scan_pairwise 0 line.chars).imp ?_
  intro a b hab
  exact ⟨Nat.add_lt_add_left hab _, Nat.add_le_add_left (Nat.le_add_right _ _) _⟩

theorem locate_eq_none_iff (recipe : Recipe) (caret : Position) :
    recipe.locate caret = none ↔
      ∀ part ∈ recipe.sections, caret.line < part.heading.span.start.line := by
  simp [locate]

/-- **A caret is given the last section, and the sentence of its line.** -/
theorem locate_eq_some_iff (text : String) (caret : Position) (location : Location) :
    (ofText text).locate caret = some location ↔ location.IsAt (ofText text) caret := by
  rw [locate, Option.map_eq_some_iff]
  constructor
  · intro hfound
    obtain ⟨part, hfind, hlocation⟩ := hfound
    obtain ⟨hpart, after, before, hsplit, hafter⟩ := List.find?_eq_some_iff_append.mp hfind
    have hsections : (ofText text).sections = before.reverse ++ part :: after.reverse := by
      simpa using congrArg List.reverse hsplit
    have hpart : part.heading.span.start.line ≤ caret.line := by simpa using hpart
    have hafter : ∀ later ∈ after.reverse, caret.line < later.heading.span.start.line := by
      simpa using hafter
    have hsentence := find?_sentence_iff hsections hpart hafter
    subst hlocation
    refine ⟨⟨_, _, hsections, hpart, hafter⟩, hsentence, ?_⟩
    refine Option.map_congr fun row hrow => ?_
    have hstops := (columns_increase ((hsentence row).mp hrow).1).imp fun h =>
      Nat.lt_of_lt_of_le h.1 h.2
    exact findIdx_eq_countP (fun word : Word => word.span.stop.column) caret.column hstops
  · intro hat
    obtain ⟨⟨before, after, hsections, hpart, hafter⟩, hsentence, _⟩ := hat
    refine ⟨location.part, ?_, ?_⟩
    · rw [List.find?_eq_some_iff_append]
      refine ⟨by simpa using hpart, after.reverse, before.reverse, by simp [hsections], ?_⟩
      simpa using hafter
    · have hfound : (location.part.sentences.find? fun row => row.span.start.line == caret.line) =
          location.sentence :=
        Option.ext fun row => (find?_sentence_iff hsections hpart hafter row).trans
          (hsentence row).symm
      rw [hfound]

/-! ### Words -/

/-- The word a caret is given in a sentence is the one it touches. -/
theorem word?_eq_some_iff {text : String} {row : Sentence} {caret : Position} {part : Section}
    (hrow : row ∈ (ofText text).sentences) (hcaret : caret.IsIn text) (word : Word) :
    Location.word? ⟨part, some row⟩ caret = some word ↔
      word ∈ row.words ∧ word.span.touches caret = true := by
  rw [Location.word?, Option.filter_eq_some_iff, Location.indexIn, ← List.find?_eq_getElem?_findIdx]
  refine and_congr_left fun htouch => ⟨List.mem_of_find?_eq_some, fun hmem => ?_⟩
  have htext : ∀ other ∈ row.words, other ∈ textWords text := fun other hother =>
    (words_sublist text).subset (List.mem_flatMap.mpr ⟨row, hrow, hother⟩)
  obtain ⟨-, hstart, hstop⟩ := (touches_iff (htext word hmem) hcaret).mp htouch
  obtain ⟨before, after, hwords⟩ := List.append_of_mem hmem
  rw [List.find?_eq_some_iff_append]
  refine ⟨by simpa using hstop, before, after, hwords, ?_⟩
  -- the words before it end before it begins
  intro earlier hearlier
  have hordered := columns_increase hrow
  rw [hwords] at hordered
  have hends := (List.pairwise_append.mp hordered).2.2 earlier hearlier word List.mem_cons_self
  simpa using Nat.lt_of_lt_of_le hends.1 hstart

theorem line_of_mem_words {text : String} {row : Sentence} {word : Word}
    (hrow : row ∈ (ofText text).sentences) (hword : word ∈ row.words) :
    word.span.start.line = row.span.start.line := by
  obtain ⟨n, hline⟩ := (faithful_sentences text row hrow).one_line
  exact (hline word hword).1.trans (hline row.head List.mem_cons_self).1.symm

/-- **The word that a caret is given is the word of the tree that it touches.** -/
theorem wordAt?_eq_some_iff {text : String} {caret : Position} (hcaret : caret.IsIn text)
    (word : Word) : (ofText text).wordAt? caret = some word ↔
      word ∈ (ofText text).words ∧ word.span.touches caret = true := by
  rw [wordAt?, Option.bind_eq_some_iff]
  constructor
  · intro hfound
    obtain ⟨location, hlocate, hword⟩ := hfound
    have hat := (locate_eq_some_iff text caret location).mp hlocate
    obtain ⟨part, sentence⟩ := location
    cases sentence with
    | none => cases hword
    | some row =>
        have hrow := ((hat.sentence row).mp rfl).1
        obtain ⟨hmem, htouch⟩ := (word?_eq_some_iff hrow hcaret word).mp hword
        exact ⟨List.mem_flatMap.mpr ⟨row, hrow, hmem⟩, htouch⟩
  · intro hstands
    obtain ⟨hmem, htouch⟩ := hstands
    obtain ⟨row, hrow, hword⟩ := List.mem_flatMap.mp hmem
    obtain ⟨part, hpart, hin⟩ := List.mem_flatMap.mp hrow
    have hline := ((touches_iff ((words_sublist text).subset hmem) hcaret).mp htouch).1
    rw [line_of_mem_words hrow hword] at hline
    cases hlocate : (ofText text).locate caret with
    | none =>
        have habove := (locate_eq_none_iff _ _).mp hlocate part hpart
        have hbelow := line_lt_of_mem_sentences hpart hin
        omega
    | some location =>
        have hat := (locate_eq_some_iff text caret location).mp hlocate
        have hsentence := (hat.sentence row).mpr ⟨hrow, (onLine_iff hrow _).mpr hline⟩
        refine ⟨location, rfl, ?_⟩
        obtain ⟨part, sentence⟩ := location
        obtain rfl : sentence = some row := hsentence
        exact (word?_eq_some_iff hrow hcaret word).mpr ⟨hword, htouch⟩

/-- Words that never touch are never touched by one caret. -/
theorem length_filter_touches (text : String) (caret : Position) :
    ((ofText text).words.filter fun word => word.span.touches caret).length ≤ 1 := by
  have hapart := ((textWords_before text).sublist (words_sublist text)).filter
    fun word => word.span.touches caret
  have htouch : ∀ word ∈ (ofText text).words.filter fun word => word.span.touches caret,
      word.span.start.offset ≤ caret.offset ∧ caret.offset ≤ word.span.stop.offset := by
    intro word hword
    simpa [Span.touches] using (List.mem_filter.mp hword).2
  generalize (ofText text).words.filter (fun word => word.span.touches caret) = touched
    at hapart htouch ⊢
  cases touched with
  | nil => simp
  | cons a rest =>
      cases rest with
      | nil => simp
      | cons b rest =>
          have hab : a.Before b := (List.pairwise_cons.mp hapart).1 b List.mem_cons_self
          have ha := htouch a List.mem_cons_self
          have hb := htouch b (List.mem_cons_of_mem _ List.mem_cons_self)
          rw [Word.Before] at hab
          omega

/-- A word is found from every caret between its start and its end. -/
theorem wordAt?_position {text : String} {word : Word} (h : word ∈ (ofText text).words) {c : Nat}
    (hstart : word.span.start.column ≤ c) (hstop : c ≤ word.span.stop.column) :
    (ofText text).wordAt? ((Lines.ofText text).position word.span.start.line c) = some word := by
  have hword := (words_sublist text).subset h
  obtain ⟨line, hline, hmem⟩ := List.mem_flatMap.mp hword
  obtain ⟨run, hrun, rfl⟩ := List.mem_map.mp hmem
  obtain ⟨-, hend, -⟩ := Run.mem_scan hrun
  obtain ⟨n, rfl⟩ := Nat.exists_eq_add_of_le (Nat.le_of_add_right_le hstart)
  have hn : n ≤ run.stop := Nat.le_of_add_le_add_left hstop
  have hplace : (line.start.right n).IsIn text := PlacedLine.isIn_right hline (by omega)
  have hcaret : (Lines.ofText text).position (line.word run).span.start.line
      (line.start.column + n) = line.start.right n := (Lines.has_of_isIn hplace).by_column
  rw [hcaret, wordAt?_eq_some_iff hplace]
  exact ⟨h, (touches_iff hword hplace).mpr ⟨rfl, hstart, hstop⟩⟩

end Recipe

/-- **What is found under a caret is what stands there.** Nothing is found exactly when every
section is opened below the caret; otherwise it is the last section opened on its line or above,
with the one sentence of the tree on its line, and the number of words that end before it. So the
word that is found is the one word of the tree that the caret touches, and every word is found from
every caret between its start and its end. -/
theorem locate_finds (text : String) (line column : Nat) :
    let recipe := Recipe.ofText text
    let lines := Lines.ofText text
    let caret := lines.position line column
    (recipe.locate caret = none ↔
        ∀ part ∈ recipe.sections, caret.line < part.heading.span.start.line) ∧
      (∀ location, recipe.locate caret = some location ↔ location.IsAt recipe caret) ∧
      (∀ word, recipe.wordAt? caret = some word ↔
        word ∈ recipe.words ∧ word.span.touches caret = true) ∧
      (recipe.words.filter fun word => word.span.touches caret).length ≤ 1 ∧
      ∀ word ∈ recipe.words, ∀ c, word.span.start.column ≤ c → c ≤ word.span.stop.column →
        recipe.wordAt? (lines.position word.span.start.line c) = some word := by
  intro recipe lines caret
  have hcaret : caret.IsIn text := Lines.isIn_position text line column
  exact ⟨Recipe.locate_eq_none_iff recipe caret, Recipe.locate_eq_some_iff text caret,
    Recipe.wordAt?_eq_some_iff hcaret, Recipe.length_filter_touches text caret,
    fun _ hword _ hstart hstop => Recipe.wordAt?_position hword hstart hstop⟩

/-- A caret asked for behind the end of a line stands at its end, and touches the last word. -/
theorem locate_finds_behind_line :
    let text := "# Soup\n## Stock\nboil  water\n# Late"
    let water : Word := ⟨"water", ⟨⟨22, 2, 6⟩, ⟨27, 2, 11⟩⟩⟩
    let caret := (Lines.ofText text).position 2 40
    caret = ⟨27, 2, 11⟩ ∧ water ∈ (Recipe.ofText text).words ∧
      (Recipe.ofText text).wordAt? caret = some water ∧
      (Recipe.ofText text).wordAt? ((Lines.ofText text).position 2 6) = some water := by
  intro text water caret
  have hcaret : (Lines.ofText text).position 2 40 = ⟨27, 2, 11⟩ := by decide +kernel
  have hwords : (Recipe.ofText text).words = [⟨"boil", ⟨⟨16, 2, 0⟩, ⟨20, 2, 4⟩⟩⟩, water] := by
    decide +kernel
  have hwater : water ∈ (Recipe.ofText text).words := by simp [hwords]
  obtain ⟨-, -, hword, -, hall⟩ := locate_finds text 2 40
  exact ⟨hcaret, hwater, (hword water).mpr ⟨hwater, hcaret ▸ rfl⟩,
    hall water hwater 6 (by decide) (by decide)⟩

end RecipeDesk
