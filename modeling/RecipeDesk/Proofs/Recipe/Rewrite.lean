import Mathlib.Data.List.Forall2
import RecipeDesk.Proofs.Recipe.Places
import RecipeDesk.Proofs.Text.Splice

/-!
# Writing a new name over chosen words

Some words of a text are chosen, and a new name is written over each of them. This module follows
what becomes of the text and of its tree.

* On the text: the edits of the chosen words, applied in one pass, rewrite every line by itself
  (`applyAll_wordEdits`). `Run.rewrite` is that rewriting of one line.
* On the tree: if the new name reads back as one word and no heading is touched, every line stays
  what it was, so the new tree has the same title, the same section headings and the same rows of
  words, with the new name in the place of the chosen words (`reading_rewritten`).

`Recipe.reading` is what is left of a tree without its places: the texts alone.
-/

namespace RecipeDesk

/-! ### Rewriting the words of a line -/

namespace Run

/-- A stretch of line with `read run` in the place of every run. -/
def rewrite (read : Run → List Char) (column : Nat) : List Char → List Char
  | [] => []
  | c :: cs =>
    if isWordBlank c then c :: rewrite read (column + 1) cs
    else
      let chars := c :: cs.takeWhile (!isWordBlank ·)
      read ⟨column, chars⟩ ++
        rewrite read (column + chars.length) (cs.dropWhile (!isWordBlank ·))
termination_by cs => cs.length
decreasing_by
  · exact Nat.lt_succ_self _
  · exact Nat.lt_succ_of_le (List.dropWhile_sublist _).length_le

variable (read : Run → List Char)

theorem rewrite_nil (column : Nat) : rewrite read column [] = [] := by
  rw [rewrite]

theorem rewrite_blank {c : Char} (column : Nat) (cs : List Char) (hc : isWordBlank c = true) :
    rewrite read column (c :: cs) = c :: rewrite read (column + 1) cs := by
  rw [rewrite, if_pos hc]

theorem rewrite_word {w rest : List Char} (column : Nat) (hw : IsWordText w)
    (hrest : StopsWord rest) :
    rewrite read column (w ++ rest) =
      read ⟨column, w⟩ ++ rewrite read (column + w.length) rest := by
  obtain ⟨c, cs, rfl, hc, htake, hdrop⟩ := hw.cut hrest
  rw [List.cons_append, rewrite, if_neg (by simp [hc]), htake, hdrop]

variable {read}

theorem stopsWord_rewrite {rest : List Char} (column : Nat) (hrest : StopsWord rest) :
    StopsWord (rewrite read column rest) := by
  cases rest with
  | nil =>
      rw [rewrite_nil]
      exact stopsWord_nil
  | cons c cs =>
      have hc := hrest c rfl
      rw [rewrite_blank read column cs hc]
      exact stopsWord_cons hc

/-- Runs up to the column `edge` keep their distance from the beginning of the stretch, if nothing
before `edge` is rewritten. -/
theorem forall₂_scan_rewrite {column : Nat} {cs : List Char}
    (edge column' : Nat) (hread : ∀ run ∈ scan column cs, IsWordText (read run))
    (hkept : ∀ run ∈ scan column cs, run.column < edge → read run = run.chars) :
    List.Forall₂ (fun run run' => run'.chars = read run ∧
        (run.column ≤ edge → column + run'.column = column' + run.column))
      (scan column cs) (scan column' (rewrite read column cs)) := by
  induction cs using stretch_induction generalizing column column' with
  | nil =>
      rw [rewrite_nil, scan_nil, scan_nil]
      exact .nil
  | blank c cs hc ih =>
      rw [scan_blank column cs hc] at hread hkept ⊢
      rw [rewrite_blank read column cs hc, scan_blank column' _ hc]
      refine (ih (column' + 1) hread hkept).imp ?_
      rintro run run' ⟨hchars, hcolumn⟩
      refine ⟨hchars, fun hle => ?_⟩
      have := hcolumn hle
      omega
  | word w rest hw hrest ih =>
      rw [scan_word column hw hrest] at hread hkept ⊢
      obtain ⟨hfirst, hread⟩ := List.forall_mem_cons.mp hread
      obtain ⟨hkeptfirst, hkept⟩ := List.forall_mem_cons.mp hkept
      rw [rewrite_word read column hw hrest, scan_word column' hfirst (stopsWord_rewrite _ hrest)]
      refine .cons ⟨rfl, fun _ => Nat.add_comm _ _⟩ ?_
      -- a later run begins behind this one, so this one is kept if the later one is to be
      have hbehind : ∀ run ∈ scan (column + w.length) rest, column < run.column := by
        intro run hrun
        have := column_lt_of_mem_scan hrest hrun
        omega
      have htail := (List.forall₂_and_left _ _).mpr
        ⟨hbehind, ih (column' + (read ⟨column, w⟩).length) hread hkept⟩
      refine htail.imp ?_
      rintro run run' ⟨hlt, hchars, hcolumn⟩
      refine ⟨hchars, fun hle => ?_⟩
      have hlength := congrArg List.length (hkeptfirst (Nat.lt_of_lt_of_le hlt hle))
      have := hcolumn hle
      dsimp only at hlength
      omega

/-- The runs of the rewritten stretch are what was written for the runs of the old one. -/
theorem scan_rewrite {column : Nat} {cs : List Char} (column' : Nat)
    (h : ∀ run ∈ scan column cs, IsWordText (read run)) :
    (scan column' (rewrite read column cs)).map Run.chars = (scan column cs).map read := by
  have hruns := forall₂_scan_rewrite 0 column' h fun _ _ hlt => absurd hlt (Nat.not_lt_zero _)
  rw [eq_comm, ← List.forall₂_eq_eq_eq, List.forall₂_map_left_iff, List.forall₂_map_right_iff]
  exact hruns.imp fun _ _ h => h.1.symm

theorem rewrite_self {column : Nat} {cs : List Char}
    (h : ∀ run ∈ scan column cs, read run = run.chars) : rewrite read column cs = cs := by
  induction cs using stretch_induction generalizing column with
  | nil => exact rewrite_nil read column
  | blank c cs hc ih =>
      rw [scan_blank column cs hc] at h
      rw [rewrite_blank read column cs hc, ih h]
  | word w rest hw hrest ih =>
      rw [scan_word column hw hrest] at h
      rw [rewrite_word read column hw hrest, h _ List.mem_cons_self,
        ih fun run hrun => h run (List.mem_cons_of_mem _ hrun)]

/-- Rewriting twice is rewriting once, by what stands there in the end. -/
theorem rewrite_rewrite {read' target : Run → List Char} {column : Nat} {cs : List Char}
    (column' : Nat) (hread : ∀ run ∈ scan column cs, IsWordText (read run))
    (h : List.Forall₂ (fun run run' => read' run' = target run) (scan column cs)
      (scan column' (rewrite read column cs))) :
    rewrite read' column' (rewrite read column cs) = rewrite target column cs := by
  induction cs using stretch_induction generalizing column column' with
  | nil => rw [rewrite_nil, rewrite_nil, rewrite_nil]
  | blank c cs hc ih =>
      rw [scan_blank column cs hc] at hread h
      rw [rewrite_blank read column cs hc] at h ⊢
      rw [scan_blank column' _ hc] at h
      rw [rewrite_blank read' column' _ hc, rewrite_blank target column cs hc, ih _ hread h]
  | word w rest hw hrest ih =>
      rw [scan_word column hw hrest] at hread h
      obtain ⟨hfirst, hread⟩ := List.forall_mem_cons.mp hread
      have hstops : StopsWord (rewrite read (column + w.length) rest) := stopsWord_rewrite _ hrest
      rw [rewrite_word read column hw hrest] at h ⊢
      rw [scan_word column' hfirst hstops] at h
      obtain ⟨hword, hlater⟩ := List.forall₂_cons.mp h
      rw [rewrite_word read' column' hfirst hstops, rewrite_word target column hw hrest, hword,
        ih _ hread hlater]

/-- A character of the rewritten stretch stands in the old one or in something written. -/
theorem mem_rewrite {column : Nat} {cs : List Char} {c : Char} (h : c ∈ rewrite read column cs) :
    c ∈ cs ∨ ∃ run ∈ scan column cs, c ∈ read run := by
  induction cs using stretch_induction generalizing column with
  | nil => simp [rewrite_nil] at h
  | blank d cs hd ih =>
      rw [rewrite_blank read column cs hd] at h
      rw [scan_blank column cs hd]
      rcases List.mem_cons.mp h with rfl | h
      · exact Or.inl List.mem_cons_self
      · exact (ih h).imp_left (List.mem_cons_of_mem _)
  | word w rest hw hrest ih =>
      rw [rewrite_word read column hw hrest] at h
      rw [scan_word column hw hrest]
      rcases List.mem_append.mp h with h | h
      · exact Or.inr ⟨_, List.mem_cons_self, h⟩
      · rcases ih h with h | ⟨run, hrun, h⟩
        · exact Or.inl (List.mem_append_right _ h)
        · exact Or.inr ⟨run, List.mem_cons_of_mem _ hrun, h⟩

end Run

/-! ### The edits of the chosen words -/

variable (chosen : Word → Bool) (newName : String)

/-- One edit for each chosen word, in the order of the words. -/
def wordEdits (words : List Word) : List Edit :=
  (words.filter chosen).map fun word => ⟨word.span, newName⟩

/-- How a word reads afterwards. -/
def rewrittenText (word : Word) : String := if chosen word then newName else word.text

/-- A line with the new name over its chosen words. -/
def PlacedLine.rewritten (line : PlacedLine) : List Char :=
  Run.rewrite (fun run => (rewrittenText chosen newName (line.word run)).toList) 0 line.chars

/-- A text with the new name over its chosen words. -/
def rewrittenLines (text : String) : List (List Char) :=
  (placedLines text).map (PlacedLine.rewritten chosen newName)

theorem wordEdits_cons (word : Word) (words : List Word) :
    wordEdits chosen newName (word :: words) =
      if chosen word then ⟨word.span, newName⟩ :: wordEdits chosen newName words
      else wordEdits chosen newName words := by
  unfold wordEdits
  cases hchosen : chosen word <;> simp [hchosen]

theorem wordEdits_append (words words' : List Word) :
    wordEdits chosen newName (words ++ words') =
      wordEdits chosen newName words ++ wordEdits chosen newName words' := by
  simp only [wordEdits, List.filter_append, List.map_append]

/-- Edits of words from `offset` on start from there, whatever edits follow behind. -/
theorem startsFrom_wordEdits {offset : Nat} {words : List Word} {later : List Edit}
    (h : ∀ word ∈ words, offset ≤ word.span.start.offset ∧
      word.span.start.offset ≤ word.span.stop.offset)
    (hlater : Edit.StartsFrom offset later) :
    Edit.StartsFrom offset (wordEdits chosen newName words ++ later) := by
  intro edit hedit
  cases hfirst : wordEdits chosen newName words with
  | nil =>
      rw [hfirst] at hedit
      exact hlater edit hedit
  | cons first rest =>
      obtain rfl : first = edit := by simpa [hfirst] using hedit
      have hmem : first ∈ wordEdits chosen newName words := by
        rw [hfirst]
        exact List.mem_cons_self
      obtain ⟨word, hword, rfl⟩ := List.mem_map.mp hmem
      exact h word (List.mem_filter.mp hword).1

theorem startsFrom_scan (line : PlacedLine) (column : Nat) (cs : List Char) {later : List Edit}
    (hlater : Edit.StartsFrom (line.start.offset + column + cs.length) later) :
    Edit.StartsFrom (line.start.offset + column)
      (wordEdits chosen newName ((Run.scan column cs).map line.word) ++ later) := by
  refine startsFrom_wordEdits chosen newName ?_ (hlater.mono (Nat.le_add_right _ _))
  intro word hword
  obtain ⟨run, hrun, rfl⟩ := List.mem_map.mp hword
  have := Run.mem_scan hrun
  simp only [PlacedLine.start_offset_word, PlacedLine.stop_offset_word, Run.stop]
  omega

/-- Applying the edits of a stretch of line rewrites it, and leaves the text behind to the edits
behind. -/
theorem splice_wordEdits (line : PlacedLine) (column : Nat) (cs tail : List Char)
    {later : List Edit}
    (hlater : Edit.StartsFrom (line.start.offset + column + cs.length) later) :
    Edit.splice (line.start.offset + column) (cs ++ tail)
        (wordEdits chosen newName ((Run.scan column cs).map line.word) ++ later) =
      Run.rewrite (fun run => (rewrittenText chosen newName (line.word run)).toList) column cs ++
        Edit.splice (line.start.offset + column + cs.length) tail later := by
  induction cs using stretch_induction generalizing column with
  | nil =>
      rw [Run.scan_nil, Run.rewrite_nil]
      rfl
  | blank c cs hc ih =>
      have hstop : line.start.offset + column + (c :: cs).length =
          line.start.offset + (column + 1) + cs.length := by
        simp only [List.length_cons]
        omega
      rw [hstop] at hlater ⊢
      rw [Run.scan_blank column cs hc, Run.rewrite_blank _ column cs hc, List.cons_append,
        List.cons_append, ← ih (column + 1) hlater]
      exact Edit.splice_keep [c] (cs ++ tail)
        (startsFrom_scan chosen newName line (column + 1) cs hlater)
  | word w rest hw hrest ih =>
      have hstop : line.start.offset + column + (w ++ rest).length =
          line.start.offset + (column + w.length) + rest.length := by
        simp only [List.length_append]
        omega
      rw [hstop] at hlater ⊢
      rw [Run.scan_word column hw hrest, Run.rewrite_word _ column hw hrest, List.append_assoc,
        List.append_assoc, ← ih (column + w.length) hlater, List.map_cons]
      have hfrom : Edit.StartsFrom (line.start.offset + (column + w.length))
          (wordEdits chosen newName ((Run.scan (column + w.length) rest).map line.word) ++ later) :=
        startsFrom_scan chosen newName line (column + w.length) rest hlater
      rw [wordEdits_cons, rewrittenText]
      rw [← Nat.add_assoc] at hfrom ⊢
      cases hchosen : chosen (line.word ⟨column, w⟩) with
      | true =>
          -- the word is the span of the first edit
          have hstop' : (line.word ⟨column, w⟩).span.stop.offset =
              line.start.offset + column + w.length := by
            rw [PlacedLine.stop_offset_word, Run.stop, Nat.add_assoc]
          exact Edit.splice_replace w (rest ++ tail) rfl hstop'
      | false =>
          have hsame : (line.word ⟨column, w⟩).text.toList = w := String.toList_ofList
          simp only [Bool.false_eq_true, if_false, hsame]
          exact Edit.splice_keep w (rest ++ tail) hfrom

/-- The same for a whole line. -/
theorem splice_line (line : PlacedLine) (tail : List Char) {later : List Edit}
    (hlater : Edit.StartsFrom (line.start.offset + line.chars.length) later) :
    Edit.splice line.start.offset (line.chars ++ tail)
        (wordEdits chosen newName line.words ++ later) =
      line.rewritten chosen newName ++
        Edit.splice (line.start.offset + line.chars.length) tail later :=
  splice_wordEdits chosen newName line 0 line.chars tail hlater

theorem startsFrom_lines (start : Position) (lines : List (List Char)) :
    Edit.StartsFrom start.offset
      (wordEdits chosen newName ((placeLines start lines).flatMap PlacedLine.words)) := by
  rw [← List.append_nil (wordEdits _ _ _)]
  refine startsFrom_wordEdits chosen newName ?_ (Edit.startsFrom_nil _)
  intro word hword
  obtain ⟨line, hline, hword⟩ := List.mem_flatMap.mp hword
  have := mem_placeLines hline
  have := PlacedLine.mem_words hword
  omega

/-- The edits of a sequence of lines rewrite each line. -/
theorem splice_lines (start : Position) (lines : List (List Char)) :
    Edit.splice start.offset (joinLines lines)
        (wordEdits chosen newName ((placeLines start lines).flatMap PlacedLine.words)) =
      joinLines ((placeLines start lines).map (PlacedLine.rewritten chosen newName)) := by
  induction lines generalizing start with
  | nil => rfl
  | cons chars rest ih =>
      rw [placeLines, List.flatMap_cons, wordEdits_append, List.map_cons]
      cases rest with
      | nil =>
          have hline := splice_line chosen newName ⟨start, chars⟩ [] (Edit.startsFrom_nil _)
          rw [List.append_nil] at hline
          exact hline.trans (List.append_nil _)
      | cons next rest =>
          have hbreak := (start.offset_line_break chars).1
          have hnext := startsFrom_lines chosen newName ((start.advanceAll chars).advance '\n')
            (next :: rest)
          have ihnext := ih ((start.advanceAll chars).advance '\n')
          rw [hbreak] at hnext ihnext
          rw [joinLines, splice_line chosen newName ⟨start, chars⟩ _ (hnext.mono (Nat.le_succ _))]
          have hkeep := Edit.splice_keep ['\n'] (joinLines (next :: rest)) hnext
          rw [List.singleton_append] at hkeep
          rw [hkeep, List.length_singleton, ihnext]
          rfl

theorem wordEdits_sorted (text : String) :
    (wordEdits chosen newName (textWords text)).Pairwise
      fun a b => a.span.start.offset < b.span.start.offset := by
  rw [wordEdits, List.pairwise_map]
  exact starts_increase List.filter_sublist

/-- The text after the edits of its chosen words, line by line. -/
theorem applyAll_wordEdits (text : String) :
    Edit.applyAll text (wordEdits chosen newName (textWords text)) =
      String.ofList (joinLines (rewrittenLines chosen newName text)) := by
  have hsorted := wordEdits_sorted chosen newName text
  have hsplice := splice_lines chosen newName .origin (textLines text.toList)
  rw [joinLines_textLines] at hsplice
  rw [Edit.applyAll, Edit.sort_eq_of_perm hsorted (List.Perm.refl _)]
  exact congrArg String.ofList hsplice

/-! ### What a tree reads -/

/-- The texts of a section: its heading and its rows of words, every word as `read` has it. -/
def Section.reading (read : Word → String) (part : Section) : String × List (List String) :=
  (part.heading.text, part.sentences.map fun row => row.words.map read)

/-- The texts of a recipe: its title and its sections. -/
def Recipe.reading (read : Word → String) (recipe : Recipe) :
    Option String × List (String × List (List String)) :=
  (recipe.title.map Heading.text, recipe.sections.map (Section.reading read))

/-- The second line is of the same kind as the first, with the same heading or with the words that
`read` has for those of the first. -/
inductive Line.Reads (read : Run → String) : Line → Line → Prop where
  | blank : Reads read .blank .blank
  | heading {depth start stop start' stop' : Nat} {text : String} :
    Reads read (.heading depth start stop text) (.heading depth start' stop' text)
  | words {first first' : Run} {others others' : List Run}
    (h : (first' :: others').map (fun run => String.ofList run.chars) =
      (first :: others).map read) :
    Reads read (.words first others) (.words first' others')

/-- `chars` is a line like `line`, but its words read as `read` has them. -/
def PlacedLine.Reads (read : Word → String) (line : PlacedLine) (chars : List Char) : Prop :=
  Line.Reads (fun run => read (line.word run)) (Line.ofChars line.chars) (Line.ofChars chars)

/-- The second entry is what becomes of the first when its words read as `read` has them. -/
inductive Entry.Reads (read : Word → String) : Entry → Entry → Prop where
  | nothing : Reads read .nothing .nothing
  | title {heading heading' : Heading} (h : heading'.text = heading.text) :
    Reads read (.title heading) (.title heading')
  | opening {heading heading' : Heading} (h : heading'.text = heading.text) :
    Reads read (.opening heading) (.opening heading')
  | sentence {row row' : Sentence} (h : row'.words.map Word.text = row.words.map read) :
    Reads read (.sentence row) (.sentence row')
  | misplaced {finding finding' : Finding} (h : finding'.problem = finding.problem) :
    Reads read (.misplaced finding) (.misplaced finding')

namespace Entry

variable {read : Word → String}

/-- One line: what it contributes depends on its kind and on the lines before only. -/
theorem Reads.ofLine (titled opened : Bool) {line line' : PlacedLine}
    (h : line.Reads read line'.chars) :
    Reads read (Entry.ofLine titled opened line) (Entry.ofLine titled opened line') := by
  unfold PlacedLine.Reads at h
  unfold Entry.ofLine
  cases hold : Line.ofChars line.chars <;> cases hnew : Line.ofChars line'.chars <;>
    rw [hold, hnew] at h <;> cases h
  case blank.blank => exact .nothing
  case heading.heading =>
      dsimp only
      split <;> split
      · exact .misplaced rfl
      · exact .title rfl
      · exact .opening rfl
      · exact .misplaced rfl
  case words.words h =>
      dsimp only
      split
      · refine .sentence ?_
        simpa [Sentence.words, PlacedLine.word, Function.comp_def] using h
      · exact .misplaced rfl

theorem Reads.title?_isSome {entry entry' : Entry} (h : Reads read entry entry') :
    entry'.title?.isSome = entry.title?.isSome := by
  cases h <;> rfl

theorem Reads.opening?_isSome {entry entry' : Entry} (h : Reads read entry entry') :
    entry'.opening?.isSome = entry.opening?.isSome := by
  cases h <;> rfl

/-- All lines: the facts about the lines before stay the same from line to line, so whatever else
holds of the entries of two lines under the same facts holds of their entries in the text. -/
theorem forall₂_ofLines {Q : Entry → Entry → Prop} (titled opened : Bool)
    {lines lines' : List PlacedLine}
    (h : List.Forall₂ (fun line line' => line.Reads read line'.chars ∧ ∀ titled opened,
      Q (Entry.ofLine titled opened line) (Entry.ofLine titled opened line')) lines lines') :
    List.Forall₂ (fun entry entry' => Reads read entry entry' ∧ Q entry entry')
      (Entry.ofLines titled opened lines) (Entry.ofLines titled opened lines') := by
  induction h generalizing titled opened with
  | nil => exact .nil
  | cons hline _ ih =>
      have hentry := Reads.ofLine titled opened hline.1
      simp only [Entry.ofLines, hentry.title?_isSome, hentry.opening?_isSome]
      exact .cons ⟨hentry, hline.2 titled opened⟩ (ih _ _)

theorem Reads.ofLines (titled opened : Bool) {lines lines' : List PlacedLine}
    (h : List.Forall₂ (fun line line' => line.Reads read line'.chars) lines lines') :
    List.Forall₂ (Reads read) (Entry.ofLines titled opened lines)
      (Entry.ofLines titled opened lines') :=
  (forall₂_ofLines (Q := fun _ _ => True) titled opened
    (h.imp fun _ _ hline => ⟨hline, fun _ _ => trivial⟩)).imp fun _ _ hentry => hentry.1

theorem title_of_reads {entries entries' : List Entry}
    (h : List.Forall₂ (Reads read) entries entries') :
    (entries'.findSome? title?).map Heading.text = (entries.findSome? title?).map Heading.text := by
  induction h with
  | nil => rfl
  | cons hentry _ ih =>
      cases hentry with
      | title htext => simpa [List.findSome?_cons, title?] using htext
      | _ => simpa [List.findSome?_cons, title?] using ih

/-- The rows of words before the first section, and the sections, read as the old ones do. -/
theorem gather_of_reads {entries entries' : List Entry}
    (h : List.Forall₂ (Reads read) entries entries') :
    ((Entry.gather entries').1.map fun row => row.words.map Word.text) =
        ((Entry.gather entries).1.map fun row => row.words.map read) ∧
      (Entry.gather entries').2.map (Section.reading Word.text) =
        (Entry.gather entries).2.map (Section.reading read) := by
  induction h with
  | nil => exact ⟨rfl, rfl⟩
  | cons hentry _ ih =>
      obtain ⟨hrows, hsections⟩ := ih
      cases hentry with
      | opening htext => simp [Entry.gather, Section.reading, htext, hrows, hsections]
      | sentence hwords => simp [Entry.gather, hwords, hrows, hsections]
      | _ => exact ⟨hrows, hsections⟩

end Entry

/-! ### The tree of the rewritten text -/

/-- A name that reads back as one word wherever it is written over one: on its line it adds no
blank and no line break, and it makes no heading. -/
structure IsName (name : String) : Prop where
  word : IsWordText name.toList
  not_heading : name.toList.head? ≠ some '#'
  one_line : '\n' ∉ name.toList

theorem Line.ofChars_of_scan {cs : List Char} {first : Run} {others : List Run}
    (hscan : Run.scan 0 cs = first :: others) (hhead : first.chars.head? ≠ some '#') :
    Line.ofChars cs = .words first others := by
  rw [ofChars, hscan]
  exact if_neg hhead

theorem Line.head?_of_words {cs : List Char} {first : Run} {others : List Run}
    (h : Line.ofChars cs = .words first others) : first.chars.head? ≠ some '#' := by
  intro hhead
  rw [ofChars, scan_of_words h] at h
  simp [hhead, headingOf] at h

theorem PlacedLine.rewritten_of_not_chosen {line : PlacedLine}
    (h : ∀ word ∈ line.words, chosen word = false) :
    line.rewritten chosen newName = line.chars := by
  refine Run.rewrite_self fun run hrun => ?_
  rw [rewrittenText, if_neg (by simp [h _ (List.mem_map_of_mem hrun)])]
  exact String.toList_ofList

theorem isWordText_rewrittenText {line : PlacedLine} {run : Run} (hname : IsName newName)
    (hrun : run ∈ Run.scan 0 line.chars) :
    IsWordText (rewrittenText chosen newName (line.word run)).toList := by
  unfold rewrittenText
  split
  · exact hname.word
  · rw [PlacedLine.word, String.toList_ofList]
    exact (Run.mem_scan hrun).2.2

/-- A rewritten line is what the line was, if its words are written over by names, or by nothing. -/
theorem PlacedLine.rewritten_reads {line : PlacedLine} (hname : IsName newName)
    (h : ¬ line.IsWords → ∀ word ∈ line.words, chosen word = false) :
    line.Reads (rewrittenText chosen newName) (line.rewritten chosen newName) := by
  unfold PlacedLine.Reads
  by_cases hwords : line.IsWords
  · obtain ⟨first, others, hline⟩ := hwords
    have hscan := Line.scan_of_words hline
    have hnew := Run.scan_rewrite 0 fun run (hrun : run ∈ Run.scan 0 line.chars) =>
      isWordText_rewrittenText chosen newName hname hrun
    rw [hscan] at hnew
    rw [hline]
    rw [← rewritten] at hnew
    cases hscan' : Run.scan 0 (line.rewritten chosen newName) with
    | nil => simp [hscan'] at hnew
    | cons first' others' =>
        rw [hscan'] at hnew
        have hfirst : first'.chars = (rewrittenText chosen newName (line.word first)).toList :=
          (List.cons.inj hnew).1
        have hhead : first'.chars.head? ≠ some '#' := by
          rw [hfirst, rewrittenText]
          split
          · exact hname.not_heading
          · rw [PlacedLine.word, String.toList_ofList]
            exact Line.head?_of_words hline
        rw [Line.ofChars_of_scan hscan' hhead]
        refine .words ?_
        have htexts := congrArg (List.map String.ofList) hnew
        simpa only [List.map_map, Function.comp_def, String.ofList_toList] using htexts
  · rw [rewritten_of_not_chosen chosen newName (h hwords)]
    cases hline : Line.ofChars line.chars with
    | blank => exact .blank
    | heading depth start stop text => exact .heading
    | words first others => exact absurd ⟨first, others, hline⟩ hwords

theorem newline_not_mem_rewritten {line : PlacedLine} (hname : IsName newName)
    (h : '\n' ∉ line.chars) : '\n' ∉ line.rewritten chosen newName := by
  intro hmem
  rcases Run.mem_rewrite hmem with hmem | ⟨run, hrun, hmem⟩
  · exact h hmem
  · unfold rewrittenText at hmem
    split at hmem
    · exact hname.one_line hmem
    · rw [PlacedLine.word, String.toList_ofList] at hmem
      exact h (Run.chars_subset_of_mem_scan hrun hmem)

/-- The lines of the rewritten text are the rewritten lines. -/
theorem placedLines_rewritten (hname : IsName newName) (text : String) :
    placedLines (String.ofList (joinLines (rewrittenLines chosen newName text))) =
      placeLines .origin (rewrittenLines chosen newName text) := by
  rw [placedLines, String.toList_ofList, textLines_joinLines]
  · intro hnil
    have hlines : (placedLines text).map PlacedLine.chars = [] := by
      rw [List.map_eq_nil_iff.mp hnil, List.map_nil]
    rw [placedLines, map_chars_placeLines] at hlines
    exact textLines_ne_nil _ hlines
  · intro chars hchars
    obtain ⟨line, hline, rfl⟩ := List.mem_map.mp hchars
    exact newline_not_mem_rewritten chosen newName hname (newline_not_mem_placedLines hline)

theorem forall₂_placeLines {R : PlacedLine → List Char → Prop} {f : PlacedLine → List Char}
    {lines : List PlacedLine} (h : ∀ line ∈ lines, R line (f line)) (start : Position) :
    List.Forall₂ (fun line line' => R line line'.chars) lines
      (placeLines start (lines.map f)) := by
  induction lines generalizing start with
  | nil => exact .nil
  | cons line rest ih =>
      exact .cons (h line List.mem_cons_self)
        (ih (fun line' hline' => h line' (List.mem_cons_of_mem _ hline')) _)

/-- **The tree of the rewritten text.** If the new name is written over words of sentences only,
the tree keeps its title, its headings and its rows, and every word reads as it was rewritten. -/
theorem reading_rewritten (hname : IsName newName) (text : String)
    (h : ∀ line ∈ placedLines text, ¬ line.IsWords → ∀ word ∈ line.words, chosen word = false) :
    (Recipe.ofText (String.ofList (joinLines (rewrittenLines chosen newName text)))).reading
        Word.text =
      (Recipe.ofText text).reading (rewrittenText chosen newName) := by
  have hlines := forall₂_placeLines (f := PlacedLine.rewritten chosen newName)
    (R := PlacedLine.Reads (rewrittenText chosen newName))
    (fun line hline => PlacedLine.rewritten_reads chosen newName hname (h line hline)) .origin
  rw [← rewrittenLines, ← placedLines_rewritten chosen newName hname] at hlines
  have hentries := Entry.Reads.ofLines false false hlines
  have htitle := Entry.title_of_reads hentries
  have hsections := (Entry.gather_of_reads hentries).2
  unfold Recipe.reading Recipe.ofText Recipe.ofEntries Entry.ofText
  rw [← placedLines, ← placedLines]
  rw [htitle, hsections]

end RecipeDesk
