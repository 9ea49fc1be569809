import Mathlib.Data.List.Forall2
import Mathlib.Data.List.Induction
import RecipeDesk.Proofs.Recipe.Catalogue
import RecipeDesk.Proofs.Recipe.UnderCaret
import RecipeDesk.Proofs.Recipe.Verdict
import RecipeDesk.Proofs.Text.Relocation

/-!
# Line endings

A carriage return in front of every line break changes nothing in the analysis of a recipe but
character numbers. Every place of the text is pushed back by one character for each line break
before it, and keeps its line and its column (`Position.pushed`); whatever is read from the text is
the same thing in the pushed places, and carets with the same line and column find the same there
(`line_endings_read_alike`).

* A carriage return is a blank, so a line that gets one at its end reads as before
  (`Line.ofChars_append_blank`), and begins in the pushed place (`forall₂_placedLines`).
* The tree and the index are put together without a look at places, for any relocation.
* Findings compare places twice: to tell whether a declaration is the first one, and to merge the
  words behind a tool. The first asks only whether places are equal, and the second is about one
  line, where all places are pushed alike.
* So is touching a word, as the caret stands on the line of the sentence that it is given.
-/

namespace RecipeDesk

/-! ### A recipe in other places -/

section Relocation

variable (move : Position → Position)

/-- A word in another place. -/
def Word.relocate (word : Word) : Word := ⟨word.text, word.span.relocate move⟩

/-- A sentence in another place. -/
def Sentence.relocate (row : Sentence) : Sentence := row.mapWords (Word.relocate move)

/-- A heading in another place. -/
def Heading.relocate (heading : Heading) : Heading := ⟨heading.text, heading.span.relocate move⟩

/-- A section in another place. -/
def Section.relocate (part : Section) : Section :=
  ⟨part.heading.relocate move, part.sentences.map (Sentence.relocate move)⟩

/-- A recipe in another place. -/
def Recipe.relocate (recipe : Recipe) : Recipe :=
  ⟨recipe.title.map (Heading.relocate move), recipe.sections.map (Section.relocate move)⟩

/-- A finding in another place. -/
def Finding.relocate (finding : Finding) : Finding :=
  ⟨finding.problem, finding.span.relocate move⟩

/-- What a line contributes, in another place. -/
def Entry.relocate : Entry → Entry
  | nothing => nothing
  | title heading => title (heading.relocate move)
  | opening heading => opening (heading.relocate move)
  | sentence row => sentence (row.relocate move)
  | misplaced finding => misplaced (finding.relocate move)

/-- An occurrence in another place. -/
def Occurrence.relocate (o : Occurrence) : Occurrence := ⟨o.role, o.word.relocate move⟩

/-- An ingredient whose words are in other places. -/
def Ingredient.relocate (ingredient : Ingredient) : Ingredient :=
  ⟨ingredient.name, ingredient.definition.map (Word.relocate move),
    ingredient.duplicates.map (Word.relocate move), ingredient.usages.map (Word.relocate move)⟩

/-- Ingredients whose words are in other places. -/
def Ingredients.relocate (ingredients : Ingredients) : Ingredients :=
  ⟨ingredients.entries.map (Ingredient.relocate move)⟩

/-- An analysis of what is in other places. -/
def Analysis.relocate (analysis : Analysis) : Analysis :=
  ⟨analysis.recipe.relocate move, analysis.ingredients.relocate move,
    analysis.findings.map (Finding.relocate move)⟩

/-- What a caret belongs to, in another place. -/
def Location.relocate (location : Location) : Location :=
  ⟨location.part.relocate move, location.sentence.map (Sentence.relocate move)⟩

/-! #### The tree -/

theorem Sentence.words_relocate (row : Sentence) :
    (row.relocate move).words = row.words.map (Word.relocate move) := rfl

theorem Sentence.head_relocate (row : Sentence) :
    (row.relocate move).head = row.head.relocate move := rfl

theorem Word.text_relocate (word : Word) : (word.relocate move).text = word.text := rfl

theorem Section.declares_relocate (vocabulary : Vocabulary) (part : Section) :
    (part.relocate move).declares vocabulary = part.declares vocabulary := rfl

theorem Sentence.span_relocate (row : Sentence) :
    (row.relocate move).span = row.span.relocate move := by
  simp only [span, relocate, mapWords, List.getLast?_map]
  cases row.arguments.getLast? <;> rfl

theorem Entry.gather_relocate (entries : List Entry) :
    gather (entries.map (relocate move)) =
      ((gather entries).1.map (Sentence.relocate move),
        (gather entries).2.map (Section.relocate move)) := by
  induction entries with
  | nil => rfl
  | cons entry rest ih =>
      cases entry with
      | opening heading => simp [gather, relocate, ih, Section.relocate]
      | sentence row => simp [gather, relocate, ih]
      | _ => simpa [gather, relocate] using ih

theorem Entry.title?_relocate (entry : Entry) :
    (entry.relocate move).title? = entry.title?.map (Heading.relocate move) := by
  cases entry <;> rfl

theorem Entry.finding?_relocate (entry : Entry) :
    (entry.relocate move).finding? = entry.finding?.map (Finding.relocate move) := by
  cases entry <;> rfl

theorem Recipe.ofEntries_relocate (entries : List Entry) :
    ofEntries (entries.map (Entry.relocate move)) = (ofEntries entries).relocate move := by
  unfold ofEntries relocate
  rw [Entry.gather_relocate, List.findSome?_map, List.map_findSome?]
  simp only [Function.comp_def, Entry.title?_relocate]

/-! #### The index -/

theorem Recipe.occurrences_relocate (vocabulary : Vocabulary) (recipe : Recipe) :
    (recipe.relocate move).occurrences vocabulary =
      (recipe.occurrences vocabulary).map (Occurrence.relocate move) := by
  have hrow (declares : Bool) (row : Sentence) :
      (row.relocate move).occurrences vocabulary declares =
        (row.occurrences vocabulary declares).map (Occurrence.relocate move) := by
    unfold Sentence.occurrences
    cases declares with
    | true => rfl
    | false =>
        show (if vocabulary.needsIngredients row.head.text then _ else _) = _
        split <;> simp [Sentence.relocate, Sentence.mapWords, Occurrence.relocate, *]
  simp only [occurrences, relocate, List.flatMap_map, List.map_flatMap, Section.relocate, hrow]
  rfl

theorem Ingredient.add_relocate (entry : Ingredient) (o : Occurrence) :
    (entry.relocate move).add (o.relocate move) = (entry.add o).relocate move := by
  obtain ⟨name, definition, duplicates, usages⟩ := entry
  obtain ⟨role, word⟩ := o
  cases role <;> cases definition <;> simp [add, relocate, Occurrence.relocate]

theorem Ingredients.note_relocate (o : Occurrence) (entries : List Ingredient) :
    note (o.relocate move) (entries.map (Ingredient.relocate move)) =
      (note o entries).map (Ingredient.relocate move) := by
  induction entries with
  | nil =>
      have hadd := Ingredient.add_relocate move ⟨o.word.text, none, [], []⟩ o
      exact congrArg (fun entry => [entry]) hadd
  | cons entry rest ih =>
      show (if entry.name = o.word.text then _ else _) = _
      rw [note]
      split
      · rw [List.map_cons, Ingredient.add_relocate]
      · rw [List.map_cons, ← ih]

theorem Ingredients.ofOccurrences_relocate (os : List Occurrence) :
    ofOccurrences (os.map (Occurrence.relocate move)) = (ofOccurrences os).relocate move := by
  unfold ofOccurrences relocate
  rw [List.foldl_map]
  refine congrArg Ingredients.mk ?_
  induction os using List.reverseRecOn with
  | nil => rfl
  | append_singleton os o ih =>
      rw [List.foldl_append, List.foldl_append, ih]
      exact note_relocate move o _

theorem Ingredients.get?_relocate (ingredients : Ingredients) (name : String) :
    (ingredients.relocate move).get? name =
      (ingredients.get? name).map (Ingredient.relocate move) := by
  unfold get? relocate
  rw [List.find?_map]
  rfl

theorem Ingredients.isDefined_relocate (ingredients : Ingredients) (name : String) :
    (ingredients.relocate move).isDefined name = ingredients.isDefined name := by
  rw [isDefined, isDefined, get?_relocate]
  cases ingredients.get? name with
  | none => rfl
  | some entry => exact Option.isSome_map

theorem Ingredients.undeclared_relocate (ingredients : Ingredients) :
    (ingredients.relocate move).undeclared = ingredients.undeclared := by
  unfold undeclared relocate
  rw [List.filter_map, List.map_map]
  simp [Function.comp_def, Ingredient.relocate]

end Relocation

/-! ### Carriage returns -/

/-- What a character becomes: a line break gets a carriage return in front of it. -/
def withReturn (c : Char) : List Char := if c = '\n' then ['\r', '\n'] else [c]

/-- A text with a carriage return in front of every line break. -/
def withReturns (text : String) : String := String.ofList (text.toList.flatMap withReturn)

/-- Where a place of a text goes: one character further for each line break before it. -/
def Position.pushed (p : Position) : Position := ⟨p.offset + p.line, p.line, p.column⟩

namespace Position

theorem right_pushed (p : Position) (n : Nat) : p.pushed.right n = (p.right n).pushed := by
  simp only [right, pushed, mk.injEq, and_true]
  omega

theorem pushed_inj {p q : Position} (h : p.pushed = q.pushed) : p = q := by
  obtain ⟨offset, line, column⟩ := p
  obtain ⟨offset', line', column'⟩ := q
  simp only [pushed, mk.injEq] at h ⊢
  omega

/-- Reading the character that stands at a place, with what is put in front of it. -/
theorem advanceAll_withReturn (p : Position) (c : Char) :
    p.pushed.advanceAll (withReturn c) = (p.advance c).pushed := by
  unfold withReturn
  by_cases hbreak : c = '\n'
  · simp [hbreak, advanceAll, advance, pushed]
    omega
  · simp [hbreak, advanceAll, advance, pushed]
    omega

theorem advanceAll_withReturns (p : Position) (cs : List Char) :
    p.pushed.advanceAll (cs.flatMap withReturn) = (p.advanceAll cs).pushed := by
  induction cs generalizing p with
  | nil => rfl
  | cons c cs ih =>
      rw [List.flatMap_cons, advanceAll_append, advanceAll_withReturn, ih, advanceAll_cons]

/-- The places of a text are pushed to places of the text with carriage returns. -/
theorem IsIn.pushed {text : String} {p : Position} (h : p.IsIn text) :
    p.pushed.IsIn (withReturns text) := by
  obtain ⟨before, ⟨rest, htext⟩, rfl⟩ := h
  refine ⟨before.flatMap withReturn, ⟨rest.flatMap withReturn, ?_⟩, ?_⟩
  · rw [withReturns, String.toList_ofList, ← htext, List.flatMap_append]
  · exact (advanceAll_withReturns origin before).symm

end Position

/-! #### Lines -/

/-- Lines with a carriage return at the end of each but the last. -/
def returned : List (List Char) → List (List Char)
  | [] => []
  | [line] => [line]
  | line :: next :: rest => (line ++ ['\r']) :: returned (next :: rest)

theorem flatMap_withReturn_of_not_mem {cs : List Char} (h : '\n' ∉ cs) :
    cs.flatMap withReturn = cs := by
  induction cs with
  | nil => rfl
  | cons c cs ih =>
      obtain ⟨hc, hcs⟩ := not_or.mp (mt List.mem_cons.mpr h)
      rw [List.flatMap_cons, ih hcs, withReturn, if_neg (Ne.symm hc)]
      rfl

theorem flatMap_joinLines {lines : List (List Char)} (h : ∀ line ∈ lines, '\n' ∉ line) :
    (joinLines lines).flatMap withReturn = joinLines (returned lines) := by
  induction lines with
  | nil => rfl
  | cons line rest ih =>
      obtain ⟨hline, hrest⟩ := List.forall_mem_cons.mp h
      cases rest with
      | nil => exact flatMap_withReturn_of_not_mem hline
      | cons next rest =>
          rw [joinLines, List.flatMap_append, List.flatMap_cons, ih hrest,
            flatMap_withReturn_of_not_mem hline, returned]
          cases hreturned : returned (next :: rest) with
          | nil => cases rest <;> simp [returned] at hreturned
          | cons first others => simp [joinLines, withReturn]

theorem mem_returned {lines : List (List Char)} {line : List Char} (h : line ∈ returned lines) :
    ∃ old ∈ lines, line = old ∨ line = old ++ ['\r'] := by
  induction lines with
  | nil => cases h
  | cons first rest ih =>
      cases rest with
      | nil => exact ⟨line, h, .inl rfl⟩
      | cons next rest =>
          rcases List.mem_cons.mp h with rfl | hlater
          · exact ⟨first, List.mem_cons_self, .inr rfl⟩
          · obtain ⟨old, hold, heq⟩ := ih hlater
            exact ⟨old, List.mem_cons_of_mem _ hold, heq⟩

theorem textLines_withReturns (text : String) :
    textLines (withReturns text).toList = returned (textLines text.toList) := by
  have hlines : ∀ line ∈ textLines text.toList, '\n' ∉ line := fun _ => newline_not_mem_textLines
  have hchars : (withReturns text).toList = joinLines (returned (textLines text.toList)) := by
    rw [← flatMap_joinLines hlines, joinLines_textLines, withReturns, String.toList_ofList]
  rw [hchars]
  refine textLines_joinLines ?_ ?_
  · cases htext : textLines text.toList with
    | nil => exact absurd htext (textLines_ne_nil _)
    | cons line rest => cases rest <;> simp [returned]
  · intro line hline
    obtain ⟨old, hold, heq⟩ := mem_returned hline
    rcases heq with heq | heq <;> simp [heq, hlines old hold]

/-- A line and what becomes of it: it begins in the pushed place, and may end with a carriage
return. -/
structure PlacedLine.Returns (line line' : PlacedLine) : Prop where
  start : line'.start = line.start.pushed
  chars : line'.chars = line.chars ∨ line'.chars = line.chars ++ ['\r']

theorem forall₂_returns (start : Position) {lines : List (List Char)}
    (h : ∀ line ∈ lines, '\n' ∉ line) :
    List.Forall₂ PlacedLine.Returns (placeLines start lines)
      (placeLines start.pushed (returned lines)) := by
  induction lines generalizing start with
  | nil => exact .nil
  | cons line rest ih =>
      obtain ⟨hline, hrest⟩ := List.forall_mem_cons.mp h
      cases rest with
      | nil => exact .cons ⟨rfl, .inl rfl⟩ .nil
      | cons next rest =>
          have hbreak : (start.pushed.advanceAll (line ++ ['\r'])).advance '\n' =
              ((start.advanceAll line).advance '\n').pushed := by
            have hwhole := Position.advanceAll_withReturns start line
            rw [flatMap_withReturn_of_not_mem hline] at hwhole
            rw [Position.advanceAll_append, hwhole]
            exact Position.advanceAll_withReturn _ '\n'
          have hlater := ih ((start.advanceAll line).advance '\n') hrest
          rw [← hbreak] at hlater
          exact .cons ⟨rfl, .inr rfl⟩ hlater

theorem forall₂_placedLines (text : String) :
    List.Forall₂ PlacedLine.Returns (placedLines text) (placedLines (withReturns text)) := by
  rw [placedLines, placedLines, textLines_withReturns]
  exact forall₂_returns .origin fun _ => newline_not_mem_textLines

/-! #### One line -/

/-- A blank behind a line makes no word of it. -/
theorem Run.scan_append_blank {c : Char} (hc : isWordBlank c = true) (column : Nat)
    (cs : List Char) : scan column (cs ++ [c]) = scan column cs := by
  induction cs using stretch_induction generalizing column with
  | nil => rw [List.nil_append, scan_blank column [] hc, scan_nil, scan_nil]
  | blank d cs hd ih => rw [List.cons_append, scan_blank _ _ hd, scan_blank _ _ hd, ih]
  | word w rest hw hrest ih =>
      have hstops : StopsWord (rest ++ [c]) := by
        cases rest with
        | nil => exact stopsWord_cons hc
        | cons d rest => exact stopsWord_cons (hrest d rfl)
      rw [List.append_assoc, scan_word column hw hstops, scan_word column hw hrest, ih]

/-- A blank behind a heading is trimmed away with those that were there. -/
theorem Line.headingOf_append_blank {c : Char} (hc : isWordBlank c = true) {cs : List Char}
    {first : Run} (hfirst : first ∈ Run.scan 0 cs) (others : List Run) :
    headingOf (cs ++ [c]) first others = headingOf cs first others := by
  obtain ⟨-, hstop, -⟩ := Run.mem_scan hfirst
  have hmarks := (List.takeWhile_sublist (l := first.chars) (· == '#')).length_le
  have hinside : first.column + (first.chars.takeWhile (· == '#')).length ≤ cs.length := by
    simp only [Run.stop] at hstop
    omega
  have hblank : ∀ d ∈ [c], isWordBlank d = true := List.forall_mem_singleton.mpr hc
  unfold headingOf
  dsimp only
  rw [List.drop_append_of_le_length hinside, ← List.nil_append (cs.drop _ ++ [c]),
    trimBoth_append (List.forall_mem_nil _) hblank]

/-- A blank behind a line does not change what the line is. -/
theorem Line.ofChars_append_blank {c : Char} (hc : isWordBlank c = true) (cs : List Char) :
    ofChars (cs ++ [c]) = ofChars cs := by
  unfold ofChars
  rw [Run.scan_append_blank hc]
  cases hscan : Run.scan 0 cs with
  | nil => rfl
  | cons first others =>
      dsimp only
      rw [headingOf_append_blank hc (hscan ▸ List.mem_cons_self)]

namespace PlacedLine.Returns

variable {line line' : PlacedLine} (h : line.Returns line')
include h

theorem ofChars_eq : Line.ofChars line'.chars = Line.ofChars line.chars := by
  rcases h.chars with hchars | hchars
  · rw [hchars]
  · rw [hchars, Line.ofChars_append_blank rfl]

theorem span_eq (start stop : Nat) :
    line'.span start stop = (line.span start stop).relocate .pushed := by
  simp only [PlacedLine.span, h.start, Position.right_pushed, Span.relocate]

theorem word_eq (run : Run) : line'.word run = (line.word run).relocate .pushed := by
  simp only [PlacedLine.word, h.span_eq, Word.relocate]

/-- A line gives what it gave, in the pushed place. -/
theorem ofLine_eq (titled opened : Bool) :
    Entry.ofLine titled opened line' = (Entry.ofLine titled opened line).relocate .pushed := by
  unfold Entry.ofLine
  rw [h.ofChars_eq]
  cases Line.ofChars line.chars with
  | blank => rfl
  | heading depth start stop text =>
      dsimp only
      rw [h.span_eq]
      split <;> split <;> rfl
  | words first others =>
      have hrow : (⟨line'.word first, others.map line'.word⟩ : Sentence) =
          Sentence.relocate .pushed ⟨line.word first, others.map line.word⟩ := by
        rw [Sentence.relocate, Sentence.mapWords, h.word_eq, List.map_map]
        exact congrArg (Sentence.mk _) (List.map_congr_left fun run _ => h.word_eq run)
      dsimp only
      rw [hrow, Sentence.span_relocate]
      split <;> rfl

end PlacedLine.Returns

/-- All lines give what they gave, in the pushed places. -/
theorem Entry.ofLines_returns {lines lines' : List PlacedLine}
    (h : List.Forall₂ PlacedLine.Returns lines lines') (titled opened : Bool) :
    ofLines titled opened lines' = (ofLines titled opened lines).map (relocate .pushed) := by
  induction h generalizing titled opened with
  | nil => rfl
  | @cons line line' rest rest' hline _ ih =>
      have hentry := hline.ofLine_eq titled opened
      have htitle : (ofLine titled opened line').title?.isSome =
          (ofLine titled opened line).title?.isSome := by
        rw [hentry, title?_relocate, Option.isSome_map]
      have hopening : (ofLine titled opened line').opening?.isSome =
          (ofLine titled opened line).opening?.isSome := by
        rw [hentry]
        cases ofLine titled opened line <;> rfl
      rw [ofLines, ofLines, htitle, hopening, ih, hentry]
      rfl

theorem Entry.ofText_withReturns (text : String) :
    ofText (withReturns text) = (ofText text).map (relocate .pushed) :=
  ofLines_returns (forall₂_placedLines text) false false

theorem Recipe.ofText_withReturns (text : String) :
    ofText (withReturns text) = (ofText text).relocate .pushed := by
  rw [ofText, Entry.ofText_withReturns, ofEntries_relocate, ofText]

theorem Recipe.misplaced_withReturns (text : String) :
    misplaced (withReturns text) = (misplaced text).map (Finding.relocate .pushed) := by
  rw [misplaced, misplaced, Entry.ofText_withReturns, List.filterMap_map, List.map_filterMap]
  simp only [Function.comp_def, Entry.finding?_relocate]

/-! ### Findings -/

theorem Position.le_pushed_iff {p q : Position} (h : p.line = q.line) :
    p.pushed ≤ q.pushed ↔ p ≤ q := by
  show p.pushed.precedes q.pushed = true ↔ p.precedes q = true
  simp only [precedes, pushed, h, Nat.add_lt_add_iff_right, Bool.or_eq_true, Bool.and_eq_true,
    decide_eq_true_eq, beq_iff_eq, Nat.add_right_cancel_iff]

namespace Span

theorem relocate_pushed_inj {s t : Span} (h : s.relocate .pushed = t.relocate .pushed) : s = t := by
  obtain ⟨start, stop⟩ := s
  obtain ⟨start', stop'⟩ := t
  simp only [relocate, mk.injEq] at h ⊢
  exact ⟨Position.pushed_inj h.1, Position.pushed_inj h.2⟩

/-- On one line all places are pushed alike. -/
theorem merge_pushed {n : Nat} {s t : Span} (hs : s.OnLine n) (ht : t.OnLine n) :
    (s.relocate .pushed).merge (t.relocate .pushed) = (s.merge t).relocate .pushed := by
  have hmin (p q : Position) : min p q = if p ≤ q then p else q := rfl
  have hmax (p q : Position) : max p q = if p ≤ q then q else p := rfl
  have hstart := Position.le_pushed_iff (hs.1.trans ht.1.symm)
  have hstop := Position.le_pushed_iff (hs.2.trans ht.2.symm)
  simp only [merge, relocate, hmin, hmax, hstart, hstop, apply_ite Position.pushed]

theorem foldl_merge_pushed {n : Nat} {spans : List Span} (h : ∀ span ∈ spans, span.OnLine n)
    {s : Span} (hs : s.OnLine n) :
    (spans.map (relocate .pushed)).foldl merge (s.relocate .pushed) =
      (spans.foldl merge s).relocate .pushed := by
  induction spans generalizing s with
  | nil => rfl
  | cons t rest ih =>
      obtain ⟨ht, hrest⟩ := List.forall_mem_cons.mp h
      rw [List.map_cons, List.foldl_cons, List.foldl_cons, merge_pushed hs ht,
        ih hrest (hs.merge ht)]

theorem mergeAll_pushed {n : Nat} {spans : List Span} (h : ∀ span ∈ spans, span.OnLine n) :
    mergeAll (spans.map (relocate .pushed)) = (mergeAll spans).map (relocate .pushed) := by
  cases spans with
  | nil => rfl
  | cons s rest =>
      obtain ⟨hs, hrest⟩ := List.forall_mem_cons.mp h
      exact congrArg some (foldl_merge_pushed hrest hs)

end Span

namespace Ingredients

theorem redeclares_relocate (ingredients : Ingredients) (word : Word) :
    (ingredients.relocate .pushed).redeclares (word.relocate .pushed) =
      ingredients.redeclares word := by
  have hspan (first : Word) : ((first.relocate .pushed).span == (word.relocate .pushed).span) =
      (first.span == word.span) := by
    rw [Bool.eq_iff_iff, beq_iff_eq, beq_iff_eq]
    exact ⟨Span.relocate_pushed_inj, congrArg (Span.relocate .pushed)⟩
  unfold redeclares
  show (((ingredients.relocate .pushed).get? word.text).any _) = _
  rw [get?_relocate]
  cases ingredients.get? word.text with
  | none => rfl
  | some entry =>
      cases hdefinition : entry.definition <;> simp [Ingredient.relocate, hdefinition, hspan]

end Ingredients

namespace Sentence

variable (vocabulary : Vocabulary) (ingredients : Ingredients) (row : Sentence)

theorem declarationFindings_relocate :
    (row.relocate .pushed).declarationFindings (ingredients.relocate .pushed) =
      (row.declarationFindings ingredients).map (Finding.relocate .pushed) := by
  rw [declarationFindings_eq, declarationFindings_eq, head_relocate, List.filter_singleton,
    List.filter_singleton, Ingredients.redeclares_relocate]
  cases ingredients.redeclares row.head <;> rfl

theorem ingredientFindings_relocate :
    (row.relocate .pushed).ingredientFindings (ingredients.relocate .pushed) =
      (row.ingredientFindings ingredients).map (Finding.relocate .pushed) := by
  have hfilter : ((row.relocate .pushed).arguments.filter fun word =>
      !(ingredients.relocate .pushed).isDefined word.text) =
      (row.arguments.filter fun word => !ingredients.isDefined word.text).map
        (Word.relocate .pushed) := by
    simp only [relocate, mapWords, List.filter_map, Ingredients.isDefined_relocate]
    rfl
  have hempty : (row.relocate .pushed).arguments.isEmpty = row.arguments.isEmpty := by
    simp only [relocate, mapWords, List.isEmpty_map]
  rw [ingredientFindings, ingredientFindings, hfilter, hempty, List.map_append, List.map_map,
    List.map_map]
  congr 1
  split <;> rfl

theorem toolFindings_relocate {n : Nat} (h : ∀ word ∈ row.words, word.span.OnLine n) :
    (row.relocate .pushed).toolFindings vocabulary =
      (row.toolFindings vocabulary).map (Finding.relocate .pushed) := by
  obtain ⟨head, arguments⟩ := row
  cases arguments with
  | nil => rfl
  | cons tool extra =>
      obtain ⟨-, -, hextra⟩ : _ ∧ _ ∧ ∀ word ∈ extra, word.span.OnLine n := by
        simpa [words] using h
      have hspans : (extra.map (Word.relocate .pushed)).map Word.span =
          (extra.map Word.span).map (Span.relocate .pushed) := by
        rw [List.map_map, List.map_map]
        rfl
      show (if vocabulary.isTool tool.text then _ else _) ++
        (((Span.mergeAll ((extra.map (Word.relocate .pushed)).map Word.span)).map _).toList) = _
      rw [hspans, Span.mergeAll_pushed (List.forall_mem_map.mpr hextra), toolFindings,
        List.map_append]
      congr 1
      · split <;> rfl
      · cases Span.mergeAll (extra.map Word.span) <;> rfl

/-- A sentence is reported as before, in the pushed places. -/
theorem findings_relocate {n : Nat} (h : ∀ word ∈ row.words, word.span.OnLine n) (declares : Bool) :
    (row.relocate .pushed).findings vocabulary (ingredients.relocate .pushed) declares =
      (row.findings vocabulary ingredients declares).map (Finding.relocate .pushed) := by
  unfold findings
  dsimp only
  rw [head_relocate, Word.text_relocate]
  split
  · exact declarationFindings_relocate ingredients row
  split
  · exact ingredientFindings_relocate ingredients row
  split
  · rfl
  split
  · exact toolFindings_relocate vocabulary row h
  · rfl

end Sentence

theorem Recipe.findings_relocate (vocabulary : Vocabulary) (ingredients : Ingredients)
    {recipe : Recipe}
    (h : ∀ row ∈ recipe.sentences, ∃ n, ∀ word ∈ row.words, word.span.OnLine n) :
    (recipe.relocate .pushed).findings vocabulary (ingredients.relocate .pushed) =
      (recipe.findings vocabulary ingredients).map (Finding.relocate .pushed) := by
  simp only [findings, relocate, List.flatMap_map, List.map_flatMap, Section.relocate]
  refine List.flatMap_congr fun part hpart => List.flatMap_congr fun row hrow => ?_
  obtain ⟨n, hline⟩ := h row (List.mem_flatMap.mpr ⟨part, hpart, hrow⟩)
  exact row.findings_relocate vocabulary ingredients hline (part.declares vocabulary)

namespace Analysis

variable (vocabulary : Vocabulary) (text : String)

/-- **The analysis is the same, in the pushed places.** -/
theorem ofText_withReturns :
    ofText vocabulary (withReturns text) = (ofText vocabulary text).relocate .pushed := by
  have hingredients : Ingredients.ofRecipe vocabulary (Recipe.ofText (withReturns text)) =
      (Ingredients.ofRecipe vocabulary (Recipe.ofText text)).relocate .pushed := by
    rw [Ingredients.ofRecipe, Recipe.ofText_withReturns, Recipe.occurrences_relocate,
      Ingredients.ofOccurrences_relocate, Ingredients.ofRecipe]
  have hfindings := Recipe.findings_relocate vocabulary
    (Ingredients.ofRecipe vocabulary (Recipe.ofText text)) fun row hrow =>
      (Recipe.faithful_sentences text row hrow).one_line
  unfold ofText relocate
  dsimp only
  rw [hingredients, Recipe.ofText_withReturns, Recipe.misplaced_withReturns, hfindings,
    List.map_append]

theorem diagnostics_relocate (analysis : Analysis) (move : Position → Position) :
    (analysis.relocate move).diagnostics = analysis.diagnostics.map (Diagnostic.relocate move) := by
  rw [diagnostics, diagnostics, relocate, List.map_map, List.map_map]
  rfl

end Analysis

/-! ### Declared names -/

theorem Occurrence.map_text_wordsIn_relocate (move : Position → Position) (role : Role)
    (os : List Occurrence) : (wordsIn role (os.map (relocate move))).map Word.text =
      (wordsIn role os).map Word.text := by
  rw [wordsIn, wordsIn, List.filter_map, List.map_map, List.map_map, List.map_map]
  rfl

/-- The declared names are sorted by place, which is the order in which they are written. -/
theorem Recipe.defined_ofText (vocabulary : Vocabulary) (text : String) :
    (Ingredients.ofRecipe vocabulary (ofText text)).defined =
      ((Occurrence.wordsIn .declared ((ofText text).occurrences vocabulary)).map
        Word.text).eraseDups := by
  have hincreasing := starts_increase
    ((occurrences_sublist vocabulary (ofText text)).trans (words_sublist text))
  exact Ingredients.defined_eq _ (hincreasing.sublist (List.filter_sublist.map _))

theorem Analysis.defined_withReturns (vocabulary : Vocabulary) (text : String) :
    (ofText vocabulary (withReturns text)).ingredients.defined =
      (ofText vocabulary text).ingredients.defined := by
  show (Ingredients.ofRecipe vocabulary (Recipe.ofText (withReturns text))).defined =
    (Ingredients.ofRecipe vocabulary (Recipe.ofText text)).defined
  rw [Recipe.defined_ofText, Recipe.defined_ofText, Recipe.ofText_withReturns,
    Recipe.occurrences_relocate, Occurrence.map_text_wordsIn_relocate]

/-! ### Carets -/

namespace Lines

variable {text : String} {line column : Nat}

/-- A line and a column that the text has are those of the place that they name. -/
theorem exists_position {lines : Lines} (hline : line < lines.lineCount)
    (hcolumn : column ≤ lines.lineLength line) :
    ∃ offset, lines.position line column = ⟨offset, line, column⟩ := by
  obtain ⟨start, hstart⟩ : ∃ start, lines.start? line = some start :=
    ⟨_, List.getElem?_eq_getElem hline⟩
  rw [position, hstart]
  exact ⟨_, by rw [Nat.min_eq_left hcolumn]⟩

theorem position_withReturns (hline : line < (ofText text).lineCount)
    (hcolumn : column ≤ (ofText text).lineLength line) :
    (ofText (withReturns text)).position line column =
      ((ofText text).position line column).pushed := by
  obtain ⟨offset, hplace⟩ := exists_position hline hcolumn
  have hisIn := isIn_position text line column
  rw [hplace] at hisIn ⊢
  exact (has_of_isIn hisIn.pushed).by_column

end Lines

/-- A caret on the line of a span touches it as before. -/
theorem Span.touches_pushed {span : Span} {caret : Position} (h : span.OnLine caret.line) :
    (span.relocate .pushed).touches caret.pushed = span.touches caret := by
  simp only [touches, relocate, Position.pushed, h.1, h.2, Nat.add_le_add_iff_right]

namespace Location

theorem indexIn_relocate (caret : Position) (row : Sentence) :
    indexIn caret.pushed (row.relocate .pushed) = indexIn caret row := by
  rw [indexIn, Sentence.words_relocate, List.findIdx_map]
  rfl

theorem wordIndex_relocate (location : Location) (caret : Position) :
    (location.relocate .pushed).wordIndex caret.pushed = location.wordIndex caret := by
  obtain ⟨part, sentence⟩ := location
  cases sentence with
  | none => rfl
  | some row => exact congrArg some (indexIn_relocate caret row)

theorem word?_relocate {location : Location} {caret : Position}
    (h : ∀ row, location.sentence = some row → ∀ word ∈ row.words, word.span.OnLine caret.line) :
    (location.relocate .pushed).word? caret.pushed =
      (location.word? caret).map (Word.relocate .pushed) := by
  obtain ⟨part, sentence⟩ := location
  cases sentence with
  | none => rfl
  | some row =>
      show (row.relocate .pushed).words[indexIn caret.pushed (row.relocate .pushed)]?.filter _ =
        (row.words[indexIn caret row]?.filter _).map _
      rw [indexIn_relocate, Sentence.words_relocate, List.getElem?_map]
      cases hword : row.words[indexIn caret row]? with
      | none => rfl
      | some word =>
          have htouches := Span.touches_pushed (h row rfl word (List.mem_of_getElem? hword))
          simp only [Option.map_some, Option.filter_some, Word.relocate, htouches]
          split <;> rfl

end Location

namespace Recipe

/-- Sections and sentences are found by their lines. -/
theorem locate_relocate (recipe : Recipe) (caret : Position) :
    (recipe.relocate .pushed).locate caret.pushed =
      (recipe.locate caret).map (Location.relocate .pushed) := by
  have hsections : (recipe.relocate .pushed).sections.reverse =
      recipe.sections.reverse.map (Section.relocate .pushed) := by
    rw [List.map_reverse]
    rfl
  have hrow (part : Section) : (part.relocate .pushed).sentences.find?
        (fun row => row.span.start.line == caret.pushed.line) =
      (part.sentences.find? fun row => row.span.start.line == caret.line).map
        (Sentence.relocate .pushed) := by
    rw [Section.relocate, List.find?_map]
    rfl
  rw [locate, locate, hsections, List.find?_map, Option.map_map, Option.map_map]
  exact congrArg (fun place => Option.map place _) (funext fun part => by
    simp only [Function.comp_apply, hrow, Location.relocate])

/-- The sentence that a caret is given has its words on the caret's line. -/
theorem onLine_of_locate {text : String} {caret : Position} {location : Location}
    (h : (ofText text).locate caret = some location) :
    ∀ row, location.sentence = some row → ∀ word ∈ row.words, word.span.OnLine caret.line := by
  intro row hrow word hword
  obtain ⟨hpart, hsentence⟩ := of_locate h
  obtain ⟨hmem, hline⟩ := hsentence row hrow
  obtain ⟨n, hwords⟩ :=
    (faithful_sentences text row (List.mem_flatMap.mpr ⟨_, hpart, hmem⟩)).one_line
  have hn : n = caret.line := (hwords row.head List.mem_cons_self).1.symm.trans hline
  exact hn ▸ hwords word hword

end Recipe

namespace Analysis

variable (vocabulary : Vocabulary) (text : String) (caret : Position)

theorem locate_withReturns : (ofText vocabulary (withReturns text)).recipe.locate caret.pushed =
    ((ofText vocabulary text).recipe.locate caret).map (Location.relocate .pushed) := by
  rw [ofText_withReturns]
  exact Recipe.locate_relocate _ caret

theorem wordAt?_withReturns :
    (ofText vocabulary (withReturns text)).recipe.wordAt? caret.pushed =
      ((ofText vocabulary text).recipe.wordAt? caret).map (Word.relocate .pushed) := by
  rw [Recipe.wordAt?, Recipe.wordAt?, locate_withReturns]
  cases hlocate : (ofText vocabulary text).recipe.locate caret with
  | none => rfl
  | some location => exact Location.word?_relocate (Recipe.onLine_of_locate hlocate)

theorem proposals_withReturns :
    (ofText vocabulary (withReturns text)).proposals vocabulary caret.pushed =
      (ofText vocabulary text).proposals vocabulary caret := by
  have hundeclared : (ofText vocabulary (withReturns text)).ingredients.undeclared =
      (ofText vocabulary text).ingredients.undeclared := by
    rw [ofText_withReturns]
    exact Ingredients.undeclared_relocate .pushed _
  rw [proposals, proposals, locate_withReturns, defined_withReturns, hundeclared]
  cases (ofText vocabulary text).recipe.locate caret with
  | none => rfl
  | some location =>
      obtain ⟨part, sentence⟩ := location
      simp only [Option.map_some, Location.relocate, Section.declares_relocate]
      cases sentence with
      | none => rfl
      | some row =>
          simp only [Option.map_some, Location.indexIn_relocate]
          rfl

theorem renameable?_withReturns :
    (ofText vocabulary (withReturns text)).renameable? vocabulary caret.pushed =
      ((ofText vocabulary text).renameable? vocabulary caret).map (Span.relocate .pushed) := by
  rw [renameable?, renameable?, locate_withReturns]
  cases hlocate : (ofText vocabulary text).recipe.locate caret with
  | none => rfl
  | some location =>
      have hword := Location.word?_relocate (Recipe.onLine_of_locate hlocate)
      obtain ⟨part, sentence⟩ := location
      cases sentence with
      | none =>
          simp only [Option.map_some, Location.relocate, Option.map_none, ite_self]
      | some row =>
          have hhead : (row.relocate .pushed).head.text = row.head.text := rfl
          simp only [Option.map_some, hword]
          simp only [Location.relocate, Section.declares_relocate, Option.map_some,
            Location.indexIn_relocate, hhead]
          split_ifs
          · rfl
          · rfl
          · rw [Option.map_map, Option.map_map]
            rfl
          · rfl

end Analysis

/-- **Carriage returns before the line breaks change character numbers only.** The analysis of a
text with a carriage return in front of every line break is that of the text in the pushed places,
with the same lines and columns: the title, the sections and their words, the index and what is
reported, all in the same order. Nothing of the text is lost in it: a row of words behind a section
header is a sentence of that section there. And at every line and column of the text, a caret is
given the same section, sentence and word, the same proposals and the same renaming. -/
theorem line_endings_read_alike (vocabulary : Vocabulary) (text : String) :
    let analysis := Analysis.ofText vocabulary text
    let analysis' := Analysis.ofText vocabulary (withReturns text)
    let lines := Lines.ofText text
    let lines' := Lines.ofText (withReturns text)
    analysis' = analysis.relocate .pushed ∧
      analysis'.diagnostics = analysis.diagnostics.map (Diagnostic.relocate .pushed) ∧
      (∀ earlier line later heading, placedLines text = earlier.reverse ++ line :: later →
        OpenSection earlier heading → line.IsWords →
          ∃ part ∈ analysis'.recipe.sections, part.heading = heading.relocate .pushed ∧
            ∃ row ∈ part.sentences, row.words = line.words.map (Word.relocate .pushed)) ∧
      ∀ line column, line < lines.lineCount → column ≤ lines.lineLength line →
        let caret := lines.position line column
        let caret' := lines'.position line column
        (caret.line = line ∧ caret.column = column ∧ caret' = caret.pushed) ∧
          analysis'.recipe.locate caret' =
            (analysis.recipe.locate caret).map (Location.relocate .pushed) ∧
          (∀ location, analysis.recipe.locate caret = some location →
            (location.relocate .pushed).wordIndex caret' = location.wordIndex caret ∧
              (location.relocate .pushed).word? caret' =
                (location.word? caret).map (Word.relocate .pushed)) ∧
          (∀ word ∈ analysis.recipe.words, word.span.touches caret = true →
            analysis'.recipe.wordAt? caret' = some (word.relocate .pushed)) ∧
          analysis'.proposals vocabulary caret' = analysis.proposals vocabulary caret ∧
          analysis'.renameable? vocabulary caret' =
            (analysis.renameable? vocabulary caret).map (Span.relocate .pushed) := by
  intro analysis analysis' lines lines'
  have hanalysis : analysis' = analysis.relocate .pushed :=
    Analysis.ofText_withReturns vocabulary text
  refine ⟨hanalysis, hanalysis ▸ Analysis.diagnostics_relocate analysis .pushed, ?_, ?_⟩
  · intro earlier line later heading hlines hopen hwords
    obtain ⟨part, hpart, hheading, row, hrow, hline⟩ := Recipe.exists_sentence hlines hopen hwords
    refine ⟨part.relocate .pushed, ?_, ?_, row.relocate .pushed, List.mem_map_of_mem hrow, ?_⟩
    · rw [hanalysis]
      exact List.mem_map_of_mem hpart
    · exact congrArg (Heading.relocate .pushed) hheading
    · exact congrArg (List.map (Word.relocate .pushed)) hline
  · intro line column hline hcolumn caret caret'
    obtain ⟨offset, hplace⟩ := Lines.exists_position hline hcolumn
    have hcaret : caret' = caret.pushed := Lines.position_withReturns hline hcolumn
    rw [hcaret]
    refine ⟨⟨congrArg Position.line hplace, congrArg Position.column hplace, rfl⟩,
      Analysis.locate_withReturns vocabulary text caret, fun location hlocation => ⟨?_, ?_⟩, ?_,
      Analysis.proposals_withReturns vocabulary text caret,
      Analysis.renameable?_withReturns vocabulary text caret⟩
    · exact location.wordIndex_relocate caret
    · exact Location.word?_relocate (Recipe.onLine_of_locate hlocation)
    · intro word hword htouches
      have hfound := (Recipe.wordAt?_eq_some_iff (Lines.isIn_position text line column) word).mpr
        ⟨hword, htouches⟩
      exact (Analysis.wordAt?_withReturns vocabulary text caret).trans (congrArg _ hfound)

/-- A declaration too many, an unknown ingredient and two words behind a tool, with a caret at the
end of a line, just before its carriage return. -/
theorem line_endings_read_alike_findings :
    let vocabulary : Vocabulary := ⟨["v"], ["v"], ["d"], ["p"], "i"⟩
    let text := "# t\n## i\nz\nz\n## s\nv z y\nd p q r"
    let analysis' := Analysis.ofText vocabulary (withReturns text)
    let caret' := (Lines.ofText (withReturns text)).position 5 5
    let y : Word := ⟨"y", ⟨⟨27, 5, 4⟩, ⟨28, 5, 5⟩⟩⟩
    caret' = ⟨28, 5, 5⟩ ∧
      analysis'.diagnostics.map Diagnostic.span =
        [⟨⟨14, 3, 0⟩, ⟨15, 3, 1⟩⟩, y.span, ⟨⟨34, 6, 4⟩, ⟨37, 6, 7⟩⟩] ∧
      (∃ part ∈ analysis'.recipe.sections, ∃ row ∈ part.sentences,
        row.words.map Word.text = ["d", "p", "q", "r"]) ∧
      analysis'.recipe.wordAt? caret' = some y ∧
      analysis'.proposals vocabulary caret' = [⟨"z", .ingredient⟩] ∧
      analysis'.renameable? vocabulary caret' = some y.span := by
  intro vocabulary text analysis' caret' y
  let analysis := Analysis.ofText vocabulary text
  let earlier : List PlacedLine :=
    [⟨⟨18, 5, 0⟩, "v z y".toList⟩, ⟨⟨13, 4, 0⟩, "## s".toList⟩, ⟨⟨11, 3, 0⟩, "z".toList⟩,
      ⟨⟨9, 2, 0⟩, "z".toList⟩, ⟨⟨4, 1, 0⟩, "## i".toList⟩, ⟨⟨0, 0, 0⟩, "# t".toList⟩]
  let line : PlacedLine := ⟨⟨24, 6, 0⟩, "d p q r".toList⟩
  let heading : Heading := ⟨"s", ⟨⟨13, 4, 0⟩, ⟨17, 4, 4⟩⟩⟩
  let y' : Word := ⟨"y", ⟨⟨22, 5, 4⟩, ⟨23, 5, 5⟩⟩⟩
  have hlines : placedLines text = earlier.reverse ++ line :: [] := by decide +kernel
  have hopen : OpenSection earlier heading := openSection_iff.mpr (by decide +kernel)
  have hkind : Line.ofChars line.chars =
      .words ⟨0, ['d']⟩ [⟨2, ['p']⟩, ⟨4, ['q']⟩, ⟨6, ['r']⟩] := by decide +kernel
  have hspans : analysis.diagnostics.map Diagnostic.span =
      [⟨⟨11, 3, 0⟩, ⟨12, 3, 1⟩⟩, y'.span, ⟨⟨28, 6, 4⟩, ⟨31, 6, 7⟩⟩] := by decide +kernel
  have hcaret : (Lines.ofText text).position 5 5 = ⟨23, 5, 5⟩ := by decide +kernel
  have hmem : analysis.recipe.words[4]? = some y' := by decide +kernel
  have hproposals : analysis.proposals vocabulary ⟨23, 5, 5⟩ = [⟨"z", .ingredient⟩] := by
    decide +kernel
  have hrenameable : analysis.renameable? vocabulary ⟨23, 5, 5⟩ = some y'.span := by decide +kernel
  obtain ⟨-, hdiagnostics, hsentences, hcarets⟩ := line_endings_read_alike vocabulary text
  obtain ⟨part, hpart, -, row, hrow, hwords⟩ :=
    hsentences earlier line [] heading hlines hopen ⟨_, _, hkind⟩
  obtain ⟨⟨-, -, hpushed⟩, -, -, hword, hsame, hspan⟩ :=
    hcarets 5 5 (by decide +kernel) (by decide +kernel)
  rw [hcaret] at hpushed hword hsame hspan
  refine ⟨hpushed, ?_, ⟨part, hpart, row, hrow, ?_⟩, hword y' (List.mem_of_getElem? hmem) rfl,
    hsame.trans hproposals, hspan.trans (congrArg _ hrenameable)⟩
  · have hpushes := congrArg (List.map (Span.relocate .pushed)) hspans
    rw [List.map_map] at hpushes
    rw [hdiagnostics, List.map_map]
    exact hpushes
  · rw [hwords, PlacedLine.words, Line.scan_of_words hkind]
    rfl

end RecipeDesk
