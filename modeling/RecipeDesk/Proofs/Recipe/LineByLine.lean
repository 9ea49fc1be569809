import Mathlib.Data.List.Basic
import RecipeDesk.Proofs.Recipe.Columns
import RecipeDesk.Proofs.Recipe.Tracks

/-!
# Line by line

Every line of a text comes to one thing at most: the title, a section, a sentence of a section, or a
diagnostic about a line that has no place in the recipe. `Gives` says which, from what the line is
and what the lines before it are, all of it told from their columns and without following the reader
through them. `lines_accounted` says that a text gives this and nothing else.

A reader keeps two flags, whether there is a title and whether a section is open, and puts the tree
together afterwards, from the right. Both are related here to the lines already read, the nearest
first, as they are read (`openSection?`, which is `OpenSection` by `openSection_iff`):

* the flags tell whether there is a title among them, and whether one of them opened a section
  (`Entry.after_cons`, the step);
* the tree holds what the lines give, in the order of the lines, each sentence under the heading of
  the section that was open (`contents_eq`, the run), and the findings are what is left
  (`complaints_eq`).
-/

namespace RecipeDesk

/-! ### What lines give -/

/-- What a line comes to. -/
inductive LineResult where
  /-- The title. -/
  | title (heading : Heading)
  /-- A section. -/
  | part (heading : Heading)
  /-- A sentence of the section with a heading. -/
  | sentence (under : Heading) (row : Sentence)
  /-- A diagnostic. -/
  | complaint (diagnostic : Diagnostic)
deriving DecidableEq, Repr

namespace LineResult

/-- Where it is written. -/
def span : LineResult → Span
  | title heading | part heading => heading.span
  | sentence _ row => row.span
  | complaint diagnostic => diagnostic.span

/-- The number of its line. -/
def line (result : LineResult) : Nat := result.span.start.line

/-- Whether it belongs to the recipe. -/
def isPlaced : LineResult → Bool
  | title _ | part _ | sentence _ _ => true
  | complaint _ => false

end LineResult

/-- Everything in a section. -/
def Section.contents (part : Section) : List LineResult :=
  .part part.heading :: part.sentences.map (.sentence part.heading)

/-- Everything in a recipe, in document order. -/
def Recipe.contents (recipe : Recipe) : List LineResult :=
  (recipe.title.map .title).toList ++ recipe.sections.flatMap Section.contents

/-- Everything that a text gives: its recipe, and the diagnostics about lines out of place. -/
def results (text : String) : List LineResult :=
  (Recipe.ofText text).contents ++
    (Recipe.misplaced text).map fun finding => .complaint finding.diagnostic

namespace PlacedLine

/-- What a line is, told from its columns. -/
def Is (line : PlacedLine) (kind : Line) : Prop := kind.Describes line.chars

/-- The line is a title. -/
def IsTitle (line : PlacedLine) : Prop := ∃ start stop text, line.Is (.heading 1 start stop text)

/-- The line is a section header with this heading. -/
def IsHeader (line : PlacedLine) (heading : Heading) : Prop :=
  ∃ depth start stop text, 2 ≤ depth ∧ line.Is (.heading depth start stop text) ∧
    heading = ⟨text, line.span start stop⟩

/-- A row of words of a line. -/
def row (line : PlacedLine) (first : Run) (others : List Run) : Sentence :=
  ⟨line.word first, others.map line.word⟩

end PlacedLine

/-- One of the lines is a title. -/
def HasTitle (lines : List PlacedLine) : Prop := ∃ line ∈ lines, line.IsTitle

/-- The section with this heading is open behind lines, of which the nearest comes first: it is that
of the nearest section header, and there is a title before it. -/
def OpenSection (lines : List PlacedLine) (heading : Heading) : Prop :=
  ∃ nearer line farther, lines = nearer ++ line :: farther ∧ line.IsHeader heading ∧
    HasTitle farther ∧ ∀ other ∈ nearer, ∀ heading, ¬ other.IsHeader heading

/-- What a line gives, by what it is and by the lines before it, the nearest of them first. -/
inductive Gives (earlier : List PlacedLine) (line : PlacedLine) : Option LineResult → Prop where
  | blank (h : line.Is .blank) : Gives earlier line none
  | title {start stop : Nat} {text : String} (h : line.Is (.heading 1 start stop text))
    (hfirst : ¬ HasTitle earlier) :
    Gives earlier line (some (.title ⟨text, line.span start stop⟩))
  | laterTitle {start stop : Nat} {text : String} (h : line.Is (.heading 1 start stop text))
    (hlater : HasTitle earlier) :
    Gives earlier line
      (some (.complaint ⟨.error, line.span start stop, "title already defined", none⟩))
  | part {depth start stop : Nat} {text : String} (h : line.Is (.heading depth start stop text))
    (hdepth : 2 ≤ depth) (htitle : HasTitle earlier) :
    Gives earlier line (some (.part ⟨text, line.span start stop⟩))
  | earlyPart {depth start stop : Nat} {text : String}
    (h : line.Is (.heading depth start stop text)) (hdepth : 2 ≤ depth)
    (htitle : ¬ HasTitle earlier) :
    Gives earlier line
      (some (.complaint ⟨.error, line.span start stop, "must come after title", none⟩))
  | sentence {first : Run} {others : List Run} {heading : Heading}
    (h : line.Is (.words first others)) (hopen : OpenSection earlier heading) :
    Gives earlier line (some (.sentence heading (line.row first others)))
  | strayWords {first : Run} {others : List Run} (h : line.Is (.words first others))
    (hopen : ∀ heading, ¬ OpenSection earlier heading) :
    Gives earlier line
      (some (.complaint ⟨.error, (line.row first others).span, "must be in a section", none⟩))

/-! ### Titles and headers as they are read -/

namespace PlacedLine

variable {line : PlacedLine}

/-- What a line is read as. -/
def kind (line : PlacedLine) : Line := Line.ofChars line.chars

/-- The heading of a line that is read as a section header. -/
def header? (line : PlacedLine) : Option Heading :=
  match line.kind with
  | .heading depth start stop text => if 2 ≤ depth then some ⟨text, line.span start stop⟩ else none
  | _ => none

theorem is_iff {kind : Line} : line.Is kind ↔ line.kind = kind := by
  rw [Is, Line.describes_iff, eq_comm, PlacedLine.kind]

theorem isTitle_iff : line.IsTitle ↔ line.kind.isTitle = true := by
  simp only [IsTitle, is_iff]
  cases line.kind with
  | heading depth start stop text => simp [Line.isTitle]
  | _ => simp [Line.isTitle]

theorem isHeader_iff {heading : Heading} :
    line.IsHeader heading ↔ line.header? = some heading := by
  simp only [IsHeader, is_iff, header?]
  cases line.kind with
  | heading depth start stop text => simp [eq_comm]
  | _ => simp

end PlacedLine

/-- Whether one of the lines is read as a title. -/
def hasTitle (lines : List PlacedLine) : Bool := lines.any fun line => line.kind.isTitle

theorem hasTitle_iff {lines : List PlacedLine} : HasTitle lines ↔ hasTitle lines = true := by
  simp only [HasTitle, hasTitle, PlacedLine.isTitle_iff, List.any_eq_true]

@[simp] theorem hasTitle_cons (line : PlacedLine) (earlier : List PlacedLine) :
    hasTitle (line :: earlier) = (line.kind.isTitle || hasTitle earlier) := rfl

/-- The heading of the section that is open behind lines as they are read. -/
def openSection? : List PlacedLine → Option Heading
  | [] => none
  | line :: earlier => (if hasTitle earlier then line.header? else none).or (openSection? earlier)

/-- A section is open only behind a title. -/
theorem hasTitle_of_openSection? {earlier : List PlacedLine} {heading : Heading}
    (h : openSection? earlier = some heading) : hasTitle earlier = true := by
  induction earlier with
  | nil => cases h
  | cons line earlier ih =>
      cases htitle : hasTitle earlier with
      | true => simp [htitle]
      | false =>
          rw [openSection?, htitle] at h
          simp [ih h]

theorem openSection_cons {line : PlacedLine} {earlier : List PlacedLine} {heading : Heading} :
    OpenSection (line :: earlier) heading ↔
      line.IsHeader heading ∧ HasTitle earlier ∨
        (∀ heading, ¬ line.IsHeader heading) ∧ OpenSection earlier heading := by
  constructor
  · intro hopen
    obtain ⟨nearer, header, farther, hlines, hheader, htitle, hnone⟩ := hopen
    rcases List.cons_eq_append_iff.mp hlines with ⟨rfl, hcons⟩ | ⟨nearer, rfl, rfl⟩
    · obtain ⟨rfl, rfl⟩ := List.cons.inj hcons
      exact .inl ⟨hheader, htitle⟩
    · obtain ⟨hfirst, hnone⟩ := List.forall_mem_cons.mp hnone
      exact .inr ⟨hfirst, nearer, header, farther, rfl, hheader, htitle, hnone⟩
  · intro hcases
    obtain ⟨hheader, htitle⟩ |
      ⟨hfirst, nearer, header, farther, rfl, hheader, htitle, hnone⟩ := hcases
    · exact ⟨[], line, earlier, rfl, hheader, htitle, by simp⟩
    · exact ⟨line :: nearer, header, farther, rfl, hheader, htitle,
        List.forall_mem_cons.mpr ⟨hfirst, hnone⟩⟩

theorem openSection_iff {lines : List PlacedLine} {heading : Heading} :
    OpenSection lines heading ↔ openSection? lines = some heading := by
  induction lines with
  | nil => simp [OpenSection, openSection?]
  | cons line earlier ih =>
      rw [openSection_cons, ih, hasTitle_iff, openSection?]
      simp only [PlacedLine.isHeader_iff]
      cases htitle : hasTitle earlier with
      | true => cases line.header? <;> simp
      | false =>
          -- without a title before it no header opens anything
          have hnone : openSection? earlier = none := by
            by_contra hsome
            obtain ⟨heading, hheading⟩ := Option.ne_none_iff_exists'.mp hsome
            rw [hasTitle_of_openSection? hheading] at htitle
            cases htitle
          simp [hnone]

/-! ### One line -/

namespace Entry

/-- The entry of a line behind others. -/
def behindLines (earlier : List PlacedLine) (line : PlacedLine) : Entry :=
  ofLine (hasTitle earlier) (openSection? earlier).isSome line

/-- The entries of lines behind others. -/
def after (earlier lines : List PlacedLine) : List Entry :=
  ofLines (hasTitle earlier) (openSection? earlier).isSome lines

/-- What an entry comes to, under the heading of the open section. -/
def result? (under : Option Heading) : Entry → Option LineResult
  | nothing => none
  | title heading => some (.title heading)
  | opening heading => some (.part heading)
  | sentence row => under.map fun heading => .sentence heading row
  | misplaced finding => some (.complaint finding.diagnostic)

end Entry

/-- What a line behind others comes to. -/
def lineResult? (earlier : List PlacedLine) (line : PlacedLine) : Option LineResult :=
  (Entry.behindLines earlier line).result? (openSection? earlier)

namespace Entry

/-- The entry of a line: what it comes to, and what it changes for the lines after it. -/
theorem behindLines_spec (earlier : List PlacedLine) (line : PlacedLine) :
    Gives earlier line (lineResult? earlier line) ∧
      (behindLines earlier line).title?.isSome = (!hasTitle earlier && line.kind.isTitle) ∧
      (behindLines earlier line).opening? = if hasTitle earlier then line.header? else none := by
  unfold lineResult? behindLines ofLine PlacedLine.header?
  rw [← PlacedLine.kind]
  cases hkind : line.kind with
  | blank =>
      exact ⟨.blank (PlacedLine.is_iff.mpr hkind), by simp [title?, Line.isTitle],
        by simp [opening?]⟩
  | heading depth start stop text =>
      have hpos := Line.one_le_depth hkind
      have hline := PlacedLine.is_iff.mpr hkind
      by_cases hone : depth = 1
      · subst hone
        cases htitle : hasTitle earlier with
        | true => exact ⟨.laterTitle hline (hasTitle_iff.mpr htitle), rfl, rfl⟩
        | false => exact ⟨.title hline (by simp [hasTitle_iff, htitle]), rfl, rfl⟩
      · have htwo : 2 ≤ depth := by omega
        cases htitle : hasTitle earlier with
        | true =>
            simp only [hone, htwo, if_false, if_true]
            exact ⟨.part hline htwo (hasTitle_iff.mpr htitle), rfl, rfl⟩
        | false =>
            simp only [hone, if_false, Bool.false_eq_true]
            exact ⟨.earlyPart hline htwo (by simp [hasTitle_iff, htitle]),
              by simp [title?, Line.isTitle, hone], rfl⟩
  | words first others =>
      have hline := PlacedLine.is_iff.mpr hkind
      cases hopen : openSection? earlier with
      | none =>
          exact ⟨.strayWords hline (by simp [openSection_iff, hopen]),
            by simp [title?, Line.isTitle], by simp [opening?]⟩
      | some heading =>
          exact ⟨.sentence hline (openSection_iff.mpr hopen), by simp [title?, Line.isTitle],
            by simp [opening?]⟩

/-- Behind a line, the open section is the one that the line opened, if it did. -/
theorem openSection?_cons (earlier : List PlacedLine) (line : PlacedLine) :
    openSection? (line :: earlier) =
      (behindLines earlier line).opening?.or (openSection? earlier) := by
  rw [(behindLines_spec earlier line).2.2, openSection?]

/-- **The step.** The flags of a reader are those facts about the lines already read. -/
theorem after_cons (earlier : List PlacedLine) (line : PlacedLine) (rest : List PlacedLine) :
    after earlier (line :: rest) = behindLines earlier line :: after (line :: earlier) rest := by
  have htitle : (hasTitle earlier || (behindLines earlier line).title?.isSome) =
      hasTitle (line :: earlier) := by
    rw [(behindLines_spec earlier line).2.1, hasTitle_cons]
    cases hasTitle earlier <;> simp
  have hopen : ((openSection? earlier).isSome || (behindLines earlier line).opening?.isSome) =
      (openSection? (line :: earlier)).isSome := by
    rw [openSection?_cons, Option.isSome_or, Bool.or_comm]
  rw [after, ofLines, ← behindLines, htitle, hopen, ← after]

/-- Behind a title there is no other. -/
theorem findSome?_title?_after {earlier : List PlacedLine} (h : hasTitle earlier = true)
    (lines : List PlacedLine) : (after earlier lines).findSome? title? = none := by
  induction lines generalizing earlier with
  | nil => rfl
  | cons line rest ih =>
      have hnone : (behindLines earlier line).title?.isNone = true := by
        rw [← Option.isSome_eq_false_iff, (behindLines_spec earlier line).2.1, h]
        rfl
      rw [after_cons, List.findSome?_cons_of_isNone hnone]
      exact ih (by simp [h])

end Entry

/-! ### All lines -/

/-- What lines behind others give, in the order of the lines. -/
def lineResults (earlier : List PlacedLine) : List PlacedLine → List LineResult
  | [] => []
  | line :: rest =>
    (lineResult? earlier line).toList ++ lineResults (line :: earlier) rest

theorem lineResults_append (earlier lines rest : List PlacedLine) :
    lineResults earlier (lines ++ rest) =
      lineResults earlier lines ++ lineResults (lines.reverse ++ earlier) rest := by
  induction lines generalizing earlier with
  | nil => rfl
  | cons line lines ih => simp [lineResults, ih]

/-- **The run.** The tree holds what the lines give, in the order of the lines: the title, then the
rest of the section that is open before them, then the sections that they open. -/
theorem contents_eq (earlier lines : List PlacedLine) :
    (((Entry.after earlier lines).findSome? Entry.title?).map .title).toList ++
        ((Entry.gather (Entry.after earlier lines)).1.flatMap fun row =>
          ((openSection? earlier).map fun heading => .sentence heading row).toList) ++
        (Entry.gather (Entry.after earlier lines)).2.flatMap Section.contents =
      (lineResults earlier lines).filter LineResult.isPlaced := by
  induction lines generalizing earlier with
  | nil => rfl
  | cons line rest ih =>
      have ihrest := ih (line :: earlier)
      obtain ⟨-, htitle, hopening⟩ := Entry.behindLines_spec earlier line
      rw [Entry.openSection?_cons] at ihrest
      rw [lineResults, lineResult?, List.filter_append, ← ihrest, Entry.after_cons]
      have hlast (h : hasTitle earlier = true ∨ line.kind.isTitle = true) :
          (Entry.after (line :: earlier) rest).findSome? Entry.title? = none :=
        Entry.findSome?_title?_after (by simpa [or_comm] using h) rest
      -- a title, and what stands in a section, have no title behind them
      cases hentry : Entry.behindLines earlier line with
      | nothing => rfl
      | misplaced finding => rfl
      | title heading =>
          obtain ⟨-, hkind⟩ : _ ∧ line.kind.isTitle = true := by
            simpa [hentry, Entry.title?] using htitle
          rw [hlast (.inr hkind)]
          rfl
      | opening heading =>
          have htitled : hasTitle earlier = true := by
            by_contra hnot
            simp [hentry, Entry.opening?, hnot] at hopening
          rw [List.findSome?_cons_of_isNone rfl, hlast (.inl htitled)]
          simp [Entry.gather, Entry.opening?, Entry.result?, LineResult.isPlaced, Section.contents,
            List.map_eq_flatMap, List.filter_cons]
      | sentence row =>
          cases hopen : openSection? earlier with
          | none => rfl
          | some heading =>
              rw [List.findSome?_cons_of_isNone rfl, hlast (.inl (hasTitle_of_openSection? hopen))]
              rfl

/-- The findings are what lines give beside the tree. -/
theorem complaints_eq (earlier lines : List PlacedLine) :
    (((Entry.after earlier lines).filterMap Entry.finding?).map fun finding =>
        .complaint finding.diagnostic) =
      (lineResults earlier lines).filter fun result => !result.isPlaced := by
  induction lines generalizing earlier with
  | nil => rfl
  | cons line rest ih =>
      rw [lineResults, lineResult?, List.filter_append, ← ih, Entry.after_cons]
      cases Entry.behindLines earlier line with
      | sentence row => cases openSection? earlier <;> rfl
      | _ => rfl

theorem Recipe.contents_ofText (text : String) :
    (Recipe.ofText text).contents =
      (lineResults [] (placedLines text)).filter LineResult.isPlaced := by
  have hnone : (Entry.gather (Entry.after [] (placedLines text))).1 = [] :=
    Entry.gather_of_not_opened false (placedLines text)
  rw [← contents_eq, hnone, List.flatMap_nil, List.append_nil]
  rfl

theorem map_complaint_misplaced (text : String) :
    ((Recipe.misplaced text).map fun finding => .complaint finding.diagnostic) =
      (lineResults [] (placedLines text)).filter fun result => !result.isPlaced :=
  complaints_eq [] (placedLines text)

/-! ### Lines and their numbers -/

theorem map_line_placeLines (start : Position) {lines : List (List Char)}
    (h : ∀ chars ∈ lines, '\n' ∉ chars) :
    ((placeLines start lines).map fun line => line.start.line) =
      List.range' start.line lines.length := by
  induction lines generalizing start with
  | nil => rfl
  | cons chars rest ih =>
      obtain ⟨hchars, hrest⟩ := List.forall_mem_cons.mp h
      rw [placeLines, List.map_cons, ih _ hrest, Position.line_after_break _ hchars,
        List.length_cons, List.range'_succ]

/-- Lines are numbered from zero. -/
theorem line_of_placedLines {text : String} {before later : List PlacedLine} {line : PlacedLine}
    (h : placedLines text = before ++ line :: later) : line.start.line = before.length := by
  have hnumbers := map_line_placeLines .origin
    fun chars (hchars : chars ∈ textLines text.toList) => newline_not_mem_textLines hchars
  rw [← placedLines, h] at hnumbers
  have hget := congrArg (fun numbers => numbers[before.length]?) hnumbers
  rw [List.map_append, List.map_cons, List.getElem?_append_right (by simp), List.length_map,
    Nat.sub_self, List.getElem?_cons_zero, eq_comm] at hget
  obtain ⟨_, hnumber⟩ := List.getElem?_eq_some_iff.mp hget
  rw [← hnumber, List.getElem_range', Nat.one_mul]
  exact Nat.zero_add _

namespace Entry

/-- Where the thing is written that a line contributes. -/
def span? : Entry → Option Span
  | nothing => none
  | title heading | opening heading => some heading.span
  | sentence row => some row.span
  | misplaced finding => some finding.span

/-- What a line contributes lies on the line, whatever stands before it. -/
theorem onLine_ofLine (titled opened : Bool) (line : PlacedLine) :
    ∀ span ∈ (ofLine titled opened line).span?, span.OnLine line.start.line := by
  have hrow (first : Run) (others : List Run) :
      (line.row first others).span.OnLine line.start.line := by
    refine ⟨rfl, ?_⟩
    rw [Sentence.span, PlacedLine.row, List.getLast?_map]
    cases others.getLast? <;> rfl
  intro span hspan
  unfold ofLine at hspan
  cases hline : Line.ofChars line.chars with
  | blank => simp [hline, span?] at hspan
  | heading depth start stop text =>
      simp only [hline] at hspan
      split at hspan <;> split at hspan <;> cases hspan <;> exact line.onLine_span start stop
  | words first others =>
      simp only [hline] at hspan
      split at hspan <;> cases hspan <;> exact hrow first others

theorem span?_of_result? {under : Option Heading} {entry : Entry} {result : LineResult}
    (h : entry.result? under = some result) : entry.span? = some result.span := by
  cases entry with
  | nothing => cases h
  | sentence row =>
      obtain ⟨heading, -, rfl⟩ := Option.map_eq_some_iff.mp h
      rfl
  | _ =>
      cases h
      rfl

end Entry

theorem onLine_of_mem_lineResult? {earlier : List PlacedLine} {line : PlacedLine}
    {result : LineResult} (h : result ∈ (lineResult? earlier line).toList) :
    result.span.OnLine line.start.line :=
  Entry.onLine_ofLine _ _ line _ (Entry.span?_of_result? (Option.mem_toList.mp h))

theorem mem_lineResults {earlier lines : List PlacedLine} {result : LineResult}
    (h : result ∈ lineResults earlier lines) :
    ∃ line ∈ lines, result.span.OnLine line.start.line := by
  induction lines generalizing earlier with
  | nil => cases h
  | cons line rest ih =>
      rcases List.mem_append.mp h with hfirst | hlater
      · exact ⟨line, List.mem_cons_self, onLine_of_mem_lineResult? hfirst⟩
      · obtain ⟨line', hmem, honLine⟩ := ih hlater
        exact ⟨line', List.mem_cons_of_mem _ hmem, honLine⟩

theorem lineResults_pairwise (earlier : List PlacedLine) {lines : List PlacedLine}
    (h : lines.Pairwise fun a b => a.start.line < b.start.line) :
    (lineResults earlier lines).Pairwise fun a b => a.line < b.line := by
  induction lines generalizing earlier with
  | nil => exact .nil
  | cons line rest ih =>
      obtain ⟨hfirst, hrest⟩ := List.pairwise_cons.mp h
      refine List.pairwise_append.mpr ⟨?_, ih _ hrest, ?_⟩
      · cases lineResult? earlier line <;> simp
      · intro a ha b hb
        obtain ⟨line', hmem, honLine⟩ := mem_lineResults hb
        rw [LineResult.line, LineResult.line, (onLine_of_mem_lineResult? ha).1, honLine.1]
        exact hfirst line' hmem

theorem placedLines_pairwise (text : String) :
    (placedLines text).Pairwise fun a b => a.start.line < b.start.line :=
  (placeLines_pairwise _ _).imp And.right

/-- Lines out of place are reported from top to bottom, at most once each. -/
theorem Recipe.misplaced_pairwise (text : String) :
    (misplaced text).Pairwise fun a b => a.span.start.line < b.span.start.line := by
  have hcomplaints := (lineResults_pairwise [] (placedLines_pairwise text)).filter
    fun result => !result.isPlaced
  rw [← map_complaint_misplaced, List.pairwise_map] at hcomplaints
  exact hcomplaints

/-- The line with a certain number gives what has this number. -/
theorem filter_lineResults {text : String} {earlier later : List PlacedLine} {line : PlacedLine}
    (h : placedLines text = earlier.reverse ++ line :: later) :
    (lineResults [] (placedLines text)).filter (fun result => result.line = line.start.line) =
      (lineResult? earlier line).toList := by
  have hpairwise := placedLines_pairwise text
  rw [h, List.pairwise_append, List.pairwise_cons] at hpairwise
  obtain ⟨-, ⟨hlater, -⟩, hearlier⟩ := hpairwise
  have hnone {before lines : List PlacedLine} (hne : ∀ other ∈ lines,
      other.start.line ≠ line.start.line) :
      (lineResults before lines).filter (fun result => result.line = line.start.line) = [] := by
    refine List.filter_eq_nil_iff.mpr fun result hresult => ?_
    obtain ⟨other, hother, honLine⟩ := mem_lineResults hresult
    simpa [LineResult.line, honLine.1] using hne other hother
  rw [h, lineResults_append, List.reverse_reverse, List.append_nil, lineResults,
    List.filter_append, List.filter_append,
    hnone fun other hother => Nat.ne_of_lt (hearlier other hother line List.mem_cons_self),
    hnone fun other hother => Nat.ne_of_gt (hlater other hother), List.nil_append, List.append_nil,
    List.filter_eq_self]
  exact fun result hresult => decide_eq_true (onLine_of_mem_lineResult? hresult).1

/-- **Every line is accounted for once.** A line that is not blank gives one thing, the thing that
its kind and the lines before it call for, and a blank line gives nothing; there is nothing that no
line gives; and what is out of place is reported in the order of the lines. -/
theorem lines_accounted (text : String) :
    (∀ earlier line later, placedLines text = earlier.reverse ++ line :: later →
      ∃ result, Gives earlier line result ∧
        (results text).filter (fun o => o.line = earlier.length) = result.toList) ∧
      (∀ o ∈ results text, o.line < (placedLines text).length) ∧
      (Recipe.misplaced text).Pairwise fun a b => a.span.start.line < b.span.start.line := by
  have hresults : results text =
      (lineResults [] (placedLines text)).filter LineResult.isPlaced ++
        (lineResults [] (placedLines text)).filter fun result => !result.isPlaced := by
    rw [results, Recipe.contents_ofText, map_complaint_misplaced]
  refine ⟨fun earlier line later h => ?_, fun o ho => ?_, Recipe.misplaced_pairwise text⟩
  · refine ⟨_, (Entry.behindLines_spec earlier line).1, ?_⟩
    have hline := line_of_placedLines h
    rw [List.length_reverse] at hline
    rw [hresults, ← hline, List.filter_append, List.filter_comm, filter_lineResults h,
      List.filter_comm, filter_lineResults h]
    cases lineResult? earlier line with
    | none => rfl
    | some result => cases hplaced : result.isPlaced <;> simp [hplaced]
  · rw [hresults] at ho
    have hmem : o ∈ lineResults [] (placedLines text) := by
      rcases List.mem_append.mp ho with ho | ho <;> exact List.mem_of_mem_filter ho
    obtain ⟨line, hline, honLine⟩ := mem_lineResults hmem
    obtain ⟨before, later, h⟩ := List.append_of_mem hline
    rw [LineResult.line, honLine.1, line_of_placedLines h, h]
    simp

/-- A row of words under a section, between two titles. -/
theorem lines_accounted_soup :
    let text := "# Soup\n## Stock\nboil water\n# Stew"
    let earlier : List PlacedLine :=
      [⟨⟨7, 1, 0⟩, "## Stock".toList⟩, ⟨⟨0, 0, 0⟩, "# Soup".toList⟩]
    let line : PlacedLine := ⟨⟨16, 2, 0⟩, "boil water".toList⟩
    placedLines text = earlier.reverse ++ line :: [⟨⟨27, 3, 0⟩, "# Stew".toList⟩] ∧
      ∃ result, Gives earlier line result ∧
        (results text).filter (fun o => o.line = 2) = result.toList := by
  intro text earlier line
  have hlines : placedLines text = earlier.reverse ++ line :: [⟨⟨27, 3, 0⟩, "# Stew".toList⟩] := by
    decide +kernel
  exact ⟨hlines, (lines_accounted text).1 earlier line _ hlines⟩

end RecipeDesk
