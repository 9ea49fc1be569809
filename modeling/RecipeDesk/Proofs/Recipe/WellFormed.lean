import Mathlib.Data.List.Nodup
import RecipeDesk.Proofs.Recipe.Columns
import RecipeDesk.Proofs.Recipe.Occurrences

/-!
# What a recipe has to be

A text is well formed if its lines, told apart as titles, section headers, rows of words and blank
lines, stand in the right order and say the right things. What a line is can be told from its
columns (`LinesAre`), and `WellFormed` puts the rest in terms of the lines alone, each with the
lines before it. Checking a text reports no error exactly if the text is
well formed, and nothing at all exactly if besides no adverb is followed by superfluous tools.

The check is made of three passes: one over the lines, which finds those out of place; one over the
sentences, which collects the ingredients; one over the sentences again, which looks every sentence
up in what was collected. The proof takes them one at a time.

* A line is out of place exactly if it does not fit the lines before it (`misplaced_eq_nil_iff`).
* If every line fits, the sentences of the tree are the rows of words, and a sentence stands in an
  ingredients section exactly if the last section header before its row is one (`rows_eq`).
* A sentence is without error exactly if its row is admissible, for the names that are declared, and
  the declarations are without error exactly if no name is declared twice.
-/

namespace RecipeDesk

/-! ### Well-formed lines -/

namespace Line

/-- Whether a line is a title: a heading with a single `#`. -/
def isTitle : Line → Bool
  | heading depth _ _ _ => depth == 1
  | _ => false

/-- The text of a section header: a heading with two or more `#`. -/
def section? : Line → Option String
  | heading depth _ _ text => if 2 ≤ depth then some text else none
  | _ => none

/-- The first word of a row of words, and the words after it. -/
def row? : Line → Option (String × List String)
  | words first others =>
    some (String.ofList first.chars, others.map fun run => String.ofList run.chars)
  | _ => none

end Line

/-- These are the lines of a text, each told from its columns. -/
def LinesAre (text : String) (lines : List Line) : Prop :=
  List.Forall₂ Line.Describes (textLines text.toList) lines

/-- Lines, each with the lines before it; `before` stand before the first. -/
def withBefore (before : List Line) : List Line → List (List Line × Line)
  | [] => []
  | line :: rest => (before, line) :: withBefore (before ++ [line]) rest

section Vocabulary

variable (vocabulary : Vocabulary)

/-- Whether a line behind `before` lies in an ingredients section: whether the last section header
is that of one. -/
def inIngredients (before : List Line) : Bool :=
  (before.filterMap Line.section?).getLast?.any vocabulary.isIngredientsSection

/-- All rows of words, each with whether it lies in an ingredients section. -/
def rows (before lines : List Line) : List (Bool × String × List String) :=
  (withBefore before lines).filterMap fun entry =>
    entry.2.row?.map fun row => (inIngredients vocabulary entry.1, row)

/-- The first words of the lines in ingredients sections. -/
def declaredNames (lines : List Line) : List String :=
  ((rows vocabulary [] lines).filter fun row => row.1).map fun row => row.2.1

/-- A first word that is an adverb, and no verb of either kind. -/
def IsAdverbHead (head : String) : Prop :=
  head ∈ vocabulary.adverbs ∧ head ∉ vocabulary.verbs ∧ head ∉ vocabulary.ingredientVerbs

/-- The rows of words that may stand outside the ingredients sections. -/
inductive Admissible (declared : List String) : String × List String → Prop where
  | ingredients {head : String} {arguments : List String}
    (hhead : head ∈ vocabulary.ingredientVerbs) (hsome : arguments ≠ [])
    (hdeclared : ∀ name ∈ arguments, name ∈ declared) : Admissible declared (head, arguments)
  | verb {head : String} {arguments : List String} (hhead : head ∈ vocabulary.verbs)
    (hother : head ∉ vocabulary.ingredientVerbs) : Admissible declared (head, arguments)
  | tool {head tool : String} {extra : List String} (hhead : IsAdverbHead vocabulary head)
    (htool : tool ∈ vocabulary.tools) : Admissible declared (head, tool :: extra)

/-- Lines that make a recipe. -/
structure WellFormed (lines : List Line) : Prop where
  /-- At most one line is a title. -/
  one_title : lines.countP Line.isTitle ≤ 1
  /-- Section headers come after a title. -/
  section_after_title : ∀ entry ∈ withBefore [] lines, entry.2.section?.isSome →
    ∃ line ∈ entry.1, line.isTitle
  /-- Words come after a section header. -/
  words_in_section : ∀ entry ∈ withBefore [] lines, entry.2.row?.isSome →
    ∃ line ∈ entry.1, line.section?.isSome
  /-- No ingredient is declared twice. -/
  declared_once : (declaredNames vocabulary lines).Nodup
  /-- All other rows are admissible. -/
  admissible : ∀ row, (false, row) ∈ rows vocabulary [] lines →
    Admissible vocabulary (declaredNames vocabulary lines) row

end Vocabulary

/-! ### Lines in place -/

/-- Whether there is a title. -/
def isTitled (before : List Line) : Bool := before.any Line.isTitle

/-- Whether there is a section header. -/
def isOpened (before : List Line) : Bool := before.any fun line => line.section?.isSome

@[simp] theorem isTitled_append (before : List Line) (line : Line) :
    isTitled (before ++ [line]) = (isTitled before || line.isTitle) := by
  simp [isTitled]

@[simp] theorem isOpened_append (before : List Line) (line : Line) :
    isOpened (before ++ [line]) = (isOpened before || line.section?.isSome) := by
  simp [isOpened]

/-- Whether a line may stand where it is, given whether there is a title and a section header. -/
structure Line.Fits (titled opened : Bool) (line : Line) : Prop where
  title : line.isTitle = true → titled = false
  header : line.section?.isSome = true → titled = true
  words : line.row?.isSome = true → opened = true

/-- A heading has at least one `#`. -/
theorem Line.one_le_depth {cs : List Char} {depth start stop : Nat} {text : String}
    (h : Line.ofChars cs = .heading depth start stop text) : 1 ≤ depth := by
  unfold ofChars at h
  split at h
  · cases h
  · next first others hscan =>
      split at h
      · next hhash =>
          cases hchars : first.chars with
          | nil => simp [hchars] at hhash
          | cons c rest =>
              obtain rfl : c = '#' := by simpa [hchars] using hhash
              simp only [headingOf, hchars, heading.injEq] at h
              rw [← h.1, List.takeWhile_cons_of_pos (by decide)]
              exact Nat.le_add_left 1 _
      · cases h

namespace Entry

/-- A line out of place makes a finding. -/
theorem finding?_ofLine (titled opened : Bool) (line : PlacedLine) :
    (ofLine titled opened line).finding? = none ↔
      (Line.ofChars line.chars).Fits titled opened := by
  unfold ofLine
  cases hkind : Line.ofChars line.chars with
  | blank => exact ⟨fun _ => ⟨nofun, nofun, nofun⟩, fun _ => rfl⟩
  | heading depth start stop text =>
      by_cases hone : depth = 1
      · have hfits : (Line.heading depth start stop text).Fits titled opened ↔ titled = false :=
          ⟨fun h => h.title (by simp [Line.isTitle, hone]),
            fun h => ⟨fun _ => h, by simp [Line.section?, hone], nofun⟩⟩
        rw [hfits]
        cases titled <;> simp [hone, finding?]
      · have htwo : 2 ≤ depth := by
          have := Line.one_le_depth hkind
          omega
        have hfits : (Line.heading depth start stop text).Fits titled opened ↔ titled = true :=
          ⟨fun h => h.header (by simp [Line.section?, htwo]),
            fun h => ⟨by simp [Line.isTitle, hone], fun _ => h, nofun⟩⟩
        cases titled <;> simp [hfits, hone, finding?]
  | words first others =>
      have hfits : (Line.words first others).Fits titled opened ↔ opened = true :=
        ⟨fun h => h.words rfl, fun h => ⟨nofun, nofun, fun _ => h⟩⟩
      cases opened <;> simp [hfits, finding?]

/-- A line in place counts for the lines after it. -/
theorem ofLine_of_fits {titled opened : Bool} {line : PlacedLine}
    (h : (Line.ofChars line.chars).Fits titled opened) :
    (ofLine titled opened line).title?.isSome = (Line.ofChars line.chars).isTitle ∧
      (ofLine titled opened line).opening?.map Heading.text = (Line.ofChars line.chars).section? ∧
      (ofLine titled opened line).sentence?.map (fun row => (row.head.text,
        row.arguments.map Word.text)) = (Line.ofChars line.chars).row? := by
  unfold ofLine
  cases hkind : Line.ofChars line.chars with
  | blank => exact ⟨rfl, rfl, rfl⟩
  | heading depth start stop text =>
      rw [hkind] at h
      have hpos := Line.one_le_depth hkind
      by_cases hone : depth = 1
      · have htitled := h.title (by simp [Line.isTitle, hone])
        simp [hone, htitled, title?, opening?, sentence?, Line.isTitle, Line.section?, Line.row?]
      · have htwo : 2 ≤ depth := by omega
        have htitled := h.header (by simp [Line.section?, htwo])
        simp [hone, htwo, htitled, title?, opening?, sentence?, Line.isTitle, Line.section?,
          Line.row?]
  | words first others =>
      rw [hkind] at h
      have hopened := h.words rfl
      simp [hopened, title?, opening?, sentence?, Line.isTitle, Line.section?, Line.row?,
        PlacedLine.word]

/-- The entries of lines that stand behind the lines `before`. -/
def behind (before : List Line) (lines : List PlacedLine) : List Entry :=
  ofLines (isTitled before) (isOpened before) lines

theorem behind_cons {before : List Line} {line : PlacedLine} (rest : List PlacedLine)
    (h : (Line.ofChars line.chars).Fits (isTitled before) (isOpened before)) :
    behind before (line :: rest) =
      ofLine (isTitled before) (isOpened before) line ::
        behind (before ++ [Line.ofChars line.chars]) rest := by
  obtain ⟨htitle, hopening, -⟩ := ofLine_of_fits h
  have hopens := congrArg Option.isSome hopening
  rw [Option.isSome_map] at hopens
  simp only [behind, ofLines, htitle, hopens, isTitled_append, isOpened_append]

/-- **No line is out of place exactly if every line fits the lines before it.** -/
theorem misplaced_eq_nil_iff (before : List Line) (lines : List PlacedLine) :
    (behind before lines).filterMap finding? = [] ↔
      ∀ entry ∈ withBefore before (lines.map fun line => Line.ofChars line.chars),
        entry.2.Fits (isTitled entry.1) (isOpened entry.1) := by
  induction lines generalizing before with
  | nil => simp [behind, ofLines, withBefore]
  | cons line rest ih =>
      rw [List.map_cons, withBefore, List.forall_mem_cons]
      have hfits := finding?_ofLine (isTitled before) (isOpened before) line
      -- a line that does not fit has a finding; only behind one that fits are the flags right
      constructor
      · intro h
        have hhead := List.filterMap_eq_nil_iff.mp h _ List.mem_cons_self
        have hfit := hfits.mp hhead
        rw [behind_cons rest hfit, List.filterMap_cons_none hhead] at h
        exact ⟨hfit, (ih _).mp h⟩
      · rintro ⟨hfit, hrest⟩
        rw [behind_cons rest hfit, List.filterMap_cons_none (hfits.mpr hfit)]
        exact (ih _).mpr hrest

end Entry

/-- No title stands behind another one exactly if there is at most one. -/
theorem countP_isTitle_le_iff (before lines : List Line) :
    (∀ entry ∈ withBefore before lines, entry.2.isTitle = true → isTitled entry.1 = false) ↔
      lines.countP Line.isTitle ≤ if isTitled before then 0 else 1 := by
  induction lines generalizing before with
  | nil => simp [withBefore]
  | cons line rest ih =>
      rw [withBefore, List.forall_mem_cons, ih, isTitled_append]
      cases htitle : line.isTitle <;> cases htitled : isTitled before <;> simp [htitle]

/-! ### Rows in their sections -/

/-- The texts of a sentence: its first word, and the words after it. -/
def Sentence.texts (row : Sentence) : String × List String :=
  (row.head.text, row.arguments.map Word.text)

section Rows

variable (vocabulary : Vocabulary)

theorem inIngredients_append (before : List Line) (line : Line) :
    inIngredients vocabulary (before ++ [line]) =
      match line.section? with
      | none => inIngredients vocabulary before
      | some text => vocabulary.isIngredientsSection text := by
  cases hsection : line.section? <;> simp [inIngredients, hsection]

theorem rows_cons (before : List Line) (line : Line) (rest : List Line) :
    rows vocabulary before (line :: rest) =
      (line.row?.map fun row => (inIngredients vocabulary before, row)).toList ++
        rows vocabulary (before ++ [line]) rest := by
  cases hrow : line.row? <;> simp [rows, withBefore, hrow]

/-- Before the first section there are no sentences. -/
theorem Entry.gather_of_not_opened (titled : Bool) (lines : List PlacedLine) :
    (gather (ofLines titled false lines)).1 = [] := by
  induction lines generalizing titled with
  | nil => rfl
  | cons line rest ih =>
      rw [ofLines]
      have hsentence : ∀ row, ofLine titled false line ≠ .sentence row := by
        intro row
        unfold ofLine
        cases Line.ofChars line.chars <;> simp
        split <;> split <;> simp
      cases hentry : ofLine titled false line with
      | opening heading => simp [gather]
      | sentence row => exact absurd hentry (hsentence row)
      | _ => simpa [gather, opening?] using ih _

/-- If every line fits, grouping the entries gives the rows of words, those behind a section header
under that header. -/
theorem Entry.gather_rows {before : List Line} {lines : List PlacedLine}
    (h : ∀ entry ∈ withBefore before (lines.map fun line => Line.ofChars line.chars),
      entry.2.Fits (isTitled entry.1) (isOpened entry.1)) :
    ((gather (behind before lines)).1.map fun row =>
        (inIngredients vocabulary before, row.texts)) ++
      ((gather (behind before lines)).2.flatMap fun part =>
        part.sentences.map fun row => (part.declares vocabulary, row.texts)) =
      rows vocabulary before (lines.map fun line => Line.ofChars line.chars) := by
  induction lines generalizing before with
  | nil => rfl
  | cons line rest ih =>
      rw [List.map_cons, withBefore, List.forall_mem_cons] at h
      obtain ⟨-, hopening, hsentence⟩ := ofLine_of_fits h.1
      have ihrest := ih h.2
      rw [inIngredients_append, ← hopening] at ihrest
      rw [List.map_cons, rows_cons, behind_cons rest h.1, ← hsentence, ← ihrest]
      cases ofLine (isTitled before) (isOpened before) line with
      | opening heading => simp [gather, opening?, sentence?, Section.declares]
      | sentence row => simp [gather, opening?, sentence?, Sentence.texts]
      | _ => simp [gather, opening?, sentence?]

end Rows

/-- The lines of a text as they are read. -/
def lineKinds (text : String) : List Line := (textLines text.toList).map Line.ofChars

theorem linesAre_iff {text : String} {lines : List Line} :
    LinesAre text lines ↔ lines = lineKinds text := by
  have hread : Line.Describes = fun cs line => line = Line.ofChars cs := by
    funext cs line
    exact propext Line.describes_iff
  rw [LinesAre, hread, forall₂_eq_map_iff, lineKinds]

theorem map_ofChars_placedLines (text : String) :
    (placedLines text).map (fun line => Line.ofChars line.chars) = lineKinds text := by
  rw [lineKinds, ← map_chars_placeLines .origin (textLines text.toList), List.map_map]
  rfl

namespace Recipe

theorem misplaced_eq_nil_iff (text : String) :
    misplaced text = [] ↔
      ∀ entry ∈ withBefore [] (lineKinds text),
        entry.2.Fits (isTitled entry.1) (isOpened entry.1) := by
  rw [← map_ofChars_placedLines]
  exact Entry.misplaced_eq_nil_iff [] (placedLines text)

/-- **The sentences of the tree are the rows of words**, if no line is out of place. -/
theorem rows_eq (vocabulary : Vocabulary) {text : String} (h : misplaced text = []) :
    ((ofText text).placed vocabulary).map (fun entry => (entry.1, entry.2.texts)) =
      rows vocabulary [] (lineKinds text) := by
  rw [misplaced_eq_nil_iff, ← map_ofChars_placedLines] at h
  have hrows := Entry.gather_rows vocabulary h
  have hnone : (Entry.gather (Entry.behind [] (placedLines text))).1 = [] :=
    Entry.gather_of_not_opened false (placedLines text)
  rw [hnone, List.map_nil, List.nil_append, map_ofChars_placedLines] at hrows
  rw [← hrows, placed, List.map_flatMap]
  simp only [List.map_map]
  rfl

end Recipe

/-! ### Sentences outside the ingredients sections -/

theorem Problem.severity_ne_error_iff {problem : Problem} :
    problem.severity ≠ .error ↔ problem = .tooManyTools := by
  cases problem <;> simp [severity]

/-- Of findings that are all errors, none is to be there. -/
theorem noError_iff_eq_nil {findings : List Finding}
    (h : ∀ f ∈ findings, f.problem ≠ .tooManyTools) :
    (∀ f ∈ findings, f.problem = .tooManyTools) ↔ findings = [] := by
  rw [List.eq_nil_iff_forall_not_mem]
  exact ⟨fun hall f hf => h f hf (hall f hf), fun hnone f hf => absurd hf (hnone f)⟩

/-- What makes a row admissible, by its first word. -/
theorem admissible_iff {vocabulary : Vocabulary} {declared : List String} {head : String}
    {arguments : List String} :
    Admissible vocabulary declared (head, arguments) ↔
      if head ∈ vocabulary.ingredientVerbs then
        arguments ≠ [] ∧ ∀ name ∈ arguments, name ∈ declared
      else if head ∈ vocabulary.verbs then True
      else if head ∈ vocabulary.adverbs then ∃ tool ∈ arguments.head?, tool ∈ vocabulary.tools
      else False := by
  constructor
  · rintro (⟨hhead, hsome, hdeclared⟩ | ⟨hhead, hother⟩ | ⟨⟨hadverb, hverb, hother⟩, htool⟩)
    · rw [if_pos hhead]
      exact ⟨hsome, hdeclared⟩
    · rw [if_neg hother, if_pos hhead]
      trivial
    · rw [if_neg hother, if_neg hverb, if_pos hadverb]
      exact ⟨_, rfl, htool⟩
  · intro h
    split at h
    · next hhead => exact .ingredients hhead h.1 h.2
    · next hother =>
        split at h
        · next hverb => exact .verb hverb hother
        · next hverb =>
            split at h
            · next hadverb =>
                obtain ⟨tool, hfirst, htool⟩ := h
                cases arguments with
                | nil => cases hfirst
                | cons first extra =>
                    obtain rfl : first = tool := by simpa using hfirst
                    exact .tool ⟨hadverb, hverb, hother⟩ htool
            · exact h.elim

namespace Sentence

variable {ingredients : Ingredients} {declared : List String}

theorem ingredientFindings_eq_nil_iff (row : Sentence)
    (hdeclared : ∀ name, ingredients.isDefined name = true ↔ name ∈ declared) :
    row.ingredientFindings ingredients = [] ↔
      row.arguments ≠ [] ∧ ∀ word ∈ row.arguments, word.text ∈ declared := by
  unfold ingredientFindings
  cases row.arguments with
  | nil => simp
  | cons first rest => simp [hdeclared]

theorem problem_of_mem_ingredientFindings (ingredients : Ingredients) (row : Sentence) :
    ∀ f ∈ row.ingredientFindings ingredients, f.problem ≠ .tooManyTools := by
  intro f h
  unfold ingredientFindings at h
  rcases List.mem_append.mp h with h | h
  · split at h
    · obtain rfl := List.mem_singleton.mp h
      nofun
    · cases h
  · obtain ⟨word, -, rfl⟩ := List.mem_map.mp h
    nofun

theorem toolFindings_spec (vocabulary : Vocabulary) (row : Sentence) :
    ((∀ f ∈ row.toolFindings vocabulary, f.problem = .tooManyTools) ↔
        ∃ word ∈ row.arguments.head?, word.text ∈ vocabulary.tools) ∧
      (row.toolFindings vocabulary = [] ↔
        (∃ word ∈ row.arguments.head?, word.text ∈ vocabulary.tools) ∧
          row.arguments.length = 1) := by
  unfold toolFindings
  cases row.arguments with
  | nil => simp
  | cons tool extra =>
      by_cases htool : tool.text ∈ vocabulary.tools <;> cases extra <;>
        simp [Vocabulary.isTool, htool, Span.mergeAll]

/-- **A sentence is without error exactly if its row is admissible**, and without any finding
exactly if besides an adverb is followed by one word only. -/
theorem findings_spec (vocabulary : Vocabulary) (row : Sentence)
    (hdeclared : ∀ name, ingredients.isDefined name = true ↔ name ∈ declared) :
    ((∀ f ∈ row.findings vocabulary ingredients false, f.problem = .tooManyTools) ↔
        Admissible vocabulary declared row.texts) ∧
      (row.findings vocabulary ingredients false = [] ↔
        Admissible vocabulary declared row.texts ∧
          (IsAdverbHead vocabulary row.texts.1 → row.texts.2.length = 1)) := by
  unfold findings
  simp only [texts, admissible_iff, IsAdverbHead, Vocabulary.needsIngredients, Vocabulary.isVerb,
    Vocabulary.isAdverb, List.contains_iff_mem, Bool.false_eq_true, if_false]
  by_cases hneeds : row.head.text ∈ vocabulary.ingredientVerbs
  · have hnil := row.ingredientFindings_eq_nil_iff hdeclared
    have herrors := noError_iff_eq_nil (row.problem_of_mem_ingredientFindings ingredients)
    simp [hneeds, herrors, hnil]
  · by_cases hverb : row.head.text ∈ vocabulary.verbs
    · simp [hneeds, hverb]
    · by_cases hadverb : row.head.text ∈ vocabulary.adverbs
      · obtain ⟨herror, hnil⟩ := row.toolFindings_spec vocabulary
        simp [hneeds, hverb, hadverb, herror, hnil]
      · simp [hneeds, hverb, hadverb]

end Sentence

/-! ### Declarations and uses -/

/-- The words that declare ingredients. -/
def Recipe.declarations (vocabulary : Vocabulary) (recipe : Recipe) : List Word :=
  ((recipe.placed vocabulary).filter fun entry => entry.1).map fun entry => entry.2.head

/-- The words that are used: the arguments of the verbs that take ingredients, outside the
ingredients sections. -/
def Recipe.ingredientArguments (vocabulary : Vocabulary) (recipe : Recipe) : List Word :=
  ((recipe.placed vocabulary).filter fun entry =>
    !entry.1 && vocabulary.needsIngredients entry.2.head.text).flatMap fun entry =>
      entry.2.arguments

/-- The first word of a name is the word itself, for all words, exactly if no name comes twice. -/
theorem nodup_iff_first {words : List Word} (hspans : words.Pairwise fun a b => a.span ≠ b.span) :
    (∀ word ∈ words,
      ((words.filter fun w => w.text = word.text).head?.any fun w => w.span == word.span) = true) ↔
      (words.map Word.text).Nodup := by
  constructor
  · intro h
    rw [List.Nodup, List.pairwise_map]
    refine hspans.imp_of_mem ?_
    intro a b ha hb hne htext
    -- both would be the first word of their common name
    have hfirst := h a ha
    have hsecond := h b hb
    rw [htext] at hfirst
    cases hhead : (words.filter fun w => w.text = b.text).head? with
    | none => simp [hhead] at hfirst
    | some first =>
        simp only [hhead, Option.any_some, beq_iff_eq] at hfirst hsecond
        exact hne (hfirst.symm.trans hsecond)
  · intro hnodup word hword
    have hmem : word ∈ words.filter fun w => w.text = word.text := by simpa using hword
    cases hhead : (words.filter fun w => w.text = word.text).head? with
    | none =>
        rw [List.head?_eq_none_iff] at hhead
        simp [hhead] at hmem
    | some first =>
        have hfirst := List.mem_of_head? hhead
        rw [List.mem_filter, decide_eq_true_eq] at hfirst
        obtain rfl := List.inj_on_of_nodup_map hnodup hfirst.1 hword hfirst.2
        simp

namespace Recipe

variable (vocabulary : Vocabulary) (recipe : Recipe)

/-- Row by row, the words that occur in the one role are heads, and those in the other arguments. -/
theorem wordsIn_occurrences :
    Occurrence.wordsIn .declared (recipe.occurrences vocabulary) =
        recipe.declarations vocabulary ∧
      Occurrence.wordsIn .used (recipe.occurrences vocabulary) =
        recipe.ingredientArguments vocabulary := by
  rw [occurrences_eq, declarations, ingredientArguments]
  induction recipe.placed vocabulary with
  | nil => exact ⟨rfl, rfl⟩
  | cons entry rest ih =>
      obtain ⟨declares, row⟩ := entry
      rw [List.flatMap_cons, Occurrence.wordsIn_append, Occurrence.wordsIn_append, ih.1, ih.2]
      cases declares with
      | true => simp [Sentence.occurrences, Occurrence.wordsIn]
      | false =>
          by_cases hneeds : vocabulary.needsIngredients row.head.text = true
          · simp [Sentence.occurrences, Occurrence.wordsIn, hneeds, List.filter_map,
              Function.comp_def]
          · simp [Sentence.occurrences, Occurrence.wordsIn, hneeds]

theorem declarations_eq :
    recipe.declarations vocabulary =
      Occurrence.wordsIn .declared (recipe.occurrences vocabulary) :=
  (wordsIn_occurrences vocabulary recipe).1.symm

theorem ingredientArguments_eq :
    recipe.ingredientArguments vocabulary =
      Occurrence.wordsIn .used (recipe.occurrences vocabulary) :=
  (wordsIn_occurrences vocabulary recipe).2.symm

theorem named_declared (name : String) :
    Occurrence.named .declared name (recipe.occurrences vocabulary) =
      (recipe.declarations vocabulary).filter fun w => w.text = name := by
  rw [declarations_eq, Occurrence.named_eq]

/-- A name is declared exactly if a declaration has it. -/
theorem isDefined_iff (name : String) :
    (Ingredients.ofRecipe vocabulary recipe).isDefined name = true ↔
      name ∈ (recipe.declarations vocabulary).map Word.text := by
  rw [Ingredients.isDefined, Ingredients.ofRecipe, Ingredients.definition_ofOccurrences,
    named_declared, List.isSome_head?]
  simp [List.filter_eq_nil_iff]

/-- A declaration is without finding exactly if it is the first one of its name. -/
theorem declarationFindings_eq_nil_iff {row : Sentence}
    (hrow : (true, row) ∈ recipe.placed vocabulary) :
    row.declarationFindings (Ingredients.ofRecipe vocabulary recipe) = [] ↔
      (((recipe.declarations vocabulary).filter fun w => w.text = row.head.text).head?.any
        fun w => w.span == row.head.span) = true := by
  have hmem : row.head ∈ recipe.declarations vocabulary :=
    List.mem_map.mpr ⟨(true, row), List.mem_filter.mpr ⟨hrow, rfl⟩, rfl⟩
  have hdefinition := Ingredients.definition_ofOccurrences (recipe.occurrences vocabulary)
    row.head.text
  rw [named_declared] at hdefinition
  rw [← hdefinition]
  unfold Sentence.declarationFindings Ingredients.ofRecipe
  cases hget : (Ingredients.ofOccurrences (recipe.occurrences vocabulary)).get? row.head.text with
  | none =>
      -- its own name has an entry
      rw [hget] at hdefinition
      have hnone := List.head?_eq_none_iff.mp hdefinition.symm
      exact absurd rfl (List.filter_eq_nil_iff.mp hnone _ hmem <| decide_eq_true ·)
  | some entry =>
      cases entry.definition <;> simp

theorem problem_of_mem_declarationFindings (ingredients : Ingredients) (row : Sentence) :
    ∀ f ∈ row.declarationFindings ingredients, f.problem ≠ .tooManyTools := by
  intro f h
  unfold Sentence.declarationFindings at h
  split at h
  · cases h
  · split at h
    · cases h
    · obtain rfl := List.mem_singleton.mp h
      nofun

/-- **The declarations are without finding exactly if no name is declared twice.** -/
theorem declarations_spec (vocabulary : Vocabulary) (text : String) :
    let recipe := ofText text
    (∀ row, (true, row) ∈ recipe.placed vocabulary →
        row.declarationFindings (Ingredients.ofRecipe vocabulary recipe) = []) ↔
      ((recipe.declarations vocabulary).map Word.text).Nodup := by
  intro recipe
  have hspans : (recipe.declarations vocabulary).Pairwise fun a b => a.span ≠ b.span := by
    have hsub : (recipe.declarations vocabulary).Sublist (textWords text) := by
      rw [declarations_eq]
      exact ((List.filter_sublist.map _).trans (occurrences_sublist vocabulary recipe)).trans
        (words_sublist text)
    refine (starts_increase hsub).imp ?_
    intro a b hlt heq
    rw [heq] at hlt
    exact Nat.lt_irrefl _ hlt
  rw [← nodup_iff_first hspans]
  constructor
  · intro h word hword
    obtain ⟨⟨declares, row⟩, hentry, rfl⟩ := List.mem_map.mp hword
    obtain ⟨hrow, rfl⟩ := List.mem_filter.mp hentry
    exact (declarationFindings_eq_nil_iff vocabulary recipe hrow).mp (h row hrow)
  · intro h row hrow
    refine (declarationFindings_eq_nil_iff vocabulary recipe hrow).mpr (h row.head ?_)
    exact List.mem_map.mpr ⟨(true, row), List.mem_filter.mpr ⟨hrow, rfl⟩, rfl⟩

theorem map_text_declarations (vocabulary : Vocabulary) {text : String}
    (h : misplaced text = []) :
    ((ofText text).declarations vocabulary).map Word.text =
      declaredNames vocabulary (lineKinds text) := by
  rw [declaredNames, ← rows_eq vocabulary h, declarations, List.filter_map, List.map_map,
    List.map_map]
  rfl

theorem forall_rows_iff (vocabulary : Vocabulary) {text : String} (h : misplaced text = [])
    (Q : String × List String → Prop) :
    (∀ row, (false, row) ∈ (ofText text).placed vocabulary → Q row.texts) ↔
      ∀ row, (false, row) ∈ rows vocabulary [] (lineKinds text) → Q row := by
  rw [← rows_eq vocabulary h]
  constructor
  · intro hall row hrow
    obtain ⟨⟨declares, sentence⟩, hsentence, heq⟩ := List.mem_map.mp hrow
    obtain ⟨rfl, rfl⟩ := Prod.mk.inj heq
    exact hall sentence hsentence
  · intro hall row hrow
    exact hall row.texts (List.mem_map.mpr ⟨(false, row), hrow, rfl⟩)

/-- The findings about sentences are those about declarations and those about the others. -/
theorem forall_mem_findings (vocabulary : Vocabulary) (ingredients : Ingredients)
    (recipe : Recipe) (P : Finding → Prop) :
    (∀ f ∈ recipe.findings vocabulary ingredients, P f) ↔
      (∀ row, (true, row) ∈ recipe.placed vocabulary →
        ∀ f ∈ row.declarationFindings ingredients, P f) ∧
      ∀ row, (false, row) ∈ recipe.placed vocabulary →
        ∀ f ∈ row.findings vocabulary ingredients false, P f := by
  rw [findings_eq, List.forall_mem_flatMap]
  constructor
  · intro h
    exact ⟨fun row hrow => h _ hrow, fun row hrow => h _ hrow⟩
  · rintro ⟨hdeclared, hothers⟩ ⟨declares, row⟩ hrow
    cases declares with
    | true => exact hdeclared row hrow
    | false => exact hothers row hrow

/-- The sentences of a text whose lines are in place. -/
theorem findings_spec (vocabulary : Vocabulary) {text : String} (h : misplaced text = []) :
    let findings := (ofText text).findings vocabulary
      (Ingredients.ofRecipe vocabulary (ofText text))
    let declared := declaredNames vocabulary (lineKinds text)
    ((∀ f ∈ findings, f.problem = .tooManyTools) ↔
        declared.Nodup ∧ ∀ row, (false, row) ∈ rows vocabulary [] (lineKinds text) →
          Admissible vocabulary declared row) ∧
      (findings = [] ↔
        declared.Nodup ∧ ∀ row, (false, row) ∈ rows vocabulary [] (lineKinds text) →
          Admissible vocabulary declared row ∧
            (IsAdverbHead vocabulary row.1 → row.2.length = 1)) := by
  intro findings declared
  have hdeclared : ∀ name,
      (Ingredients.ofRecipe vocabulary (ofText text)).isDefined name = true ↔ name ∈ declared := by
    intro name
    rw [isDefined_iff, map_text_declarations vocabulary h]
  have hdeclarations := declarations_spec vocabulary text
  simp only [map_text_declarations vocabulary h] at hdeclarations
  have hrow := fun row : Sentence => row.findings_spec vocabulary hdeclared
  constructor
  · rw [← hdeclarations, ← forall_rows_iff vocabulary h, forall_mem_findings]
    refine and_congr ?_ ?_
    · simp only [noError_iff_eq_nil (problem_of_mem_declarationFindings _ _)]
    · simp only [(hrow _).1]
  · rw [← hdeclarations, ← forall_rows_iff vocabulary h, List.eq_nil_iff_forall_not_mem,
      forall_mem_findings]
    simp only [← List.eq_nil_iff_forall_not_mem, (hrow _).2]

theorem problem_of_mem_misplaced (text : String) :
    ∀ f ∈ misplaced text, f.problem ≠ .tooManyTools := by
  intro f h
  obtain ⟨entry, hentry, hfinding⟩ := List.mem_filterMap.mp h
  obtain ⟨titled, opened, line, -, rfl⟩ := Entry.mem_ofLines hentry
  unfold Entry.ofLine at hfinding
  split at hfinding
  · cases hfinding
  · dsimp only at hfinding
    split at hfinding <;> split at hfinding <;> cases hfinding <;> nofun
  · dsimp only at hfinding
    split at hfinding <;> cases hfinding
    nofun

/-- The lines are in place exactly if titles, section headers and words come in this order. -/
theorem misplaced_eq_nil_iff_ordered (text : String) :
    misplaced text = [] ↔
      (lineKinds text).countP Line.isTitle ≤ 1 ∧
      (∀ entry ∈ withBefore [] (lineKinds text), entry.2.section?.isSome →
        ∃ line ∈ entry.1, line.isTitle) ∧
      ∀ entry ∈ withBefore [] (lineKinds text), entry.2.row?.isSome →
        ∃ line ∈ entry.1, line.section?.isSome := by
  have hcount := countP_isTitle_le_iff [] (lineKinds text)
  simp only [isTitled, List.any_nil, Bool.false_eq_true, if_false] at hcount
  rw [misplaced_eq_nil_iff, ← hcount]
  constructor
  · intro h
    refine ⟨fun entry hentry => (h entry hentry).title, fun entry hentry hsection => ?_,
      fun entry hentry hrow => ?_⟩
    · exact List.any_eq_true.mp ((h entry hentry).header hsection)
    · exact List.any_eq_true.mp ((h entry hentry).words hrow)
  · rintro ⟨htitle, hheader, hwords⟩ entry hentry
    refine ⟨htitle entry hentry, fun hsection => ?_, fun hrow => ?_⟩
    · exact List.any_eq_true.mpr (hheader entry hentry hsection)
    · exact List.any_eq_true.mpr (hwords entry hentry hrow)

end Recipe

/-! ### The verdict -/

theorem wellFormed_iff (vocabulary : Vocabulary) (text : String) :
    WellFormed vocabulary (lineKinds text) ↔
      Recipe.misplaced text = [] ∧ (declaredNames vocabulary (lineKinds text)).Nodup ∧
        ∀ row, (false, row) ∈ rows vocabulary [] (lineKinds text) →
          Admissible vocabulary (declaredNames vocabulary (lineKinds text)) row := by
  rw [Recipe.misplaced_eq_nil_iff_ordered]
  constructor
  · intro h
    exact ⟨⟨h.one_title, h.section_after_title, h.words_in_section⟩, h.declared_once, h.admissible⟩
  · rintro ⟨⟨htitle, hsection, hwords⟩, hdeclared, hadmissible⟩
    exact ⟨htitle, hsection, hwords, hdeclared, hadmissible⟩

/-- **Checking is sound and complete.** The columns of a text tell what its lines are, in one way.
A text has no error exactly if these lines are well formed, and nothing at all is reported of it
exactly if besides every adverb is followed by one word only. -/
theorem diagnostics_wellFormed (vocabulary : Vocabulary) (text : String) :
    let diagnostics := (Analysis.ofText vocabulary text).diagnostics
    ∃ lines, (∀ others, LinesAre text others ↔ others = lines) ∧
      ((∀ d ∈ diagnostics, d.severity ≠ .error) ↔ WellFormed vocabulary lines) ∧
      (diagnostics = [] ↔
        WellFormed vocabulary lines ∧
          ∀ row, (false, row) ∈ rows vocabulary [] lines →
            IsAdverbHead vocabulary row.1 → row.2.length = 1) := by
  intro diagnostics
  have hmisplaced := noError_iff_eq_nil (Recipe.problem_of_mem_misplaced text)
  refine ⟨lineKinds text, fun _ => linesAre_iff, ?_, ?_⟩
  · have hproblems : (∀ d ∈ diagnostics, d.severity ≠ .error) ↔
        (∀ f ∈ Recipe.misplaced text, f.problem = .tooManyTools) ∧
          ∀ f ∈ (Recipe.ofText text).findings vocabulary
            (Ingredients.ofRecipe vocabulary (Recipe.ofText text)), f.problem = .tooManyTools := by
      rw [← List.forall_mem_append]
      simp only [diagnostics, Analysis.diagnostics, List.forall_mem_map]
      exact forall₂_congr fun f _ => Problem.severity_ne_error_iff
    rw [hproblems, hmisplaced, wellFormed_iff]
    exact and_congr_right fun h => (Recipe.findings_spec vocabulary h).1
  · have hempty : diagnostics = [] ↔ Recipe.misplaced text = [] ∧
        (Recipe.ofText text).findings vocabulary
          (Ingredients.ofRecipe vocabulary (Recipe.ofText text)) = [] := by
      simp only [diagnostics, Analysis.diagnostics, List.map_eq_nil_iff]
      exact List.append_eq_nil_iff
    rw [hempty, wellFormed_iff, and_assoc]
    refine and_congr_right fun h => ((Recipe.findings_spec vocabulary h).2).trans ?_
    rw [and_assoc]
    refine and_congr_right fun _ => ?_
    exact ⟨fun hall => ⟨fun row hrow => (hall row hrow).1, fun row hrow => (hall row hrow).2⟩,
      fun hall row hrow => ⟨hall.1 row hrow, hall.2 row hrow⟩⟩

end RecipeDesk
