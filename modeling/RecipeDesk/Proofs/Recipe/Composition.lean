import RecipeDesk.Proofs.Recipe.Tracks

/-!
# Renamings one after the other

A renaming is given by two names: which ingredient, and what it is called afterwards. Where the
caret stands does not matter, as long as it is on a word with the old name; `renamed` is the text
that comes out (`renameAt_eq`).

The first of two renamings takes the words that name ingredients to words that name ingredients, and
other words to other words (`Tracks.mem_naming_iff`). So the second one finds exactly the right
words, wherever they are now, and both together write over every word that names an ingredient what
the two renamings make of its name (`renamed_renamed`). To compare pairs of renamings is then to
compare functions on names: going back to the old name undoes a renaming (`rename_undone`), and
renamings of different ingredients can be made in either order (`renamings_commute`).
-/

namespace RecipeDesk

/-! ### A text respelled word by word -/

/-- A line with `read word` in the place of every word. -/
def PlacedLine.respelled (read : Word → String) (line : PlacedLine) : List Char :=
  Run.rewrite (fun run => (read (line.word run)).toList) 0 line.chars

/-- A text with `read word` in the place of every word. -/
def respelled (read : Word → String) (text : String) : String :=
  String.ofList (joinLines ((placedLines text).map (PlacedLine.respelled read)))

theorem Run.rewrite_congr {read read' : Run → List Char} {column : Nat} {cs : List Char}
    (h : ∀ run ∈ scan column cs, read run = read' run) :
    rewrite read column cs = rewrite read' column cs := by
  induction cs using stretch_induction generalizing column with
  | nil => rw [rewrite_nil, rewrite_nil]
  | blank c cs hc ih =>
      rw [scan_blank column cs hc] at h
      rw [rewrite_blank read column cs hc, rewrite_blank read' column cs hc, ih h]
  | word w rest hw hrest ih =>
      rw [scan_word column hw hrest] at h
      obtain ⟨hfirst, hlater⟩ := List.forall_mem_cons.mp h
      rw [rewrite_word read column hw hrest, rewrite_word read' column hw hrest, hfirst, ih hlater]

theorem respelled_congr {read read' : Word → String} {text : String}
    (h : ∀ word ∈ textWords text, read word = read' word) :
    respelled read text = respelled read' text := by
  have hlines : (placedLines text).map (PlacedLine.respelled read) =
      (placedLines text).map (PlacedLine.respelled read') := by
    refine List.map_congr_left fun line hline => Run.rewrite_congr fun run hrun => ?_
    have hword : line.word run ∈ textWords text :=
      List.mem_flatMap.mpr ⟨line, hline, List.mem_map_of_mem hrun⟩
    exact congrArg String.toList (h _ hword)
  rw [respelled, respelled, hlines]

theorem respelled_text (text : String) : respelled Word.text text = text := by
  have hlines : (placedLines text).map (PlacedLine.respelled Word.text) =
      (placedLines text).map PlacedLine.chars :=
    List.map_congr_left fun line _ => Run.rewrite_self fun run _ => String.toList_ofList
  rw [respelled, hlines, placedLines, map_chars_placeLines, joinLines_textLines,
    String.ofList_toList]

/-- To write over chosen words twice is to respell every word once. -/
theorem Tracks.overwritten_overwritten {chosen : Word → Bool} {newName text : String}
    {track : Word → Word} (h : Tracks chosen newName text track) (hname : IsName newName)
    (chosen' : Word → Bool) (newName' : String) :
    overwritten chosen' newName' (overwritten chosen newName text) =
      respelled (fun word => rewrittenText chosen' newName' (track word)) text := by
  have hlines : rewrittenLines chosen' newName' (overwritten chosen newName text) =
      (placedLines text).map
        (PlacedLine.respelled fun word => rewrittenText chosen' newName' (track word)) := by
    refine forall₂_eq_iff.mp (h.lines.imp ?_)
    rintro line line' ⟨hchars, -, hwords⟩
    rw [PlacedLine.words, PlacedLine.words, List.map_map] at hwords
    have hruns := forall₂_eq_iff.mpr hwords
    rw [hchars] at hruns
    rw [PlacedLine.rewritten, hchars]
    refine Run.rewrite_rewrite 0
      (fun run hrun => isWordText_rewrittenText chosen newName hname hrun) (hruns.imp ?_)
    intro run run' hword
    rw [hword]
    rfl
  rw [overwritten, hlines, respelled]

/-! ### The words of an ingredient -/

/-- The words that name ingredients, in document order. -/
def Recipe.naming (vocabulary : Vocabulary) (recipe : Recipe) : List Word :=
  (recipe.occurrences vocabulary).map Occurrence.word

/-- Whether a word of a text names the ingredient `name`. -/
def isNamed (vocabulary : Vocabulary) (text name : String) (word : Word) : Bool :=
  decide (word ∈ (Recipe.ofText text).naming vocabulary ∧ word.text = name)

/-- A text in which the ingredient `name` is called `newName`. -/
def renamed (vocabulary : Vocabulary) (name newName text : String) : String :=
  overwritten (isNamed vocabulary text name) newName text

variable {vocabulary : Vocabulary} {text : String}

theorem Recipe.mem_textWords_of_mem_naming {word : Word}
    (h : word ∈ (ofText text).naming vocabulary) : word ∈ textWords text :=
  (words_sublist text).subset ((occurrences_sublist vocabulary _).subset h)

/-- No word of a heading names an ingredient. -/
theorem isNamed_of_not_isWords (vocabulary : Vocabulary) (text name : String) :
    ∀ line ∈ placedLines text, ¬ line.IsWords → ∀ word ∈ line.words,
      isNamed vocabulary text name word = false := by
  intro line hline hnot word hword
  have hnotword := Recipe.not_mem_words_of_not_isWords hline hnot hword
  exact decide_eq_false fun h => hnotword ((Recipe.occurrences_sublist vocabulary _).subset h.1)

theorem Analysis.get?_ingredients (vocabulary : Vocabulary) (text name : String) :
    (ofText vocabulary text).ingredients.get? name =
      if ∃ o ∈ (Recipe.ofText text).occurrences vocabulary, o.word.text = name then
        some (Ingredient.collect name ((Recipe.ofText text).occurrences vocabulary))
      else none :=
  Ingredients.get?_ofOccurrences _ name

/-- A name without entry is the name of no word. -/
theorem text_ne_of_fresh {name : String} {word : Word}
    (hfresh : (Analysis.ofText vocabulary text).ingredients.get? name = none)
    (hword : word ∈ (Recipe.ofText text).naming vocabulary) : word.text ≠ name := by
  intro heq
  obtain ⟨o, ho, rfl⟩ := List.mem_map.mp hword
  rw [Analysis.get?_ingredients, if_pos ⟨o, ho, heq⟩] at hfresh
  cases hfresh

/-- `newName` for `name`, and every other name for itself. -/
def replaceName (name newName other : String) : String := if other = name then newName else other

/-- How a word reads when ingredients go by other names. -/
def recast (vocabulary : Vocabulary) (text : String) (call : String → String) (word : Word) :
    String :=
  if word ∈ (Recipe.ofText text).naming vocabulary then call word.text else word.text

theorem rewrittenText_isNamed (name newName : String) (word : Word) :
    rewrittenText (isNamed vocabulary text name) newName word =
      recast vocabulary text (replaceName name newName) word := by
  unfold rewrittenText isNamed recast replaceName
  by_cases hnaming : word ∈ (Recipe.ofText text).naming vocabulary <;> simp [hnaming]

/-! ### What happens to them -/

/-- The same occurrence at another word. -/
def Occurrence.mapWord (f : Word → Word) (o : Occurrence) : Occurrence := ⟨o.role, f o.word⟩

/-- If the head that decides about a sentence reads the same, the same words name ingredients. -/
theorem Sentence.occurrences_mapWords {f : Word → Word} {declares : Bool} {row : Sentence}
    (h : declares = false → (f row.head).text = row.head.text) :
    (row.mapWords f).occurrences vocabulary declares =
      (row.occurrences vocabulary declares).map (Occurrence.mapWord f) := by
  cases declares with
  | true => rfl
  | false =>
      unfold occurrences mapWords
      simp only [h rfl, Bool.false_eq_true, if_false]
      split
      · rw [List.map_map, List.map_map]
        rfl
      · rfl

namespace Tracks

variable {name newName : String} {track : Word → Word}
  (h : Tracks (isNamed vocabulary text name) newName text track) (hname : IsName newName)
include h hname

theorem text_naming {word : Word} (hword : word ∈ (Recipe.ofText text).naming vocabulary) :
    (track word).text = replaceName name newName word.text := by
  rw [h.text_eq hname (Recipe.mem_textWords_of_mem_naming hword), rewrittenText_isNamed, recast,
    if_pos hword]

/-- Only words that name ingredients are renamed. -/
theorem text_of_not_naming {word : Word} (hword : word ∈ textWords text)
    (hnot : word ∉ (Recipe.ofText text).naming vocabulary) : (track word).text = word.text := by
  rw [h.text_eq hname hword, rewrittenText_isNamed, recast, if_neg hnot]

/-- In particular the head of a sentence outside the ingredients sections is not. -/
theorem text_head {row : Sentence} (hrow : (false, row) ∈ (Recipe.ofText text).placed vocabulary) :
    (track row.head).text = row.head.text := by
  have hnodup := nodup_of_sublist_textWords (Recipe.words_sublist text)
  refine h.text_of_not_naming hname (Recipe.mem_textWords_of_placed hrow List.mem_cons_self) ?_
  intro hmem
  obtain ⟨o, ho, hhead⟩ := List.mem_map.mp hmem
  exact Recipe.head_not_occurrence hnodup hrow ho hhead

theorem placed_renamed :
    (Recipe.ofText (renamed vocabulary name newName text)).placed vocabulary =
      ((Recipe.ofText text).placed vocabulary).map fun entry =>
        (entry.1, entry.2.mapWords track) :=
  h.placed_eq vocabulary hname (isNamed_of_not_isWords vocabulary text name)

/-- **The words that name ingredients are the successors of those that did**, in the same roles. -/
theorem occurrences_eq :
    (Recipe.ofText (renamed vocabulary name newName text)).occurrences vocabulary =
      ((Recipe.ofText text).occurrences vocabulary).map (Occurrence.mapWord track) := by
  rw [Recipe.occurrences_eq, Recipe.occurrences_eq, h.placed_renamed hname, List.flatMap_map,
    List.map_flatMap]
  refine List.flatMap_congr ?_
  rintro ⟨declares, row⟩ hrow
  refine Sentence.occurrences_mapWords fun hother => ?_
  subst hother
  exact h.text_head hname hrow

theorem mem_naming_iff {word : Word} (hword : word ∈ textWords text) :
    track word ∈ (Recipe.ofText (renamed vocabulary name newName text)).naming vocabulary ↔
      word ∈ (Recipe.ofText text).naming vocabulary := by
  have hnaming : (Recipe.ofText (renamed vocabulary name newName text)).naming vocabulary =
      ((Recipe.ofText text).naming vocabulary).map track := by
    rw [Recipe.naming, Recipe.naming, h.occurrences_eq hname, List.map_map, List.map_map]
    rfl
  rw [hnaming]
  constructor
  · intro hmem
    obtain ⟨other, hother, heq⟩ := List.mem_map.mp hmem
    rwa [← h.inj (Recipe.mem_textWords_of_mem_naming hother) hword heq]
  · exact List.mem_map_of_mem

end Tracks

/-! ### Two renamings -/

/-- **Two renamings together** write over every word that names an ingredient what they make of its
name one after the other. -/
theorem renamed_renamed (vocabulary : Vocabulary) (text : String) {a x : String} (hx : IsName x)
    (b y : String) :
    renamed vocabulary b y (renamed vocabulary a x text) =
      respelled (recast vocabulary text fun name => replaceName b y (replaceName a x name))
        text := by
  obtain ⟨track, h⟩ := exists_tracks (isNamed vocabulary text a) text hx
  rw [renamed, renamed, h.overwritten_overwritten hx]
  refine respelled_congr fun word hword => ?_
  rw [← renamed, rewrittenText_isNamed, recast, recast]
  simp only [h.mem_naming_iff hx hword, h.text_eq hx hword, rewrittenText_isNamed, recast]
  split <;> rfl

/-! ### Renaming at a caret -/

/-- The text of the word under the caret. -/
def Analysis.nameAt? (analysis : Analysis) (caret : Position) : Option String :=
  (analysis.recipe.wordAt? caret).map Word.text

/-- A text after the ingredient under the caret has been renamed. -/
def renameAt (vocabulary : Vocabulary) (text : String) (caret : Position) (newName : String) :
    Except RenameFault String :=
  ((Analysis.ofText vocabulary text).rename caret newName).map (Edit.applyAll text)

/-- The edits of a renaming are those of the words of the name under the caret; there are none if
it is no ingredient. -/
theorem Analysis.rename_eq {caret : Position} {name newName : String}
    (hcaret : (ofText vocabulary text).nameAt? caret = some name)
    (hvalid : isValidName newName = true) :
    (ofText vocabulary text).rename caret newName =
      .ok (Edit.sort ((Ingredient.collect name
        ((Recipe.ofText text).occurrences vocabulary)).words.map fun w => ⟨w.span, newName⟩)) := by
  obtain ⟨word, hword, rfl⟩ := Option.map_eq_some_iff.mp hcaret
  rw [rename, if_pos hvalid, hword, Option.bind_some, get?_ingredients]
  by_cases hoccurs : ∃ o ∈ (Recipe.ofText text).occurrences vocabulary, o.word.text = word.text
  · rw [if_pos hoccurs]
  · have hnone : (Ingredient.collect word.text
        ((Recipe.ofText text).occurrences vocabulary)).words = [] := by
      refine List.eq_nil_iff_forall_not_mem.mpr fun w hw => hoccurs ?_
      obtain ⟨o, ho, rfl, hname⟩ := Ingredient.mem_words_collect.mp hw
      exact ⟨o, ho, hname⟩
    rw [if_neg hoccurs, hnone]
    simp [Edit.sort]

/-- **A renaming depends on the name under the caret only**, not on where the caret stands. -/
theorem renameAt_eq {caret : Position} {name newName : String}
    (hcaret : (Analysis.ofText vocabulary text).nameAt? caret = some name)
    (hvalid : isValidName newName = true) :
    renameAt vocabulary text caret newName = .ok (renamed vocabulary name newName text) := by
  obtain ⟨hnodup, hwords⟩ := Ingredient.words_collect_nodup vocabulary text name
  have hchosen : (fun w => decide (w ∈ (Ingredient.collect name
      ((Recipe.ofText text).occurrences vocabulary)).words)) = isNamed vocabulary text name := by
    funext w
    refine decide_eq_decide.mpr (Ingredient.mem_words_collect.trans ?_)
    rw [Recipe.naming, List.mem_map]
    constructor
    · rintro ⟨o, ho, hword, hname⟩
      exact ⟨⟨o, ho, hword⟩, hname⟩
    · rintro ⟨⟨o, ho, hword⟩, hname⟩
      exact ⟨o, ho, hword, hname⟩
  rw [renameAt, Analysis.rename_eq hcaret hvalid, sort_edits_eq_wordEdits newName hnodup
    fun w hw => (Recipe.words_sublist text).subset (hwords w hw), hchosen, Except.map,
    applyAll_wordEdits]
  rfl

/-- On no word there is nothing to rename. -/
theorem renameAt_of_none {caret : Position} {newName : String}
    (hcaret : (Analysis.ofText vocabulary text).nameAt? caret = none)
    (hvalid : isValidName newName = true) :
    renameAt vocabulary text caret newName = .ok text := by
  have hword := Option.map_eq_none_iff.mp hcaret
  rw [renameAt, Analysis.rename, if_pos hvalid, hword]
  simp [Except.map, Edit.applyAll, Edit.sort, Edit.splice]

/-- **A renaming can be undone.** From a caret on `a`, the words of the ingredient are renamed to a
name `b` that no ingredient had; renaming `b` to `a`, from wherever a `b` is written then, gives back
the text exactly. -/
theorem rename_undone (vocabulary : Vocabulary) (text a b : String) (caret : Position)
    (ha : isValidName a = true) (hb : isValidName b = true)
    (hfresh : (Analysis.ofText vocabulary text).ingredients.get? b = none)
    (hcaret : (Analysis.ofText vocabulary text).nameAt? caret = some a) :
    let text' := renamed vocabulary a b text
    renameAt vocabulary text caret b = .ok text' ∧
      ∀ caret', (Analysis.ofText vocabulary text').nameAt? caret' = some b →
        renameAt vocabulary text' caret' a = .ok text := by
  intro text'
  refine ⟨renameAt_eq hcaret hb, fun caret' hcaret' => ?_⟩
  rw [renameAt_eq hcaret' ha, renamed_renamed vocabulary text (isName_of_isValidName hb),
    Except.ok.injEq]
  refine (respelled_congr fun word _ => ?_).trans (respelled_text text)
  unfold recast
  split
  · next hnaming =>
      have hne := text_ne_of_fresh hfresh hnaming
      by_cases hword : word.text = a
      · simp [replaceName, hword]
      · simp [replaceName, hword, hne]
  · rfl

/-- An ingredient is given the name of a verb that stands in the text, and is renamed back with the
caret on the verb. -/
theorem rename_undone_verb :
    let vocabulary : Vocabulary := ⟨["mix"], ["mix"], [], [], "i"⟩
    let analyse := Analysis.ofText vocabulary
    let text := "#T\n##i\na \r\n##s\nmix\ta  a b"
    let text' := "#T\n##i\nmix \r\n##s\nmix\tmix  mix b"
    isValidName "a" = true ∧ isValidName "mix" = true ∧
      (analyse text).ingredients.get? "mix" = none ∧ (analyse text).nameAt? ⟨7, 2, 0⟩ = some "a" ∧
      renameAt vocabulary text ⟨7, 2, 0⟩ "mix" = .ok text' ∧
      (analyse text').nameAt? ⟨17, 4, 0⟩ = some "mix" ∧
      renameAt vocabulary text' ⟨17, 4, 0⟩ "a" = .ok text := by
  intro vocabulary analyse text text'
  have ha : isValidName "a" = true := by decide
  have hb : isValidName "mix" = true := by decide
  have hfresh : (analyse text).ingredients.get? "mix" = none := by decide +kernel
  have hcaret : (analyse text).nameAt? ⟨7, 2, 0⟩ = some "a" := by decide +kernel
  have hrenamed : renameAt vocabulary text ⟨7, 2, 0⟩ "mix" = .ok text' :=
    (renameAt_eq hcaret hb).trans (congrArg Except.ok (by decide +kernel))
  have hverb : (analyse text').nameAt? ⟨17, 4, 0⟩ = some "mix" := by decide +kernel
  obtain ⟨hnew, hundone⟩ := rename_undone vocabulary text "a" "mix" _ ha hb hfresh hcaret
  rw [Except.ok.inj (hnew.symm.trans hrenamed)] at hundone
  exact ⟨ha, hb, hfresh, hcaret, hrenamed, hverb, hundone _ hverb⟩

/-- **Renamings of different ingredients commute.** From carets on `a` and on `b`, in the text or in
what the other renaming made of it, both orders lead to the same text: the one in which the words of
`a` read `x` and those of `b` read `y`. -/
theorem renamings_commute (vocabulary : Vocabulary) (text a b x y : String)
    (caretA caretB : Position) (hab : a ≠ b)
    (ha : ((Analysis.ofText vocabulary text).ingredients.get? a).isSome = true)
    (hb : ((Analysis.ofText vocabulary text).ingredients.get? b).isSome = true)
    (hx : isValidName x = true) (hy : isValidName y = true)
    (hfreshx : (Analysis.ofText vocabulary text).ingredients.get? x = none)
    (hfreshy : (Analysis.ofText vocabulary text).ingredients.get? y = none)
    (hcaretA : (Analysis.ofText vocabulary text).nameAt? caretA = some a)
    (hcaretB : (Analysis.ofText vocabulary text).nameAt? caretB = some b) :
    let textA := renamed vocabulary a x text
    let textB := renamed vocabulary b y text
    let both := respelled (recast vocabulary text fun name =>
      if name = a then x else if name = b then y else name) text
    renameAt vocabulary text caretA x = .ok textA ∧ renameAt vocabulary text caretB y = .ok textB ∧
      (∀ caretB', (Analysis.ofText vocabulary textA).nameAt? caretB' = some b →
        renameAt vocabulary textA caretB' y = .ok both) ∧
      (∀ caretA', (Analysis.ofText vocabulary textB).nameAt? caretA' = some a →
        renameAt vocabulary textB caretA' x = .ok both) := by
  intro textA textB both
  have hxb : x ≠ b := by
    rintro rfl
    simp [hfreshx] at hb
  have hya : y ≠ a := by
    rintro rfl
    simp [hfreshy] at ha
  refine ⟨renameAt_eq hcaretA hx, renameAt_eq hcaretB hy, fun caretB' hB => ?_, fun caretA' hA => ?_⟩
  · have hnames : (fun name => replaceName b y (replaceName a x name)) =
        fun name => if name = a then x else if name = b then y else name := by
      funext name
      by_cases hname : name = a <;> simp [replaceName, hname, hxb]
    rw [renameAt_eq hB hy, renamed_renamed vocabulary text (isName_of_isValidName hx), hnames]
  · have hnames : (fun name => replaceName a x (replaceName b y name)) =
        fun name => if name = a then x else if name = b then y else name := by
      funext name
      by_cases hname : name = b
      · simp [replaceName, hname, hab.symm, hya]
      · simp [replaceName, hname]
    rw [renameAt_eq hA hx, renamed_renamed vocabulary text (isName_of_isValidName hy), hnames]

/-- Two ingredients of one line, each renamed first. -/
theorem renamings_commute_interleaved :
    let vocabulary : Vocabulary := ⟨["mix"], ["mix"], [], [], "i"⟩
    let analyse := Analysis.ofText vocabulary
    let text := "#T\n##i\na\nb\n##s\nmix a b a"
    let textA := "#T\n##i\nx1\nb\n##s\nmix x1 b x1"
    let textB := "#T\n##i\na\ny\n##s\nmix a y a"
    ((analyse text).ingredients.get? "a").isSome = true ∧
      ((analyse text).ingredients.get? "b").isSome = true ∧
      (analyse text).ingredients.get? "x1" = none ∧ (analyse text).ingredients.get? "y" = none ∧
      renameAt vocabulary text ⟨7, 2, 0⟩ "x1" = .ok textA ∧
      renameAt vocabulary text ⟨9, 3, 0⟩ "y" = .ok textB ∧
      (analyse textA).nameAt? ⟨23, 5, 7⟩ = some "b" ∧
      (analyse textB).nameAt? ⟨19, 5, 4⟩ = some "a" ∧
      renameAt vocabulary textA ⟨23, 5, 7⟩ "y" = renameAt vocabulary textB ⟨19, 5, 4⟩ "x1" := by
  intro vocabulary analyse text textA textB
  have ha : ((analyse text).ingredients.get? "a").isSome = true := by decide +kernel
  have hb : ((analyse text).ingredients.get? "b").isSome = true := by decide +kernel
  have hx : (analyse text).ingredients.get? "x1" = none := by decide +kernel
  have hy : (analyse text).ingredients.get? "y" = none := by decide +kernel
  have hnameA : (analyse text).nameAt? ⟨7, 2, 0⟩ = some "a" := by decide +kernel
  have hnameB : (analyse text).nameAt? ⟨9, 3, 0⟩ = some "b" := by decide +kernel
  have hA : renameAt vocabulary text ⟨7, 2, 0⟩ "x1" = .ok textA :=
    (renameAt_eq hnameA (by decide)).trans (congrArg Except.ok (by decide +kernel))
  have hB : renameAt vocabulary text ⟨9, 3, 0⟩ "y" = .ok textB :=
    (renameAt_eq hnameB (by decide)).trans (congrArg Except.ok (by decide +kernel))
  have hcaretB : (analyse textA).nameAt? ⟨23, 5, 7⟩ = some "b" := by decide +kernel
  have hcaretA : (analyse textB).nameAt? ⟨19, 5, 4⟩ = some "a" := by decide +kernel
  obtain ⟨hnewA, hnewB, hAB, hBA⟩ :=
    renamings_commute vocabulary text "a" "b" "x1" "y" ⟨7, 2, 0⟩ ⟨9, 3, 0⟩ (by decide) ha hb
      (by decide) (by decide) hx hy hnameA hnameB
  rw [Except.ok.inj (hnewA.symm.trans hA)] at hAB
  rw [Except.ok.inj (hnewB.symm.trans hB)] at hBA
  exact ⟨ha, hb, hx, hy, hA, hB, hcaretB, hcaretA,
    (hAB _ hcaretB).trans (hBA _ hcaretA).symm⟩

end RecipeDesk
