import RecipeDesk.Proofs.Recipe.Places
import RecipeDesk.Proofs.Text.Sequences

/-!
# A line by its columns

What a line is, said of its columns and with no reader in sight. A column is inked if there is a
character that is not a blank. A line without ink is blank; a `#` in the first inked column makes a
heading; and otherwise the words of the line are the maximal runs of inked columns (`IsMaximalRun`),
all of them and from left to right.

`Line.Describes` puts this together as a relation between the characters of a line and what the line
is. A line has one description at most (`Line.Describes.unique`), and what is read from the
characters is one (`Line.describes_ofChars`), so reading and description are the same
(`Line.describes_iff`).

Runs are the heart of both halves. Two maximal runs that share a column are equal, so the runs that
are read are all there are as soon as every inked column is in one of them
(`Run.exists_of_isInked`).
-/

namespace RecipeDesk

/-! ### Columns -/

/-- The characters between the words of a line: space, tab and carriage return. -/
def IsBlank (c : Char) : Prop := c ∈ [' ', '\t', '\r']

theorem isWordBlank_iff {c : Char} : isWordBlank c = true ↔ IsBlank c := by
  simp [isWordBlank, IsBlank, or_assoc]

theorem isWordBlank_eq_false_iff {c : Char} : isWordBlank c = false ↔ ¬ IsBlank c := by
  rw [← isWordBlank_iff, Bool.not_eq_true]

/-- A character that is not a blank stands in the column. -/
def IsInked (cs : List Char) (column : Nat) : Prop := ∃ c, cs[column]? = some c ∧ ¬ IsBlank c

/-- The first inked column of a line. -/
structure IsFirstInk (cs : List Char) (column : Nat) : Prop where
  inked : IsInked cs column
  least : ∀ i, IsInked cs i → column ≤ i

/-- The last inked column of a line. -/
structure IsLastInk (cs : List Char) (column : Nat) : Prop where
  inked : IsInked cs column
  greatest : ∀ i, IsInked cs i → i ≤ column

/-- The columns from `start` to before `stop` are inked, and those next to them are not. -/
structure IsMaximalRun (cs : List Char) (start stop : Nat) : Prop where
  nonempty : start < stop
  inked : ∀ i, start ≤ i → i < stop → IsInked cs i
  left : ∀ i, i + 1 = start → ¬ IsInked cs i
  right : ¬ IsInked cs stop

/-- There are `depth` marks `#` from `start` on, and no further one behind them. -/
structure IsMarkRun (cs : List Char) (start depth : Nat) : Prop where
  marks : ∀ i < depth, cs[start + i]? = some '#'
  stops : cs[start + depth]? ≠ some '#'

/-- A text without the blanks at both of its ends. -/
structure IsTrimmed (cs trimmed : List Char) : Prop where
  within : ∃ before behind, (∀ c ∈ before, IsBlank c) ∧ (∀ c ∈ behind, IsBlank c) ∧
    cs = before ++ (trimmed ++ behind)
  starts : ∀ c ∈ trimmed.head?, ¬ IsBlank c
  stops : ∀ c ∈ trimmed.getLast?, ¬ IsBlank c

/-- These are the maximal runs of a line, from left to right, with what is written there. -/
structure AreRuns (cs : List Char) (runs : List Run) : Prop where
  ranges : ∀ start stop,
    (∃ run ∈ runs, run.column = start ∧ run.stop = stop) ↔ IsMaximalRun cs start stop
  ordered : runs.Pairwise fun a b => a.stop < b.column
  chars : ∀ run ∈ runs, run.chars = (cs.drop run.column).take run.chars.length

/-- What a line is, told from its columns. -/
inductive Line.Describes (cs : List Char) : Line → Prop where
  | blank (h : ∀ c ∈ cs, IsBlank c) : Describes cs .blank
  | heading {depth start last : Nat} {text : String} (hstart : IsFirstInk cs start)
    (hmark : cs[start]? = some '#') (hdepth : IsMarkRun cs start depth) (hlast : IsLastInk cs last)
    (htext : IsTrimmed (cs.drop (start + depth)) text.toList) :
    Describes cs (.heading depth start (last + 1) text)
  | words {start : Nat} {first : Run} {others : List Run} (hstart : IsFirstInk cs start)
    (hmark : cs[start]? ≠ some '#') (hruns : AreRuns cs (first :: others)) :
    Describes cs (.words first others)

/-! ### One description at most -/

theorem IsFirstInk.unique {cs : List Char} {i j : Nat} (hi : IsFirstInk cs i)
    (hj : IsFirstInk cs j) : i = j :=
  Nat.le_antisymm (hi.least j hj.inked) (hj.least i hi.inked)

theorem IsLastInk.unique {cs : List Char} {i j : Nat} (hi : IsLastInk cs i)
    (hj : IsLastInk cs j) : i = j :=
  Nat.le_antisymm (hj.greatest i hi.inked) (hi.greatest j hj.inked)

theorem IsMarkRun.le {cs : List Char} {start d e : Nat} (hd : IsMarkRun cs start d)
    (he : IsMarkRun cs start e) : d ≤ e := by
  by_contra hlt
  exact he.stops (hd.marks e (by omega))

/-- A maximal run that meets another one does not begin before it and does not end behind it. -/
theorem IsMaximalRun.within {cs : List Char} {a b a' b' i : Nat} (h : IsMaximalRun cs a b)
    (h' : IsMaximalRun cs a' b') (hi : a ≤ i ∧ i < b) (hi' : a' ≤ i ∧ i < b') :
    a' ≤ a ∧ b ≤ b' := by
  constructor
  · by_contra hlt
    exact h'.left (a' - 1) (by omega) (h.inked _ (by omega) (by omega))
  · by_contra hlt
    exact h'.right (h.inked b' (by omega) (by omega))

/-- A text that does not begin with a blank has none to drop. -/
theorem dropWhile_isWordBlank {cs : List Char} (h : ∀ c ∈ cs.head?, ¬ IsBlank c) :
    cs.dropWhile isWordBlank = cs := by
  cases cs with
  | nil => rfl
  | cons c cs => exact List.dropWhile_cons_of_neg (isWordBlank_iff.not.mpr (h c rfl))

theorem IsTrimmed.trimBoth_eq {cs trimmed : List Char} (h : IsTrimmed cs trimmed) :
    trimBoth isWordBlank cs = trimmed := by
  obtain ⟨⟨before, behind, hbefore, hbehind, rfl⟩, hstarts, hstops⟩ := h
  simp only [← isWordBlank_iff] at hbefore hbehind
  have hback : ∀ c ∈ trimmed.reverse.head?, ¬ IsBlank c := by rwa [List.head?_reverse]
  rw [trimBoth_append hbefore hbehind, trimBoth, dropWhile_isWordBlank hstarts,
    dropWhile_isWordBlank hback, List.reverse_reverse]

/-- A run before another one is not behind it. -/
theorem Run.before_asymm {a b : Run} (hab : a.stop < b.column) : ¬ b.stop < a.column := by
  simp only [stop] at hab ⊢
  omega

theorem AreRuns.mem_iff {cs : List Char} {runs : List Run} (h : AreRuns cs runs) (run : Run) :
    run ∈ runs ↔ IsMaximalRun cs run.column run.stop ∧
      run.chars = (cs.drop run.column).take run.chars.length := by
  constructor
  · intro hrun
    exact ⟨(h.ranges _ _).mp ⟨run, hrun, rfl, rfl⟩, h.chars run hrun⟩
  · rintro ⟨hmaximal, hchars⟩
    obtain ⟨found, hfound, hcolumn, hstop⟩ := (h.ranges _ _).mpr hmaximal
    have hlength : found.chars.length = run.chars.length := by
      simp only [Run.stop, hcolumn] at hstop
      omega
    have hsame : found.chars = run.chars := by
      rw [h.chars found hfound, hchars, hcolumn, hlength]
    obtain ⟨column, chars⟩ := run
    obtain ⟨rfl, rfl⟩ := And.intro hcolumn hsame
    exact hfound

theorem AreRuns.unique {cs : List Char} {runs others : List Run} (h : AreRuns cs runs)
    (h' : AreRuns cs others) : runs = others := by
  have hnodup {runs : List Run} (h : AreRuns cs runs) : runs.Nodup := by
    refine h.ordered.imp ?_
    rintro run _ hbefore rfl
    exact Run.before_asymm hbefore hbefore
  have hsame : runs.Perm others := by
    refine (List.perm_ext_iff_of_nodup (hnodup h) (hnodup h')).mpr fun run => ?_
    rw [h.mem_iff, h'.mem_iff]
  exact hsame.eq_of_pairwise (fun a b _ _ hab hba => absurd hba (Run.before_asymm hab))
    h.ordered h'.ordered

theorem IsFirstInk.not_all_blank {cs : List Char} {column : Nat} (h : IsFirstInk cs column) :
    ¬ ∀ c ∈ cs, IsBlank c := by
  intro hblank
  obtain ⟨c, hc, hinked⟩ := h.inked
  exact hinked (hblank c (List.mem_of_getElem? hc))

theorem Line.Describes.unique {cs : List Char} {line other : Line} (h : line.Describes cs)
    (h' : other.Describes cs) : line = other := by
  cases h with
  | blank h =>
      cases h' with
      | blank _ => rfl
      | heading hstart' => exact absurd h hstart'.not_all_blank
      | words hstart' => exact absurd h hstart'.not_all_blank
  | heading hstart hmark hdepth hlast htext =>
      cases h' with
      | blank h' => exact absurd h' hstart.not_all_blank
      | heading hstart' hmark' hdepth' hlast' htext' =>
          obtain rfl := hstart.unique hstart'
          obtain rfl := Nat.le_antisymm (hdepth.le hdepth') (hdepth'.le hdepth)
          obtain rfl := hlast.unique hlast'
          rw [String.toList_inj.mp (htext.trimBoth_eq.symm.trans htext'.trimBoth_eq)]
      | words hstart' hmark' =>
          obtain rfl := hstart.unique hstart'
          exact absurd hmark hmark'
  | words hstart hmark hruns =>
      cases h' with
      | blank h' => exact absurd h' hstart.not_all_blank
      | heading hstart' hmark' =>
          obtain rfl := hstart.unique hstart'
          exact absurd hmark' hmark
      | words hstart' hmark' hruns' =>
          obtain ⟨rfl, rfl⟩ := List.cons.inj (hruns.unique hruns')
          rfl

/-! ### Runs that are read -/

theorem isInked_append {before cs : List Char} {i : Nat} :
    IsInked (before ++ cs) (before.length + i) ↔ IsInked cs i := by
  rw [IsInked, IsInked, List.getElem?_append_right (Nat.le_add_right _ _), Nat.add_sub_cancel_left]

theorem isInked_append_left {cs behind : List Char} {i : Nat} (hi : i < cs.length) :
    IsInked (cs ++ behind) i ↔ IsInked cs i := by
  rw [IsInked, IsInked, List.getElem?_append_left hi]

/-- Every column of a word is inked. -/
theorem IsWordText.isInked {w : List Char} (hw : IsWordText w) {i : Nat} (hi : i < w.length) :
    IsInked w i :=
  ⟨w[i], List.getElem?_eq_getElem hi,
    isWordBlank_eq_false_iff.mp (hw.2 w[i] (List.getElem_mem hi))⟩

theorem StopsWord.not_isInked {rest : List Char} (h : StopsWord rest) : ¬ IsInked rest 0 := by
  rintro ⟨c, hc, hinked⟩
  rw [← List.head?_eq_getElem?] at hc
  exact hinked (isWordBlank_iff.mp (h c hc))

namespace Run

/-- No ink is left out. -/
theorem exists_of_isInked {cs : List Char} {i : Nat} (column : Nat) (h : IsInked cs i) :
    ∃ run ∈ scan column cs, run.column ≤ column + i ∧ column + i < run.stop := by
  induction cs using stretch_induction generalizing column i with
  | nil => simp [IsInked] at h
  | blank c cs hc ih =>
      rw [scan_blank column cs hc]
      cases i with
      | zero => exact absurd h (StopsWord.not_isInked (stopsWord_cons hc))
      | succ i =>
          have hlater : IsInked cs i := h
          obtain ⟨run, hrun, hle, hlt⟩ := ih (column + 1) hlater
          exact ⟨run, hrun, by omega, by omega⟩
  | word w rest hw hrest ih =>
      rw [scan_word column hw hrest]
      by_cases hi : i < w.length
      · exact ⟨⟨column, w⟩, List.mem_cons_self, Nat.le_add_right _ _, Nat.add_lt_add_left hi _⟩
      · obtain ⟨j, rfl⟩ := Nat.exists_eq_add_of_le (Nat.le_of_not_lt hi)
        obtain ⟨run, hrun, hle, hlt⟩ := ih (column + w.length) (isInked_append.mp h)
        exact ⟨run, List.mem_cons_of_mem _ hrun, by omega, by omega⟩

/-- Every run that is read is a maximal one. -/
theorem isMaximalRun_of_mem_scan {cs : List Char} {run : Run} (h : run ∈ scan 0 cs) :
    IsMaximalRun cs run.column run.stop := by
  obtain ⟨-, -, hword⟩ := mem_scan h
  obtain ⟨before, rest, rfl, hcolumn, hbefore, hrest⟩ := cut h
  rw [Nat.zero_add] at hcolumn
  have hlength : 0 < run.chars.length := List.length_pos_iff.mpr hword.1
  refine ⟨by rw [stop]; omega, ?_, ?_, ?_⟩
  · intro i hle hlt
    rw [stop] at hlt
    obtain ⟨j, rfl⟩ := Nat.exists_eq_add_of_le (hcolumn ▸ hle)
    have hj : j < run.chars.length := by omega
    exact isInked_append.mpr ((isInked_append_left hj).mpr (hword.isInked hj))
  · rintro i hi ⟨c, hc, hinked⟩
    have hlast : before.getLast? = some c := by
      rw [List.getLast?_eq_getElem?, ← hc, List.getElem?_append_left (by omega)]
      congr 1
      omega
    exact hinked (isWordBlank_iff.mp (hbefore c hlast))
  · rw [stop, hcolumn, isInked_append, ← Nat.add_zero run.chars.length, isInked_append]
    exact hrest.not_isInked

/-- From its column on, a line goes on with the run and then with a blank or its end. -/
theorem exists_drop_of_mem_scan {cs : List Char} {run : Run} (h : run ∈ scan 0 cs) :
    ∃ rest, cs.drop run.column = run.chars ++ rest ∧ StopsWord rest := by
  obtain ⟨before, rest, rfl, hcolumn, -, hrest⟩ := cut h
  rw [Nat.zero_add] at hcolumn
  exact ⟨rest, by rw [hcolumn, List.drop_left], hrest⟩

theorem areRuns_scan (cs : List Char) : AreRuns cs (scan 0 cs) := by
  refine ⟨fun start stop => ⟨?_, ?_⟩, scan_pairwise 0 cs, ?_⟩
  · rintro ⟨run, hrun, rfl, rfl⟩
    exact isMaximalRun_of_mem_scan hrun
  · intro h
    -- the run that is read where this one begins is this one
    obtain ⟨run, hrun, hle, hlt⟩ := exists_of_isInked 0 (h.inked start (Nat.le_refl _) h.nonempty)
    rw [Nat.zero_add] at hle hlt
    have hread := isMaximalRun_of_mem_scan hrun
    have hstart := And.intro (Nat.le_refl start) h.nonempty
    obtain ⟨hcolumn, hstop⟩ := hread.within h ⟨hle, hlt⟩ hstart
    obtain ⟨hcolumn', hstop'⟩ := h.within hread hstart ⟨hle, hlt⟩
    exact ⟨run, hrun, Nat.le_antisymm hcolumn' hcolumn, Nat.le_antisymm hstop hstop'⟩
  · intro run hrun
    obtain ⟨rest, hdrop, -⟩ := exists_drop_of_mem_scan hrun
    rw [hdrop, List.take_left]

end Run

/-! ### Lines that are read -/

section Read

variable {cs : List Char} {first : Run} {others : List Run}
  (hscan : Run.scan 0 cs = first :: others)

include hscan

theorem isFirstInk_of_scan : IsFirstInk cs first.column := by
  have hmem : first ∈ Run.scan 0 cs := hscan ▸ List.mem_cons_self
  have hordered := Run.scan_pairwise 0 cs
  have hfirst := Run.isMaximalRun_of_mem_scan hmem
  refine ⟨hfirst.inked _ (Nat.le_refl _) hfirst.nonempty, fun i hi => ?_⟩
  obtain ⟨run, hrun, hle, -⟩ := Run.exists_of_isInked 0 hi
  rw [hscan] at hrun hordered
  rcases List.mem_cons.mp hrun with rfl | hlater
  · omega
  · have := (List.pairwise_cons.mp hordered).1 run hlater
    have := hfirst.nonempty
    omega

theorem isLastInk_of_scan :
    ∃ last, (others.getLast?.getD first).stop = last + 1 ∧ IsLastInk cs last := by
  obtain ⟨earlier, hearlier⟩ : ∃ earlier, Run.scan 0 cs = earlier ++ [others.getLast?.getD first] :=
    List.getLast?_eq_some_iff.mp (by rw [hscan, List.getLast?_cons])
  generalize others.getLast?.getD first = final at hearlier ⊢
  have hmem : final ∈ Run.scan 0 cs := by simp [hearlier]
  have hordered := Run.scan_pairwise 0 cs
  have hfinal := Run.isMaximalRun_of_mem_scan hmem
  have hnonempty := hfinal.nonempty
  refine ⟨final.stop - 1, by omega, hfinal.inked _ (by omega) (by omega), fun i hi => ?_⟩
  obtain ⟨run, hrun, -, hlt⟩ := Run.exists_of_isInked 0 hi
  rw [hearlier] at hrun hordered
  rcases List.mem_append.mp hrun with hbefore | hlast
  · have := (List.pairwise_append.mp hordered).2.2 run hbefore final List.mem_cons_self
    omega
  · obtain rfl := List.mem_singleton.mp hlast
    omega

theorem getElem?_column_of_scan : cs[first.column]? = first.chars.head? := by
  have hmem : first ∈ Run.scan 0 cs := hscan ▸ List.mem_cons_self
  obtain ⟨-, -, hne, -⟩ := Run.mem_scan hmem
  obtain ⟨rest, hdrop, -⟩ := Run.exists_drop_of_mem_scan hmem
  rw [← List.head?_drop, hdrop, List.head?_append_of_ne_nil _ hne]

/-- The marks of a heading end with its first run or before, and what ends the run is no mark. -/
theorem isMarkRun_of_scan :
    IsMarkRun cs first.column (first.chars.takeWhile (· == '#')).length := by
  have hmem : first ∈ Run.scan 0 cs := hscan ▸ List.mem_cons_self
  obtain ⟨rest, hdrop, hrest⟩ := Run.exists_drop_of_mem_scan hmem
  have hsplit : cs.drop first.column =
      first.chars.takeWhile (· == '#') ++ (first.chars.dropWhile (· == '#') ++ rest) := by
    rw [hdrop, ← List.append_assoc, List.takeWhile_append_dropWhile]
  constructor
  · intro i hi
    rw [← List.getElem?_drop, hsplit, List.getElem?_append_left hi, List.getElem?_eq_getElem hi]
    have hmark := List.mem_takeWhile_imp (List.getElem_mem hi)
    exact congrArg some (beq_iff_eq.mp hmark)
  · rw [← List.getElem?_drop, hsplit, List.getElem?_append_right (Nat.le_refl _), Nat.sub_self,
      ← List.head?_eq_getElem?, List.head?_append]
    have hbehind := List.head?_dropWhile_not (· == '#') first.chars
    cases hhead : (first.chars.dropWhile (· == '#')).head? with
    | none =>
        intro hmark
        cases hrest '#' hmark
    | some c =>
        rw [hhead] at hbehind
        simpa using hbehind

end Read

theorem isTrimmed_trimBoth (cs : List Char) : IsTrimmed cs (trimBoth isWordBlank cs) := by
  have hends (l : List Char) : ∀ c ∈ (l.dropWhile isWordBlank).head?, ¬ IsBlank c := by
    intro c hc
    have hnot := List.head?_dropWhile_not isWordBlank l
    rw [Option.mem_def.mp hc] at hnot
    exact isWordBlank_eq_false_iff.mp hnot
  obtain ⟨before, behind, hbefore, hbehind, hcs⟩ := exists_trimmed isWordBlank cs
  simp only [isWordBlank_iff] at hbefore hbehind
  refine ⟨⟨before, behind, hbefore, hbehind, hcs⟩, ?_, ?_⟩
  · -- what is kept is the front of what the first pass keeps
    have hfront : cs.dropWhile isWordBlank = trimBoth isWordBlank cs ++
        ((cs.dropWhile isWordBlank).reverse.takeWhile isWordBlank).reverse := by
      rw [trimBoth, ← List.reverse_append, List.takeWhile_append_dropWhile, List.reverse_reverse]
    intro c hc
    refine hends cs c ?_
    rw [hfront, List.head?_append, Option.mem_def.mp hc]
    rfl
  · rw [trimBoth, List.getLast?_reverse]
    exact hends _

theorem Line.describes_ofChars (cs : List Char) : (Line.ofChars cs).Describes cs := by
  unfold Line.ofChars
  split
  · next hscan =>
      refine .blank fun c hc => ?_
      by_contra hinked
      obtain ⟨i, hi⟩ := List.mem_iff_getElem?.mp hc
      obtain ⟨run, hrun, -⟩ := Run.exists_of_isInked 0 ⟨c, hi, hinked⟩
      simp [hscan] at hrun
  · next first others hscan =>
      have hstart := isFirstInk_of_scan hscan
      have hmark := getElem?_column_of_scan hscan
      split
      · next hhead =>
          obtain ⟨last, hstop, hlast⟩ := isLastInk_of_scan hscan
          rw [headingOf, hstop]
          refine .heading hstart (hmark.trans hhead) (isMarkRun_of_scan hscan) hlast ?_
          rw [String.toList_ofList]
          exact isTrimmed_trimBoth _
      · next hhead =>
          exact .words hstart (hmark ▸ hhead) (hscan ▸ Run.areRuns_scan cs)

theorem Line.describes_iff {cs : List Char} {line : Line} :
    line.Describes cs ↔ line = Line.ofChars cs := by
  constructor
  · intro h
    exact h.unique (describes_ofChars cs)
  · rintro rfl
    exact describes_ofChars cs

/-- **A line is what its columns say.** It is blank exactly if no column is inked. With a `#` in its
first inked column it is a heading, which reaches to the last inked column, is as deep as there are
`#` in a row, and has for its text what follows them, trimmed. Any other line is a row of words: its
maximal runs of inked columns, from left to right. -/
theorem Line.ofChars_eq_iff_describes (cs : List Char) (line : Line) :
    Line.ofChars cs = line ↔ line.Describes cs := by
  rw [describes_iff, eq_comm]

-- a `#` behind the first run of them belongs to the text
example : Line.ofChars "  ## sauce #2  ".toList = .heading 2 2 13 "sauce #2" := by decide +kernel

end RecipeDesk
