import Mathlib.Data.List.Count
import Mathlib.Data.List.TakeWhile
import RecipeDesk.Proofs.Text.Splice
import RecipeDesk.Text.Lines

/-!
# The line table and the places of a text

A place of a text is where one stands after reading some of its beginning (`Position.IsIn`). The
line table finds every such place again, from its character number alone and from its line and
column alone (`Lines.has_of_isIn`).

The argument cuts the table where the text is cut (`LineStart.scan_append`): the beginnings of lines
up to a place are those of the characters before it, one for each line break, and the last of them
is as many characters back as the place has columns (`LineStart.offset_getLast_scan`); every later
beginning lies behind the place. Conversely, whatever line and column the table is asked for, its
answer is a place of the text (`Lines.isIn_position`).

Spans between places of one text are closed under merging (`Span.IsIn.merge`), which is how larger
spans are made from smaller ones.
-/

namespace RecipeDesk

namespace Position

theorem line_advanceAll (p : Position) (cs : List Char) :
    (p.advanceAll cs).line = p.line + cs.count '\n' := by
  induction cs generalizing p with
  | nil => rfl
  | cons c cs ih =>
      rw [advanceAll_cons, ih, List.count_cons]
      by_cases hbreak : c = '\n'
      · simp [advance, hbreak]
        omega
      · simp [advance, hbreak]

/-- On one line a place only moves to the right. -/
theorem advanceAll_of_not_mem (p : Position) {cs : List Char} (h : '\n' ∉ cs) :
    p.advanceAll cs = p.right cs.length := by
  induction cs generalizing p with
  | nil => rfl
  | cons c cs ih =>
      obtain ⟨hc, hcs⟩ := not_or.mp (mt List.mem_cons.mpr h)
      have hstep : p.advance c = p.right 1 := if_neg (Ne.symm hc)
      rw [advanceAll_cons, ih _ hcs, hstep, List.length_cons, Nat.add_comm cs.length]
      simp [right, Nat.add_assoc]

theorem offset_after (cs : List Char) : (after cs).offset = cs.length := by
  rw [after, offset_advanceAll]
  exact Nat.zero_add _

theorem line_after (cs : List Char) : (after cs).line = cs.count '\n' := by
  rw [after, line_advanceAll]
  exact Nat.zero_add _

theorem after_eq (cs : List Char) :
    after cs = ⟨cs.length, cs.count '\n', (after cs).column⟩ := by
  rw [← offset_after, ← line_after]

/-- A place of a text: where one stands after reading some of its beginning. -/
def IsIn (text : String) (p : Position) : Prop :=
  ∃ before, before <+: text.toList ∧ p = .after before

theorem isIn_after {text : String} {before rest : List Char} (h : text.toList = before ++ rest) :
    (after before).IsIn text :=
  ⟨before, ⟨rest, h.symm⟩, rfl⟩

/-- The line of a place of a text is the number of line breaks before it. -/
theorem IsIn.line_eq {text : String} {p : Position} (h : p.IsIn text) :
    p.line = (text.toList.take p.offset).count '\n' := by
  obtain ⟨before, ⟨rest, htext⟩, rfl⟩ := h
  rw [line_after, offset_after, ← htext, List.take_left]

end Position

/-! ### Beginnings of lines -/

namespace LineStart

/-- Where the characters behind `cs` begin, when `cs` begins at `here`. -/
def past (here : LineStart) (cs : List Char) : LineStart :=
  cs.foldl (fun place c => ⟨place.byte + c.utf8Size, place.offset + 1⟩) here

theorem past_cons (here : LineStart) (c : Char) (cs : List Char) :
    here.past (c :: cs) = past ⟨here.byte + c.utf8Size, here.offset + 1⟩ cs := rfl

theorem offset_past (here : LineStart) (cs : List Char) :
    (here.past cs).offset = here.offset + cs.length := by
  induction cs generalizing here with
  | nil => rfl
  | cons c cs ih =>
      rw [past_cons, ih, List.length_cons]
      dsimp only
      omega

/-- The lines that open in a text are those that open in its two parts. -/
theorem scan_append (here : LineStart) (cs ds : List Char) :
    scan here (cs ++ ds) = scan here cs ++ scan (here.past cs) ds := by
  induction cs generalizing here with
  | nil => rfl
  | cons c cs ih =>
      rw [List.cons_append, scan, scan, past_cons]
      split <;> simp [ih]

/-- Every line break opens one line. -/
theorem length_scan (here : LineStart) (cs : List Char) :
    (scan here cs).length = cs.count '\n' := by
  induction cs generalizing here with
  | nil => rfl
  | cons c cs ih =>
      rw [scan, List.count_cons]
      split <;> simp_all

/-- A line opens behind a line break, and as many lines open before it as there are line breaks
before that one. -/
theorem of_getElem?_scan {here start : LineStart} {cs : List Char} {k : Nat}
    (h : (scan here cs)[k]? = some start) :
    ∃ before rest, cs = before ++ '\n' :: rest ∧ before.count '\n' = k ∧
      start = here.past (before ++ ['\n']) := by
  induction cs generalizing here k with
  | nil => simp [scan] at h
  | cons c cs ih =>
      rw [scan] at h
      by_cases hbreak : c = '\n'
      · simp only [hbreak, if_true] at h
        cases k with
        | zero =>
            obtain rfl := Option.some.inj h
            exact ⟨[], cs, by rw [hbreak, List.nil_append], rfl, rfl⟩
        | succ k =>
            obtain ⟨before, rest, rfl, hcount, rfl⟩ := ih h
            exact ⟨c :: before, rest, rfl, by simp [hbreak, hcount], by rw [hbreak]; rfl⟩
      · simp only [hbreak, if_false] at h
        obtain ⟨before, rest, rfl, hcount, rfl⟩ := ih h
        exact ⟨c :: before, rest, rfl, by simp [hbreak, hcount], rfl⟩

/-- A line opens behind some characters of its text, at least one. -/
theorem exists_prefix_of_mem_scan {here start : LineStart} {cs : List Char}
    (h : start ∈ scan here cs) : ∃ read, read ≠ [] ∧ read <+: cs ∧ start = here.past read := by
  obtain ⟨k, hk⟩ := List.getElem?_of_mem h
  obtain ⟨before, rest, rfl, -, rfl⟩ := of_getElem?_scan hk
  exact ⟨before ++ ['\n'], by simp, ⟨rest, by simp⟩, rfl⟩

theorem offset_of_mem_scan {here start : LineStart} {cs : List Char} (h : start ∈ scan here cs) :
    here.offset < start.offset ∧ start.offset ≤ here.offset + cs.length := by
  obtain ⟨read, hread, hle, rfl⟩ := exists_prefix_of_mem_scan h
  have hpos := List.length_pos_iff.mpr hread
  have hlength := hle.length_le
  rw [offset_past]
  omega

/-- The line opened last is as many characters back as the place has columns. -/
theorem offset_getLast_scan (here current : LineStart) (p : Position) (cs : List Char)
    (hhere : here.offset = p.offset) (hcolumn : current.offset + p.column = p.offset) :
    ((current :: scan here cs).getLast (List.cons_ne_nil _ _)).offset + (p.advanceAll cs).column =
      (p.advanceAll cs).offset := by
  induction cs generalizing here current p with
  | nil => exact hcolumn
  | cons c cs ih =>
      simp only [Position.advanceAll_cons, scan]
      by_cases hbreak : c = '\n'
      · simp only [hbreak, if_true, List.getLast_cons (List.cons_ne_nil _ _)]
        exact ih _ _ _ (by simp [Position.advance, hhere]) (by simp [Position.advance, hhere])
      · simp only [hbreak, if_false]
        refine ih _ _ _ ?_ ?_
        · simp [Position.advance, hbreak, hhere]
        · simp [Position.advance, hbreak]
          omega

end LineStart

namespace Lines

/-- A place that the table finds again: from its character number, and from its line and column. -/
structure Has (lines : Lines) (p : Position) : Prop where
  inside : p.offset ≤ lines.charCount
  by_offset : lines.positionAtOffset p.offset = p
  by_column : lines.position p.line p.column = p

section Cut

variable {text : String} {before rest : List Char} (h : text.toList = before ++ rest)
include h

theorem laterStarts_ofText : (ofText text).laterStarts =
    LineStart.scan ⟨0, 0⟩ before ++ LineStart.scan (LineStart.past ⟨0, 0⟩ before) rest := by
  rw [ofText, h, LineStart.scan_append]

theorem charCount_ofText : (ofText text).charCount = before.length + rest.length := by
  rw [charCount, ofText, h, List.length_append]

/-- A measure that divides the beginnings of lines where the text is cut finds the line of the
cut. -/
theorem lineAt_of_cut {key : LineStart → Nat} {n : Nat}
    (hbefore : ∀ start ∈ LineStart.scan ⟨0, 0⟩ before, key start ≤ n)
    (hrest : ∀ start ∈ LineStart.scan (LineStart.past ⟨0, 0⟩ before) rest, n < key start) :
    (ofText text).lineAt key n = before.count '\n' := by
  have hall : (LineStart.scan ⟨0, 0⟩ before).countP (fun start => key start ≤ n) =
      before.count '\n' := by
    rw [List.countP_eq_length.mpr (by simpa using hbefore), LineStart.length_scan]
  have hnone : (LineStart.scan (LineStart.past ⟨0, 0⟩ before) rest).countP
      (fun start => key start ≤ n) = 0 := by
    rw [List.countP_eq_zero]
    simpa using hrest
  rw [lineAt, laterStarts_ofText h, List.countP_append, hall, hnone, Nat.add_zero]

/-- As many lines begin up to a place as there are line breaks before it. -/
theorem lineAt_offset :
    (ofText text).lineAt LineStart.offset before.length = before.count '\n' := by
  refine lineAt_of_cut h ?_ ?_
  · intro start hstart
    simpa using (LineStart.offset_of_mem_scan hstart).2
  · intro start hstart
    simpa [LineStart.offset_past] using (LineStart.offset_of_mem_scan hstart).1

/-- The line of a place begins as many characters back as the place has columns. -/
theorem exists_start :
    ∃ start, (ofText text).start? (before.count '\n') = some start ∧
      start.offset + (Position.after before).column = before.length := by
  have hlast := LineStart.offset_getLast_scan ⟨0, 0⟩ ⟨0, 0⟩ .origin before rfl rfl
  refine ⟨_, ?_, hlast.trans (Position.offset_after before)⟩
  rw [start?, starts, laterStarts_ofText h, ← List.cons_append, ← LineStart.length_scan ⟨0, 0⟩,
    List.getElem?_append_left (by simp), List.getLast_eq_getElem, ← List.getElem?_eq_getElem]
  simp

/-- No place lies behind the end of its line. -/
theorem column_le_lineLength :
    (Position.after before).column ≤ (ofText text).lineLength (before.count '\n') := by
  obtain ⟨start, hstart, hcolumn⟩ := exists_start h
  rw [lineLength, hstart]
  cases hnext : (ofText text).start? (before.count '\n' + 1) with
  | none =>
      dsimp only
      rw [charCount_ofText h]
      omega
  | some next =>
      have hmem : next ∈ LineStart.scan (LineStart.past ⟨0, 0⟩ before) rest := by
        rw [start?, starts, List.getElem?_cons_succ, laterStarts_ofText h,
          ← LineStart.length_scan ⟨0, 0⟩, List.getElem?_append_right (Nat.le_refl _)] at hnext
        exact List.mem_of_getElem? hnext
      have hlt := (LineStart.offset_of_mem_scan hmem).1
      rw [LineStart.offset_past] at hlt
      dsimp only at hlt ⊢
      omega

theorem has_after : (ofText text).Has (.after before) := by
  obtain ⟨start, hstart, hcolumn⟩ := exists_start h
  have hoffset := Position.offset_after before
  have hline := Position.line_after before
  constructor
  · rw [hoffset, charCount_ofText h]
    omega
  · have hmin : min before.length (ofText text).charCount = before.length :=
      Nat.min_eq_left (by rw [charCount_ofText h]; omega)
    have hback : before.length - start.offset = (Position.after before).column := by omega
    rw [positionAtOffset, hoffset, hmin, lineAt_offset h, hstart]
    dsimp only [Option.getD_some]
    rw [hback, ← hline, ← hoffset]
  · have hmin := Nat.min_eq_left (column_le_lineLength h)
    rw [position, hline, hstart]
    dsimp only
    rw [hmin, hcolumn, ← hline, ← hoffset]

end Cut

/-- The line table finds every place of its text again. -/
theorem has_of_isIn {text : String} {p : Position} (h : p.IsIn text) : (ofText text).Has p := by
  obtain ⟨before, ⟨rest, heq⟩, rfl⟩ := h
  exact has_after heq.symm

end Lines

/-! ### Asked places -/

namespace LineStart

/-- The next line opens behind the first line break. -/
theorem head?_scan (here : LineStart) (cs : List Char) :
    (scan here cs).head?.map offset =
      if '\n' ∈ cs then some (here.offset + (cs.takeWhile (· != '\n')).length + 1) else none := by
  induction cs generalizing here with
  | nil => rfl
  | cons c cs ih =>
      rw [scan]
      by_cases hbreak : c = '\n'
      · simp [hbreak]
      · have hmem : '\n' ∈ c :: cs ↔ '\n' ∈ cs := by simp [Ne.symm hbreak]
        have hcons : (c :: cs).takeWhile (· != '\n') = c :: cs.takeWhile (· != '\n') :=
          List.takeWhile_cons_of_pos (by simpa using hbreak)
        simp only [hbreak, if_false, ih, hmem, hcons, List.length_cons]
        congr 2
        omega

end LineStart

namespace Lines

/-- A line ends before its first line break. -/
theorem lineLength_of_column_zero {text : String} {before rest : List Char}
    (h : text.toList = before ++ rest) (hcolumn : (Position.after before).column = 0) :
    (ofText text).lineLength (before.count '\n') = (rest.takeWhile (· != '\n')).length := by
  obtain ⟨start, hstart, hoffset⟩ := exists_start h
  have hnext : (ofText text).start? (before.count '\n' + 1) =
      (LineStart.scan (LineStart.past ⟨0, 0⟩ before) rest).head? := by
    rw [start?, starts, List.getElem?_cons_succ, laterStarts_ofText h,
      ← LineStart.length_scan ⟨0, 0⟩, List.getElem?_append_right (Nat.le_refl _), Nat.sub_self,
      List.head?_eq_getElem?]
  have hhead := LineStart.head?_scan (LineStart.past ⟨0, 0⟩ before) rest
  rw [LineStart.offset_past, ← hnext] at hhead
  rw [lineLength, hstart]
  cases hsome : (ofText text).start? (before.count '\n' + 1) with
  | none =>
      have hall : ∀ c ∈ rest, (c != '\n') = true := by
        intro c hc
        rw [hsome, Option.map_none] at hhead
        refine bne_iff_ne.mpr fun heq => ?_
        rw [if_pos (heq ▸ hc)] at hhead
        cases hhead
      dsimp only
      rw [charCount_ofText h, List.takeWhile_eq_self_iff.mpr hall]
      omega
  | some next =>
      rw [hsome, Option.map_some] at hhead
      split at hhead
      · have hplace := Option.some.inj hhead
        dsimp only at hplace ⊢
        omega
      · cases hhead

/-- The beginning of a line cuts the text behind as many line breaks as the line has lines before
it. -/
theorem exists_cut {text : String} {line : Nat} {start : LineStart}
    (h : (ofText text).start? line = some start) :
    ∃ before rest, text.toList = before ++ rest ∧ start = LineStart.past ⟨0, 0⟩ before ∧
      Position.after before = ⟨start.offset, line, 0⟩ := by
  cases line with
  | zero =>
      obtain rfl := Option.some.inj h
      exact ⟨[], text.toList, rfl, rfl, rfl⟩
  | succ line =>
      obtain ⟨before, rest, htext, hcount, rfl⟩ := LineStart.of_getElem?_scan h
      refine ⟨before ++ ['\n'], rest, by rw [htext]; simp, rfl, ?_⟩
      have hcolumn : (Position.after (before ++ ['\n'])).column = 0 := by
        rw [Position.after, Position.advanceAll_append]
        rfl
      rw [Position.after_eq, hcolumn, LineStart.offset_past]
      simp [hcount]

/-- **Whatever line and column are asked for**, the answer is a place of the text. -/
theorem isIn_position (text : String) (line column : Nat) :
    ((ofText text).position line column).IsIn text := by
  cases hstart : (ofText text).start? line with
  | none =>
      have hend := (has_after (List.append_nil text.toList).symm).by_offset
      rw [Position.offset_after] at hend
      have hplace : (ofText text).position line column = .after text.toList := by
        rw [position, hstart]
        exact hend
      exact hplace ▸ Position.isIn_after (List.append_nil text.toList).symm
  | some start =>
      obtain ⟨before, rest, htext, -, hbefore⟩ := exists_cut hstart
      have hcount : before.count '\n' = line := by rw [← Position.line_after, hbefore]
      have hlength := lineLength_of_column_zero htext (by rw [hbefore])
      rw [hcount] at hlength
      generalize hline : rest.takeWhile (· != '\n') = shown at hlength
      obtain ⟨tail, htail⟩ : ∃ tail, rest = shown ++ tail :=
        ⟨rest.dropWhile (· != '\n'), by rw [← hline, List.takeWhile_append_dropWhile]⟩
      have hnewline : '\n' ∉ shown.take column := by
        intro hmem
        rw [← hline] at hmem
        simpa using List.mem_takeWhile_imp (List.mem_of_mem_take hmem)
      have hplace : (ofText text).position line column = .after (before ++ shown.take column) := by
        rw [position, hstart, hlength, Position.after, Position.advanceAll_append,
          Position.advanceAll_of_not_mem _ hnewline, ← Position.after, hbefore, List.length_take]
        simp [Position.right]
      have hcut : text.toList = (before ++ shown.take column) ++ (shown.drop column ++ tail) := by
        rw [htext, htail, List.append_assoc, ← List.append_assoc (shown.take column),
          List.take_append_drop]
      exact hplace ▸ Position.isIn_after hcut

end Lines

/-! ### Spans -/

/-- A stretch of a text is what its span covers. -/
theorem toList_slice {text : String} {before source rest : List Char}
    (h : text.toList = before ++ (source ++ rest)) :
    (Span.slice ⟨.after before, .after (before ++ source)⟩ text).toList = source := by
  simp [Span.slice, Span.length, Position.offset_after, h]

namespace Span

/-- A span of a text: it runs forward from one place of the text to another. -/
structure IsIn (text : String) (span : Span) : Prop where
  start : span.start.IsIn text
  stop : span.stop.IsIn text
  ordered : span.start.offset ≤ span.stop.offset

theorem isIn_empty {text : String} {p : Position} (h : p.IsIn text) : (empty p).IsIn text :=
  ⟨h, h, Nat.le_refl _⟩

theorem isIn_stretch {text : String} {before source rest : List Char}
    (h : text.toList = before ++ (source ++ rest)) :
    IsIn text ⟨.after before, .after (before ++ source)⟩ where
  start := Position.isIn_after h
  stop := Position.isIn_after (h.trans (List.append_assoc _ _ _).symm)
  ordered := by
    dsimp only
    rw [Position.offset_after, Position.offset_after, List.length_append]
    omega

/-- A span that reaches from the first of two spans to the last. -/
theorem IsIn.reach {text : String} {s t : Span} (hs : s.IsIn text) (ht : t.IsIn text)
    (h : s.start.offset ≤ t.start.offset) : IsIn text ⟨s.start, t.stop⟩ :=
  ⟨hs.start, ht.stop, Nat.le_trans h ht.ordered⟩

theorem IsIn.merge {text : String} {s t : Span} (hs : s.IsIn text) (ht : t.IsIn text) :
    (s.merge t).IsIn text := by
  have hmin : min s.start t.start = if s.start ≤ t.start then s.start else t.start := rfl
  have hmax : max s.stop t.stop = if s.stop ≤ t.stop then t.stop else s.stop := rfl
  rw [Span.merge, hmin, hmax]
  constructor <;> dsimp only
  · split
    · exact hs.start
    · exact ht.start
  · split
    · exact ht.stop
    · exact hs.stop
  · have hstart : (if s.start ≤ t.start then s.start else t.start).offset ≤ s.start.offset := by
      split
      · exact Nat.le_refl _
      · next hnot =>
          have htotal := Position.precedes_total s.start t.start
          rw [Bool.or_eq_true] at htotal
          exact Position.offset_le_of_precedes (htotal.resolve_left hnot)
    have hstop : s.stop.offset ≤ (if s.stop ≤ t.stop then t.stop else s.stop).offset := by
      split
      · next hle => exact Position.offset_le_of_precedes hle
      · exact Nat.le_refl _
    exact Nat.le_trans hstart (Nat.le_trans hs.ordered hstop)

/-- What holds of some spans, and is kept by merging, holds of all of them merged. -/
theorem mergeAll_induction {P : Span → Prop} (hmerge : ∀ s t, P s → P t → P (s.merge t))
    {spans : List Span} (h : ∀ span ∈ spans, P span) {span : Span}
    (hall : mergeAll spans = some span) : P span := by
  cases spans with
  | nil => cases hall
  | cons first rest =>
      obtain ⟨hfirst, hrest⟩ := List.forall_mem_cons.mp h
      obtain rfl := Option.some.inj hall
      clear h hall
      induction rest generalizing first with
      | nil => exact hfirst
      | cons next rest ih =>
          obtain ⟨hnext, hrest⟩ := List.forall_mem_cons.mp hrest
          exact ih _ (hmerge _ _ hfirst hnext) hrest

end Span

end RecipeDesk
