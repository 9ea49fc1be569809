import Mathlib.Data.List.DropRight
import Mathlib.Data.List.Induction
import Mathlib.Data.Prod.Lex
import RecipeDesk.Proofs.Text.LineTable

/-!
# One place, three coordinates

A place of a text can be asked for by a byte number, by a character number, and by a line and a
column. The first two lookups are told by counting alone, without a table (`lookups_by_counting`),
and the third is tied to the second by the order of places (`pairs_follow_offsets`).

* A byte number cuts the text behind the last character that it covers wholly (`ByteCut`). Both the
  search for the line and the walk along the line stop at that cut.
* Reading on makes the pair of line and column larger (`Position.pair_lt_pair_advanceAll`), so
  places are in the order of their pairs, and an asked line and column are answered with the last
  place that is not behind them (`Lines.pair_le_iff`).
-/

namespace RecipeDesk

namespace Position

/-- The column of a place counts the characters behind the last line break before it. -/
theorem column_after (cs : List Char) :
    (after cs).column = (cs.rtakeWhile (· != '\n')).length := by
  induction cs using List.reverseRecOn with
  | nil => rfl
  | append_singleton cs c ih =>
      have hlast : after (cs ++ [c]) = (after cs).advance c := by
        rw [after, advanceAll_append]
        rfl
      rw [hlast, List.rtakeWhile_concat]
      by_cases hbreak : c = '\n'
      · simp [advance, hbreak]
      · simp [advance, hbreak, ih]

/-- Line and column, the line first. -/
def pair (p : Position) : ℕ ×ₗ ℕ := toLex (p.line, p.column)

/-- Reading on leads to a larger line and column. -/
theorem pair_lt_pair_advanceAll (p : Position) {cs : List Char} (h : cs ≠ []) :
    p.pair < (p.advanceAll cs).pair := by
  rw [pair, pair, Prod.Lex.toLex_lt_toLex]
  by_cases hbreak : '\n' ∈ cs
  · left
    have hcount := List.count_pos_iff.mpr hbreak
    rw [line_advanceAll]
    omega
  · right
    have hlength := List.length_pos_iff.mpr h
    rw [advanceAll_of_not_mem p hbreak]
    simpa [right] using hlength

end Position

/-! ### Bytes -/

/-- The UTF-8 encoding of a text. -/
def utf8 (cs : List Char) : List UInt8 := cs.flatMap String.utf8EncodeChar

theorem length_utf8_cons (c : Char) (cs : List Char) :
    (utf8 (c :: cs)).length = c.utf8Size + (utf8 cs).length := by
  rw [utf8, List.flatMap_cons, List.length_append, String.length_utf8EncodeChar, utf8]

theorem length_utf8_append (cs ds : List Char) :
    (utf8 (cs ++ ds)).length = (utf8 cs).length + (utf8 ds).length := by
  rw [utf8, List.flatMap_append, List.length_append, utf8, utf8]

/-- How many characters of a text end, in its UTF-8 encoding, at or before a byte number. -/
def charsEndingBy (cs : List Char) (byte : Nat) : Nat :=
  (List.range cs.length).countP fun i => (utf8 (cs.take (i + 1))).length ≤ byte

/-- Behind the first character, as many bytes less are left. -/
theorem charsEndingBy_cons (c : Char) (cs : List Char) (byte : Nat) :
    charsEndingBy (c :: cs) byte =
      if c.utf8Size ≤ byte then charsEndingBy cs (byte - c.utf8Size) + 1 else 0 := by
  have hends : ∀ i, (utf8 ((c :: cs).take (i + 1))).length =
      c.utf8Size + (utf8 (cs.take i)).length := by
    intro i
    rw [List.take_succ_cons, length_utf8_cons]
  have hfirst : (utf8 (cs.take 0)).length = 0 := rfl
  simp only [charsEndingBy, List.length_cons, List.range_succ_eq_map, List.countP_cons,
    List.countP_map, Function.comp_def, hends, hfirst, Nat.add_zero, Nat.succ_eq_add_one,
    decide_eq_true_eq]
  split
  · next hfits =>
      congr 1
      refine List.countP_congr fun i _ => ?_
      simp only [decide_eq_true_eq]
      omega
  · next hfull =>
      rw [Nat.add_zero, List.countP_eq_zero]
      intro i _
      simp only [decide_eq_true_eq]
      omega

/-- A text cut behind the last character that lies wholly within the first `byte` bytes. -/
structure ByteCut (byte : Nat) (before rest : List Char) : Prop where
  fits : (utf8 before).length ≤ byte
  full : ∀ c ∈ rest.head?, byte < (utf8 before).length + c.utf8Size

/-- Counting the characters that end in time cuts the text behind them. -/
theorem byteCut_charsEndingBy (byte : Nat) (cs : List Char) :
    ByteCut byte (cs.take (charsEndingBy cs byte)) (cs.drop (charsEndingBy cs byte)) := by
  induction cs generalizing byte with
  | nil => exact ⟨Nat.zero_le _, by simp⟩
  | cons c cs ih =>
      rw [charsEndingBy_cons]
      split
      · next hfits =>
          obtain ⟨hfit, hfull⟩ := ih (byte - c.utf8Size)
          rw [List.take_succ_cons, List.drop_succ_cons]
          refine ⟨?_, fun d hd => ?_⟩
          · rw [length_utf8_cons]
            omega
          · have := hfull d hd
            rw [length_utf8_cons]
            omega
      · next hfull => exact ⟨Nat.zero_le _, by simpa [utf8] using hfull⟩

namespace ByteCut

variable {byte : Nat} {before rest : List Char} (h : ByteCut byte before rest)
include h

/-- The walk over whole characters stops at the cut. -/
theorem wholeCharsWithin_eq : wholeCharsWithin byte (before ++ rest) = before.length := by
  induction before generalizing byte with
  | nil =>
      cases rest with
      | nil => rfl
      | cons c rest =>
          have hfull := h.full c rfl
          rw [List.nil_append, wholeCharsWithin, if_neg]
          · rfl
          · simpa [utf8] using hfull
  | cons c before ih =>
      have hfits := h.fits
      rw [length_utf8_cons] at hfits
      rw [List.cons_append, wholeCharsWithin, if_pos (by omega), List.length_cons, ih]
      refine ⟨by omega, fun d hd => ?_⟩
      have hfull := h.full d hd
      rw [length_utf8_cons] at hfull
      omega

/-- A cut stays a cut when characters are taken off the front of the text. -/
theorem drop_front {front behind : List Char} (hbefore : before = front ++ behind) :
    ByteCut (byte - (utf8 front).length) behind rest := by
  have hfits := h.fits
  rw [hbefore, length_utf8_append] at hfits
  refine ⟨by omega, fun c hc => ?_⟩
  have hfull := h.full c hc
  rw [hbefore, length_utf8_append] at hfull
  omega

end ByteCut

namespace LineStart

theorem byte_past (here : LineStart) (cs : List Char) :
    (here.past cs).byte = here.byte + (utf8 cs).length := by
  induction cs generalizing here with
  | nil => rfl
  | cons c cs ih =>
      rw [past_cons, ih, length_utf8_cons]
      dsimp only
      omega

end LineStart

namespace Lines

section ByteLookup

variable {text : String} {before rest : List Char} {byte : Nat}
  (htext : text.toList = before ++ rest) (hcut : ByteCut byte before rest)
include htext hcut

/-- The lines that begin at or before a byte number are those that open before its cut. -/
theorem lineAt_byte : (ofText text).lineAt LineStart.byte byte = before.count '\n' := by
  refine lineAt_of_cut htext ?_ ?_
  · intro start hstart
    obtain ⟨read, -, ⟨more, rfl⟩, rfl⟩ := LineStart.exists_prefix_of_mem_scan hstart
    have hfits := hcut.fits
    rw [length_utf8_append] at hfits
    rw [LineStart.byte_past]
    dsimp only
    omega
  · intro start hstart
    obtain ⟨read, hread, ⟨more, rfl⟩, rfl⟩ := LineStart.exists_prefix_of_mem_scan hstart
    obtain ⟨c, read, rfl⟩ := List.exists_cons_of_ne_nil hread
    have hfull := hcut.full c rfl
    rw [LineStart.byte_past, LineStart.byte_past, length_utf8_cons]
    dsimp only
    omega

/-- The place of a byte number is where it cuts the text. -/
theorem positionAtByte_eq : (ofText text).positionAtByte byte = .after before := by
  obtain ⟨start, hstart, hcolumn⟩ := exists_start htext
  obtain ⟨front, tail, hfront, rfl, -⟩ := exists_cut hstart
  rw [LineStart.offset_past, Nat.zero_add] at hcolumn
  -- the line begins before the cut
  obtain ⟨behind, hbehind⟩ : front <+: before :=
    List.prefix_of_prefix_length_le ⟨tail, hfront.symm⟩ ⟨rest, htext.symm⟩ (by omega)
  have hwalk : wholeCharsWithin (byte - (utf8 front).length) (text.toList.drop front.length) =
      (Position.after before).column := by
    rw [htext, ← hbehind, List.append_assoc, List.drop_left,
      (hcut.drop_front hbehind.symm).wholeCharsWithin_eq]
    rw [← hbehind, List.length_append] at hcolumn
    omega
  rw [positionAtByte, lineAt_byte htext hcut, hstart]
  dsimp only [Option.getD_some]
  rw [LineStart.byte_past, LineStart.offset_past, Nat.zero_add, Nat.zero_add]
  show (⟨front.length + wholeCharsWithin (byte - (utf8 front).length)
    (text.toList.drop front.length), _, wholeCharsWithin (byte - (utf8 front).length)
    (text.toList.drop front.length)⟩ : Position) = _
  rw [hwalk, hcolumn, ← Position.after_eq]

end ByteLookup

/-- The place of a character number is where one stands behind that many characters. -/
theorem positionAtOffset_eq (text : String) (offset : Nat) :
    (ofText text).positionAtOffset offset = .after (text.toList.take offset) := by
  have hplace := (has_after (List.take_append_drop offset text.toList).symm).by_offset
  rw [Position.offset_after, List.length_take] at hplace
  have hclamp : (ofText text).positionAtOffset offset =
      (ofText text).positionAtOffset (min offset text.toList.length) := by
    simp [positionAtOffset, charCount, ofText]
  rw [hclamp, hplace]

end Lines

/-- **Places are found by counting.** The place of a character number, moved back to the end if it
lies behind it, has as many lines as there are line breaks before it, and as many columns as there
are characters behind the last of them. The place of a byte number is that of the number of
characters whose encoding ends at or before that byte. -/
theorem lookups_by_counting (text : String) :
    let lines := Lines.ofText text
    (∀ offset, let m := min offset text.length
      let read := text.toList.take m
      lines.positionAtOffset offset =
        ⟨m, read.count '\n', (read.rtakeWhile (· != '\n')).length⟩) ∧
      ∀ byte, lines.positionAtByte byte =
        lines.positionAtOffset (charsEndingBy text.toList byte) := by
  intro lines
  constructor
  · intro offset m read
    have hread : text.toList.take offset = read := by
      rw [List.take_eq_take_min, String.length_toList]
    have hlength : read.length = m := by
      rw [List.length_take, String.length_toList]
      omega
    rw [Lines.positionAtOffset_eq, hread, Position.after_eq, Position.column_after, hlength]
  · intro byte
    rw [Lines.positionAtOffset_eq]
    exact Lines.positionAtByte_eq (List.take_append_drop _ _).symm (byteCut_charsEndingBy byte _)

/-- A byte number inside a character, and one behind the end. -/
example : (Lines.ofText "aé\n").positionAtByte 2 = ⟨1, 0, 1⟩ ∧
    (Lines.ofText "aé\n").positionAtByte 9 = ⟨3, 1, 0⟩ := by decide

/-! ### Lines and columns -/

namespace Position.IsIn

variable {text : String} {p q : Position} (hp : p.IsIn text) (hq : q.IsIn text)
include hp hq

theorem pair_lt_pair (h : p.offset < q.offset) : p.pair < q.pair := by
  obtain ⟨read, hread, rfl⟩ := hp
  obtain ⟨read', hread', rfl⟩ := hq
  rw [offset_after, offset_after] at h
  obtain ⟨more, rfl⟩ := List.prefix_of_prefix_length_le hread hread' h.le
  have hmore : more ≠ [] := by
    intro hnil
    simp [hnil] at h
  rw [after, after, advanceAll_append]
  exact pair_lt_pair_advanceAll _ hmore

/-- A place is determined by its character number. -/
theorem eq_of_offset_eq (h : p.offset = q.offset) : p = q := by
  rw [← (Lines.has_of_isIn hp).by_offset, ← (Lines.has_of_isIn hq).by_offset, h]

/-- The places of a text stand in the order of their lines and columns. -/
theorem pair_le_pair_iff : p.pair ≤ q.pair ↔ p.offset ≤ q.offset := by
  constructor
  · intro hle
    by_contra hlt
    exact absurd hle (pair_lt_pair hq hp (Nat.not_le.mp hlt)).not_ge
  · intro hle
    rcases Nat.lt_or_eq_of_le hle with hlt | heq
    · exact (pair_lt_pair hp hq hlt).le
    · exact (congrArg pair (eq_of_offset_eq hp hq heq)).le

end Position.IsIn

namespace Lines

theorem isIn_positionAtOffset (text : String) (offset : Nat) :
    ((ofText text).positionAtOffset offset).IsIn text :=
  ⟨text.toList.take offset, List.take_prefix _ _, positionAtOffset_eq text offset⟩

theorem offset_positionAtOffset {text : String} {offset : Nat} (h : offset ≤ text.length) :
    ((ofText text).positionAtOffset offset).offset = offset := by
  rw [positionAtOffset_eq, Position.offset_after, List.length_take, String.length_toList]
  omega

/-- A line that the text does not have lies behind all its places. -/
theorem line_lt_of_start?_none {text : String} {line : Nat}
    (h : (ofText text).start? line = none) {p : Position} (hp : p.IsIn text) : p.line < line := by
  obtain ⟨before, ⟨rest, htext⟩, rfl⟩ := hp
  have hlines : (ofText text).starts.length = before.count '\n' + rest.count '\n' + 1 := by
    rw [starts, List.length_cons, laterStarts_ofText htext.symm, List.length_append,
      LineStart.length_scan, LineStart.length_scan]
  have hlast := List.getElem?_eq_none_iff.mp h
  rw [Position.line_after]
  omega

/-- **An asked line and column** are answered with the last place that is not behind them. -/
theorem pair_le_iff {text : String} {p : Position} (hp : p.IsIn text) (line column : Nat) :
    p.pair ≤ toLex (line, column) ↔ p.offset ≤ ((ofText text).position line column).offset := by
  cases hstart : (ofText text).start? line with
  | none =>
      -- every place is before the asked line, and the answer is the end of the text
      have hline := line_lt_of_start?_none hstart hp
      have hinside := (has_of_isIn hp).inside
      have hpair : p.pair ≤ toLex (line, column) := Prod.Lex.toLex_le_toLex.mpr (.inl hline)
      simpa [hpair, position, hstart, endPosition, positionAtOffset] using hinside
  | some start =>
      rw [← hp.pair_le_pair_iff (isIn_position text line column), position, hstart]
      obtain ⟨before, ⟨rest, htext⟩, rfl⟩ := hp
      have hcolumn := column_le_lineLength htext.symm
      simp only [Position.pair, Prod.Lex.toLex_le_toLex, Position.line_after]
      -- on the asked line itself no place has more columns than the line
      refine or_congr_right (and_congr_right fun hline => ?_)
      rw [hline] at hcolumn
      omega

end Lines

/-- **Lines with columns, and character numbers, order the same places.** The place of a character
number is found again from its line and column, and the place of a line and column from its
character number. Places in the text come in the order of their pairs, and a line and column
wherever they lie are answered with the last place that is not behind them. -/
theorem pairs_follow_offsets (text : String) :
    let lines := Lines.ofText text
    (∀ offset, let p := lines.positionAtOffset offset
      p.IsIn text ∧ lines.position p.line p.column = p) ∧
    (∀ line column, let p := lines.position line column
      p.IsIn text ∧ lines.positionAtOffset p.offset = p) ∧
    (∀ o o', o ≤ text.length → o' ≤ text.length →
      (o < o' ↔ (lines.positionAtOffset o).pair < (lines.positionAtOffset o').pair)) ∧
    ∀ line column o, o ≤ text.length →
      ((lines.positionAtOffset o).pair ≤ toLex (line, column) ↔
        o ≤ (lines.position line column).offset) := by
  intro lines
  refine ⟨?_, ?_, ?_, ?_⟩
  · intro offset p
    have hp : p.IsIn text := Lines.isIn_positionAtOffset text offset
    exact ⟨hp, (Lines.has_of_isIn hp).by_column⟩
  · intro line column p
    have hp : p.IsIn text := Lines.isIn_position text line column
    exact ⟨hp, (Lines.has_of_isIn hp).by_offset⟩
  · intro o o' ho ho'
    have hiff := (Lines.isIn_positionAtOffset text o').pair_le_pair_iff
      (Lines.isIn_positionAtOffset text o)
    rw [Lines.offset_positionAtOffset ho, Lines.offset_positionAtOffset ho'] at hiff
    rw [← not_le, ← not_le, hiff]
  · intro line column o ho
    rw [Lines.pair_le_iff (Lines.isIn_positionAtOffset text o), Lines.offset_positionAtOffset ho]

/-- An empty line, and a text that ends in a line break: the places before and behind the second
break are apart, and column 9 of the empty line is its only place. -/
theorem pairs_follow_offsets_empty_line :
    let lines := Lines.ofText "é\n\n"
    (lines.positionAtOffset 2).pair < (lines.positionAtOffset 3).pair ∧
      (lines.positionAtOffset 2).pair ≤ toLex (1, 9) ∧ lines.position 1 9 = ⟨2, 1, 0⟩ := by
  intro lines
  obtain ⟨-, -, horder, hclamp⟩ := pairs_follow_offsets "é\n\n"
  have hplace : lines.position 1 9 = ⟨2, 1, 0⟩ := by decide
  refine ⟨(horder 2 3 (by decide) (by decide)).mp (by decide), ?_, hplace⟩
  exact (hclamp 1 9 2 (by decide)).mpr (by rw [hplace])

end RecipeDesk
