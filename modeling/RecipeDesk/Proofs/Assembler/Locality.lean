import Mathlib.Data.List.Infix
import Mathlib.Data.List.TakeWhile
import RecipeDesk.Proofs.Assembler.Accounting
import RecipeDesk.Proofs.Assembler.Relocation
import RecipeDesk.Proofs.Text.LineTable
import RecipeDesk.Proofs.Text.Relocation

/-!
# Listings are read line by line

A source that ends with a finished line can be read without what follows it, and what follows it can
be read without the source: the listing of both together is the listing of the first with the
listing of the second put below it (`listing_append`).

* Reading a token looks at what follows the source only if the token reaches the end of the source.
  A line break never does: it ends where it begins (`leap_append`, `Lexer.readings_extend`).
* Behind a finished line the reader is as it was at the beginning, only further down: ASCII mode is
  off, and the place is in the first column (`Lexer.readings_relocate`).
* Lines are told from the tokens alone, and a line break divides them for good
  (`tokenLines_append`).
-/

namespace RecipeDesk.Assembler

/-! ### A source with more behind it -/

/-- A scan that stops inside a text stops there whatever follows the text. -/
theorem scan_append {look : Char → Bool} {cs : List Char} (t : List Char)
    (h : cs.dropWhile look ≠ []) :
    (cs ++ t).takeWhile look = cs.takeWhile look ∧
      (cs ++ t).dropWhile look = cs.dropWhile look ++ t := by
  have hdrop : (cs ++ t).dropWhile look = cs.dropWhile look ++ t := by
    rw [List.dropWhile_append, if_neg (by simpa using h)]
  refine ⟨?_, hdrop⟩
  have hwhole := List.takeWhile_append_dropWhile (p := look) (l := cs ++ t)
  rw [hdrop, ← List.append_assoc] at hwhole
  have := List.append_cancel_right hwhole
  have hcs := List.takeWhile_append_dropWhile (p := look) (l := cs)
  exact List.append_cancel_right (this.trans hcs.symm)

/-- A cut, with more behind the source. -/
def Cut.extend (first : Cut) (t : List Char) : Cut := { first with rest := first.rest ++ t }

theorem cutText_append {ascii : Bool} {quote : Char} {cs : List Char} (t : List Char)
    (h : (cutText ascii quote cs).rest ≠ []) :
    cutText ascii quote (cs ++ t) = (cutText ascii quote cs).extend t := by
  unfold cutText at h ⊢
  cases hdrop : cs.dropWhile (· != quote) with
  | nil => simp [hdrop] at h
  | cons close rest =>
      obtain ⟨htake, hdrop'⟩ := scan_append t (show cs.dropWhile (· != quote) ≠ [] by simp [hdrop])
      simp only [htake, hdrop', hdrop, List.cons_append]
      rfl

theorem cutNumber_append {ascii : Bool} {c : Char} {cs : List Char} (t : List Char)
    (h : (cutNumber ascii c cs).rest ≠ []) :
    cutNumber ascii c (cs ++ t) = (cutNumber ascii c cs).extend t := by
  have hdrop : cs.dropWhile isNumberRest ≠ [] := by
    intro hnil
    simp [cutNumber, hnil] at h
  obtain ⟨htake, hdrop'⟩ := scan_append t hdrop
  unfold cutNumber
  rw [htake, hdrop']
  cases hrest : cs.dropWhile isNumberRest with
  | nil => exact absurd hrest hdrop
  | cons d rest =>
    by_cases hd : d = '$'
    · subst hd; rfl
    · simp [hd, Cut.extend]

/-- What is cut off the front does not depend on what follows the source, unless it reaches its
end. -/
theorem cut_append {ascii : Bool} {c : Char} {cs : List Char} (t : List Char)
    (h : (cut ascii c cs).rest ≠ [] ∨ c = '\n') :
    cut ascii c (cs ++ t) = (cut ascii c cs).extend t := by
  rcases h with h | rfl
  · unfold cut at h ⊢
    split
    · rfl
    next hblank =>
    rw [if_neg hblank] at h
    split
    · next hsemicolon =>
        rw [if_pos hsemicolon] at h
        obtain ⟨htake, hdrop⟩ := scan_append t h
        rw [htake, hdrop]
        rfl
    next hsemicolon =>
    rw [if_neg hsemicolon] at h
    split
    · rfl
    next hline =>
    rw [if_neg hline] at h
    split
    · next hquote =>
        rw [if_pos hquote] at h
        exact cutText_append t h
    next hquote =>
    rw [if_neg hquote] at h
    split
    · next happ =>
        rw [if_pos happ] at h
        split
        · next hascii =>
            rw [if_pos hascii] at h
            exact cutText_append t h
        · next hascii =>
            rw [if_neg hascii] at h
            cases cs with
            | nil => exact absurd rfl h
            | cons d rest => rfl
    next happ =>
    rw [if_neg happ] at h
    split
    · next hname =>
        rw [if_pos hname] at h
        obtain ⟨htake, hdrop⟩ := scan_append t h
        rw [cutName, htake, hdrop]
        rfl
    next hname =>
    rw [if_neg hname] at h
    split
    · next hdigit =>
        rw [if_pos hdigit] at h
        exact cutNumber_append t h
    split <;> rfl
  · rfl

/-- A line break is a piece of its own. -/
theorem eq_newline_of_cut {ascii : Bool} {c : Char} {cs : List Char} {flaw : Option Flaw}
    (h : (cut ascii c cs).piece = .token .endOfLine flaw) : c = '\n' := by
  have htakes := takes_cut ascii c cs
  have hhead := head?_source_cut ascii c cs
  rw [h] at htakes
  generalize (cut ascii c cs).source = source at htakes hhead
  cases htakes with
  | token hspells =>
      cases hspells
      exact (Option.some.inj hhead).symm

/-- A leap that does not reach the end of the source, or that ends with a line break. -/
def Leap.Settled (leap : Leap) : Prop :=
  leap.rest ≠ [] ∨ ∃ flaw source, leap.token = some (.endOfLine, flaw, source)

theorem leap_append {ascii : Bool} {cs : List Char} (t : List Char)
    (h : (leap ascii cs).Settled) :
    leap ascii (cs ++ t) = { leap ascii cs with rest := (leap ascii cs).rest ++ t } := by
  fun_induction leap ascii cs with
  | case1 ascii => simp [Leap.Settled] at h
  | case2 ascii c cs first token flaw hpiece =>
      have hcut : cut ascii c (cs ++ t) = first.extend t := by
        refine cut_append t (h.imp_right ?_)
        rintro ⟨_, _, ⟨⟩⟩
        exact eq_newline_of_cut hpiece
      rw [List.cons_append, leap, hcut]
      simp only [Cut.extend, hpiece]
  | case3 ascii c cs first kind hpiece later ih =>
      have hlater : later.Settled := h
      have hcut : cut ascii c (cs ++ t) = first.extend t := by
        refine cut_append t (.inl fun hnil => ?_)
        -- behind the last filler of a source there is no token
        have hnone : later = ⟨[], none, [], first.ascii⟩ := by
          show leap first.ascii (cut ascii c cs).rest = _
          rw [hnil, leap]
        simp [Leap.Settled, hnone] at hlater
      rw [List.cons_append, leap, hcut]
      simp only [Cut.extend, hpiece, ih hlater]
      rfl

namespace Lexer

/-- A reader with more behind its source. -/
def extend (lexer : Lexer) (t : List Char) : Lexer := { lexer with rest := lexer.rest ++ t }

end Lexer

/-- A reading with more behind its source. -/
def Reading.extend (reading : Reading) (t : List Char) : Reading :=
  { reading with after := reading.after.extend t }

namespace Lexer

theorem next_extend {lexer : Lexer} (t : List Char)
    (h : lexer.next.after.rest ≠ [] ∨ lexer.next.lexeme.token = .endOfLine) :
    (lexer.extend t).next = lexer.next.extend t := by
  have hsettled : (leap lexer.ascii lexer.rest).Settled := by
    unfold next at h
    generalize leap lexer.ascii lexer.rest = jump at h
    obtain ⟨gap, found, rest, ascii⟩ := jump
    cases found with
    | none =>
        refine h.imp_right ?_
        rintro ⟨⟩
    | some found =>
        obtain ⟨token, flaw, source⟩ := found
        refine h.imp_right ?_
        rintro ⟨⟩
        exact ⟨_, _, rfl⟩
  have hleap := leap_append t hsettled
  unfold next extend
  dsimp only
  rw [hleap]
  cases (leap lexer.ascii lexer.rest).token <;> rfl

theorem readings_ne_nil (lexer : Lexer) : lexer.readings ≠ [] := by
  rw [readings]
  split <;> simp

theorem readings_of_rest_nil {lexer : Lexer} (h : lexer.rest = []) :
    lexer.readings = [⟨[], ⟨.endOfFile, .empty lexer.place⟩, lexer⟩] := by
  rw [readings, next_of_rest_nil h]
  rfl

/-- If the last token is a line break at the end of the source, what follows the source is read as
by a reader that begins there. -/
theorem readings_extend {lexer : Lexer} {last : Reading} (t : List Char)
    (hlast : lexer.readings.dropLast.getLast? = some last)
    (htoken : last.lexeme.token = .endOfLine) (hrest : last.after.rest = []) :
    (lexer.extend t).readings =
      lexer.readings.dropLast.map (·.extend t) ++ (last.after.extend t).readings := by
  fun_induction readings lexer with
  | case1 lexer hdone => simp at hlast
  | case2 lexer hmore ih =>
      rw [List.dropLast_cons_of_ne_nil (readings_ne_nil _)] at hlast ⊢
      by_cases hend : lexer.next.after.rest = []
      · have hdone : lexer.next.after.readings.dropLast = [] := by
          rw [readings_of_rest_nil hend]
          rfl
        rw [hdone] at hlast ⊢
        obtain rfl : lexer.next = last := by simpa using hlast
        have hnext := next_extend t (.inr htoken)
        rw [readings, hnext, if_neg (by simpa [Reading.extend] using hmore)]
        rfl
      · have hnext := next_extend t (.inl hend)
        have hlater : lexer.next.after.readings.dropLast.getLast? = some last := by
          cases hdrop : lexer.next.after.readings.dropLast with
          | nil =>
              rw [hdrop] at hlast
              obtain rfl : lexer.next = last := by simpa using hlast
              exact absurd hrest hend
          | cons first rest => rwa [hdrop, List.getLast?_cons_cons] at hlast
        rw [readings, hnext, if_neg (by simpa [Reading.extend] using hmore)]
        exact congrArg (_ :: ·) (ih hlater)

end Lexer

/-! ### A reader further down -/

/-- A fault in another place. -/
def LexFault.relocate (move : Position → Position) (fault : LexFault) : LexFault :=
  ⟨fault.span.relocate move, fault.cause⟩

/-- A reader in another place. -/
def Lexer.relocate (move : Position → Position) (lexer : Lexer) : Lexer :=
  { lexer with place := move lexer.place }

/-- A reading in another place. -/
def Reading.relocate (move : Position → Position) (reading : Reading) : Reading :=
  ⟨reading.faults.map (LexFault.relocate move), reading.lexeme.relocate move,
    reading.after.relocate move⟩

section Shift

variable (offset line : Nat)

theorem Gap.faults_relocate (gap : Gap) (p : Position) :
    gap.faults (p.shift offset line) =
      (gap.faults p).map (LexFault.relocate (Position.shift offset line)) := by
  simp only [faults, Position.advanceAll_shift, Position.right_shift, List.map_append]
  congr 1 <;> split <;> rfl

theorem Flaw.fault_relocate (flaw : Flaw) (span : Span) (source : List Char)
    (move : Position → Position) :
    flaw.fault (span.relocate move) source = (flaw.fault span source).relocate move := by
  cases flaw <;> rfl

namespace Lexer

theorem next_relocate (lexer : Lexer) :
    (lexer.relocate (Position.shift offset line)).next =
      lexer.next.relocate (Position.shift offset line) := by
  unfold next relocate
  dsimp only
  generalize leap lexer.ascii lexer.rest = jump
  obtain ⟨gap, found, rest, ascii⟩ := jump
  rw [Gap.faults_relocate, Position.advanceAll_shift]
  cases found with
  | none => rfl
  | some found =>
      obtain ⟨token, flaw, source⟩ := found
      dsimp only
      rw [Position.advanceAll_shift]
      cases flaw with
      | none => simp [Reading.relocate, relocate, Lexeme.relocate, Span.relocate]
      | some flaw =>
          simp [Reading.relocate, relocate, Lexeme.relocate, Span.relocate,
            ← Flaw.fault_relocate]

/-- Further down the same tokens are read, further down. -/
theorem readings_relocate (lexer : Lexer) :
    (lexer.relocate (Position.shift offset line)).readings =
      lexer.readings.map (Reading.relocate (Position.shift offset line)) := by
  fun_induction readings lexer with
  | case1 lexer hdone =>
      rw [readings, next_relocate, if_pos (by simpa [Reading.relocate] using hdone)]
      rfl
  | case2 lexer hmore ih =>
      rw [readings, next_relocate, if_neg (by simpa [Reading.relocate] using hmore)]
      exact congrArg (_ :: ·) ih

end Lexer

end Shift

/-! ### Where a reader stands -/

namespace Lexer

/-- A token takes up the source from where the reader stood to where it stands. -/
theorem exists_source_next (lexer : Lexer) :
    ∃ source, lexer.rest = source ++ lexer.next.after.rest ∧
      lexer.next.after.place = lexer.place.advanceAll source := by
  have hreads := lexer.reads_next
  generalize lexer.next = reading at hreads ⊢
  cases hreads with
  | @done gap hrest => exact ⟨gap.source, by rw [hrest, List.append_nil], rfl⟩
  | @token gap _ _ source rest _ hrest _ _ hspan =>
      refine ⟨gap.source ++ source, by rw [hrest, List.append_assoc], ?_⟩
      rw [hspan, Position.advanceAll_append]

/-- Behind a line break the reader stands in the first column. -/
theorem column_next {lexer : Lexer} (h : lexer.next.lexeme.token = .endOfLine) :
    lexer.next.after.place.column = 0 := by
  have hreads := lexer.reads_next
  generalize lexer.next = reading at hreads h ⊢
  cases hreads with
  | done => cases h
  | token _ _ hspells hspan =>
      obtain rfl := h
      cases hspells
      rw [hspan]
      rfl

/-- What is known of every reading. -/
theorem of_mem_readings {lexer : Lexer} {reading : Reading} (h : reading ∈ lexer.readings) :
    (∃ source, lexer.rest = source ++ reading.after.rest ∧
      reading.after.place = lexer.place.advanceAll source) ∧
    reading.lexeme.span.stop = reading.after.place ∧
    (reading.lexeme.token = .endOfLine → reading.after.place.column = 0) := by
  fun_induction readings lexer with
  | case1 lexer hdone =>
      obtain rfl := List.mem_singleton.mp h
      exact ⟨lexer.exists_source_next, lexer.place_after_next.symm, column_next⟩
  | case2 lexer hmore ih =>
      obtain ⟨source, hsource, hplace⟩ := lexer.exists_source_next
      rcases List.mem_cons.mp h with rfl | hlater
      · exact ⟨⟨source, hsource, hplace⟩, lexer.place_after_next.symm, column_next⟩
      · obtain ⟨⟨source', hsource', hplace'⟩, hkept⟩ := ih hlater
        refine ⟨⟨source ++ source', ?_, ?_⟩, hkept⟩
        · rw [hsource, hsource', List.append_assoc]
        · rw [hplace', hplace, Position.advanceAll_append]

end Lexer

/-! ### Finished lines -/

/-- Whether a source ends with a finished line: the last token before the end of the file is a line
break at the end of the source, and ASCII mode is off behind it. -/
def EndsLine (text : String) : Bool :=
  (Lexer.ofText text).readings.dropLast.getLast?.any fun last =>
    last.lexeme.token == .endOfLine && last.lexeme.span.stop.offset == text.length &&
      !last.after.ascii

theorem endsLine_iff {text : String} :
    EndsLine text = true ↔
      ∃ last, (Lexer.ofText text).readings.dropLast.getLast? = some last ∧
        last.lexeme.token = .endOfLine ∧ last.lexeme.span.stop.offset = text.length ∧
        last.after.ascii = false := by
  simp only [EndsLine, Option.any_eq_true, Bool.and_eq_true, beq_iff_eq, Bool.not_eq_eq_eq_not,
    Bool.not_true, and_assoc]

/-- How far a text moves what stands below it. -/
def below (text : String) : Position → Position :=
  Position.shift text.length (text.toList.count '\n')

/-- Behind a finished line the reader has nothing left, and is as at the beginning of a text, only
further down. -/
theorem after_of_endsLine {text : String} {last : Reading}
    (hlast : (Lexer.ofText text).readings.dropLast.getLast? = some last)
    (htoken : last.lexeme.token = .endOfLine)
    (hstop : last.lexeme.span.stop.offset = text.length) (hascii : last.after.ascii = false) :
    last.after = (Lexer.ofText "").relocate (below text) := by
  have hmem := List.mem_of_mem_dropLast (List.mem_of_getLast? hlast)
  obtain ⟨⟨source, hsource, hplace⟩, hspan, hcolumn⟩ := Lexer.of_mem_readings hmem
  change text.toList = source ++ last.after.rest at hsource
  change last.after.place = .after source at hplace
  have hlength : source.length = text.toList.length := by
    rw [← Position.offset_after, ← hplace, ← hspan, hstop, String.length_toList]
  have hrest : last.after.rest = [] := by
    have hwhole := congrArg List.length hsource
    rw [List.length_append] at hwhole
    exact List.length_eq_zero_iff.mp (by omega)
  obtain rfl : source = text.toList := by
    rw [hsource, hrest, List.append_nil]
  have hat : last.after.place = below text .origin := by
    have hzero := hcolumn htoken
    rw [hplace] at hzero ⊢
    rw [Position.after_eq, hzero]
    simp [below, Position.shift, Position.origin, String.length_toList]
  obtain ⟨_, lexeme, rest, place, ascii⟩ := last
  subst hrest hat hascii
  rfl

/-- A finished line and what follows it: the tokens of both, and the end of the file. -/
theorem readings_append {s : String} (hs : EndsLine s) (t : String) :
    (Lexer.ofText (s ++ t)).readings =
      (Lexer.ofText s).readings.dropLast.map (·.extend t.toList) ++
        (Lexer.ofText t).readings.map (Reading.relocate (below s)) := by
  obtain ⟨last, hlast, htoken, hstop, hascii⟩ := endsLine_iff.mp hs
  have hafter := after_of_endsLine hlast htoken hstop hascii
  have hrest : last.after.rest = [] := by
    rw [hafter]
    rfl
  have hwhole : Lexer.ofText (s ++ t) = (Lexer.ofText s).extend t.toList := by
    simp [Lexer.ofText, Lexer.extend]
  have hbelow : last.after.extend t.toList = (Lexer.ofText t).relocate (below s) := by
    rw [hafter]
    rfl
  rw [hwhole, Lexer.readings_extend _ hlast htoken hrest, hbelow, below, Lexer.readings_relocate]

theorem lexFaults_append {s : String} (hs : EndsLine s) (t : String) :
    lexFaults (s ++ t) = lexFaults s ++ (lexFaults t).map (LexFault.relocate (below s)) := by
  have hsplit (t : String) : lexFaults (s ++ t) =
      (Lexer.ofText s).readings.dropLast.flatMap Reading.faults ++
        (lexFaults t).map (LexFault.relocate (below s)) := by
    rw [lexFaults, readings_append hs, List.flatMap_append, List.flatMap_map, List.flatMap_map,
      lexFaults, List.map_flatMap]
    rfl
  -- with nothing behind the finished line this is what the line reports by itself
  have hself := hsplit ""
  rw [String.append_empty, show lexFaults "" = [] by decide +kernel, List.map_nil,
    List.append_nil] at hself
  rw [hsplit, hself]

/-- The tokens of a finished line end with a line break, and those of what follows come below. -/
theorem lexemes_append {s : String} (hs : EndsLine s) :
    ∃ ls l, l.token = .endOfLine ∧
      ∀ t, lexemes (s ++ t) = ls ++ l :: (lexemes t).map (Lexeme.relocate (below s)) := by
  obtain ⟨last, hlast, htoken, -, -⟩ := endsLine_iff.mp hs
  obtain ⟨before, hbefore⟩ := List.getLast?_eq_some_iff.mp hlast
  refine ⟨before.map Reading.lexeme, last.lexeme, htoken, fun t => ?_⟩
  rw [lexemes, readings_append hs, hbefore, lexemes]
  simp only [List.map_append, List.map_map, List.map_cons, List.map_nil, List.append_assoc,
    List.singleton_append]
  rfl

theorem splitLines_ne_nil (ls : List Lexeme) : splitLines ls ≠ [] := by
  cases ls with
  | nil => simp [splitLines]
  | cons first rest =>
      rw [splitLines]
      split
      · simp
      · split <;> simp

theorem splitLines_append {l : Lexeme} (hl : l.token.isLineEnd = true) (ls rest : List Lexeme) :
    splitLines (ls ++ l :: rest) = splitLines ls ++ splitLines rest := by
  induction ls with
  | nil => simp [splitLines, hl]
  | cons first ls ih =>
      rw [List.cons_append, splitLines, splitLines, ih]
      split
      · rfl
      · cases hlines : splitLines ls with
        | nil => exact absurd hlines (splitLines_ne_nil ls)
        | cons line lines => rfl

/-- The end of a line divides the lines before it from those behind it. -/
theorem tokenLines_append {l : Lexeme} (hl : l.token.isLineEnd = true) (ls rest : List Lexeme) :
    tokenLines (ls ++ l :: rest) = tokenLines ls ++ tokenLines rest := by
  rw [tokenLines, splitLines_append hl, List.filter_append]
  rfl

/-! ### Listings -/

namespace Listing

/-- One listing and another behind it. -/
instance : Append Listing :=
  ⟨fun a b => ⟨a.statements ++ b.statements, a.lexFaults ++ b.lexFaults,
    a.syntaxErrors ++ b.syntaxErrors⟩⟩

/-- A listing in another place. -/
def relocate (move : Position → Position) (listing : Listing) : Listing :=
  ⟨listing.statements.map (Statement.relocate move),
    listing.lexFaults.map (LexFault.relocate move),
    listing.syntaxErrors.map (SyntaxError.relocate move)⟩

/-- Behind a finished line a listing goes on as it would begin. -/
theorem ofText_append {s : String} (hs : EndsLine s) (t : String) :
    ofText (s ++ t) = ofText s ++ (ofText t).relocate (below s) := by
  obtain ⟨ls, l, hl, hlexemes⟩ := lexemes_append hs
  have hline : l.token.isLineEnd = true := by
    rw [hl]
    rfl
  have hstatements (t : String) : Assembler.statements (lexemes (s ++ t)) =
      Assembler.statements ls ++
        (Assembler.statements (lexemes t)).map (Statement.relocate (below s)) := by
    rw [hlexemes, ← statements_relocate, Assembler.statements, tokenLines_append hline,
      List.flatMap_append]
    rfl
  have herrors (t : String) : Assembler.syntaxErrors (lexemes (s ++ t)) =
      Assembler.syntaxErrors ls ++
        (Assembler.syntaxErrors (lexemes t)).map (SyntaxError.relocate (below s)) := by
    rw [hlexemes, ← syntaxErrors_relocate, Assembler.syntaxErrors, tokenLines_append hline,
      List.filterMap_append]
    rfl
  have hnone : Assembler.statements (lexemes "") = [] := by decide +kernel
  have hself := hstatements ""
  rw [String.append_empty, hnone, List.map_nil, List.append_nil] at hself
  have herrnone : Assembler.syntaxErrors (lexemes "") = [] := by decide +kernel
  have herrself := herrors ""
  rw [String.append_empty, herrnone, List.map_nil, List.append_nil] at herrself
  rw [ofText, hstatements, herrors, lexFaults_append hs, ← hself, ← herrself]
  rfl

end Listing

theorem endsLine_append {s t : String} (hs : EndsLine s) (ht : EndsLine t) :
    EndsLine (s ++ t) := by
  obtain ⟨last, hlast, htoken, hstop, hascii⟩ := endsLine_iff.mp ht
  refine endsLine_iff.mpr ⟨last.relocate (below s), ?_, htoken, ?_, hascii⟩
  · rw [readings_append hs, List.dropLast_append_of_ne_nil (by simp [Lexer.readings_ne_nil]),
      ← List.map_dropLast, List.getLast?_append, List.getLast?_map, hlast]
    rfl
  · simp only [Reading.relocate, Lexeme.relocate, Span.relocate, below, Position.shift, hstop,
      String.length_append]
    omega

/-! ### Diagnostics -/

/-- The wording of a syntax error behind the number of its line. -/
def SyntaxError.complaint (error : SyntaxError) : String :=
  ": expected " ++ alternatives (error.expected.map Expectation.display) ++
    ", found " ++ (error.found.map Token.display).getD "end of line"

theorem SyntaxError.message_eq (error : SyntaxError) :
    error.message = "line " ++ toString error.line ++ error.complaint := by
  simp [message, complaint, String.append_assoc]

/-- A syntax error reported below a text: its line number counts the lines of the text too. -/
def SyntaxError.diagnosticBelow (text : String) (error : SyntaxError) : Diagnostic :=
  ⟨.error, error.span.relocate (below text),
    "line " ++ toString (error.line + text.toList.count '\n') ++ error.complaint, none⟩

namespace Listing

/-- The faults of the characters as diagnostics. -/
def lexDiagnostics (listing : Listing) : List Diagnostic :=
  listing.lexFaults.map fun fault => ⟨.error, fault.span, fault.cause.message, none⟩

/-- The faults of the lines as diagnostics. -/
def syntaxDiagnostics (listing : Listing) : List Diagnostic :=
  listing.syntaxErrors.map fun error =>
    ⟨.error, error.span, "line " ++ toString error.line ++ error.complaint, none⟩

theorem diagnostics_eq (listing : Listing) :
    listing.diagnostics = listing.lexDiagnostics ++ listing.syntaxDiagnostics := by
  simp only [diagnostics, lexDiagnostics, syntaxDiagnostics, SyntaxError.message_eq]

theorem lexDiagnostics_append (a b : Listing) :
    (a ++ b).lexDiagnostics = a.lexDiagnostics ++ b.lexDiagnostics :=
  List.map_append

theorem syntaxDiagnostics_append (a b : Listing) :
    (a ++ b).syntaxDiagnostics = a.syntaxDiagnostics ++ b.syntaxDiagnostics :=
  List.map_append

theorem lexDiagnostics_relocate (move : Position → Position) (listing : Listing) :
    (listing.relocate move).lexDiagnostics =
      listing.lexDiagnostics.map (Diagnostic.relocate move) := by
  simp only [lexDiagnostics, relocate, List.map_map]
  rfl

theorem syntaxDiagnostics_below (text : String) (listing : Listing) :
    (listing.relocate (below text)).syntaxDiagnostics =
      listing.syntaxErrors.map (SyntaxError.diagnosticBelow text) := by
  simp only [syntaxDiagnostics, relocate, List.map_map]
  refine List.map_congr_left fun error _ => ?_
  have hline : (error.relocate (below text)).line = error.line + text.toList.count '\n' := by
    simp only [SyntaxError.line, SyntaxError.relocate, Span.relocate, below, Position.shift]
    omega
  simp only [Function.comp_apply, hline]
  rfl

end Listing

/-- Listings are local to lines. Behind a finished line `s`, the statements and the diagnostics are
those of `s` and then those of the rest read by itself, moved down by the characters and lines of
`s`. So whatever another finished line is, and whatever is wrong with it, the listings of what
stands before it and behind it are the same. -/
theorem listing_append (s t : String) (hs : EndsLine s) :
    (Listing.ofText (s ++ t)).statements = (Listing.ofText s).statements ++
      (Listing.ofText t).statements.map (Statement.relocate (below s)) ∧
    (Listing.ofText (s ++ t)).lexDiagnostics = (Listing.ofText s).lexDiagnostics ++
      (Listing.ofText t).lexDiagnostics.map (Diagnostic.relocate (below s)) ∧
    (Listing.ofText (s ++ t)).syntaxDiagnostics = (Listing.ofText s).syntaxDiagnostics ++
      (Listing.ofText t).syntaxErrors.map (SyntaxError.diagnosticBelow s) ∧
    (Listing.ofText (s ++ t)).diagnostics =
      (Listing.ofText (s ++ t)).lexDiagnostics ++ (Listing.ofText (s ++ t)).syntaxDiagnostics ∧
    ∀ line, EndsLine line →
      Listing.ofText (s ++ line ++ t) = Listing.ofText s ++
        (Listing.ofText line).relocate (below s) ++
        (Listing.ofText t).relocate (below (s ++ line)) := by
  have happend := Listing.ofText_append hs t
  refine ⟨?_, ?_, ?_, Listing.diagnostics_eq _, ?_⟩
  · rw [happend]
    rfl
  · rw [happend, Listing.lexDiagnostics_append, Listing.lexDiagnostics_relocate]
  · rw [happend, Listing.syntaxDiagnostics_append, Listing.syntaxDiagnostics_below]
  · intro line hline
    rw [Listing.ofText_append (endsLine_append hs hline), Listing.ofText_append hs]

/-- A faulty first line, then a mnemonic and a line with a stray sign: that line is reported as line
3, and as line 4 once another faulty line stands between. -/
theorem listing_append_bad_lines :
    let s := "~ =\n"
    let line := ")\n"
    let t := "C\n)"
    EndsLine s = true ∧ EndsLine line = true ∧
      (Listing.ofText (s ++ t)).statements =
        [.instruction ⟨⟨4, 1, 0⟩, ⟨5, 1, 1⟩⟩ (some ⟨"C", ⟨⟨4, 1, 0⟩, ⟨5, 1, 1⟩⟩⟩) []] ∧
      (Listing.ofText (s ++ t)).lexDiagnostics.map Diagnostic.span =
        [⟨⟨0, 0, 0⟩, ⟨1, 0, 1⟩⟩] ∧
      (Listing.ofText (s ++ t)).syntaxDiagnostics.map Diagnostic.message =
        ["line 1: expected end of line, identifier or operand, found '='",
          "line 3: expected end of line, identifier or operand, found ')'"] ∧
      (Listing.ofText (s ++ line ++ t)).syntaxErrors.map SyntaxError.line = [1, 2, 4] := by
  have hs : EndsLine "~ =\n" = true := by decide +kernel
  have hline : EndsLine ")\n" = true := by decide +kernel
  have hfirst : lexemes "~ =\n" = [⟨.symbol .equals, ⟨⟨2, 0, 2⟩, ⟨3, 0, 3⟩⟩⟩,
      ⟨.endOfLine, ⟨⟨3, 0, 3⟩, ⟨4, 1, 0⟩⟩⟩, ⟨.endOfFile, .empty ⟨4, 1, 0⟩⟩] := by decide +kernel
  have hfault : lexFaults "~ =\n" = [⟨⟨⟨0, 0, 0⟩, ⟨1, 0, 1⟩⟩, .unexpected ['~']⟩] := by
    decide +kernel
  have hmiddle : lexemes ")\n" = [⟨.symbol .rightParen, ⟨⟨0, 0, 0⟩, ⟨1, 0, 1⟩⟩⟩,
      ⟨.endOfLine, ⟨⟨1, 0, 1⟩, ⟨2, 1, 0⟩⟩⟩, ⟨.endOfFile, .empty ⟨2, 1, 0⟩⟩] := by decide +kernel
  have hlast : lexemes "C\n)" = [⟨.ident "C", ⟨⟨0, 0, 0⟩, ⟨1, 0, 1⟩⟩⟩,
      ⟨.endOfLine, ⟨⟨1, 0, 1⟩, ⟨2, 1, 0⟩⟩⟩, ⟨.symbol .rightParen, ⟨⟨2, 1, 0⟩, ⟨3, 1, 1⟩⟩⟩,
      ⟨.endOfFile, .empty ⟨3, 1, 1⟩⟩] := by decide +kernel
  have hnone : lexFaults "C\n)" = [] := by decide +kernel
  obtain ⟨hstatements, hlex, herrors, -, hbetween⟩ := listing_append _ "C\n)" hs
  refine ⟨hs, hline, ?_, ?_, ?_, ?_⟩
  · rw [hstatements, Listing.ofText, Listing.ofText, hfirst, hlast]
    rfl
  · rw [hlex, Listing.ofText, Listing.ofText, hfault, hnone]
    rfl
  · rw [herrors, Listing.ofText, Listing.ofText, hfirst, hlast]
    rfl
  · rw [hbetween _ hline, Listing.ofText, Listing.ofText, Listing.ofText, hfirst, hmiddle, hlast]
    rfl

end RecipeDesk.Assembler
