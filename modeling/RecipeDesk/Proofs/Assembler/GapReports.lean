import Mathlib.Data.List.Forall2
import RecipeDesk.Proofs.Assembler.Accounting
import RecipeDesk.Proofs.Assembler.OneToken

/-!
# One report for every gap

Between two tokens, and before the first, lies a gap (`gapsFrom`). Which of its characters are
unexpected is said of the text alone: those that are no blanks, stand in no comment of the gap, and
are no apostrophe at the end of the text (`Unexpected`). A gap with such characters is reported
once, from the first of them to the last, and a gap without them is not reported (`GapReport`).
Taken gap by gap, these are all reports of unexpected characters there are; and all faults together
stand in source order without overlaps (`gaps_report_once`).

* The reader knows a gap by its fillers. Blanks and stray characters come first, in any order, and
  what may follow them ends the gap (`Gap.Ending`); so the unexpected characters are the stray ones
  (`unexpected_of_isStray`, `exists_isStray_of_unexpected`).
* What one call reports is carried over all calls along the gaps (`Lexer.exists_reports`).
-/

namespace RecipeDesk.Assembler

/-! ### Gaps and what they report -/

/-- The gaps of a source, from a place on: up to the first token, and from each token to the next. -/
def gapsFrom (p : Position) : List Lexeme → List Span
  | [] => []
  | l :: ls => ⟨p, l.span.start⟩ :: gapsFrom l.span.stop ls

/-- The character at `i` stands in a comment of the gap: from a semicolon of the gap on, there is no
line break up to it. -/
def InGapComment (text : String) (gap : Span) (i : Nat) : Prop :=
  ∃ k, gap.start.offset ≤ k ∧ k ≤ i ∧ text.toList[k]? = some ';' ∧
    ∀ j, k ≤ j → j ≤ i → text.toList[j]? ≠ some '\n'

/-- The character at `i` is an unexpected one of the gap. -/
structure Unexpected (text : String) (gap : Span) (i : Nat) : Prop where
  inside : gap.start.offset ≤ i ∧ i < gap.stop.offset
  not_blank : ∀ c ∈ text.toList[i]?, isBlank c = false
  not_comment : ¬ InGapComment text gap i
  not_quote : text.toList.drop i ≠ ['\'']

/-- What is reported of the unexpected characters of a gap. -/
inductive GapReport (text : String) (gap : Span) : List LexFault → Prop where
  /-- There are none. -/
  | silent (hnone : ∀ i, ¬ Unexpected text gap i) : GapReport text gap []
  /-- One report, from the first of them to the last. -/
  | once {first last : Nat} {span : Span} (hfirst : Unexpected text gap first)
    (hlast : Unexpected text gap last) (hall : ∀ i, Unexpected text gap i → first ≤ i ∧ i ≤ last)
    (hstart : span.start = .after (text.toList.take first))
    (hstop : span.stop = .after (text.toList.take (last + 1))) :
    GapReport text gap [⟨span, .unexpected (span.slice text).toList⟩]

/-! ### The characters of a gap -/

/-- What may stand in a gap behind its blanks and stray characters. -/
inductive Gap.Ending : List Char → List Char → Prop where
  | none (rest : List Char) : Ending [] rest
  | comment {body rest : List Char} (hbody : '\n' ∉ body) : Ending (';' :: body) rest
  | loneQuote : Ending ['\''] []

/-- A gap without stray characters has blanks, and what ends it. -/
theorem Gap.Shape.exists_blanks {gap : Gap} {rest : List Char} (h : gap.Shape rest)
    (hstray : ∀ filler ∈ gap, filler.1 ≠ .stray) :
    ∃ blanks ending, gap.source = blanks ++ ending ∧ (∀ c ∈ blanks, isBlank c = true) ∧
      Ending ending rest := by
  induction h with
  | nil rest => exact ⟨[], [], rfl, by simp, .none rest⟩
  | @comment body rest hbody _ => exact ⟨[], ';' :: body, by simp [source], by simp, .comment hbody⟩
  | loneQuote => exact ⟨[], ['\''], rfl, by simp, .loneQuote⟩
  | @blank c gap rest hc _ ih =>
      obtain ⟨blanks, ending, hsource, hblanks, hending⟩ := ih (List.forall_mem_cons.mp hstray).2
      refine ⟨c :: blanks, ending, congrArg (c :: ·) hsource, ?_, hending⟩
      exact List.forall_mem_cons.mpr ⟨hc, hblanks⟩
  | stray => exact absurd rfl (hstray _ List.mem_cons_self)

theorem not_isBlank_of_isStray {c : Char} (h : isStray c = true) : isBlank c = false := by
  simp only [isStray, Bool.and_eq_true, Bool.not_eq_true'] at h
  exact h.1.1.1.1.1.1

/-- Between blanks, stray characters stand in the stretch only. -/
theorem bounds_of_isStray {before stretch blanks : List Char}
    (hbefore : ∀ c ∈ before, isBlank c = true) (hblanks : ∀ c ∈ blanks, isBlank c = true) {j : Nat}
    {c : Char} (hj : (before ++ (stretch ++ blanks))[j]? = some c) (hc : isStray c = true) :
    before.length ≤ j ∧ j < before.length + stretch.length := by
  have hplain := not_isBlank_of_isStray hc
  constructor
  · by_contra hlt
    rw [List.getElem?_append_left (by omega)] at hj
    rw [hbefore c (List.mem_of_getElem? hj)] at hplain
    cases hplain
  · by_contra hge
    rw [List.getElem?_append_right (by omega), List.getElem?_append_right (by omega)] at hj
    rw [hblanks c (List.mem_of_getElem? hj)] at hplain
    cases hplain

namespace Stretch

variable {stretch : List Char} (h : Stretch stretch) (before behind : List Char)
include h

/-- The first character of a stretch is a stray one. -/
theorem getElem?_first :
    ∃ c, (before ++ (stretch ++ behind))[before.length]? = some c ∧ isStray c = true := by
  refine ⟨stretch.head h.ne_nil, ?_, h.first _ (List.head?_eq_some_head h.ne_nil)⟩
  rw [List.getElem?_append_right (Nat.le_refl _), Nat.sub_self,
    List.getElem?_append_left (List.length_pos_iff.mpr h.ne_nil), ← List.head?_eq_getElem?,
    List.head?_eq_some_head]

/-- The last character of a stretch is a stray one. -/
theorem getElem?_last :
    ∃ c, (before ++ (stretch ++ behind))[before.length + (stretch.length - 1)]? = some c ∧
      isStray c = true := by
  have hlength := List.length_pos_iff.mpr h.ne_nil
  refine ⟨stretch.getLast h.ne_nil, ?_, h.last _ (List.getLast?_eq_some_getLast h.ne_nil)⟩
  rw [List.getElem?_append_right (Nat.le_add_right _ _), Nat.add_sub_cancel_left,
    List.getElem?_append_left (by omega), ← List.getLast?_eq_getElem?,
    List.getLast?_eq_some_getLast]

end Stretch

section Characters

variable {text : String} {read body ending rest : List Char}
  (htext : text.toList = read ++ (body ++ (ending ++ rest)))
  (hbody : ∀ c ∈ body, isBlank c = true ∨ isStray c = true)

include htext

theorem getElem?_body {j : Nat} (hj : j < body.length) :
    text.toList[read.length + j]? = body[j]? := by
  rw [htext, List.getElem?_append_right (Nat.le_add_right _ _), Nat.add_sub_cancel_left,
    List.getElem?_append_left hj]

theorem drop_body : text.toList.drop (read.length + body.length) = ending ++ rest := by
  rw [htext, ← List.append_assoc, List.drop_left' (List.length_append ..)]

include hbody

/-- A stray character is unexpected. -/
theorem unexpected_of_isStray {j : Nat} {c : Char} (hj : body[j]? = some c)
    (hc : isStray c = true) :
    Unexpected text ⟨.after read, .after (read ++ (body ++ ending))⟩ (read.length + j) := by
  have hlt : j < body.length := (List.getElem?_eq_some_iff.mp hj).1
  have hat : text.toList[read.length + j]? = some c := (getElem?_body htext hlt).trans hj
  refine ⟨?_, ?_, ?_, ?_⟩
  · simp only [Position.offset_after, List.length_append]
    omega
  · intro d hd
    rw [hat] at hd
    obtain rfl := Option.some.inj hd
    exact not_isBlank_of_isStray hc
  · -- a semicolon is neither a blank nor a stray character
    intro hcomment
    obtain ⟨k, hstart, hle, hsemicolon, -⟩ := hcomment
    rw [Position.offset_after] at hstart
    obtain ⟨m, rfl⟩ := Nat.exists_eq_add_of_le hstart
    rw [getElem?_body htext (by omega)] at hsemicolon
    rcases hbody _ (List.mem_of_getElem? hsemicolon) with hblank | hstray
    · exact absurd hblank (by decide)
    · exact absurd hstray (by decide)
  · intro hquote
    have hhead : (text.toList.drop (read.length + j)).head? = some c := by
      rw [List.head?_drop, hat]
    rw [hquote] at hhead
    obtain rfl := Option.some.inj hhead
    exact absurd hc (by decide)

/-- An unexpected character is a stray one. -/
theorem exists_isStray_of_unexpected (hending : Gap.Ending ending rest) {i : Nat}
    (h : Unexpected text ⟨.after read, .after (read ++ (body ++ ending))⟩ i) :
    ∃ j c, i = read.length + j ∧ body[j]? = some c ∧ isStray c = true := by
  obtain ⟨hstart, hstop⟩ := h.inside
  simp only [Position.offset_after, List.length_append] at hstart hstop
  obtain ⟨j, rfl⟩ := Nat.exists_eq_add_of_le hstart
  by_cases hj : j < body.length
  · have hat : body[j]? = some body[j] := List.getElem?_eq_getElem hj
    have hplain := h.not_blank body[j] ((getElem?_body htext hj).trans hat)
    refine ⟨j, body[j], rfl, hat, ?_⟩
    rcases hbody _ (List.getElem_mem hj) with hblank | hstray
    · rw [hplain] at hblank
      cases hblank
    · exact hstray
  · -- behind the blanks and stray characters there is a comment, or an apostrophe at the end
    have hdrop := drop_body htext
    cases hending with
    | none =>
        rw [List.length_nil] at hstop
        omega
    | @comment comment _ hcomment =>
        refine absurd ⟨read.length + body.length, ?_, by omega, ?_, ?_⟩ h.not_comment
        · rw [Position.offset_after]
          omega
        · rw [← List.head?_drop, hdrop]
          rfl
        · intro k hk hki hbreak
          obtain ⟨m, rfl⟩ := Nat.exists_eq_add_of_le hk
          rw [← List.getElem?_drop, hdrop,
            List.getElem?_append_left (by rw [List.length_cons] at hstop ⊢; omega)] at hbreak
          rcases List.mem_cons.mp (List.mem_of_getElem? hbreak) with hsemicolon | hmem
          · exact absurd hsemicolon (by decide)
          · exact hcomment hmem
    | loneQuote =>
        obtain rfl : j = body.length := by
          rw [List.length_singleton] at hstop
          omega
        exact absurd hdrop h.not_quote

end Characters

/-! ### One gap -/

theorem isUnexpected_flaw (flaw : Flaw) (span : Span) (source : List Char) :
    (flaw.fault span source).cause.isUnexpected = false := by
  cases flaw <;> rfl

namespace Gap

theorem filter_quoteFaults (gap : Gap) (p : Position) :
    (gap.quoteFaults p).filter (·.cause.isUnexpected) = [] := by
  unfold quoteFaults
  dsimp only
  split <;> rfl

variable {text : String} {read blanks ending rest : List Char}

/-- Nothing is unexpected in a gap of blanks. -/
theorem report_blanks (htext : text.toList = read ++ (blanks ++ (ending ++ rest)))
    (hblanks : ∀ c ∈ blanks, isBlank c = true) (hending : Ending ending rest) :
    GapReport text ⟨.after read, .after (read ++ (blanks ++ ending))⟩ [] := by
  refine .silent fun i hi => ?_
  obtain ⟨j, c, -, hc, hstray⟩ :=
    exists_isStray_of_unexpected htext (fun c hc => .inl (hblanks c hc)) hending hi
  have hblank := hblanks c (List.mem_of_getElem? hc)
  rw [not_isBlank_of_isStray hstray] at hblank
  cases hblank

/-- A stretch between blanks is reported as a whole. -/
theorem report_stretch {before stretch : List Char}
    (htext : text.toList = read ++ ((before ++ (stretch ++ blanks)) ++ (ending ++ rest)))
    (hbefore : ∀ c ∈ before, isBlank c = true) (hstretch : Stretch stretch)
    (hblanks : ∀ c ∈ blanks, isBlank c = true) (hending : Ending ending rest) :
    GapReport text ⟨.after read, .after (read ++ ((before ++ (stretch ++ blanks)) ++ ending))⟩
      [⟨⟨.after (read ++ before), .after (read ++ before ++ stretch)⟩, .unexpected stretch⟩] := by
  have hbody : ∀ c ∈ before ++ (stretch ++ blanks), isBlank c = true ∨ isStray c = true := by
    intro c hc
    rcases List.mem_append.mp hc with hc | hc
    · exact .inl (hbefore c hc)
    rcases List.mem_append.mp hc with hc | hc
    · exact hstretch.chars c hc
    · exact .inl (hblanks c hc)
  have hcut : text.toList = (read ++ before) ++ (stretch ++ (blanks ++ (ending ++ rest))) := by
    rw [htext]
    simp only [List.append_assoc]
  have hlength := List.length_pos_iff.mpr hstretch.ne_nil
  obtain ⟨first, hfirst, hfirstStray⟩ := hstretch.getElem?_first before blanks
  obtain ⟨last, hlast, hlastStray⟩ := hstretch.getElem?_last before blanks
  have hreport : GapReport text
      ⟨.after read, .after (read ++ ((before ++ (stretch ++ blanks)) ++ ending))⟩
      [⟨⟨.after (read ++ before), .after (read ++ before ++ stretch)⟩, .unexpected
        (Span.slice ⟨.after (read ++ before), .after (read ++ before ++ stretch)⟩ text).toList⟩] := by
    refine .once (unexpected_of_isStray htext hbody hfirst hfirstStray)
      (unexpected_of_isStray htext hbody hlast hlastStray) ?_ ?_ ?_
    · intro i hi
      obtain ⟨j, c, rfl, hj, hc⟩ := exists_isStray_of_unexpected htext hbody hending hi
      have hbounds := bounds_of_isStray hbefore hblanks hj hc
      omega
    · rw [hcut, List.take_left' (List.length_append ..)]
    · rw [hcut, ← List.append_assoc, List.take_left']
      simp only [List.length_append]
      omega
  rwa [toList_slice hcut] at hreport

/-- **One gap** is reported as its characters say. -/
theorem Shape.report {gap : Gap} {rest : List Char} (hshape : gap.Shape rest)
    (htext : text.toList = read ++ (gap.source ++ rest)) :
    GapReport text ⟨.after read, .after (read ++ gap.source)⟩
      ((gap.faults (.after read)).filter (·.cause.isUnexpected)) := by
  by_cases hstray : ∃ filler ∈ gap, filler.1 = .stray
  · obtain ⟨before, strays, after, hstrays⟩ := hshape.exists_strays hstray
    obtain ⟨blanks, ending, hafter, hblanks, hending⟩ :=
      hstrays.after_shape.exists_blanks hstrays.after_kind
    have hbefore : ∀ c ∈ before.source, isBlank c = true := by
      intro c hc
      obtain ⟨filler, hfiller, hmem⟩ := List.mem_flatMap.mp hc
      obtain ⟨b, rfl, hb⟩ := hstrays.before_blank filler hfiller
      obtain rfl := List.mem_singleton.mp hmem
      exact hb
    have hsource : gap.source = (before.source ++ (strays.source ++ blanks)) ++ ending := by
      rw [hstrays.eq, source_append, source_append, hafter]
      simp only [List.append_assoc]
    have hfaults : (gap.faults (.after read)).filter (·.cause.isUnexpected) =
        [⟨⟨.after (read ++ before.source), .after (read ++ before.source ++ strays.source)⟩,
          .unexpected strays.source⟩] := by
      rw [hstrays.faults_eq, List.filter_cons_of_pos rfl, filter_quoteFaults]
      simp only [Position.after, Position.advanceAll_append]
    rw [hfaults, hsource]
    rw [hsource] at htext
    exact report_stretch (by rw [htext]; simp only [List.append_assoc]) hbefore hstrays.stretch
      hblanks hending
  · have hnone : ∀ filler ∈ gap, filler.1 ≠ .stray := by
      simpa only [not_exists, not_and] using hstray
    obtain ⟨blanks, ending, hsource, hblanks, hending⟩ := hshape.exists_blanks hnone
    rw [faults_of_no_stray hnone, filter_quoteFaults, hsource]
    rw [hsource] at htext
    exact report_blanks (by rw [htext]; simp only [List.append_assoc]) hblanks hending

end Gap

/-! ### All gaps -/

namespace Lexer

theorem report_next {text : String} {lexer : Lexer} (hstands : lexer.StandsIn text) :
    GapReport text ⟨lexer.place, lexer.next.lexeme.span.start⟩
      (lexer.next.faults.filter (·.cause.isUnexpected)) := by
  obtain ⟨read, htext, hplace⟩ := hstands
  have hreads := lexer.reads_next
  generalize lexer.next = reading at hreads ⊢
  cases hreads with
  | @done gap hrest hshape =>
      have hreport := hshape.report (by rw [htext, hrest, List.append_nil])
      rw [hplace]
      simpa [Span.empty, Position.after, Position.advanceAll_append] using hreport
  | @token gap token flaw source rest span hrest hshape _ hspan =>
      have hreport := hshape.report (by rw [htext, hrest])
      have hflaw : (flaw.map (·.fault span source)).toList.filter (·.cause.isUnexpected) = [] := by
        cases flaw with
        | none => rfl
        | some flaw => simp [isUnexpected_flaw]
      dsimp only
      rw [List.filter_append, hflaw, List.append_nil, hplace, hspan]
      simpa [hplace, Position.after, Position.advanceAll_append] using hreport

/-- **All gaps** from the reader on are reported one after the other, and nothing else is. -/
theorem exists_reports {text : String} (lexer : Lexer) (hstands : lexer.StandsIn text) :
    ∃ reports, List.Forall₂ (GapReport text)
        (gapsFrom lexer.place (lexer.readings.map Reading.lexeme)) reports ∧
      (lexer.readings.flatMap Reading.faults).filter (·.cause.isUnexpected) = reports.flatten := by
  fun_induction readings lexer with
  | case1 lexer hdone =>
      exact ⟨[_], .cons (report_next hstands) .nil, by simp⟩
  | case2 lexer hmore ih =>
      obtain ⟨reports, hreports, hall⟩ := ih hstands.next
      refine ⟨_ :: reports, .cons (report_next hstands) ?_, ?_⟩
      · rw [place_after_next] at hreports
        exact hreports
      · rw [List.flatMap_cons, List.filter_append, hall, List.flatten_cons]

end Lexer

/-! ### Source order -/

/-- The faults of a source lie in it from its first place on, have characters, and stand in source
order without overlaps. -/
theorem Layout.faults_ordered {p : Position} {cs : List Char} {shares : List Share}
    {ls : List Lexeme} {fs : List LexFault} (h : Layout p cs shares ls fs) :
    (∀ fault ∈ fs, p.offset ≤ fault.span.start.offset ∧
      fault.span.start.offset < fault.span.stop.offset) ∧
    fs.Pairwise fun f g => f.span.stop.offset ≤ g.span.start.offset := by
  induction h with
  | done => exact ⟨by simp, .nil⟩
  | @tile p kind source rest shares l ls f fs htile _ ih =>
      obtain ⟨hbounds, hpairwise⟩ := ih
      have hlength := List.length_pos_iff.mpr htile.source_ne_nil
      simp only [Position.offset_advanceAll] at hbounds
      have hlater : ∀ fault ∈ fs, p.offset ≤ fault.span.start.offset ∧
          fault.span.start.offset < fault.span.stop.offset := by
        intro fault hfault
        have := hbounds fault hfault
        omega
      rcases htile.faults_cases with hnone | hone
      · rw [hnone]
        exact ⟨hlater, hpairwise⟩
      · obtain ⟨cause, hone⟩ := hone
        rw [hone, List.singleton_append]
        refine ⟨List.forall_mem_cons.mpr ⟨?_, hlater⟩, List.pairwise_cons.mpr ⟨?_, hpairwise⟩⟩
        · simp only [Position.offset_advanceAll]
          omega
        · intro fault hfault
          have := hbounds fault hfault
          simp only [Position.offset_advanceAll]
          omega

/-- **Unexpected characters are reported once for every gap, and faults come in order.** Each gap
that has unexpected characters is reported once, from the first of them to the last and with the
characters between; the others are not. Taken gap by gap, these are all such reports. And the faults
of a source, of whatever kind, have characters, do not overlap and stand in source order. -/
theorem gaps_report_once (text : String) :
    (∃ reports, List.Forall₂ (GapReport text) (gapsFrom .origin (lexemes text)) reports ∧
      (lexFaults text).filter (·.cause.isUnexpected) = reports.flatten) ∧
    (∀ fault ∈ lexFaults text, fault.span.start.offset < fault.span.stop.offset) ∧
    (lexFaults text).Pairwise fun f g => f.span.stop.offset ≤ g.span.start.offset := by
  obtain ⟨shares, hlayout⟩ := tiled_lexemes text
  obtain ⟨hbounds, hpairwise⟩ := hlayout.faults_ordered
  refine ⟨?_, fun fault hfault => (hbounds fault hfault).2, hpairwise⟩
  exact (Lexer.ofText text).exists_reports (Lexer.standsIn_ofText text)

/-- Two unexpected characters with a blank between them before a comment, another on the next line,
and an apostrophe at the end: the first two gaps give a report each, the third gives none, and the
apostrophe is reported last. -/
theorem gaps_report_once_lone_quote :
    let text := "~ é;~\n?A'"
    let stretch : LexFault := ⟨⟨⟨0, 0, 0⟩, ⟨3, 0, 3⟩⟩, .unexpected ['~', ' ', 'é']⟩
    let mark : LexFault := ⟨⟨⟨6, 1, 0⟩, ⟨7, 1, 1⟩⟩, .unexpected ['?']⟩
    let quote : LexFault := ⟨⟨⟨8, 1, 2⟩, ⟨9, 1, 3⟩⟩, .unclosedChar⟩
    lexFaults text = [stretch, mark, quote] ∧
      (quote ∈ lexFaults text ∧ quote.span.start.offset < quote.span.stop.offset) ∧
      ∃ a b c, GapReport text ⟨⟨0, 0, 0⟩, ⟨5, 0, 5⟩⟩ a ∧ GapReport text ⟨⟨6, 1, 0⟩, ⟨7, 1, 1⟩⟩ b ∧
        GapReport text ⟨⟨8, 1, 2⟩, ⟨9, 1, 3⟩⟩ c ∧ a ++ (b ++ c) = [stretch, mark] := by
  intro text stretch mark quote
  have hfaults : lexFaults text = [stretch, mark, quote] := by decide +kernel
  have hgaps : gapsFrom .origin (lexemes text) =
      [⟨⟨0, 0, 0⟩, ⟨5, 0, 5⟩⟩, ⟨⟨6, 1, 0⟩, ⟨7, 1, 1⟩⟩, ⟨⟨8, 1, 2⟩, ⟨9, 1, 3⟩⟩] := by decide +kernel
  obtain ⟨⟨reports, hreports, hall⟩, hbounds, -⟩ := gaps_report_once text
  have hquote : quote ∈ lexFaults text := by simp [hfaults]
  refine ⟨hfaults, ⟨hquote, hbounds quote hquote⟩, ?_⟩
  rw [hgaps] at hreports
  rw [hfaults] at hall
  cases hreports with
  | @cons _ a _ _ ha hreports =>
    cases hreports with
    | @cons _ b _ _ hb hreports =>
      cases hreports with
      | @cons _ c _ _ hc hreports =>
        cases hreports
        refine ⟨a, b, c, ha, hb, hc, ?_⟩
        simpa [LexCause.isUnexpected, stretch, mark, quote] using hall.symm

end RecipeDesk.Assembler
