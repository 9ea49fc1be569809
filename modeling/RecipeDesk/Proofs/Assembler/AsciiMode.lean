import Mathlib.Data.List.Basic
import RecipeDesk.Proofs.Assembler.Accounting
import RecipeDesk.Proofs.Assembler.OneToken

/-!
# The mode follows the last name

Whether ASCII mode is on is told from the tokens read so far: it is on exactly if there is a name
among them and the last one is `.ASCII` (`ascii_mode_follows_names`). A local label such as `10$`
is an identifier too, but it is passed over: behind `.ASCII 10$` the mode is still on
(`local_label_keeps_mode`).

The mode decides what an apostrophe is. An apostrophe is *open* if it stands neither inside a token
nor in a comment (`OpenQuote`); it then begins a token, or it is the last character of the source.
It opens a text exactly if the last name before it is `.ASCII`.
-/

namespace RecipeDesk.Assembler

/-! ### Names -/

/-- The identifier that a token is. -/
def Token.identifier? : Token → Option String
  | .ident identifier => some identifier
  | _ => none

/-- The identifiers among some tokens. -/
def identifiers (ls : List Lexeme) : List String := ls.filterMap (·.token.identifier?)

/-- The names among some tokens: the identifiers that are no local labels. -/
def names (ls : List Lexeme) : List String := (identifiers ls).filter (!isLocalLabel ·)

/-- The mode behind some tokens. -/
def modeAfter (ascii : Bool) (ls : List Lexeme) : Bool :=
  ls.foldl (fun ascii l => l.token.settle ascii) ascii

theorem modeAfter_cons (ascii : Bool) (l : Lexeme) (ls : List Lexeme) :
    modeAfter ascii (l :: ls) = modeAfter (l.token.settle ascii) ls := rfl

theorem names_cons (l : Lexeme) (ls : List Lexeme) :
    names (l :: ls) = names [l] ++ names ls := by
  rw [names, names, names, ← List.filter_append, identifiers, identifiers, identifiers,
    ← List.filterMap_append, List.singleton_append]

/-- The last name settles the mode. -/
theorem modeAfter_eq (ascii : Bool) (ls : List Lexeme) :
    modeAfter ascii ls = (names ls).getLast?.elim ascii (· == asciiName) := by
  induction ls generalizing ascii with
  | nil => rfl
  | cons l ls ih =>
      have hfirst : l.token.settle ascii = (names [l]).getLast?.elim ascii (· == asciiName) := by
        cases htoken : l.token with
        | ident identifier =>
            by_cases hlabel : isLocalLabel identifier = true
            · simp [names, identifiers, Token.identifier?, Token.settle, htoken, hlabel]
            · simp [names, identifiers, Token.identifier?, Token.settle, htoken, hlabel]
        | _ => simp [names, identifiers, Token.identifier?, Token.settle, htoken]
      rw [modeAfter_cons, ih, hfirst, names_cons l ls, List.getLast?_append]
      cases (names ls).getLast? <;> rfl

theorem modeAfter_iff (ls : List Lexeme) :
    modeAfter false ls = true ↔ (names ls).getLast? = some ".ASCII" := by
  rw [modeAfter_eq]
  cases (names ls).getLast? with
  | none => simp
  | some name => simp [asciiName]

/-! ### Call by call -/

namespace Lexer

/-- One call changes the mode as its token says. -/
theorem ascii_after_next (lexer : Lexer) :
    lexer.next.after.ascii = lexer.next.lexeme.token.settle lexer.ascii := by
  have hreads := lexer.reads_next
  generalize lexer.next = reading at hreads ⊢
  cases hreads <;> rfl

/-- **Every number of calls** leaves the mode that the tokens read so far settle. -/
theorem ascii_behind (lexer : Lexer) (k : Nat) :
    (lexer.behind k).ascii =
      modeAfter lexer.ascii ((lexer.readings.map Reading.lexeme).take k) := by
  fun_induction readings lexer generalizing k with
  | case1 lexer hdone =>
      cases k with
      | zero => rfl
      | succ k =>
          obtain ⟨hrest, -⟩ := next_of_endOfFile hdone
          rw [behind, behind_of_rest_nil hrest, ascii_after_next]
          simp [modeAfter]
  | case2 lexer hmore ih =>
      cases k with
      | zero => rfl
      | succ k =>
          rw [behind, ih, ascii_after_next, List.map_cons, List.take_succ_cons, modeAfter_cons]

end Lexer

/-! ### Apostrophes -/

namespace Gap

/-- A lone apostrophe is the last character of its gap, and of the source. -/
theorem Shape.source_of_loneQuote {gap : Gap} {rest : List Char} (h : gap.Shape rest)
    (hlone : ∃ filler ∈ gap, filler.1 = .loneQuote) :
    gap.source = gap.beforeQuote.source ++ ['\''] ∧ rest = [] := by
  induction h with
  | nil => simp at hlone
  | comment => simp at hlone
  | loneQuote => exact ⟨rfl, rfl⟩
  | @blank c gap rest hc _ ih =>
      obtain ⟨hsource, hrest⟩ := ih (by simpa using hlone)
      exact ⟨congrArg (c :: ·) hsource, hrest⟩
  | @stray c gap rest hc _ ih =>
      obtain ⟨hsource, hrest⟩ := ih (by simpa using hlone)
      exact ⟨congrArg (c :: ·) hsource, hrest⟩

/-- The only apostrophe that a gap reports is a lone one. -/
theorem loneQuote_of_mem_faults {gap : Gap} {p : Position} {fault : LexFault}
    (h : fault ∈ gap.faults p) (hcause : fault.cause = .unclosedChar) :
    (∃ filler ∈ gap, filler.1 = .loneQuote) ∧
      fault.span.stop = (p.advanceAll gap.beforeQuote.source).right 1 := by
  rw [faults_eq] at h
  rcases List.mem_append.mp h with hstrays | hquote
  · split at hstrays
    · simp at hstrays
    · rw [List.mem_singleton.mp hstrays] at hcause
      cases hcause
  · unfold quoteFaults at hquote
    split at hquote
    · next hlone =>
        rw [List.mem_singleton.mp hquote]
        exact ⟨by simpa using hlone, rfl⟩
    · simp at hquote

end Gap

/-- The tokens that begin before the character at `i`. -/
def tokensBefore (i : Nat) (ls : List Lexeme) : List Lexeme :=
  ls.filter (·.span.start.offset < i)

namespace Lexer

/-- What is still to be read lies behind the reader. -/
theorem le_start_readings (lexer : Lexer) (share : Share) :
    ∀ span ∈ share.spans (lexer.readings.map Reading.lexeme)
      (lexer.readings.flatMap Reading.faults), lexer.place.offset ≤ span.start.offset := by
  obtain ⟨shares, hlayout⟩ := lexer.tiled_readings
  exact hlayout.le_start share

/-- The next token begins at or behind the reader and has at least one character. -/
theorem start_next (lexer : Lexer) :
    lexer.place.offset ≤ lexer.next.lexeme.span.start.offset ∧
      (lexer.next.lexeme.token ≠ .endOfFile →
        lexer.next.lexeme.span.start.offset < lexer.next.lexeme.span.stop.offset) := by
  have hreads := lexer.reads_next
  generalize lexer.next = reading at hreads ⊢
  cases hreads with
  | done => simp [Span.empty, Position.offset_advanceAll]
  | token _ _ hspells hspan =>
      have hlength := List.length_pos_iff.mpr hspells.ne_nil
      simp [hspan, Position.offset_advanceAll, hlength]

/-- The mode in which the reader comes to the character at `i`. -/
def modeAt (lexer : Lexer) (i : Nat) : Bool :=
  modeAfter lexer.ascii (tokensBefore i (lexer.readings.map Reading.lexeme))

/-- Up to the next token the mode stays. -/
theorem modeAt_of_le {lexer : Lexer} {i : Nat} (h : i ≤ lexer.next.lexeme.span.start.offset) :
    lexer.modeAt i = lexer.ascii := by
  have hnone : tokensBefore i (lexer.readings.map Reading.lexeme) = [] := by
    rw [tokensBefore, List.filter_eq_nil_iff, readings]
    split
    · simpa using h
    · next hmore =>
        have hlt := lexer.start_next.2 hmore
        intro l hl
        rcases List.mem_cons.mp hl with hfirst | hlater
        · simpa [hfirst] using h
        · have hle := lexer.next.after.le_start_readings .token _ (List.mem_map_of_mem hlater)
          rw [place_after_next] at hle
          simp only [decide_eq_true_eq]
          omega
  rw [modeAt, hnone]
  rfl

/-- Behind the next token the mode is that of the reader behind it. -/
theorem modeAt_of_stop_le {lexer : Lexer} {i : Nat}
    (hmore : lexer.next.lexeme.token ≠ .endOfFile)
    (h : lexer.next.lexeme.span.stop.offset ≤ i) :
    lexer.modeAt i = lexer.next.after.modeAt i := by
  have hlt := lexer.start_next.2 hmore
  have hbefore : lexer.next.lexeme.span.start.offset < i := by omega
  rw [modeAt, readings, if_neg hmore, List.map_cons, tokensBefore,
    List.filter_cons_of_pos (by simpa using hbefore), modeAfter_cons, ← ascii_after_next]
  rfl

/-- A token that begins with an apostrophe is a text exactly in ASCII mode. -/
theorem opens_next {text : String} {lexer : Lexer} (hstands : lexer.StandsIn text)
    (hquote : text.toList[lexer.next.lexeme.span.start.offset]? = some '\'') :
    (∃ content, lexer.next.lexeme.token = .text content) ↔ lexer.ascii = true := by
  obtain ⟨read, htext, hplace⟩ := hstands
  have hreads := lexer.reads_next
  generalize lexer.next = reading at hreads hquote ⊢
  cases hreads with
  | done hrest =>
      simp [htext, hrest, hplace, Span.empty, Position.offset_advanceAll,
        Position.offset_after] at hquote
  | @token gap token flaw source rest span hrest _ hspells hspan hopens =>
      have hcut : text.toList = (read ++ gap.source) ++ (source ++ rest) := by
        rw [htext, hrest, List.append_assoc]
      have hoffset : span.start.offset = (read ++ gap.source).length := by
        simp [hspan, hplace, Position.offset_advanceAll, Position.offset_after]
      refine hopens ?_
      dsimp only at hquote
      rwa [hcut, hoffset, List.getElem?_append_right (Nat.le_refl _), Nat.sub_self,
        ← List.head?_eq_getElem?, List.head?_append_of_ne_nil _ hspells.ne_nil] at hquote

theorem opens_iff {text : String} (lexer : Lexer) (hstands : lexer.StandsIn text) {l : Lexeme}
    (hl : l ∈ lexer.readings.map Reading.lexeme)
    (hquote : text.toList[l.span.start.offset]? = some '\'') :
    (∃ content, l.token = .text content) ↔ lexer.modeAt l.span.start.offset = true := by
  fun_induction readings lexer with
  | case1 lexer hdone =>
      obtain rfl : l = lexer.next.lexeme := by simpa using hl
      rw [modeAt_of_le (Nat.le_refl _)]
      exact opens_next hstands hquote
  | case2 lexer hmore ih =>
      rcases List.mem_cons.mp hl with rfl | hlater
      · rw [modeAt_of_le (Nat.le_refl _)]
        exact opens_next hstands hquote
      · have hle := lexer.next.after.le_start_readings .token _ (List.mem_map_of_mem hlater)
        rw [place_after_next] at hle
        rw [modeAt_of_stop_le hmore hle]
        exact ih hstands.next hlater

/-- An apostrophe is left alone outside ASCII mode, and before the next token. -/
theorem unclosedChar_next {lexer : Lexer} {fault : LexFault} (hfault : fault ∈ lexer.next.faults)
    (hcause : fault.cause = .unclosedChar) :
    lexer.ascii = false ∧ fault.span.stop.offset ≤ lexer.next.lexeme.span.start.offset := by
  have hreads := lexer.reads_next
  generalize lexer.next = reading at hreads hfault ⊢
  cases hreads with
  | @done gap _ hshape hlone =>
      obtain ⟨hquote, hstop⟩ := Gap.loneQuote_of_mem_faults hfault hcause
      obtain ⟨hsource, -⟩ := hshape.source_of_loneQuote hquote
      refine ⟨hlone hquote, ?_⟩
      rw [hstop, hsource]
      simp [Span.empty, Position.offset_advanceAll, Position.right, Nat.add_assoc]
  | @token gap token flaw source rest span _ hshape hspells =>
      rcases List.mem_append.mp hfault with hgap | hflaw
      · -- behind a lone apostrophe there is no token
        obtain ⟨hquote, -⟩ := Gap.loneQuote_of_mem_faults hgap hcause
        obtain ⟨-, hnil⟩ := hshape.source_of_loneQuote hquote
        exact absurd (List.append_eq_nil_iff.mp hnil).1 hspells.ne_nil
      · obtain ⟨flaw, -, rfl⟩ := Option.map_eq_some_iff.mp (Option.mem_toList.mp hflaw)
        cases flaw <;> cases hcause

theorem modeAt_of_unclosedChar (lexer : Lexer) {fault : LexFault}
    (hfault : fault ∈ lexer.readings.flatMap Reading.faults)
    (hcause : fault.cause = .unclosedChar) {i : Nat} (hstart : fault.span.start.offset ≤ i)
    (hstop : i < fault.span.stop.offset) : lexer.modeAt i = false := by
  fun_induction readings lexer with
  | case1 lexer hdone =>
      obtain ⟨hascii, hle⟩ := unclosedChar_next (by simpa using hfault) hcause
      rw [modeAt_of_le (by omega), hascii]
  | case2 lexer hmore ih =>
      rcases List.mem_append.mp hfault with hfirst | hlater
      · obtain ⟨hascii, hle⟩ := unclosedChar_next hfirst hcause
        rw [modeAt_of_le (by omega), hascii]
      · have hmem : fault ∈ (lexer.next.after.readings.flatMap Reading.faults).filter
            (·.cause == .unclosedChar) := List.mem_filter.mpr ⟨hlater, by simp [hcause]⟩
        have hle := lexer.next.after.le_start_readings .loneQuote _ (List.mem_map_of_mem hmem)
        rw [place_after_next] at hle
        rw [modeAt_of_stop_le hmore (by omega)]
        exact ih hlater

end Lexer

/-- An apostrophe of a text that stands neither inside a token nor in a comment. -/
structure OpenQuote (text : String) (i : Nat) : Prop where
  quote : text.toList[i]? = some '\''
  outside : ∀ l ∈ lexemes text, ¬ (l.span.start.offset < i ∧ i < l.span.stop.offset)
  code : ¬ Share.InComment text i

/-- A character that has a reported share stands in a span of that share. -/
theorem Share.exists_span {text : String} {shares : List Share}
    (h : Layout .origin text.toList shares (lexemes text) (lexFaults text)) {i : Nat}
    {share : Share} (hshare : shares[i]? = some share) (hreported : share.isReported = true) :
    ∃ span ∈ share.spans (lexemes text) (lexFaults text),
      span.start.offset ≤ i ∧ i < span.stop.offset := by
  have hi : i < text.toList.length :=
    h.length_shares ▸ (List.getElem?_eq_some_iff.mp hshare).1
  have hcount := count_eq h hi hreported
  rw [if_pos hshare, count] at hcount
  obtain ⟨span, hspan, hcontains⟩ := List.countP_pos_iff.mp (hcount ▸ Nat.one_pos)
  refine ⟨span, hspan, ?_⟩
  simpa [Span.contains, Position.offset_after, List.length_take, Nat.min_eq_left hi.le]
    using hcontains

/-- An open apostrophe begins a token, or it is reported as left alone. -/
theorem OpenQuote.token_or_alone {text : String} {i : Nat} (h : OpenQuote text i) :
    (∃ l ∈ lexemes text, l.span.start.offset = i) ∨
      ∃ fault ∈ lexFaults text, fault.cause = .unclosedChar ∧
        fault.span.start.offset ≤ i ∧ i < fault.span.stop.offset := by
  obtain ⟨shares, hlayout⟩ := tiled_lexemes text
  have hi : i < text.toList.length := (List.getElem?_eq_some_iff.mp h.quote).1
  obtain ⟨kind, hkind⟩ : ∃ kind, shares[i]? = some kind :=
    ⟨_, List.getElem?_eq_getElem (hlayout.length_shares ▸ hi)⟩
  cases kind with
  | token =>
      obtain ⟨span, hspan, hstart, hstop⟩ := Share.exists_span hlayout hkind rfl
      obtain ⟨l, hl, rfl⟩ := List.mem_map.mp hspan
      have houtside := h.outside l hl
      exact .inl ⟨l, hl, by omega⟩
  | loneQuote =>
      obtain ⟨span, hspan, hinside⟩ := Share.exists_span hlayout hkind rfl
      obtain ⟨fault, hfault, rfl⟩ := List.mem_map.mp hspan
      obtain ⟨hmem, hcause⟩ := List.mem_filter.mp hfault
      exact .inr ⟨fault, hmem, by simpa using hcause, hinside⟩
  | comment => exact absurd ((Share.inComment_iff hlayout hi).mpr hkind) h.code
  | blank =>
      obtain ⟨c, hc, hblank⟩ := hlayout.isBlank_of_blank hkind
      rw [h.quote] at hc
      obtain rfl := Option.some.inj hc
      exact absurd hblank (by decide)
  | unexpected =>
      -- no apostrophe is unexpected
      obtain ⟨before, source, rest, l, f, htext, htile, hle, hlt, -⟩ := hlayout.exists_tile hkind
      have hquote := h.quote
      rw [htext, List.getElem?_append_right hle, List.getElem?_append_left (by omega)] at hquote
      cases htile with
      | unexpected hstretch =>
          rcases hstretch.chars _ (List.mem_of_getElem? hquote) with hblank | hstray
          · exact absurd hblank (by decide)
          · exact absurd hstray (by decide)

/-- **The mode follows the last name.** Behind any number of tokens ASCII mode is on exactly if there
is a name among them and the last one is `.ASCII`. So an apostrophe that stands neither inside a
token nor in a comment opens a text exactly if the last name before it is `.ASCII`. -/
theorem ascii_mode_follows_names (text : String) :
    (∀ k, ((Lexer.ofText text).behind k).ascii = true ↔
      (names ((lexemes text).take k)).getLast? = some ".ASCII") ∧
    ∀ i, OpenQuote text i →
      ((∃ l ∈ lexemes text, l.span.start.offset = i ∧ ∃ content, l.token = .text content) ↔
        (names (tokensBefore i (lexemes text))).getLast? = some ".ASCII") := by
  constructor
  · intro k
    rw [Lexer.ascii_behind]
    exact modeAfter_iff _
  · intro i hi
    have hmode : (Lexer.ofText text).modeAt i = true ↔
        (names (tokensBefore i (lexemes text))).getLast? = some ".ASCII" := modeAfter_iff _
    have hopens : ∀ l ∈ lexemes text, l.span.start.offset = i →
        ((∃ content, l.token = .text content) ↔ (Lexer.ofText text).modeAt i = true) := by
      intro l hl hstart
      have hquote : text.toList[l.span.start.offset]? = some '\'' := hstart ▸ hi.quote
      exact hstart ▸ (Lexer.ofText text).opens_iff (Lexer.standsIn_ofText text) hl hquote
    rw [← hmode]
    constructor
    · intro htext
      obtain ⟨l, hl, hstart, hcontent⟩ := htext
      exact (hopens l hl hstart).mp hcontent
    · intro hascii
      rcases hi.token_or_alone with htoken | halone
      · obtain ⟨l, hl, hstart⟩ := htoken
        exact ⟨l, hl, hstart, (hopens l hl hstart).mpr hascii⟩
      · obtain ⟨fault, hfault, hcause, hstart, hstop⟩ := halone
        have hoff := (Lexer.ofText text).modeAt_of_unclosedChar hfault hcause hstart hstop
        rw [hoff] at hascii
        cases hascii

/-- An apostrophe in a comment behind `.ASCII`, and one behind a local label on the next line: the
second opens a text. -/
theorem ascii_mode_follows_names_next_line :
    let text := ".ASCII ;'\n10$ 'x'"
    OpenQuote text 14 ∧ names (tokensBefore 14 (lexemes text)) = [".ASCII"] ∧
      ∃ l ∈ lexemes text, l.span.start.offset = 14 ∧ ∃ content, l.token = .text content := by
  intro text
  have hlexemes : lexemes text = [⟨.ident ".ASCII", ⟨⟨0, 0, 0⟩, ⟨6, 0, 6⟩⟩⟩,
      ⟨.endOfLine, ⟨⟨9, 0, 9⟩, ⟨10, 1, 0⟩⟩⟩, ⟨.ident "10$", ⟨⟨10, 1, 0⟩, ⟨13, 1, 3⟩⟩⟩,
      ⟨.text "x", ⟨⟨14, 1, 4⟩, ⟨17, 1, 7⟩⟩⟩, ⟨.endOfFile, .empty ⟨17, 1, 7⟩⟩] := by decide +kernel
  have hcode : ¬ Share.InComment text 14 := by
    intro hcomment
    obtain ⟨start, hle, hsemicolon, -, hline⟩ := hcomment
    have hstart : start ≤ 9 := by
      by_contra hlt
      have hlater : ∀ k ≤ 14, 9 < k → text.toList[k]? ≠ some ';' := by decide
      exact hlater start hle (Nat.not_le.mp hlt) hsemicolon
    exact hline 9 hstart (by decide) (by decide)
  have hopen : OpenQuote text 14 := ⟨by decide, by rw [hlexemes]; decide, hcode⟩
  have hnames : names (tokensBefore 14 (lexemes text)) = [".ASCII"] := by
    rw [hlexemes]
    decide
  refine ⟨hopen, hnames, ?_⟩
  exact ((ascii_mode_follows_names text).2 14 hopen).mpr (by rw [hnames]; rfl)

/-- A local label leaves the mode on, although it is the last identifier: the apostrophe behind it
opens a text that is never closed. -/
theorem local_label_keeps_mode :
    let text := ".ASCII 10$ 'x"
    ¬ (((Lexer.ofText text).behind 2).ascii = true ↔
        (identifiers ((lexemes text).take 2)).getLast? = some ".ASCII") ∧
      OpenQuote text 11 ∧
      ¬ ((∃ l ∈ lexemes text, l.span.start.offset = 11 ∧ ∃ content, l.token = .text content) ↔
        (identifiers (tokensBefore 11 (lexemes text))).getLast? = some ".ASCII") := by
  intro text
  have hlexemes : lexemes text = [⟨.ident ".ASCII", ⟨⟨0, 0, 0⟩, ⟨6, 0, 6⟩⟩⟩,
      ⟨.ident "10$", ⟨⟨7, 0, 7⟩, ⟨10, 0, 10⟩⟩⟩, ⟨.text "x", ⟨⟨11, 0, 11⟩, ⟨13, 0, 13⟩⟩⟩,
      ⟨.endOfFile, .empty ⟨13, 0, 13⟩⟩] := by decide +kernel
  have hmode : ((Lexer.ofText text).behind 2).ascii = true := by decide +kernel
  have hcode : ¬ Share.InComment text 11 := by
    intro hcomment
    obtain ⟨start, -, hsemicolon, -⟩ := hcomment
    exact absurd (List.mem_of_getElem? hsemicolon) (by decide)
  have hlast : (identifiers ((lexemes text).take 2)).getLast? = some "10$" := by
    rw [hlexemes]
    decide
  have hbefore : (identifiers (tokensBefore 11 (lexemes text))).getLast? = some "10$" := by
    rw [hlexemes]
    decide
  refine ⟨?_, ⟨by decide, by rw [hlexemes]; decide, hcode⟩, ?_⟩
  · rw [hlast, hmode]
    decide
  · rw [hbefore, hlexemes]
    intro hiff
    have hopens := hiff.mp ⟨⟨.text "x", ⟨⟨11, 0, 11⟩, ⟨13, 0, 13⟩⟩⟩, by simp, rfl, "x", rfl⟩
    exact absurd hopens (by decide)

end RecipeDesk.Assembler
