import RecipeDesk.Proofs.Assembler.Accounting
import RecipeDesk.Proofs.Assembler.Expected
import RecipeDesk.Proofs.Assembler.Relocation
import RecipeDesk.Proofs.Text.LineTable

/-!
# Where the nodes of a listing are written

Every node of a tree reaches from the first to the last token of some part of its line
(`Covers`). Tokens are spans of the text and follow each other (`Track`), so every node is a span of
the text as well, and so is every fault and every syntax error.

`Expr.spans`, `Operand.spans` and `Statement.spans` list the spans of all nodes of a tree, and the
derivation of the tree tells, rule by rule, which part of the line each of them covers.
-/

namespace RecipeDesk.Assembler

/-! ### All nodes of a tree -/

/-- The spans of an expression and of everything in it. -/
def Expr.spans : Expr → List Span
  | symbol span _ | integer span _ | text span _ => [span]
  | binary op left right => (binary op left right).span :: (left.spans ++ right.spans)
  | negate sign operand => (negate sign operand).span :: operand.spans

/-- The spans of an operand and of everything in it. -/
def Operand.spans : Operand → List Span
  | absolute span value | immediate span value => span :: value.spans
  | postIncrement span register | preDecrement span register => [span, register.span]
  | indirect span register displacement =>
    span :: register.span :: (displacement.map Expr.spans).getD []
  | doubleIndirect span operand => span :: operand.spans

/-- The spans of a statement and of everything in it. -/
def Statement.spans : Statement → List Span
  | label span name => [span, name.span]
  | assignment span name value => span :: name.span :: value.spans
  | directive span _ keyword operands => span :: keyword :: operands.flatMap Operand.spans
  | instruction span mnemonic operands =>
    span :: ((mnemonic.map Name.span).toList ++ operands.flatMap Operand.spans)

/-! ### Parts of a line -/

/-- A span from the beginning of the first token to the end of the last. -/
def Reaches (ls : List Lexeme) (span : Span) : Prop :=
  ls.head?.map (·.span.start) = some span.start ∧ ls.getLast?.map (·.span.stop) = some span.stop

theorem reaches_singleton (l : Lexeme) : Reaches [l] l.span := ⟨rfl, rfl⟩

theorem Reaches.append {ls rs : List Lexeme} {s t : Span} (hs : Reaches ls s)
    (ht : Reaches rs t) : Reaches (ls ++ rs) ⟨s.start, t.stop⟩ := by
  obtain ⟨first, hfirst, hstart⟩ := Option.map_eq_some_iff.mp hs.1
  obtain ⟨last, hlast, hstop⟩ := Option.map_eq_some_iff.mp ht.2
  refine ⟨?_, ?_⟩
  · rw [List.head?_append, hfirst]
    exact congrArg some hstart
  · rw [List.getLast?_append, hlast]
    exact congrArg some hstop

/-- A span that reaches over some tokens of a line, from the first of them to the last. -/
def Covers (ls : List Lexeme) (span : Span) : Prop :=
  ∃ part, part.Sublist ls ∧ Reaches part span

theorem Reaches.covers {ls : List Lexeme} {span : Span} (h : Reaches ls span) : Covers ls span :=
  ⟨ls, List.Sublist.refl ls, h⟩

theorem Covers.mono {ls rs : List Lexeme} {span : Span} (h : Covers ls span)
    (hsub : ls.Sublist rs) : Covers rs span := by
  obtain ⟨part, hpart, hreaches⟩ := h
  exact ⟨part, hpart.trans hsub, hreaches⟩

theorem covers_of_mem {ls : List Lexeme} {l : Lexeme} (h : l ∈ ls) : Covers ls l.span :=
  ⟨[l], List.singleton_sublist.mpr h, reaches_singleton l⟩

/-- A span that reaches over all of some tokens, with the spans of nodes among them. -/
structure Spans (ls : List Lexeme) (whole : Span) (nodes : List Span) : Prop where
  reaches : Reaches ls whole
  covers : ∀ span ∈ nodes, Covers ls span

namespace Spans

theorem token (l : Lexeme) : Spans [l] l.span [] := ⟨reaches_singleton l, by simp⟩

variable {ls rs : List Lexeme} {s t : Span} {nodes others : List Span}

/-- The whole is a node itself. -/
theorem self (h : Spans ls s nodes) : Spans ls s (s :: nodes) :=
  ⟨h.reaches, List.forall_mem_cons.mpr ⟨h.reaches.covers, h.covers⟩⟩

theorem append (hs : Spans ls s nodes) (ht : Spans rs t others) :
    Spans (ls ++ rs) ⟨s.start, t.stop⟩ (nodes ++ others) := by
  refine ⟨hs.reaches.append ht.reaches, List.forall_mem_append.mpr ⟨?_, ?_⟩⟩
  · exact fun span hspan => (hs.covers span hspan).mono (List.sublist_append_left _ _)
  · exact fun span hspan => (ht.covers span hspan).mono (List.sublist_append_right _ _)

theorem cons (l : Lexeme) (h : Spans ls s nodes) :
    Spans (l :: ls) ⟨l.span.start, s.stop⟩ nodes :=
  (token l).append h

theorem subset (h : Spans ls s nodes) (hsub : others ⊆ nodes) : Spans ls s others :=
  ⟨h.reaches, fun span hspan => h.covers span (hsub hspan)⟩

end Spans

/-! ### Along the grammar -/

namespace Expr

theorem DerivesFactor.spans {ls : List Lexeme} {value : Expr} (h : DerivesFactor ls value) :
    Spans ls value.span value.spans := by
  induction h with
  | name span name => exact (Spans.token ⟨.ident name, span⟩).self
  | integer span value raw => exact (Spans.token ⟨.integer value raw, span⟩).self
  | character span c => exact (Spans.token ⟨.char c, span⟩).self
  | text span content => exact (Spans.token ⟨.text content, span⟩).self
  | negate sign _ ih => exact (ih.cons ⟨.symbol .minus, sign⟩).self

theorem DerivesChain.spans {op? : Token → Option BinaryOp} {Item : List Lexeme → Expr → Prop}
    (hitem : ∀ {ls value}, Item ls value → Spans ls value.span value.spans) {ls : List Lexeme}
    {value : Expr} (h : DerivesChain op? Item ls value) : Spans ls value.span value.spans := by
  induction h with
  | item h => exact hitem h
  | @operate ls rs left right sign op _ _ hright ih =>
      exact (ih.append ((hitem hright).cons sign)).self

theorem Derives.spans {ls : List Lexeme} {value : Expr} (h : value.Derives ls) :
    Spans ls value.span value.spans :=
  DerivesChain.spans (DerivesChain.spans DerivesFactor.spans) h

end Expr

theorem Name.DerivesRegister.spans {ls : List Lexeme} {register : Name} {span : Span}
    (h : register.DerivesRegister ls span) : Spans ls span [register.span] := by
  cases h with
  | mk opening closing =>
      refine ⟨⟨rfl, rfl⟩, fun span hspan => ?_⟩
      obtain rfl := List.mem_singleton.mp hspan
      exact covers_of_mem (List.mem_cons_of_mem _ List.mem_cons_self)

namespace Operand

theorem Derives.spans {ls : List Lexeme} {operand : Operand} (h : Derives ls operand) :
    Spans ls operand.span operand.spans := by
  induction h with
  | immediate sharp h => exact (h.spans.cons ⟨.symbol .sharp, sharp⟩).self
  | deferred h => exact h.spans.self
  | postIncrement plus h => exact (h.spans.append (.token ⟨.symbol .plus, plus⟩)).self
  | preDecrement minus h => exact (h.spans.cons ⟨.symbol .minus, minus⟩).self
  | doubleIndirect atSign _ ih => exact (ih.cons ⟨.symbol .atSign, atSign⟩).self
  | absolute h => exact h.spans.self
  | indexed h hregister =>
      -- the register is written behind the displacement and listed before it
      refine (h.spans.append hregister.spans).self.subset (List.cons_subset_cons _ ?_)
      exact List.cons_subset.mpr ⟨by simp, List.subset_append_left _ _⟩

/-- Operands reach to the end of the last of them. -/
theorem DerivesList.spans {ls : List Lexeme} {operands : List Operand}
    (h : DerivesList ls operands) :
    ∃ whole, Spans ls whole (operands.flatMap Operand.spans) ∧
      operands.getLast?.map (·.span.stop) = some whole.stop := by
  induction h with
  | @last ls operand h => exact ⟨operand.span, by simpa using h.spans, rfl⟩
  | @more ls rs operand operands comma h _ ih =>
      obtain ⟨whole, hspans, hlast⟩ := ih
      refine ⟨_, h.spans.append (hspans.cons ⟨.symbol .comma, comma⟩), ?_⟩
      rw [← hlast]
      cases operands with
      | nil => cases hlast
      | cons next operands => rw [List.getLast?_cons_cons]

end Operand

namespace Statement

theorem spans_mnemonic (name : Name) {ls : List Lexeme} {operands : List Operand}
    (h : Operand.DerivesArguments ls operands) :
    Spans (⟨.ident name.text, name.span⟩ :: ls) (mnemonicSpan name operands)
      (mnemonicSpan name operands :: name.span :: operands.flatMap Operand.spans) := by
  have hname := (Spans.token ⟨.ident name.text, name.span⟩).self
  cases h with
  | none => exact hname.self
  | some h =>
      obtain ⟨whole, hspans, hlast⟩ := h.spans
      have hspan : mnemonicSpan name operands = ⟨name.span.start, whole.stop⟩ := by
        rw [mnemonicSpan, hlast]
        rfl
      rw [hspan]
      exact (hname.append hspans).self

theorem Derives.spans {ls : List Lexeme} {statement : Statement} (h : Derives ls statement) :
    Spans ls statement.span statement.spans := by
  cases h with
  | assignment name equals h =>
      have hname := (Spans.token ⟨.ident name.text, name.span⟩).self
      exact (hname.append (h.spans.cons ⟨.symbol .equals, equals⟩)).self
  | directive name kind _ h => exact spans_mnemonic name h
  | instruction name _ h => exact spans_mnemonic name h
  | bare h => simpa [Statement.spans, Statement.span] using h.spans.self

end Statement

theorem DerivesLine.covers {ls : List Lexeme} {statements : List Statement}
    (h : DerivesLine ls statements) :
    ∀ statement ∈ statements, ∀ span ∈ statement.spans, Covers ls span := by
  induction h with
  | nothing => simp
  | statement h =>
      intro statement hmem
      obtain rfl := List.mem_singleton.mp hmem
      exact h.spans.covers
  | @label ls statements name colon h ih =>
      have hname := (Spans.token ⟨.ident name.text, name.span⟩).self
      have hlabel := (hname.append (Spans.token ⟨.symbol .colon, colon⟩)).self
      refine List.forall_mem_cons.mpr ⟨fun span hspan => ?_, fun statement hmem span hspan => ?_⟩
      · exact (hlabel.covers span hspan).mono (List.sublist_append_left _ ls)
      · exact (ih statement hmem span hspan).mono
          ((List.sublist_cons_self _ _).trans (List.sublist_cons_self _ _))

/-! ### Tokens in the text -/

/-- Tokens that are written in the text, one behind the other. -/
structure Track (text : String) (ls : List Lexeme) : Prop where
  isIn : ∀ l ∈ ls, l.span.IsIn text
  ordered : ls.Pairwise fun a b => a.span.stop.offset ≤ b.span.start.offset

namespace Track

variable {text : String} {ls : List Lexeme}

theorem sublist {part : List Lexeme} (h : Track text ls) (hsub : part.Sublist ls) :
    Track text part :=
  ⟨fun l hl => h.isIn l (hsub.subset hl), h.ordered.sublist hsub⟩

theorem isIn_of_reaches {span : Span} (h : Track text ls) (hreaches : Reaches ls span) :
    span.IsIn text := by
  obtain ⟨hstart, hstop⟩ := hreaches
  cases ls with
  | nil => cases hstart
  | cons first rest =>
      have hfirst := h.isIn first List.mem_cons_self
      cases hlast : (first :: rest).getLast? with
      | none => simp at hlast
      | some last =>
          rw [hlast] at hstop
          obtain ⟨start, stop⟩ := span
          obtain rfl : first.span.start = start := Option.some.inj hstart
          obtain rfl : last.span.stop = stop := Option.some.inj hstop
          rcases List.mem_cons.mp (List.mem_of_getLast? hlast) with rfl | hlater
          · exact hfirst
          · have hbefore := (List.pairwise_cons.mp h.ordered).1 last hlater
            exact hfirst.reach (h.isIn last (List.mem_cons_of_mem _ hlater))
              (Nat.le_trans hfirst.ordered hbefore)

theorem isIn_of_covers {span : Span} (h : Track text ls) (hcovers : Covers ls span) :
    span.IsIn text := by
  obtain ⟨part, hsub, hreaches⟩ := hcovers
  exact (h.sublist hsub).isIn_of_reaches hreaches

end Track

/-- What is laid out in the text lies in the text. -/
theorem Layout.isIn {p : Position} {cs : List Char} {shares : List Share} {ls : List Lexeme}
    {fs : List LexFault} (h : Layout p cs shares ls fs) {text : String} {before : List Char}
    (hp : p = .after before) (htext : text.toList = before ++ cs) :
    (∀ l ∈ ls, l.span.IsIn text) ∧ ∀ f ∈ fs, f.span.IsIn text := by
  induction h generalizing before with
  | done p =>
      subst hp
      refine ⟨fun l hl => ?_, by simp⟩
      obtain rfl := List.mem_singleton.mp hl
      exact Span.isIn_empty (Position.isIn_after htext)
  | @tile p kind source rest shares l ls f fs htile _ ih =>
      subst hp
      have hstop : (Position.after before).advanceAll source = .after (before ++ source) :=
        (Position.advanceAll_append _ _ _).symm
      have hstretch : Span.IsIn text
          ⟨.after before, (Position.after before).advanceAll source⟩ := by
        rw [hstop]
        exact Span.isIn_stretch htext
      obtain ⟨hlater, hfaults⟩ := ih hstop (htext.trans (List.append_assoc _ _ _).symm)
      refine ⟨List.forall_mem_append.mpr ⟨?_, hlater⟩, List.forall_mem_append.mpr ⟨?_, hfaults⟩⟩
      · cases htile <;> simp_all
      · rcases htile.faults_cases with hnone | hone
        · simp [hnone]
        · obtain ⟨cause, hone⟩ := hone
          simpa [hone] using hstretch

theorem track_lexemes (text : String) : Track text (lexemes text) := by
  obtain ⟨shares, hlayout⟩ := tiled_lexemes text
  exact ⟨(hlayout.isIn (show _ = Position.after [] from rfl) rfl).1, hlayout.pairwise⟩

theorem isIn_lexFaults (text : String) : ∀ f ∈ lexFaults text, f.span.IsIn text := by
  obtain ⟨shares, hlayout⟩ := tiled_lexemes text
  exact (hlayout.isIn (show _ = Position.after [] from rfl) rfl).2

theorem sublist_of_mem_splitLines {ls line : List Lexeme} (h : line ∈ splitLines ls) :
    line.Sublist ls := by
  induction ls generalizing line with
  | nil =>
      obtain rfl := List.mem_singleton.mp h
      exact List.Sublist.refl _
  | cons first rest ih =>
      rw [splitLines] at h
      split at h
      · rcases List.mem_cons.mp h with rfl | h
        · exact List.nil_sublist _
        · exact (ih h).cons _
      · cases hlines : splitLines rest with
        | nil =>
            rw [hlines] at h
            obtain rfl := List.mem_singleton.mp h
            exact List.singleton_sublist.mpr List.mem_cons_self
        | cons line' lines =>
            rw [hlines] at h ih
            rcases List.mem_cons.mp h with rfl | h
            · exact (ih List.mem_cons_self).cons_cons _
            · exact (ih (List.mem_cons_of_mem _ h)).cons _

theorem track_line {text : String} {line : List Lexeme} (h : line ∈ tokenLines (lexemes text)) :
    Track text line :=
  (track_lexemes text).sublist (sublist_of_mem_splitLines (List.mem_filter.mp h).1)

/-- **Every node of every statement** is written in the text. -/
theorem isIn_statements (text : String) :
    ∀ statement ∈ statements (lexemes text), ∀ span ∈ statement.spans, span.IsIn text := by
  intro statement hmem span hspan
  obtain ⟨line, hline, hstatement⟩ := List.mem_flatMap.mp hmem
  rw [lineStatements] at hstatement
  split at hstatement
  · next all hparse =>
      have hderives := readLine?_sound (parseLine_eq_ok.mp hparse)
      exact (track_line hline).isIn_of_covers (hderives.covers statement hstatement span hspan)
  · cases hstatement

/-- An error is at a token of its line, or behind the last one. -/
theorem isIn_ofLine {text : String} {line : List Lexeme} (htrack : Track text line)
    (hne : line ≠ []) : (SyntaxError.ofLine line).span.IsIn text := by
  obtain ⟨taken, final, left, rfl, hfollow, -, -⟩ := Stage.start.exists_follow line
  rw [SyntaxError.ofLine, hfollow]
  cases left with
  | cons first rest => exact htrack.isIn first (by simp)
  | nil =>
      have hlast := List.getLast?_eq_some_getLast hne
      dsimp only
      rw [hlast]
      exact Span.isIn_empty (htrack.isIn _ (List.getLast_mem hne)).stop

theorem isIn_syntaxErrors (text : String) :
    ∀ error ∈ syntaxErrors (lexemes text), error.span.IsIn text := by
  intro error hmem
  obtain ⟨line, hline, herror⟩ := List.mem_filterMap.mp hmem
  rw [lineError?, parseLine] at herror
  cases hread : readLine? line with
  | some all => simp [hread] at herror
  | none =>
      rw [hread] at herror
      obtain rfl := Option.some.inj herror
      exact isIn_ofLine (track_line hline) (ne_nil_of_mem_tokenLines hline)

end RecipeDesk.Assembler
