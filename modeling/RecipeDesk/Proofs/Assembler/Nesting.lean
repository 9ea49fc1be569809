import Mathlib.Data.List.Flatten
import Mathlib.Data.List.Forall2
import RecipeDesk.Proofs.Assembler.Locality
import RecipeDesk.Proofs.Assembler.Nodes

/-!
# Trees nest like the source

A statement reaches from its first token to its last, and every node of its tree encloses its
children, which stand in it one behind the other in source order. `Nested` says so of every node of
an expression, an operand and a statement; `nodes_nest` is the result for a whole listing.

Nothing here looks at how a span was computed. A node reaches over the tokens that its rule covers,
and its children over pieces of them, one piece behind the other (`Pieces`). Tokens of a text are
not empty and follow each other (`Row`), so their order is the order of the spans.
-/

namespace RecipeDesk

namespace Span

/-- The first span ends before the second begins, or where it begins. -/
def Precedes (s t : Span) : Prop := s.stop.offset ≤ t.start.offset

/-- Parts of a span: all of them are enclosed by it, and they stand one behind the other. No span
among them is empty, so they are disjoint. -/
structure Nests (whole : Span) (parts : List Span) : Prop where
  nonempty : ∀ span ∈ whole :: parts, span.start.offset < span.stop.offset
  encloses : ∀ part ∈ parts, whole.encloses part = true
  ordered : parts.Pairwise Precedes

/-- Merging two spans, the first before the second, goes from the start of the one to the end of the
other. -/
theorem merge_of_precedes {s t : Span} (hs : s.start.offset < s.stop.offset)
    (ht : t.start.offset < t.stop.offset) (h : s.Precedes t) : s.merge t = ⟨s.start, t.stop⟩ := by
  have hstart : min s.start t.start = s.start :=
    if_pos (Position.precedes_of_offset_lt (Nat.lt_of_lt_of_le hs h))
  have hstop : max s.stop t.stop = t.stop :=
    if_pos (Position.precedes_of_offset_lt (Nat.lt_of_le_of_lt h ht))
  rw [merge, hstart, hstop]

end Span

namespace Assembler

/-! ### Nested trees -/

/-- Every node of an expression encloses its operands, the left one before the right one. -/
def Expr.Nested : Expr → Prop
  | symbol span _ | integer span _ | text span _ => span.Nests []
  | binary op left right =>
    let span := (binary op left right).span
    span.Nests [left.span, right.span] ∧
      (span.start = left.span.start ∧ span.stop = right.span.stop ∧
        span = left.span.merge right.span) ∧
      left.Nested ∧ right.Nested
  | negate sign operand => (negate sign operand).span.Nests [operand.span] ∧ operand.Nested

/-- Every node of an operand encloses what it is made of, the displacement before the register. -/
def Operand.Nested : Operand → Prop
  | absolute span value | immediate span value => span.Nests [value.span] ∧ value.Nested
  | postIncrement span register | preDecrement span register => span.Nests [register.span]
  | indirect span register displacement =>
    span.Nests ((displacement.map Expr.span).toList ++ [register.span]) ∧
      ∀ value ∈ displacement, value.Nested
  | doubleIndirect span operand => span.Nests [operand.span] ∧ operand.Nested

/-- Every node of a statement encloses what it is made of: the name before the value, the directive
or mnemonic before the operands. -/
def Statement.Nested : Statement → Prop
  | label span name => span.Nests [name.span]
  | assignment span name value => span.Nests [name.span, value.span] ∧ value.Nested
  | directive span _ keyword operands =>
    span.Nests (keyword :: operands.map Operand.span) ∧ ∀ operand ∈ operands, operand.Nested
  | instruction span mnemonic operands =>
    span.Nests ((mnemonic.map Name.span).toList ++ operands.map Operand.span) ∧
      ∀ operand ∈ operands, operand.Nested

/-! ### Tokens in a row -/

/-- Tokens that are not empty and follow each other. -/
structure Row (ls : List Lexeme) : Prop where
  nonempty : ∀ l ∈ ls, l.span.start.offset < l.span.stop.offset
  ordered : ls.Pairwise fun a b => a.span.stop.offset ≤ b.span.start.offset

namespace Row

variable {ls rs : List Lexeme}

theorem sublist (h : Row rs) (hsub : ls.Sublist rs) : Row ls :=
  ⟨fun l hl => h.nonempty l (hsub.subset hl), h.ordered.sublist hsub⟩

theorem left (h : Row (ls ++ rs)) : Row ls := h.sublist (List.sublist_append_left ls rs)

theorem right (h : Row (ls ++ rs)) : Row rs := h.sublist (List.sublist_append_right ls rs)

theorem tail {l : Lexeme} (h : Row (l :: ls)) : Row ls := h.sublist (List.sublist_cons_self l ls)

/-- No token begins before the first one does. -/
theorem le_start {span : Span} (h : Row ls) (hreaches : Reaches ls span) :
    ∀ l ∈ ls, span.start.offset ≤ l.span.start.offset := by
  cases ls with
  | nil => simp
  | cons first rest =>
      have hstart : first.span.start = span.start := Option.some.inj hreaches.1
      rw [← hstart]
      intro l hl
      rcases List.mem_cons.mp hl with rfl | hlater
      · exact Nat.le_refl _
      · have hfirst := h.nonempty first List.mem_cons_self
        have hafter := (List.pairwise_cons.mp h.ordered).1 l hlater
        omega

/-- No token ends behind the last one. -/
theorem stop_le {span : Span} (h : Row ls) (hreaches : Reaches ls span) :
    ∀ l ∈ ls, l.span.stop.offset ≤ span.stop.offset := by
  obtain ⟨last, hlast, hstop⟩ := Option.map_eq_some_iff.mp hreaches.2
  obtain ⟨front, rfl⟩ := List.getLast?_eq_some_iff.mp hlast
  rw [← hstop]
  intro l hl
  rcases List.mem_append.mp hl with hearlier | hl
  · have hbefore := (List.pairwise_append.mp h.ordered).2.2 l hearlier last (by simp)
    have hpositive := h.nonempty last (by simp)
    omega
  · obtain rfl := List.mem_singleton.mp hl
    exact Nat.le_refl _

/-- The ends of a span that reaches over tokens are ends of tokens. -/
theorem exists_ends {span : Span} (hreaches : Reaches ls span) :
    (∃ first ∈ ls, first.span.start = span.start) ∧ ∃ last ∈ ls, last.span.stop = span.stop := by
  obtain ⟨first, hfirst, hstart⟩ := Option.map_eq_some_iff.mp hreaches.1
  obtain ⟨last, hlast, hstop⟩ := Option.map_eq_some_iff.mp hreaches.2
  exact ⟨⟨first, List.mem_of_head? hfirst, hstart⟩, ⟨last, List.mem_of_getLast? hlast, hstop⟩⟩

theorem nonempty_of_reaches {span : Span} (h : Row ls) (hreaches : Reaches ls span) :
    span.start.offset < span.stop.offset := by
  obtain ⟨⟨first, hfirst, hstart⟩, -⟩ := exists_ends hreaches
  have hpositive := h.nonempty first hfirst
  have hstop := h.stop_le hreaches first hfirst
  rw [hstart] at hpositive
  omega

theorem nonempty_of_covers {span : Span} (h : Row ls) (hcovers : Covers ls span) :
    span.start.offset < span.stop.offset := by
  obtain ⟨part, hsub, hpart⟩ := hcovers
  exact (h.sublist hsub).nonempty_of_reaches hpart

/-- What reaches over all tokens encloses what reaches over some of them. -/
theorem encloses {whole span : Span} (h : Row ls) (hwhole : Reaches ls whole)
    (hcovers : Covers ls span) : whole.encloses span = true := by
  obtain ⟨part, hsub, hpart⟩ := hcovers
  obtain ⟨⟨first, hfirst, hstart⟩, ⟨last, hlast, hstop⟩⟩ := exists_ends hpart
  have hle := h.le_start hwhole first (hsub.subset hfirst)
  have hge := h.stop_le hwhole last (hsub.subset hlast)
  rw [hstart] at hle
  rw [hstop] at hge
  simp [Span.encloses, hle, hge]

/-- What reaches over tokens precedes what reaches over later ones. -/
theorem precedes {s t : Span} (h : Row (ls ++ rs)) (hs : Reaches ls s) (ht : Covers rs t) :
    s.Precedes t := by
  obtain ⟨part, hsub, hpart⟩ := ht
  obtain ⟨-, ⟨last, hlast, hstop⟩⟩ := exists_ends hs
  obtain ⟨⟨first, hfirst, hstart⟩, -⟩ := exists_ends hpart
  have hbefore :=
    (List.pairwise_append.mp h.ordered).2.2 last hlast first (hsub.subset hfirst)
  rwa [hstop, hstart] at hbefore

end Row

/-! ### Pieces of a row -/

/-- Spans that reach over pieces of some tokens, one piece behind the other. -/
inductive Pieces : List Lexeme → List Span → Prop where
  | nil (ls : List Lexeme) : Pieces ls []
  | skip (l : Lexeme) {ls : List Lexeme} {spans : List Span} (h : Pieces ls spans) :
    Pieces (l :: ls) spans
  | piece {ps ls : List Lexeme} {span : Span} {spans : List Span} (h : Reaches ps span)
    (hrest : Pieces ls spans) : Pieces (ps ++ ls) (span :: spans)

namespace Pieces

variable {ls : List Lexeme} {spans : List Span}

theorem single {span : Span} (h : Reaches ls span) : Pieces ls [span] := by
  rw [← List.append_nil ls]
  exact .piece h (.nil [])

theorem token (l : Lexeme) (h : Pieces ls spans) : Pieces (l :: ls) (l.span :: spans) :=
  .piece (reaches_singleton l) h

theorem append (h : Pieces ls spans) (rest : List Lexeme) : Pieces (ls ++ rest) spans := by
  induction h with
  | nil => exact .nil _
  | skip l _ ih => exact ih.skip l
  | piece hpiece _ ih =>
      rw [List.append_assoc]
      exact .piece hpiece ih

theorem covers (h : Pieces ls spans) : ∀ span ∈ spans, Covers ls span := by
  induction h with
  | nil => simp
  | skip l _ ih => exact fun span hspan => (ih span hspan).mono (List.sublist_cons_self l _)
  | @piece ps ls span spans hpiece _ ih =>
      refine List.forall_mem_cons.mpr ⟨?_, fun span hspan => ?_⟩
      · exact hpiece.covers.mono (List.sublist_append_left ps ls)
      · exact (ih span hspan).mono (List.sublist_append_right ps ls)

theorem ordered (h : Pieces ls spans) (hrow : Row ls) : spans.Pairwise Span.Precedes := by
  induction h with
  | nil => exact .nil
  | skip _ _ ih => exact ih hrow.tail
  | piece hpiece hrest ih =>
      refine .cons (fun span hspan => ?_) (ih hrow.right)
      exact hrow.precedes hpiece (hrest.covers span hspan)

/-- What reaches over a row nests the spans over its pieces. -/
theorem nests {whole : Span} (h : Pieces ls spans) (hrow : Row ls) (hwhole : Reaches ls whole) :
    whole.Nests spans where
  nonempty := List.forall_mem_cons.mpr ⟨hrow.nonempty_of_reaches hwhole,
    fun span hspan => hrow.nonempty_of_covers (h.covers span hspan)⟩
  encloses := fun span hspan => hrow.encloses hwhole (h.covers span hspan)
  ordered := h.ordered hrow

end Pieces

/-! ### Along the grammar -/

namespace Expr

theorem DerivesFactor.nested {ls : List Lexeme} {value : Expr} (h : DerivesFactor ls value)
    (hrow : Row ls) : value.Nested := by
  induction h with
  | name span name => exact Pieces.nests (.nil _) hrow (reaches_singleton ⟨.ident name, span⟩)
  | integer span value raw =>
      exact Pieces.nests (.nil _) hrow (reaches_singleton ⟨.integer value raw, span⟩)
  | character span c => exact Pieces.nests (.nil _) hrow (reaches_singleton ⟨.char c, span⟩)
  | text span content =>
      exact Pieces.nests (.nil _) hrow (reaches_singleton ⟨.text content, span⟩)
  | negate sign h ih =>
      have hpieces := (Pieces.single h.spans.reaches).skip ⟨.symbol .minus, sign⟩
      exact ⟨hpieces.nests hrow (h.negate sign).spans.reaches, ih hrow.tail⟩

theorem DerivesChain.nested {op? : Token → Option BinaryOp} {Item : List Lexeme → Expr → Prop}
    (hspans : ∀ {ls value}, Item ls value → Spans ls value.span value.spans)
    (hitem : ∀ {ls value}, Item ls value → Row ls → value.Nested) {ls : List Lexeme} {value : Expr}
    (h : DerivesChain op? Item ls value) (hrow : Row ls) : value.Nested := by
  induction h with
  | item h => exact hitem h hrow
  | @operate ls rs left right sign op hleft hop hright ih =>
      have hwhole := (DerivesChain.operate hleft hop hright).spans hspans
      have hpieces := Pieces.piece (hleft.spans hspans).reaches
        ((Pieces.single (hspans hright).reaches).skip sign)
      have hnests := hpieces.nests hrow hwhole.reaches
      have hleftPositive := hnests.nonempty left.span (by simp)
      have hrightPositive := hnests.nonempty right.span (by simp)
      have hprecedes : left.span.Precedes right.span := by simpa using hnests.ordered
      refine ⟨hnests, ⟨rfl, rfl, ?_⟩, ih hrow.left, hitem hright hrow.right.tail⟩
      exact (Span.merge_of_precedes hleftPositive hrightPositive hprecedes).symm

theorem Derives.nested {ls : List Lexeme} {value : Expr} (h : value.Derives ls)
    (hrow : Row ls) : value.Nested :=
  DerivesChain.nested (DerivesChain.spans DerivesFactor.spans)
    (DerivesChain.nested DerivesFactor.spans DerivesFactor.nested) h hrow

end Expr

theorem Name.DerivesRegister.pieces {ls : List Lexeme} {register : Name} {span : Span}
    (h : register.DerivesRegister ls span) : Pieces ls [register.span] := by
  cases h with
  | mk opening closing =>
      exact .skip _ (.token ⟨.ident register.text, register.span⟩ (.nil _))

namespace Operand

theorem Derives.nested {ls : List Lexeme} {operand : Operand} (h : Derives ls operand)
    (hrow : Row ls) : operand.Nested := by
  induction h with
  | immediate sharp h =>
      have hpieces := (Pieces.single h.spans.reaches).skip ⟨.symbol .sharp, sharp⟩
      exact ⟨hpieces.nests hrow (Derives.immediate sharp h).spans.reaches, h.nested hrow.tail⟩
  | deferred h => exact ⟨h.pieces.nests hrow h.spans.reaches, by simp⟩
  | postIncrement plus h =>
      -- the plus sign stands behind the register and belongs to no child
      have hpieces := h.pieces.append [⟨.symbol .plus, plus⟩]
      exact hpieces.nests hrow (Derives.postIncrement plus h).spans.reaches
  | preDecrement minus h =>
      have hpieces := h.pieces.skip ⟨.symbol .minus, minus⟩
      exact hpieces.nests hrow (Derives.preDecrement minus h).spans.reaches
  | doubleIndirect atSign h ih =>
      have hpieces := (Pieces.single h.spans.reaches).skip ⟨.symbol .atSign, atSign⟩
      exact ⟨hpieces.nests hrow (Derives.doubleIndirect atSign h).spans.reaches, ih hrow.tail⟩
  | absolute h => exact ⟨(Pieces.single h.spans.reaches).nests hrow h.spans.reaches, h.nested hrow⟩
  | indexed h hregister =>
      have hpieces := Pieces.piece h.spans.reaches hregister.pieces
      refine ⟨hpieces.nests hrow (Derives.indexed h hregister).spans.reaches, ?_⟩
      rintro value ⟨⟩
      exact h.nested hrow.left

theorem DerivesList.pieces {ls : List Lexeme} {operands : List Operand}
    (h : DerivesList ls operands) : Pieces ls (operands.map Operand.span) := by
  induction h with
  | last h => exact .single h.spans.reaches
  | more comma h _ ih => exact .piece h.spans.reaches (ih.skip ⟨.symbol .comma, comma⟩)

theorem DerivesList.nested {ls : List Lexeme} {operands : List Operand}
    (h : DerivesList ls operands) (hrow : Row ls) : ∀ operand ∈ operands, operand.Nested := by
  induction h with
  | last h => exact List.forall_mem_singleton.mpr (h.nested hrow)
  | more comma h _ ih =>
      exact List.forall_mem_cons.mpr ⟨h.nested hrow.left, ih hrow.right.tail⟩

end Operand

namespace Statement

theorem nested_mnemonic (name : Name) {ls : List Lexeme} {operands : List Operand}
    (h : Operand.DerivesArguments ls operands)
    (hrow : Row (⟨.ident name.text, name.span⟩ :: ls)) :
    (mnemonicSpan name operands).Nests (name.span :: operands.map Operand.span) ∧
      ∀ operand ∈ operands, operand.Nested := by
  have hreaches := (spans_mnemonic name h).reaches
  cases h with
  | none => exact ⟨(Pieces.token _ (.nil [])).nests hrow hreaches, by simp⟩
  | some h => exact ⟨(Pieces.token _ h.pieces).nests hrow hreaches, h.nested hrow.tail⟩

theorem Derives.nested {ls : List Lexeme} {statement : Statement} (h : Derives ls statement)
    (hrow : Row ls) : statement.Nested := by
  cases h with
  | assignment name equals h =>
      have hpieces := Pieces.token ⟨.ident name.text, name.span⟩
        ((Pieces.single h.spans.reaches).skip ⟨.symbol .equals, equals⟩)
      exact ⟨hpieces.nests hrow (Derives.assignment name equals h).spans.reaches,
        h.nested hrow.tail.tail⟩
  | directive name kind _ h => exact nested_mnemonic name h hrow
  | instruction name _ h => exact nested_mnemonic name h hrow
  | bare h =>
      exact ⟨(Pieces.single h.spans.reaches).nests hrow h.spans.reaches,
        List.forall_mem_singleton.mpr (h.nested hrow)⟩

/-- The tokens of a statement: it writes out as these tokens, and reaches from the first of them to
the last. -/
structure WrittenAs (statement : Statement) (ls : List Lexeme) : Prop where
  tokens : statement.tokens = plainTokens ls
  reaches : Reaches ls statement.span

end Statement

/-- The statements of a line share out its tokens. -/
theorem DerivesLine.exists_parts {ls : List Lexeme} {statements : List Statement}
    (h : DerivesLine ls statements) :
    ∃ parts, List.Forall₂ Statement.WrittenAs statements parts ∧ parts.flatten = ls := by
  induction h with
  | nothing => exact ⟨[], .nil, rfl⟩
  | @statement ls statement h =>
      exact ⟨[ls], .cons ⟨h.tokens_eq, h.spans.reaches⟩ .nil, by simp⟩
  | label name colon _ ih =>
      obtain ⟨parts, hparts, rfl⟩ := ih
      exact ⟨[⟨.ident name.text, name.span⟩, ⟨.symbol .colon, colon⟩] :: parts,
        .cons ⟨rfl, rfl, rfl⟩ hparts, rfl⟩

theorem DerivesLine.nested {ls : List Lexeme} {statements : List Statement}
    (h : DerivesLine ls statements) (hrow : Row ls) :
    ∀ statement ∈ statements, statement.Nested := by
  induction h with
  | nothing => simp
  | statement h => exact List.forall_mem_singleton.mpr (h.nested hrow)
  | @label ls statements name colon _ ih =>
      have hpieces := Pieces.token ⟨.ident name.text, name.span⟩
        (.nil [⟨.symbol .colon, colon⟩])
      refine List.forall_mem_cons.mpr ⟨?_, ih hrow.tail.tail⟩
      exact hpieces.nests (hrow.sublist (List.sublist_append_left [_, _] ls)) ⟨rfl, rfl⟩

/-! ### Whole listings -/

/-- Dividing tokens into lines drops the ends of lines and nothing else. -/
theorem flatten_splitLines (ls : List Lexeme) :
    (splitLines ls).flatten = ls.filter fun l => !l.token.isLineEnd := by
  induction ls with
  | nil => rfl
  | cons l ls ih =>
      rw [splitLines]
      cases hend : l.token.isLineEnd with
      | true => simp [hend, ih]
      | false =>
          cases hlines : splitLines ls with
          | nil => exact absurd hlines (splitLines_ne_nil ls)
          | cons line lines =>
              rw [hlines] at ih
              simpa [hend] using ih

/-- The lines that can be read. -/
def readableLines (ls : List Lexeme) : List (List Lexeme) :=
  (tokenLines ls).filter fun line => (lineError? line).isNone

theorem flatten_readableLines_sublist (ls : List Lexeme) :
    (readableLines ls).flatten.Sublist (ls.filter fun l => !l.token.isLineEnd) := by
  rw [← flatten_splitLines]
  exact (List.filter_sublist.trans List.filter_sublist).flatten

/-- The tokens of a text are a row, the ends of its lines left out. -/
theorem row_lexemes (text : String) :
    Row ((lexemes text).filter fun l => !l.token.isLineEnd) := by
  obtain ⟨shares, hlayout⟩ := tiled_lexemes text
  obtain ⟨tokens, htokens, hspelt⟩ := hlayout.exists_tokens
  refine ⟨?_, hlayout.pairwise.sublist List.filter_sublist⟩
  intro l hl
  obtain ⟨hmem, hend⟩ := List.mem_filter.mp hl
  rw [htokens] at hmem
  rcases List.mem_append.mp hmem with htoken | hlast
  · obtain ⟨before, source, rest, flaw, -, hspells, hspan, -⟩ := hspelt l htoken
    have hlength := List.length_pos_iff.mpr hspells.ne_nil
    rw [hspan, Position.offset_advanceAll, Position.offset_advanceAll, List.length_append]
    omega
  · obtain rfl := List.mem_singleton.mp hlast
    cases hend

theorem row_readableLines (text : String) : Row (readableLines (lexemes text)).flatten :=
  (row_lexemes text).sublist (flatten_readableLines_sublist _)

/-- A line gives statements if it can be read, and then those that it derives. -/
theorem lineStatements_cases (line : List Lexeme) :
    (lineError? line = none ∧ DerivesLine line (lineStatements line)) ∨
      (lineError? line ≠ none ∧ lineStatements line = []) := by
  unfold lineError? lineStatements
  cases hparse : parseLine line with
  | ok statements => exact .inl ⟨rfl, readLine?_sound (parseLine_eq_ok.mp hparse)⟩
  | error error => exact .inr ⟨by simp, rfl⟩

/-- The statements of a listing share out the tokens of the lines that can be read. -/
theorem exists_parts (ls : List Lexeme) :
    ∃ parts, List.Forall₂ Statement.WrittenAs (statements ls) parts ∧
      parts.flatten = (readableLines ls).flatten := by
  rw [statements, readableLines]
  induction tokenLines ls with
  | nil => exact ⟨[], .nil, rfl⟩
  | cons line lines ih =>
      obtain ⟨parts, hparts, hflatten⟩ := ih
      rw [List.flatMap_cons]
      rcases lineStatements_cases line with ⟨hread, hderives⟩ | ⟨herror, hnone⟩
      · obtain ⟨first, hfirst, hline⟩ := hderives.exists_parts
        refine ⟨first ++ parts, List.rel_append hfirst hparts, ?_⟩
        rw [List.filter_cons_of_pos (by simp [hread]), List.flatten_append, List.flatten_cons,
          hline, hflatten]
      · refine ⟨parts, by rwa [hnone], ?_⟩
        rw [List.filter_cons_of_neg (by simpa using herror), hflatten]

/-- Statements that share out tokens reach over pieces of them. -/
theorem pieces_of_parts {statements : List Statement} {parts : List (List Lexeme)}
    (h : List.Forall₂ Statement.WrittenAs statements parts) :
    Pieces parts.flatten (statements.map Statement.span) := by
  induction h with
  | nil => exact .nil _
  | cons hwritten _ ih => exact .piece hwritten.reaches ih

/-- **Trees nest and order like the source.** The statements of a listing share out the tokens of
the lines that can be read, each from the start of its first token to the end of its last; they
stand one behind the other; and every node of every one of them encloses its children, in source
order. -/
theorem nodes_nest (text : String) :
    let listing := Listing.ofText text
    (∃ parts, List.Forall₂ Statement.WrittenAs listing.statements parts ∧
        parts.flatten = (readableLines (lexemes text)).flatten) ∧
      (listing.statements.map Statement.span).Pairwise Span.Precedes ∧
      ∀ statement ∈ listing.statements, statement.Nested := by
  intro listing
  obtain ⟨parts, hparts, hflatten⟩ := exists_parts (lexemes text)
  have hrow := row_readableLines text
  refine ⟨⟨parts, hparts, hflatten⟩, ?_, ?_⟩
  · exact (pieces_of_parts hparts).ordered (hflatten ▸ hrow)
  · intro statement hmem
    obtain ⟨line, hline, hstatement⟩ := List.mem_flatMap.mp hmem
    rcases lineStatements_cases line with ⟨hread, hderives⟩ | ⟨-, hnone⟩
    · have hmem : line ∈ readableLines (lexemes text) :=
        List.mem_filter.mpr ⟨hline, by simp [hread]⟩
      exact hderives.nested (hrow.sublist (List.sublist_flatten_of_mem hmem)) statement hstatement
    · rw [hnone] at hstatement
      cases hstatement

/-- A label, and an assignment of a difference whose left side is a product: the product is enclosed
by the value, the value by the assignment, and the name stands before it. -/
theorem nodes_nest_assignment :
    let a : Span := ⟨⟨7, 0, 7⟩, ⟨8, 0, 8⟩⟩
    let two : Span := ⟨⟨9, 0, 9⟩, ⟨10, 0, 10⟩⟩
    let b : Span := ⟨⟨13, 0, 13⟩, ⟨14, 0, 14⟩⟩
    let name : Name := ⟨"X", ⟨⟨3, 0, 3⟩, ⟨4, 0, 4⟩⟩⟩
    let product : Expr := .binary .mul (.symbol a "A") (.integer two 2)
    let value : Expr := .binary .sub product (.symbol b "B")
    let statement : Statement := .assignment ⟨⟨3, 0, 3⟩, ⟨14, 0, 14⟩⟩ name value
    statement ∈ (Listing.ofText "L: X = A*2 - B").statements ∧
      statement.span.Nests [name.span, value.span] ∧ value.span.Nests [product.span, b] ∧
      value.span = product.span.merge b ∧ product.span.Nests [a, two] := by
  intro a two b name product value statement
  let label : Name := ⟨"L", ⟨⟨0, 0, 0⟩, ⟨1, 0, 1⟩⟩⟩
  let colon : Span := ⟨⟨1, 0, 1⟩, ⟨2, 0, 2⟩⟩
  let equals : Span := ⟨⟨5, 0, 5⟩, ⟨6, 0, 6⟩⟩
  let factors : List Lexeme := [⟨.ident "A", a⟩, ⟨.symbol .star, ⟨⟨8, 0, 8⟩, ⟨9, 0, 9⟩⟩⟩,
    ⟨.integer 2 "2", two⟩]
  let terms : List Lexeme := factors ++
    [⟨.symbol .minus, ⟨⟨11, 0, 11⟩, ⟨12, 0, 12⟩⟩⟩, ⟨.ident "B", b⟩]
  let line : List Lexeme := ⟨.ident "L", label.span⟩ :: ⟨.symbol .colon, colon⟩ ::
    ⟨.ident "X", name.span⟩ :: ⟨.symbol .equals, equals⟩ :: terms
  have hlines : tokenLines (lexemes "L: X = A*2 - B") = [line] := by decide +kernel
  have hfirst : (Expr.symbol a "A").DerivesProduct [⟨.ident "A", a⟩] := .item (.name a "A")
  have hproduct : product.DerivesProduct factors := .operate hfirst rfl (.integer two 2 "2")
  have hleft : product.Derives factors := .item hproduct
  have hright : (Expr.symbol b "B").DerivesProduct [⟨.ident "B", b⟩] := .item (.name b "B")
  have hvalue : value.Derives terms := Expr.DerivesChain.operate hleft rfl hright
  have hderives : DerivesLine line [.label ⟨label.span.start, colon.stop⟩ label, statement] :=
    .label label colon (.statement (.assignment name equals hvalue))
  have hstatements : (Listing.ofText "L: X = A*2 - B").statements =
      [.label ⟨label.span.start, colon.stop⟩ label, statement] := by
    obtain ⟨found, hread, rfl | ⟨hbare, -⟩⟩ := readLine?_complete hderives
    · rw [Listing.ofText, statements, hlines, List.flatMap_singleton, lineStatements,
        parseLine_eq_ok.mpr hread]
    · cases hbare
  have hmem : statement ∈ (Listing.ofText "L: X = A*2 - B").statements := by
    rw [hstatements]
    exact List.mem_cons_of_mem _ List.mem_cons_self
  obtain ⟨hwhole, hnests, ⟨-, -, hmerge⟩, ⟨hproductNests, -⟩, -⟩ :=
    (nodes_nest "L: X = A*2 - B").2.2 statement hmem
  exact ⟨hmem, hwhole, hnests, hmerge, hproductNests⟩

end Assembler

end RecipeDesk
