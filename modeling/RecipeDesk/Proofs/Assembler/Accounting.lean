import Mathlib.Data.List.Basic
import RecipeDesk.Proofs.Assembler.OneToken
import RecipeDesk.Proofs.Text.LineTable

/-!
# Every character is accounted for

What reading a source reports are spans: those of the tokens, and those of the faults. Whether a
character belongs to a token, to a stretch of unexpected characters or to a lone apostrophe is said
here by counting the reported spans that contain it; a comment is what runs from a semicolon that no
span contains to the end of the line, and a blank what is left (`Share.Holds`). Exactly one of the
five holds of every character (`lexing_loses_nothing`).

The proof goes through the layout of the source: the reported spans are the spans of its tiles
(`Layout.countP_spans`), so each of the five says which kind of tile the character stands in, and
there every character stands in one tile.
-/

namespace RecipeDesk.Assembler

/-! ### What is reported of a character -/

/-- Whether characters that begin no token are reported. -/
def LexCause.isUnexpected : LexCause → Bool
  | unexpected _ => true
  | _ => false

namespace Share

/-- The spans reported for a share. The other faults are about a token and repeat its span. -/
def spans (ls : List Lexeme) (fs : List LexFault) : Share → List Span
  | token => ls.map Lexeme.span
  | unexpected => (fs.filter (·.cause.isUnexpected)).map LexFault.span
  | loneQuote => (fs.filter (·.cause == .unclosedChar)).map LexFault.span
  | comment | blank => []

/-- Whether there are spans for a share. -/
def isReported : Share → Bool
  | token | unexpected | loneQuote => true
  | comment | blank => false

theorem spans_append (share : Share) (l ls : List Lexeme) (f fs : List LexFault) :
    share.spans (l ++ ls) (f ++ fs) = share.spans l f ++ share.spans ls fs := by
  cases share <;> simp [spans]

/-- The number of spans of a share that contain the character at `i`. -/
def count (text : String) (i : Nat) (share : Share) : Nat :=
  (share.spans (lexemes text) (lexFaults text)).countP (·.contains (.after (text.toList.take i)))

/-- No span contains the character at `i`. -/
def Unreported (text : String) (i : Nat) : Prop := ∀ share, count text i share = 0

/-- One span of the share contains the character at `i`, and no other span does. -/
def ReportedAs (text : String) (i : Nat) (share : Share) : Prop :=
  ∀ other, count text i other = if other = share then 1 else 0

/-- A comment: it begins at a semicolon that no span contains, and goes on to the end of the line. -/
def InComment (text : String) (i : Nat) : Prop :=
  ∃ start ≤ i, text.toList[start]? = some ';' ∧ Unreported text start ∧
    ∀ k, start ≤ k → k ≤ i → text.toList[k]? ≠ some '\n'

/-- What the character at `i` belongs to. -/
def Holds (text : String) (i : Nat) : Share → Prop
  | token => ReportedAs text i token
  | unexpected => ReportedAs text i unexpected
  | loneQuote => ReportedAs text i loneQuote ∧ text.toList.drop i = ['\'']
  | comment => InComment text i ∧ Unreported text i
  | blank => (∃ c ∈ text.toList[i]?, isBlank c = true) ∧ Unreported text i ∧ ¬ InComment text i

end Share

/-! ### Layouts -/

namespace Tile

variable {p : Position} {kind : Share} {source rest : List Char} {l : List Lexeme}
  {f : List LexFault}

/-- A tile reports its own span, for its own share only. -/
theorem spans_eq (h : Tile p kind source rest l f) (share : Share) :
    share.spans l f =
      if share = kind ∧ share.isReported then [⟨p, p.advanceAll source⟩] else [] := by
  cases h with
  | blank | comment | unexpected | loneQuote => cases share <;> rfl
  | @token token flaw =>
      cases share with
      | token => rfl
      | unexpected | loneQuote | comment | blank => rcases flaw with _ | ⟨⟨⟩⟩ <;> rfl

theorem source_ne_nil (h : Tile p kind source rest l f) : source ≠ [] := by
  cases h with
  | blank | comment | loneQuote => simp
  | unexpected hstretch => exact hstretch.ne_nil
  | token hspells => exact hspells.ne_nil

/-- A tile has one fault at most, and its span is the tile. -/
theorem faults_cases (h : Tile p kind source rest l f) :
    f = [] ∨ ∃ cause, f = [⟨⟨p, p.advanceAll source⟩, cause⟩] := by
  cases h with
  | blank | comment => exact .inl rfl
  | unexpected | loneQuote => exact .inr ⟨_, rfl⟩
  | @token token flaw =>
      cases flaw with
      | none => exact .inl rfl
      | some flaw => cases flaw <;> exact .inr ⟨_, rfl⟩

end Tile

namespace Layout

variable {p : Position} {cs : List Char} {shares : List Share} {ls : List Lexeme}
  {fs : List LexFault}

theorem length_shares (h : Layout p cs shares ls fs) : shares.length = cs.length := by
  induction h with
  | done => rfl
  | tile _ _ ih => simp [ih]

/-- Spans are reported from the place on where the source begins. -/
theorem le_start (h : Layout p cs shares ls fs) (share : Share) :
    ∀ span ∈ share.spans ls fs, p.offset ≤ span.start.offset := by
  induction h with
  | done p => cases share <;> simp [Share.spans, Span.empty]
  | @tile p kind source rest shares l ls f fs htile _ ih =>
      rw [Share.spans_append, htile.spans_eq]
      intro span hspan
      rcases List.mem_append.mp hspan with hfirst | hlater
      · split at hfirst
        · obtain rfl := List.mem_singleton.mp hfirst
          exact Nat.le_refl _
        · nomatch hfirst
      · have hle := ih span hlater
        rw [Position.offset_advanceAll] at hle
        omega

/-- The shares of the first tile. -/
theorem getElem?_first {n i : Nat} (hi : i < n) (kind : Share) (shares : List Share) :
    (List.replicate n kind ++ shares)[i]? = some kind := by
  rw [List.getElem?_append_left (by simpa using hi)]
  simp [hi]

/-- The shares of the later tiles. -/
theorem getElem?_later {n i : Nat} (hi : n ≤ i) (kind : Share) (shares : List Share) :
    (List.replicate n kind ++ shares)[i]? = shares[i - n]? := by
  rw [List.getElem?_append_right (by simpa using hi)]
  simp

/-- The spans of a share contain a character as often as its tile has that share. -/
theorem countP_spans (h : Layout p cs shares ls fs) {share : Share}
    (hshare : share.isReported = true) {q : Position} {i : Nat} (hq : q.offset = p.offset + i) :
    (share.spans ls fs).countP (·.contains q) = if shares[i]? = some share then 1 else 0 := by
  induction h generalizing i with
  | done p => cases share <;> simp [Share.spans, Span.empty, Span.contains]
  | @tile p kind source rest shares l ls f fs htile hrest ih =>
      have hcontains : Span.contains ⟨p, p.advanceAll source⟩ q = decide (i < source.length) := by
        simp [Span.contains, Position.offset_advanceAll, hq]
      rw [Share.spans_append, List.countP_append, htile.spans_eq]
      by_cases hi : i < source.length
      · -- the character stands in the first tile, and no later span reaches back to it
        have hlater : (share.spans ls fs).countP (·.contains q) = 0 := by
          rw [List.countP_eq_zero]
          intro span hspan
          have hle := hrest.le_start share span hspan
          rw [Position.offset_advanceAll] at hle
          simp only [Span.contains, Bool.and_eq_true, decide_eq_true_eq]
          omega
        rw [hlater, getElem?_first hi]
        by_cases hsame : share = kind
        · subst hsame
          simp [hcontains, hi, hshare]
        · simp [hsame, Ne.symm hsame]
      · have hfirst : (if share = kind ∧ share.isReported = true then [⟨p, p.advanceAll source⟩]
            else [] : List Span).countP (·.contains q) = 0 := by
          split <;> simp [hcontains, hi]
        rw [hfirst, Nat.zero_add, getElem?_later (Nat.not_lt.mp hi)]
        refine ih ?_
        rw [Position.offset_advanceAll]
        omega

/-- Every character stands in a tile. -/
theorem exists_tile (h : Layout p cs shares ls fs) {i : Nat} {kind : Share}
    (hkind : shares[i]? = some kind) :
    ∃ before source rest l f, cs = before ++ (source ++ rest) ∧
      Tile (p.advanceAll before) kind source rest l f ∧
      before.length ≤ i ∧ i < before.length + source.length ∧
      ∀ k, before.length ≤ k → k < before.length + source.length → shares[k]? = some kind := by
  induction h generalizing i with
  | done => simp at hkind
  | @tile p first source rest shares l ls f fs htile hrest ih =>
      by_cases hi : i < source.length
      · obtain rfl : first = kind := by
          rw [getElem?_first hi] at hkind
          exact Option.some.inj hkind
        refine ⟨[], source, rest, l, f, rfl, htile, Nat.zero_le _, by simpa using hi, ?_⟩
        intro k _ hk
        exact getElem?_first (by simpa using hk) first shares
      · rw [getElem?_later (Nat.not_lt.mp hi)] at hkind
        obtain ⟨before, inner, after, l', f', heq, hat, hle, hlt, hall⟩ := ih hkind
        have hlength : (source ++ before).length = source.length + before.length :=
          List.length_append
        refine ⟨source ++ before, inner, after, l', f', ?_, ?_, by omega, by omega, ?_⟩
        · rw [heq, List.append_assoc]
        · rwa [Position.advanceAll_append]
        · intro k hk hk'
          rw [getElem?_later (by omega)]
          exact hall _ (by omega) (by omega)

theorem isBlank_of_blank (h : Layout p cs shares ls fs) {i : Nat}
    (hkind : shares[i]? = some .blank) : ∃ c ∈ cs[i]?, isBlank c = true := by
  obtain ⟨before, source, rest, l, f, rfl, htile, hle, hlt, -⟩ := h.exists_tile hkind
  cases htile with
  | @blank c _ hc =>
      obtain rfl : i = before.length := by
        rw [List.length_singleton] at hlt
        omega
      exact ⟨c, by simp, hc⟩

theorem drop_of_loneQuote (h : Layout p cs shares ls fs) {i : Nat}
    (hkind : shares[i]? = some .loneQuote) : cs.drop i = ['\''] := by
  obtain ⟨before, source, rest, l, f, rfl, htile, hle, hlt, -⟩ := h.exists_tile hkind
  cases htile with
  | loneQuote =>
      obtain rfl : i = before.length := by
        rw [List.length_singleton] at hlt
        omega
      simp

/-- Before a character of a comment, on its line, stands the semicolon of the comment. -/
theorem semicolon_of_comment (h : Layout p cs shares ls fs) {i : Nat}
    (hkind : shares[i]? = some .comment) :
    ∃ start ≤ i, cs[start]? = some ';' ∧ shares[start]? = some .comment ∧
      ∀ k, start ≤ k → k ≤ i → cs[k]? ≠ some '\n' := by
  obtain ⟨before, source, rest, l, f, rfl, htile, hle, hlt, hall⟩ := h.exists_tile hkind
  cases htile with
  | @comment body _ hbody _ =>
      refine ⟨before.length, hle, by simp, hall _ (Nat.le_refl _) (by simp), ?_⟩
      intro k hk hki hnewline
      rw [List.getElem?_append_right hk,
        List.getElem?_append_left (by omega)] at hnewline
      rcases List.mem_cons.mp (List.mem_of_getElem? hnewline) with hsemicolon | hmem
      · exact absurd hsemicolon (by decide)
      · exact hbody hmem

/-- A comment goes on to the end of its line. -/
theorem comment_succ (h : Layout p cs shares ls fs) {i : Nat}
    (hkind : shares[i]? = some .comment) (hi : i + 1 < cs.length)
    (hnewline : cs[i + 1]? ≠ some '\n') : shares[i + 1]? = some .comment := by
  obtain ⟨before, source, rest, l, f, rfl, htile, hle, hlt, hall⟩ := h.exists_tile hkind
  by_cases hin : i + 1 < before.length + source.length
  · exact hall _ (by omega) hin
  · have hrest : ∀ c ∈ rest.head?, c = '\n' := by
      cases htile with
      | comment _ hrest => exact hrest
    have hend : (before ++ source).length = i + 1 := by
      rw [List.length_append]
      omega
    have hat : (before ++ (source ++ rest))[i + 1]? = rest.head? := by
      rw [← List.append_assoc, List.getElem?_append_right hend.le, hend, Nat.sub_self,
        List.head?_eq_getElem?]
    obtain ⟨c, hc⟩ : ∃ c, (before ++ (source ++ rest))[i + 1]? = some c :=
      ⟨_, List.getElem?_eq_getElem hi⟩
    have hbreak : c = '\n' := hrest c (hat ▸ hc)
    exact absurd (hbreak ▸ hc) hnewline

theorem comment_of_semicolon (h : Layout p cs shares ls fs) {start i : Nat}
    (hkind : shares[start]? = some .comment) (hle : start ≤ i) (hi : i < cs.length)
    (hline : ∀ k, start ≤ k → k ≤ i → cs[k]? ≠ some '\n') : shares[i]? = some .comment := by
  induction i with
  | zero =>
      obtain rfl := Nat.le_zero.mp hle
      exact hkind
  | succ i ih =>
      rcases Nat.lt_or_eq_of_le hle with hlt | rfl
      · have hbefore := ih (by omega) (by omega) fun k hk hki => hline k hk (by omega)
        exact h.comment_succ hbefore hi (hline _ hle (Nat.le_refl _))
      · exact hkind

end Layout

/-! ### The five shares -/

namespace Share

theorem count_of_not_isReported (text : String) (i : Nat) {share : Share}
    (hshare : share.isReported = false) : count text i share = 0 := by
  cases share with
  | comment | blank => rfl
  | token | unexpected | loneQuote => cases hshare

variable {text : String} {shares : List Share} {i : Nat}
  (h : Layout .origin text.toList shares (lexemes text) (lexFaults text))

include h

theorem count_eq (hi : i < text.toList.length) {share : Share} (hshare : share.isReported = true) :
    count text i share = if shares[i]? = some share then 1 else 0 := by
  refine h.countP_spans hshare ?_
  rw [Position.after, Position.offset_advanceAll, List.length_take, Nat.min_eq_left hi.le]

theorem unreported_iff (hi : i < text.toList.length) :
    Unreported text i ↔ shares[i]? = some .comment ∨ shares[i]? = some .blank := by
  obtain ⟨kind, hkind⟩ : ∃ kind, shares[i]? = some kind :=
    ⟨_, List.getElem?_eq_getElem (h.length_shares ▸ hi)⟩
  constructor
  · intro hunreported
    have hnone : kind.isReported = false := by
      by_contra hreported
      have hcount := count_eq h hi (Bool.not_eq_false _ ▸ hreported)
      rw [hunreported kind, hkind, if_pos rfl] at hcount
      omega
    rw [hkind]
    cases kind with
    | comment => exact .inl rfl
    | blank => exact .inr rfl
    | token | unexpected | loneQuote => nomatch hnone
  · intro hplain share
    by_cases hreported : share.isReported = true
    · rw [count_eq h hi hreported, if_neg]
      rintro hshare
      rcases hplain with hplain | hplain <;>
      · rw [hshare] at hplain
        obtain rfl := Option.some.inj hplain
        nomatch hreported
    · exact count_of_not_isReported text i (by simpa using hreported)

theorem reportedAs_iff (hi : i < text.toList.length) {share : Share}
    (hshare : share.isReported = true) : ReportedAs text i share ↔ shares[i]? = some share := by
  constructor
  · intro honce
    have hone := honce share
    rw [count_eq h hi hshare, if_pos rfl] at hone
    by_contra hnot
    rw [if_neg hnot] at hone
    cases hone
  · intro hat other
    by_cases hreported : other.isReported = true
    · rw [count_eq h hi hreported, hat]
      simp only [Option.some.injEq, eq_comm]
    · have hne : other ≠ share := by
        rintro rfl
        exact hreported hshare
      rw [if_neg hne, count_of_not_isReported text i (by simpa using hreported)]

theorem inComment_iff (hi : i < text.toList.length) :
    InComment text i ↔ shares[i]? = some .comment := by
  constructor
  · rintro ⟨start, hle, hsemicolon, hunreported, hline⟩
    refine h.comment_of_semicolon ?_ hle hi hline
    rcases (unreported_iff h (by omega)).mp hunreported with hcomment | hblank
    · exact hcomment
    · obtain ⟨c, hc, hisBlank⟩ := h.isBlank_of_blank hblank
      rw [hsemicolon] at hc
      obtain rfl := Option.some.inj hc
      nomatch hisBlank
  · intro hcomment
    obtain ⟨start, hle, hsemicolon, hstart, hline⟩ := h.semicolon_of_comment hcomment
    exact ⟨start, hle, hsemicolon, (unreported_iff h (by omega)).mpr (.inl hstart), hline⟩

/-- Each share holds of the characters that stand in its tiles. -/
theorem holds_iff (hi : i < text.toList.length) (share : Share) :
    share.Holds text i ↔ shares[i]? = some share := by
  cases share with
  | token => exact reportedAs_iff h hi rfl
  | unexpected => exact reportedAs_iff h hi rfl
  | loneQuote =>
      rw [Holds, reportedAs_iff h hi rfl]
      exact ⟨And.left, fun hquote => ⟨hquote, h.drop_of_loneQuote hquote⟩⟩
  | comment =>
      rw [Holds, inComment_iff h hi, unreported_iff h hi]
      exact ⟨And.left, fun hcomment => ⟨hcomment, .inl hcomment⟩⟩
  | blank =>
      rw [Holds, unreported_iff h hi, inComment_iff h hi]
      constructor
      · rintro ⟨-, hplain, hcomment⟩
        exact hplain.resolve_left hcomment
      · intro hblank
        refine ⟨h.isBlank_of_blank hblank, .inr hblank, ?_⟩
        rw [hblank]
        nofun

end Share

/-! ### Tokens -/

namespace Layout

variable {p : Position} {cs : List Char} {shares : List Share} {ls : List Lexeme}
  {fs : List LexFault}

/-- No token begins before the one in front of it has ended. -/
theorem pairwise (h : Layout p cs shares ls fs) :
    ls.Pairwise fun l l' => l.span.stop.offset ≤ l'.span.start.offset := by
  induction h with
  | done => exact List.pairwise_singleton _ _
  | @tile p kind source rest shares l ls f fs htile hrest ih =>
      cases htile with
      | blank | comment | unexpected | loneQuote => exact ih
      | token =>
          refine List.pairwise_cons.mpr ⟨?_, ih⟩
          intro l' hl'
          exact hrest.le_start .token _ (List.mem_map_of_mem hl')

/-- The tokens before the end of the file, each with the characters it was read from. -/
theorem exists_tokens (h : Layout p cs shares ls fs) :
    ∃ tokens, ls = tokens ++ [⟨.endOfFile, .empty (p.advanceAll cs)⟩] ∧
      ∀ l ∈ tokens, ∃ before source rest flaw, cs = before ++ (source ++ rest) ∧
        Spells l.token flaw source rest ∧
        l.span = ⟨p.advanceAll before, p.advanceAll (before ++ source)⟩ ∧
        ∀ f ∈ flaw, f.fault l.span source ∈ fs := by
  induction h with
  | done p => exact ⟨[], rfl, by simp⟩
  | @tile p kind source rest shares l ls f fs htile hrest ih =>
      obtain ⟨tokens, rfl, htokens⟩ := ih
      -- the tokens of the later tiles are those of the whole, further on
      have hlater : ∀ t ∈ tokens, ∃ before inner after flaw,
          source ++ rest = before ++ (inner ++ after) ∧ Spells t.token flaw inner after ∧
          t.span = ⟨p.advanceAll before, p.advanceAll (before ++ inner)⟩ ∧
          ∀ g ∈ flaw, g.fault t.span inner ∈ f ++ fs := by
        intro t ht
        obtain ⟨before, inner, after, flaw, rfl, hspells, hspan, hreported⟩ := htokens t ht
        refine ⟨source ++ before, inner, after, flaw, by simp, hspells, ?_, ?_⟩
        · rw [hspan, List.append_assoc]
          simp only [Position.advanceAll_append]
        · intro g hg
          exact List.mem_append_right f (hreported g hg)
      rw [Position.advanceAll_append]
      cases htile with
      | blank | comment | unexpected | loneQuote => exact ⟨tokens, rfl, hlater⟩
      | @token token flaw _ _ hspells =>
          refine ⟨_ :: tokens, rfl, List.forall_mem_cons.mpr ⟨?_, hlater⟩⟩
          refine ⟨[], source, rest, flaw, rfl, hspells, rfl, ?_⟩
          intro g hg
          obtain rfl := Option.mem_def.mp hg
          exact List.mem_append_left fs (List.mem_singleton_self _)

/-- What is reported as unexpected stands in the source, and is unexpected. -/
theorem exists_stretch (h : Layout p cs shares ls fs) {fault : LexFault} (hfault : fault ∈ fs)
    {source : List Char} (hcause : fault.cause = .unexpected source) :
    Stretch source ∧ ∃ before rest, cs = before ++ (source ++ rest) ∧
      fault.span = ⟨p.advanceAll before, p.advanceAll (before ++ source)⟩ := by
  induction h with
  | done => nomatch hfault
  | @tile p kind tile rest shares l ls f fs htile hrest ih =>
      rcases List.mem_append.mp hfault with hfirst | hlater
      · cases htile with
        | blank | comment => nomatch hfirst
        | unexpected hstretch =>
            obtain rfl := List.mem_singleton.mp hfirst
            cases hcause
            exact ⟨hstretch, [], rest, rfl, rfl⟩
        | loneQuote =>
            obtain rfl := List.mem_singleton.mp hfirst
            cases hcause
        | @token token flaw =>
            obtain ⟨flaw, -, rfl⟩ := Option.map_eq_some_iff.mp (Option.mem_toList.mp hfirst)
            cases flaw <;> cases hcause
      · obtain ⟨hstretch, before, after, rfl, hspan⟩ := ih hlater
        refine ⟨hstretch, tile ++ before, after, by simp, ?_⟩
        rw [hspan, List.append_assoc]
        simp only [Position.advanceAll_append]

end Layout

/-- A token says what is written under its span, as far as that goes, and its flaw is reported. -/
structure Lexeme.Reflects (lexeme : Lexeme) (text : String) (flaw : Option Flaw) : Prop where
  spells : Spells lexeme.token flaw (lexeme.span.slice text).toList
    (text.toList.drop lexeme.span.stop.offset)
  reported : ∀ f ∈ flaw, f.fault lexeme.span (lexeme.span.slice text).toList ∈ lexFaults text

namespace Lexer

/-- Call by call, the readings; behind them the last one again, without faults. -/
theorem nth_eq (lexer : Lexer) (k : Nat) :
    (lexer.readings[k]? = some (lexer.nth k)) ∨
      lexer.readings.length ≤ k ∧ (lexer.nth k).faults = [] ∧
        lexer.readings.getLast?.map Reading.lexeme = some (lexer.nth k).lexeme := by
  fun_induction readings lexer generalizing k with
  | case1 lexer hdone =>
      cases k with
      | zero => exact .inl rfl
      | succ k =>
          obtain ⟨hrest, hlexeme⟩ := next_of_endOfFile hdone
          right
          rw [nth, behind, behind_of_rest_nil hrest, next_of_rest_nil hrest]
          exact ⟨by simp, rfl, congrArg some hlexeme⟩
  | case2 lexer hmore ih =>
      cases k with
      | zero => exact .inl rfl
      | succ k =>
          rcases ih k with hat | ⟨hle, hfaults, hlast⟩
          · exact .inl hat
          · right
            obtain ⟨last, hlast, hlexeme⟩ := Option.map_eq_some_iff.mp hlast
            refine ⟨by simpa using hle, hfaults, ?_⟩
            rw [List.getLast?_cons, hlast]
            exact congrArg some hlexeme

theorem lexeme_nth {lexer : Lexer} {tokens : List Lexeme} {last : Lexeme}
    (h : lexer.readings.map Reading.lexeme = tokens ++ [last]) (k : Nat) :
    (lexer.nth k).lexeme = tokens[k]?.getD last ∧
      (tokens.length < k → (lexer.nth k).faults = []) := by
  have hlength : lexer.readings.length = tokens.length + 1 := by
    simpa using congrArg List.length h
  rcases lexer.nth_eq k with hat | ⟨hle, hfaults, hlast⟩
  · have hk : k < lexer.readings.length := (List.getElem?_eq_some_iff.mp hat).1
    have hlexeme : (tokens ++ [last])[k]? = some (lexer.nth k).lexeme := by
      rw [← h, List.getElem?_map, hat]
      rfl
    refine ⟨?_, fun hlt => by omega⟩
    by_cases hin : k < tokens.length
    · rw [List.getElem?_append_left hin] at hlexeme
      rw [hlexeme]
      rfl
    · obtain rfl : k = tokens.length := by omega
      rw [List.getElem?_concat_length] at hlexeme
      rw [List.getElem?_eq_none (Nat.le_refl _)]
      exact (Option.some.inj hlexeme).symm
  · refine ⟨?_, fun _ => hfaults⟩
    rw [← List.getLast?_map, h, List.getLast?_concat] at hlast
    rw [List.getElem?_eq_none (by omega)]
    exact (Option.some.inj hlast).symm

end Lexer

/-- **Reading loses and duplicates nothing.** The tokens end with one end of file, which every
further call gives again. The others are not empty, stand in source order without overlaps and say
what is written under their spans. What is reported as unexpected are characters that begin nothing,
with blanks between them. And every character of the source belongs to exactly one token, stretch of
unexpected characters, lone apostrophe, comment or blank. -/
theorem lexing_loses_nothing (text : String) :
    ∃ tokens : List Lexeme,
      lexemes text = tokens ++ [⟨.endOfFile, .empty (.after text.toList)⟩] ∧
      (∀ k, ((Lexer.ofText text).nth k).lexeme =
          tokens[k]?.getD ⟨.endOfFile, .empty (.after text.toList)⟩ ∧
        (tokens.length < k → ((Lexer.ofText text).nth k).faults = [])) ∧
      (∀ l ∈ tokens, l.token ≠ .endOfFile ∧ l.span.start.offset < l.span.stop.offset ∧
        ∃ flaw, l.Reflects text flaw) ∧
      (tokens.Pairwise fun l l' => l.span.stop.offset ≤ l'.span.start.offset) ∧
      (∀ fault ∈ lexFaults text, ∀ source, fault.cause = .unexpected source →
        Stretch source ∧ (fault.span.slice text).toList = source) ∧
      ∀ i < text.toList.length, ∃! share : Share, share.Holds text i := by
  obtain ⟨shares, hlayout⟩ := tiled_lexemes text
  obtain ⟨tokens, htokens, hspelt⟩ := hlayout.exists_tokens
  refine ⟨tokens, htokens, Lexer.lexeme_nth htokens, ?_, ?_, ?_, ?_⟩
  · intro l hl
    obtain ⟨before, source, rest, flaw, htext, hspells, hspan, hreported⟩ := hspelt l hl
    have hslice : (l.span.slice text).toList = source := hspan ▸ toList_slice htext
    have hstop : l.span.stop.offset = (before ++ source).length := by
      rw [hspan, Position.offset_advanceAll]
      exact Nat.zero_add _
    refine ⟨hspells.ne_endOfFile, ?_, flaw, ?_, ?_⟩
    · have hlength := List.length_pos_iff.mpr hspells.ne_nil
      rw [hspan, Position.offset_advanceAll, Position.offset_advanceAll, List.length_append]
      omega
    · rwa [hslice, hstop, htext, ← List.append_assoc, List.drop_left]
    · rwa [hslice]
  · have hpairwise := hlayout.pairwise
    rw [htokens] at hpairwise
    exact (List.pairwise_append.mp hpairwise).1
  · intro fault hfault source hcause
    obtain ⟨hstretch, before, rest, htext, hspan⟩ := hlayout.exists_stretch hfault hcause
    exact ⟨hstretch, hspan ▸ toList_slice htext⟩
  · intro i hi
    refine ⟨_, (Share.holds_iff hlayout hi _).mpr
      (List.getElem?_eq_getElem (hlayout.length_shares ▸ hi)), ?_⟩
    intro share hshare
    have hat := (Share.holds_iff hlayout hi share).mp hshare
    rw [List.getElem?_eq_getElem (hlayout.length_shares ▸ hi)] at hat
    exact (Option.some.inj hat).symm

/-- A label, a comment, two unexpected characters with a blank between them, and an apostrophe at the
end: the call after the end of the file gives no fault, and the apostrophe is nothing else. -/
theorem lexing_loses_nothing_lone_quote :
    let text := "10$: ;~\n~ é'"
    let label : Lexeme := ⟨.ident "10$", ⟨⟨0, 0, 0⟩, ⟨3, 0, 3⟩⟩⟩
    let fault : LexFault := ⟨⟨⟨8, 1, 0⟩, ⟨11, 1, 3⟩⟩, .unexpected ['~', ' ', 'é']⟩
    ((Lexer.ofText text).nth 4).faults = [] ∧
      (label ∈ lexemes text ∧ ∃ flaw, label.Reflects text flaw) ∧
      (fault ∈ lexFaults text ∧ Stretch ['~', ' ', 'é']) ∧
      11 < text.toList.length ∧ ∀ share : Share, share.Holds text 11 → share = .loneQuote := by
  intro text label fault
  obtain ⟨tokens, htokens, hcalls, hreflects, -, hunexpected, hshares⟩ := lexing_loses_nothing text
  have hlexemes : lexemes text = [label, ⟨.symbol .colon, ⟨⟨3, 0, 3⟩, ⟨4, 0, 4⟩⟩⟩,
      ⟨.endOfLine, ⟨⟨7, 0, 7⟩, ⟨8, 1, 0⟩⟩⟩, ⟨.endOfFile, .empty ⟨12, 1, 4⟩⟩] := by decide +kernel
  have hfaults : lexFaults text = [fault, ⟨⟨⟨11, 1, 3⟩, ⟨12, 1, 4⟩⟩, .unclosedChar⟩] := by
    decide +kernel
  have hlength : tokens.length = 3 := by
    have hall := congrArg List.length htokens
    rw [hlexemes] at hall
    simpa using hall.symm
  have hlabel : label ∈ lexemes text := by
    rw [hlexemes]
    exact List.mem_cons_self
  have htoken : label ∈ tokens := by
    rw [htokens] at hlabel
    rcases List.mem_append.mp hlabel with hmem | hlast
    · exact hmem
    · cases congrArg Lexeme.token (List.mem_singleton.mp hlast)
  have hfault : fault ∈ lexFaults text := by
    rw [hfaults]
    exact List.mem_cons_self
  have honce : Share.ReportedAs text 11 .loneQuote := by
    intro other
    cases other <;> decide +kernel
  have hquote : Share.loneQuote.Holds text 11 := ⟨honce, by decide +kernel⟩
  have hlast : 11 < text.toList.length := by decide
  refine ⟨(hcalls 4).2 (by omega), ⟨hlabel, (hreflects label htoken).2.2⟩,
    ⟨hfault, (hunexpected fault hfault _ rfl).1⟩, hlast, ?_⟩
  intro share hshare
  exact (hshares 11 hlast).unique hshare hquote

end RecipeDesk.Assembler
