import Mathlib.Data.List.DropRight
import Mathlib.Data.List.Induction
import Mathlib.Data.List.TakeWhile
import Mathlib.Data.Nat.Digits.Defs
import RecipeDesk.Assembler.Lexer

/-!
# A source and its tiles

A source is laid out in tiles, one after the other, without gaps and without overlaps: a blank, a
comment, a stretch of unexpected characters, an apostrophe with nothing behind it, or a token. What
each tile is made of is said here without a reader (`Spells`, `Tile`), and `Layout` says what tokens
and what faults a source laid out in this way has.

Reading lays out every source (`tiled_lexemes`). The reader works differently in one respect: it
knows the unexpected characters of a gap only one by one, and reports them together afterwards. That
this is one stretch, with nothing but blanks between its characters, rests on where comments and lone
apostrophes can stand: at the end of a gap only (`Gap.Shape`).
-/

namespace RecipeDesk.Assembler

/-! ### What tokens and fillers are made of -/

/-- The number that decimal digits write. -/
def digitsValue (digits : List Char) : Nat :=
  Nat.ofDigits 10 (digits.reverse.map fun d => d.toNat - '0'.toNat)

/-- The characters that open and close a text. -/
def isQuote (c : Char) : Bool := c = '"' || c = '/' || c = '\''

/-- The characters that begin neither a token nor a comment. -/
def isStray (c : Char) : Bool :=
  !isBlank c && c != ';' && c != '\n' && !isQuote c && !isNameStart c && !c.isDigit &&
    (Symbol.ofChar? c).isNone

/-- The characters that a token is written with when `rest` follows them, and the flaw it then has.
Names and numbers are as long as they can be. -/
inductive Spells : Token → Option Flaw → List Char → List Char → Prop where
  | symbol (mark : Symbol) (rest : List Char) : Spells (.symbol mark) none [mark.char] rest
  | endOfLine (rest : List Char) : Spells .endOfLine none ['\n'] rest
  | name {first : Char} {more rest : List Char} (hfirst : isNameStart first = true)
    (hmore : ∀ c ∈ more, isNameRest c = true) (hrest : ∀ c ∈ rest.head?, isNameRest c = false) :
    Spells (.ident (String.ofList (first :: more))) none (first :: more) rest
  | localLabel {first : Char} {more : List Char} (hfirst : first.isDigit = true)
    (hmore : ∀ c ∈ more, isNumberRest c = true) (rest : List Char) :
    Spells (.ident (String.ofList (first :: more ++ ['$']))) none (first :: more ++ ['$']) rest
  | integer {first : Char} {more rest : List Char} {value : Int64} (hfirst : first.isDigit = true)
    (hmore : ∀ c ∈ more, isNumberRest c = true)
    (hrest : ∀ c ∈ rest.head?, isNumberRest c = false ∧ c ≠ '$')
    (hvalue : value.toInt = digitsValue ((first :: more).takeWhile Char.isDigit)) :
    Spells (.integer value (String.ofList (first :: more))) none (first :: more) rest
  | hugeInteger {first : Char} {more rest : List Char} (hfirst : first.isDigit = true)
    (hmore : ∀ c ∈ more, isNumberRest c = true)
    (hrest : ∀ c ∈ rest.head?, isNumberRest c = false ∧ c ≠ '$')
    (hvalue : 2 ^ 63 ≤ digitsValue ((first :: more).takeWhile Char.isDigit)) :
    Spells (.integer 0 (String.ofList (first :: more))) (some .hugeInteger) (first :: more) rest
  | char (c : Char) (rest : List Char) : Spells (.char c) none ['\'', c] rest
  | text {quote : Char} {content : List Char} (hquote : isQuote quote = true)
    (hcontent : quote ∉ content) (rest : List Char) :
    Spells (.text (String.ofList content)) none (quote :: content ++ [quote]) rest
  | unclosedText {quote : Char} {content : List Char} (hquote : isQuote quote = true)
    (hcontent : quote ∉ content) :
    Spells (.text (String.ofList content)) (some .unclosedText) (quote :: content) []

theorem Spells.ne_nil {token : Token} {flaw : Option Flaw} {source rest : List Char}
    (h : Spells token flaw source rest) : source ≠ [] := by
  cases h <;> simp

theorem Spells.ne_endOfFile {token : Token} {flaw : Option Flaw} {source rest : List Char}
    (h : Spells token flaw source rest) : token ≠ .endOfFile := by
  cases h <;> simp

/-- A stretch of characters that is reported as unexpected: blanks may stand inside, not at the
edges. -/
structure Stretch (source : List Char) : Prop where
  ne_nil : source ≠ []
  chars : ∀ c ∈ source, isBlank c = true ∨ isStray c = true
  first : ∀ c ∈ source.head?, isStray c = true
  last : ∀ c ∈ source.getLast?, isStray c = true

/-- The characters of a filler, when `rest` follows them. -/
inductive Fills : Filler → List Char → List Char → Prop where
  | blank {c : Char} {rest : List Char} (h : isBlank c = true) : Fills .blank [c] rest
  | comment {body rest : List Char} (hbody : '\n' ∉ body) (hrest : ∀ c ∈ rest.head?, c = '\n') :
    Fills .comment (';' :: body) rest
  | stray {c : Char} {rest : List Char} (h : isStray c = true) : Fills .stray [c] rest
  | loneQuote : Fills .loneQuote ['\''] []

/-- The characters of a piece, when `rest` follows them. -/
inductive Takes : Piece → List Char → List Char → Prop where
  | filler {kind : Filler} {source rest : List Char} (h : Fills kind source rest) :
    Takes (.filler kind) source rest
  | token {token : Token} {flaw : Option Flaw} {source rest : List Char}
    (h : Spells token flaw source rest) : Takes (.token token flaw) source rest

theorem decimalValue_eq (digits : List Char) : decimalValue digits = digitsValue digits := by
  induction digits using List.reverseRecOn with
  | nil => rfl
  | append_singleton digits d ih =>
      have hlast : decimalValue (digits ++ [d]) =
          10 * decimalValue digits + (d.toNat - '0'.toNat) := List.foldl_append
      rw [hlast, ih, digitsValue, digitsValue, List.reverse_append, List.reverse_singleton,
        List.singleton_append, List.map_cons, Nat.ofDigits_cons]
      exact Nat.add_comm _ _

theorem Symbol.char_of_ofChar? {c : Char} {mark : Symbol} (h : ofChar? c = some mark) :
    mark.char = c := by
  unfold ofChar? at h
  split at h <;> cases h <;> rfl

/-- A scan stops at a character that it does not look over. -/
theorem eq_false_of_mem_dropWhile {look : Char → Bool} {cs : List Char} {c : Char}
    (h : c ∈ (cs.dropWhile look).head?) : look c = false := by
  have hhead := List.head?_dropWhile_not look cs
  rw [Option.mem_def.mp h] at hhead
  simpa using hhead

theorem eq_of_mem_dropWhile_ne {c d : Char} {cs : List Char}
    (h : d ∈ (cs.dropWhile (· != c)).head?) : d = c := by
  simpa using eq_false_of_mem_dropWhile h

theorem not_mem_takeWhile_ne (c : Char) (cs : List Char) : c ∉ cs.takeWhile (· != c) := by
  intro hmem
  simpa using List.mem_takeWhile_imp hmem

theorem takes_cutText (ascii : Bool) {quote : Char} (hquote : isQuote quote = true)
    (cs : List Char) :
    Takes (cutText ascii quote cs).piece (cutText ascii quote cs).source
      (cutText ascii quote cs).rest := by
  have hcontent := not_mem_takeWhile_ne quote cs
  unfold cutText
  cases htail : cs.dropWhile (· != quote) with
  | nil => exact .token (.unclosedText hquote hcontent)
  | cons close rest =>
      obtain rfl : close = quote := eq_of_mem_dropWhile_ne (by rw [htail]; rfl)
      exact .token (.text hquote hcontent rest)

theorem takes_cutChar (ascii : Bool) (cs : List Char) :
    Takes (cutChar ascii '\'' cs).piece (cutChar ascii '\'' cs).source
      (cutChar ascii '\'' cs).rest := by
  cases cs with
  | nil => exact .filler .loneQuote
  | cons c rest => exact .token (.char c rest)

theorem takes_cutName {c : Char} (hc : isNameStart c = true) (cs : List Char) :
    Takes (cutName c cs).piece (cutName c cs).source (cutName c cs).rest :=
  .token (.name hc (fun _ hmem => List.mem_takeWhile_imp hmem) fun _ => eq_false_of_mem_dropWhile)

theorem takes_integerOf {c : Char} (hc : c.isDigit = true) {digits rest : List Char}
    (hdigits : ∀ d ∈ digits, isNumberRest d = true)
    (hrest : ∀ d ∈ rest.head?, isNumberRest d = false ∧ d ≠ '$') :
    Takes (integerOf (c :: digits)) (c :: digits) rest := by
  unfold integerOf
  rw [decimalValue_eq]
  dsimp only
  split
  · next hfits => exact .token (.integer hc hdigits hrest (Int64.toInt_ofNat_of_lt hfits))
  · next hhuge => exact .token (.hugeInteger hc hdigits hrest (Nat.not_lt.mp hhuge))

theorem takes_cutNumber (ascii : Bool) {c : Char} (hc : c.isDigit = true) (cs : List Char) :
    Takes (cutNumber ascii c cs).piece (cutNumber ascii c cs).source
      (cutNumber ascii c cs).rest := by
  have hdigits : ∀ d ∈ cs.takeWhile isNumberRest, isNumberRest d = true :=
    fun _ hmem => List.mem_takeWhile_imp hmem
  unfold cutNumber
  split
  · exact .token (.localLabel hc hdigits _)
  · next hdollar =>
      refine takes_integerOf hc hdigits fun d hd => ⟨eq_false_of_mem_dropWhile hd, ?_⟩
      rintro rfl
      obtain ⟨rest, hrest⟩ := List.head?_eq_some_iff.mp hd
      exact hdollar rest hrest

/-- What is cut off the front of a source is a piece of it. -/
theorem takes_cut (ascii : Bool) (c : Char) (cs : List Char) :
    Takes (cut ascii c cs).piece (cut ascii c cs).source (cut ascii c cs).rest := by
  unfold cut
  split
  · next hblank => exact .filler (.blank hblank)
  next hblank =>
  split
  · next hsemicolon =>
      subst hsemicolon
      exact .filler (.comment (not_mem_takeWhile_ne '\n' cs) fun _ => eq_of_mem_dropWhile_ne)
  next hsemicolon =>
  split
  · next hline =>
      subst hline
      exact .token (.endOfLine cs)
  next hline =>
  split
  · next hquote => exact takes_cutText ascii (by simpa [isQuote] using Or.inl hquote) cs
  next hquote =>
  split
  · next happ =>
      subst happ
      split
      · exact takes_cutText ascii rfl cs
      · exact takes_cutChar ascii cs
  next happ =>
  split
  · next hname => exact takes_cutName hname cs
  next hname =>
  split
  · next hdigit => exact takes_cutNumber ascii hdigit cs
  next hdigit =>
  split
  · next mark hmark =>
      obtain rfl := Symbol.char_of_ofChar? hmark
      exact .token (.symbol mark cs)
  · next hmark =>
      refine .filler (.stray ?_)
      simp_all [isStray, isQuote]

/-! ### Gaps -/

/-- The fillers of a gap that `rest` follows: blanks and stray characters in any order, and behind
them nothing, a comment or a lone apostrophe. -/
inductive Gap.Shape : Gap → List Char → Prop where
  | nil (rest : List Char) : Shape [] rest
  | comment {body rest : List Char} (hbody : '\n' ∉ body) (hrest : ∀ c ∈ rest.head?, c = '\n') :
    Shape [(.comment, ';' :: body)] rest
  | loneQuote : Shape [(.loneQuote, ['\''])] []
  | blank {c : Char} {gap : Gap} {rest : List Char} (hc : isBlank c = true)
    (h : Shape gap rest) : Shape ((.blank, [c]) :: gap) rest
  | stray {c : Char} {gap : Gap} {rest : List Char} (hc : isStray c = true)
    (h : Shape gap rest) : Shape ((.stray, [c]) :: gap) rest

/-- At the end of a line there is no gap. -/
theorem leap_of_line_end (ascii : Bool) {cs : List Char} (h : ∀ c ∈ cs.head?, c = '\n') :
    (leap ascii cs).gap = [] := by
  cases cs with
  | nil => rw [leap]
  | cons c cs =>
      obtain rfl := h c rfl
      rw [leap]
      rfl

/-- The characters of a token that may be missing. -/
def Leap.tokenSource (leap : Leap) : List Char := (leap.token.map (·.2.2)).getD []

/-- A leap goes over a gap and a token, or over a gap to the end of the source. -/
structure Leap.Covers (leap : Leap) (cs : List Char) : Prop where
  source_eq : leap.gap.source ++ (leap.tokenSource ++ leap.rest) = cs
  shape : leap.gap.Shape (leap.tokenSource ++ leap.rest)
  token : ∀ token flaw source, leap.token = some (token, flaw, source) →
    Spells token flaw source leap.rest
  done : leap.token = none → leap.rest = []

theorem covers_leap (ascii : Bool) (cs : List Char) : (leap ascii cs).Covers cs := by
  fun_induction leap ascii cs with
  | case1 ascii => exact ⟨rfl, .nil _, by simp, fun _ => rfl⟩
  | case2 ascii c cs first token flaw hpiece =>
      have htakes : Takes first.piece first.source first.rest := takes_cut ascii c cs
      rw [hpiece] at htakes
      have hspells : Spells token flaw first.source first.rest := by
        cases htakes with
        | token hspells => exact hspells
      refine ⟨source_append_rest_cut ascii c cs, .nil _, ?_, by simp⟩
      rintro _ _ _ ⟨⟩
      exact hspells
  | case3 ascii c cs first kind hpiece later ih =>
      have htakes : Takes first.piece first.source first.rest := takes_cut ascii c cs
      rw [hpiece] at htakes
      have hfills : Fills kind first.source first.rest := by
        cases htakes with
        | filler hfills => exact hfills
      have hsource : first.source ++ first.rest = c :: cs := source_append_rest_cut ascii c cs
      refine ⟨?_, ?_, ih.token, ih.done⟩
      · have hlater := ih.source_eq
        simp only [Gap.source, List.flatMap_cons, List.append_assoc] at hlater ⊢
        rw [← hsource, ← hlater]
        rfl
      · show Gap.Shape ((kind, first.source) :: later.gap) (later.tokenSource ++ later.rest)
        have hshape : later.gap.Shape (later.tokenSource ++ later.rest) := ih.shape
        -- behind a comment or a lone apostrophe the gap is over
        have hlast (h : ∀ d ∈ first.rest.head?, d = '\n') :
            later.gap = [] ∧ later.tokenSource ++ later.rest = first.rest := by
          have hgap : later.gap = [] := leap_of_line_end first.ascii h
          have heq : later.gap.source ++ (later.tokenSource ++ later.rest) = first.rest :=
            ih.source_eq
          rw [hgap] at heq
          exact ⟨hgap, heq⟩
        generalize first.source = source at hfills ⊢
        generalize first.rest = rest at hfills hlast
        cases hfills with
        | blank hblank => exact .blank hblank hshape
        | stray hstray => exact .stray hstray hshape
        | comment hbody hrest =>
            obtain ⟨hgap, heq⟩ := hlast hrest
            rw [hgap, heq]
            exact .comment hbody hrest
        | loneQuote =>
            obtain ⟨hgap, heq⟩ := hlast (by simp)
            rw [hgap, heq]
            exact .loneQuote

/-! ### Tiles -/

/-- What a character of a source belongs to. -/
inductive Share where
  /-- A token. -/
  | token
  /-- A stretch of unexpected characters. -/
  | unexpected
  /-- An apostrophe with nothing behind it. -/
  | loneQuote
  /-- A comment. -/
  | comment
  /-- A blank. -/
  | blank
deriving DecidableEq, Repr

/-- A tile at a place, its characters and what follows them, with the token and the faults that are
read from it. -/
inductive Tile (p : Position) :
    Share → List Char → List Char → List Lexeme → List LexFault → Prop where
  | blank {c : Char} {rest : List Char} (h : isBlank c = true) : Tile p .blank [c] rest [] []
  | comment {body rest : List Char} (hbody : '\n' ∉ body) (hrest : ∀ c ∈ rest.head?, c = '\n') :
    Tile p .comment (';' :: body) rest [] []
  | unexpected {source rest : List Char} (h : Stretch source) :
    Tile p .unexpected source rest [] [⟨⟨p, p.advanceAll source⟩, .unexpected source⟩]
  | loneQuote :
    Tile p .loneQuote ['\''] [] [] [⟨⟨p, p.advanceAll ['\'']⟩, .unclosedChar⟩]
  | token {token : Token} {flaw : Option Flaw} {source rest : List Char}
    (h : Spells token flaw source rest) :
    Tile p .token source rest [⟨token, ⟨p, p.advanceAll source⟩⟩]
      (flaw.map (·.fault ⟨p, p.advanceAll source⟩ source)).toList

/-- A source from a place on, laid out in tiles, with what each of its characters belongs to, its
tokens and its faults. The end of the file is the last token. -/
inductive Layout :
    Position → List Char → List Share → List Lexeme → List LexFault → Prop where
  | done (p : Position) : Layout p [] [] [⟨.endOfFile, .empty p⟩] []
  | tile {p : Position} {kind : Share} {source rest : List Char} {shares : List Share}
    {l ls : List Lexeme} {f fs : List LexFault} (htile : Tile p kind source rest l f)
    (hrest : Layout (p.advanceAll source) rest shares ls fs) :
    Layout p (source ++ rest) (List.replicate source.length kind ++ shares) (l ++ ls) (f ++ fs)

/-- There is a layout with these tokens and these faults. -/
def Tiled (p : Position) (cs : List Char) (ls : List Lexeme) (fs : List LexFault) : Prop :=
  ∃ shares, Layout p cs shares ls fs

namespace Tiled

theorem done (p : Position) : Tiled p [] [⟨.endOfFile, .empty p⟩] [] := ⟨[], .done p⟩

theorem tile {p : Position} {kind : Share} {source rest : List Char} {l ls : List Lexeme}
    {f fs : List LexFault} (htile : Tile p kind source rest l f)
    (hrest : Tiled (p.advanceAll source) rest ls fs) :
    Tiled p (source ++ rest) (l ++ ls) (f ++ fs) := by
  obtain ⟨shares, hlayout⟩ := hrest
  exact ⟨_, .tile htile hlayout⟩

end Tiled

/-! ### Gaps are laid out -/

theorem rdropWhile_append {α : Type} (keep : α → Bool) (xs ys : List α) :
    (xs ++ ys).rdropWhile keep =
      if (ys.rdropWhile keep).isEmpty then xs.rdropWhile keep else xs ++ ys.rdropWhile keep := by
  simp only [List.rdropWhile, List.reverse_append, List.dropWhile_append, List.isEmpty_reverse]
  split <;> simp

namespace Gap

theorem source_append (gap other : Gap) : source (gap ++ other) = source gap ++ source other :=
  List.flatMap_append

/-- The fault of a lone apostrophe. -/
def quoteFaults (gap : Gap) (p : Position) : List LexFault :=
  let quote := p.advanceAll gap.beforeQuote.source
  if gap.any (·.1 == .loneQuote) then [⟨⟨quote, quote.right 1⟩, .unclosedChar⟩] else []

theorem faults_eq (gap : Gap) (p : Position) :
    gap.faults p = (if gap.strays.isEmpty then [] else
      [⟨⟨p.advanceAll gap.beforeStrays.source,
        (p.advanceAll gap.beforeStrays.source).advanceAll gap.strays.source⟩,
        .unexpected gap.strays.source⟩]) ++ gap.quoteFaults p :=
  rfl

theorem faults_of_no_stray {gap : Gap} (h : ∀ filler ∈ gap, filler.1 ≠ .stray) (p : Position) :
    gap.faults p = gap.quoteFaults p := by
  have hdrop : gap.dropWhile (·.1 != .stray) = [] :=
    List.dropWhile_eq_nil_iff.mpr (by simpa using h)
  have hstrays : gap.strays = [] := by
    unfold strays
    rw [hdrop]
    rfl
  rw [faults_eq, hstrays]
  rfl

theorem quoteFaults_append {gap : Gap} (h : ∀ filler ∈ gap, filler.1 ≠ .loneQuote) (other : Gap)
    (p : Position) :
    quoteFaults (gap ++ other) p = other.quoteFaults (p.advanceAll gap.source) := by
  have hnone : gap.any (·.1 == .loneQuote) = false := by simpa using h
  have hbefore : beforeQuote (gap ++ other) = gap ++ other.beforeQuote :=
    List.takeWhile_append_of_pos (by simpa using h)
  unfold quoteFaults
  rw [List.any_append, hnone, Bool.false_or, hbefore, source_append, Position.advanceAll_append]

/-- A gap without stray characters is laid out in blanks, and a comment or a lone apostrophe. -/
theorem Shape.tiled_of_no_stray {gap : Gap} {rest : List Char} (h : gap.Shape rest)
    (hstray : ∀ filler ∈ gap, filler.1 ≠ .stray) {p : Position} {ls : List Lexeme}
    {fs : List LexFault} (hrest : Tiled (p.advanceAll gap.source) rest ls fs) :
    Tiled p (gap.source ++ rest) ls (gap.quoteFaults p ++ fs) := by
  induction h generalizing p with
  | nil rest => exact hrest
  | comment hbody hhead =>
      simp only [source, List.flatMap_cons, List.flatMap_nil, List.append_nil] at hrest ⊢
      exact .tile (.comment hbody hhead) hrest
  | loneQuote => exact .tile .loneQuote hrest
  | @blank c gap rest hc _ ih =>
      have hkind : ∀ filler ∈ ([(.blank, [c])] : Gap), filler.1 ≠ .loneQuote := by simp
      have hfaults : quoteFaults ((.blank, [c]) :: gap) p = gap.quoteFaults (p.advanceAll [c]) :=
        quoteFaults_append hkind gap p
      rw [hfaults]
      exact .tile (.blank hc) (ih (List.forall_mem_cons.mp hstray).2 hrest)
  | stray => exact absurd rfl (hstray _ List.mem_cons_self)

theorem tiled_of_blanks {gap : Gap}
    (h : ∀ filler ∈ gap, ∃ c, filler = (.blank, [c]) ∧ isBlank c = true) {rest : List Char}
    {p : Position} {ls : List Lexeme} {fs : List LexFault}
    (hrest : Tiled (p.advanceAll gap.source) rest ls fs) : Tiled p (gap.source ++ rest) ls fs := by
  induction gap generalizing p with
  | nil => exact hrest
  | cons filler gap ih =>
      obtain ⟨⟨c, rfl, hc⟩, hgap⟩ := List.forall_mem_cons.mp h
      exact .tile (.blank hc) (ih hgap hrest)

/-- A gap with stray characters: blanks before the first of them, the stretch from the first to the
last, and what follows. -/
structure Strays (gap before strays after : Gap) (rest : List Char) : Prop where
  eq : gap = before ++ (strays ++ after)
  before_eq : gap.beforeStrays = before
  strays_eq : gap.strays = strays
  before_blank : ∀ filler ∈ before, ∃ c, filler = (.blank, [c]) ∧ isBlank c = true
  strays_kind : ∀ filler ∈ strays, filler.1 ≠ .loneQuote
  stretch : Stretch strays.source
  after_kind : ∀ filler ∈ after, filler.1 ≠ .stray
  after_shape : after.Shape rest

theorem Strays.cons_blank {c : Char} {gap before strays after : Gap} {rest : List Char}
    (hc : isBlank c = true) (h : Strays gap before strays after rest) :
    Strays ((.blank, [c]) :: gap) ((.blank, [c]) :: before) strays after rest where
  eq := by rw [h.eq]; rfl
  before_eq := by
    rw [← h.before_eq]
    rfl
  strays_eq := by
    rw [← h.strays_eq]
    rfl
  before_blank := List.forall_mem_cons.mpr ⟨⟨c, rfl, hc⟩, h.before_blank⟩
  strays_kind := h.strays_kind
  stretch := h.stretch
  after_kind := h.after_kind
  after_shape := h.after_shape

/-- One more stray character in front: what was before the stretch now belongs to it. -/
theorem Strays.cons_stray {c : Char} {gap before strays after : Gap} {rest : List Char}
    (hc : isStray c = true) (h : Strays gap before strays after rest) :
    Strays ((.stray, [c]) :: gap) [] ((.stray, [c]) :: (before ++ strays)) after rest := by
  have hne : strays ≠ [] := by
    rintro rfl
    exact h.stretch.ne_nil rfl
  have htrim : gap.rdropWhile (·.1 != .stray) = before ++ strays := by
    have hsplit : before ++ gap.dropWhile (·.1 != .stray) = gap := by
      rw [← h.before_eq]
      exact List.takeWhile_append_dropWhile
    have hstrays : (gap.dropWhile (·.1 != .stray)).rdropWhile (·.1 != .stray) = strays :=
      h.strays_eq
    rw [← hsplit, rdropWhile_append, hstrays, if_neg (by simpa using hne)]
  have hsource : source ((.stray, [c]) :: (before ++ strays)) =
      c :: (source before ++ source strays) := by
    rw [← source_append]
    rfl
  constructor
  · rw [h.eq]
    simp
  · rfl
  · show ((.stray, [c]) :: gap).rdropWhile (·.1 != .stray) = _
    rw [← List.singleton_append, rdropWhile_append, htrim, if_neg (by simp [hne])]
    rfl
  · nofun
  · refine List.forall_mem_cons.mpr ⟨nofun, List.forall_mem_append.mpr ⟨?_, h.strays_kind⟩⟩
    intro filler hfiller
    obtain ⟨b, rfl, -⟩ := h.before_blank filler hfiller
    nofun
  · rw [hsource]
    refine ⟨nofun, ?_, ?_, ?_⟩
    · refine List.forall_mem_cons.mpr ⟨.inr hc, List.forall_mem_append.mpr ⟨?_, h.stretch.chars⟩⟩
      intro d hd
      obtain ⟨filler, hfiller, hmem⟩ := List.mem_flatMap.mp hd
      obtain ⟨b, rfl, hb⟩ := h.before_blank filler hfiller
      obtain rfl := List.mem_singleton.mp hmem
      exact .inl hb
    · rintro d ⟨⟩
      exact hc
    · intro d hd
      refine h.stretch.last d ?_
      rwa [← List.cons_append, List.getLast?_append_of_ne_nil _ h.stretch.ne_nil] at hd
  · exact h.after_kind
  · exact h.after_shape

theorem Strays.singleton {c : Char} {gap : Gap} {rest : List Char} (hc : isStray c = true)
    (hgap : ∀ filler ∈ gap, filler.1 ≠ .stray) (h : gap.Shape rest) :
    Strays ((.stray, [c]) :: gap) [] [(.stray, [c])] gap rest := by
  have htrim : gap.rdropWhile (·.1 != .stray) = [] := by
    rw [List.rdropWhile_eq_nil_iff]
    simpa using hgap
  constructor
  · rfl
  · rfl
  · show ((.stray, [c]) :: gap).rdropWhile (·.1 != .stray) = _
    rw [← List.singleton_append, rdropWhile_append, htrim]
    rfl
  · nofun
  · simp
  · exact ⟨nofun, by simp [source, hc], by simpa [source] using hc, by simpa [source] using hc⟩
  · exact hgap
  · exact h

theorem Shape.exists_strays {gap : Gap} {rest : List Char} (h : gap.Shape rest)
    (hstray : ∃ filler ∈ gap, filler.1 = .stray) :
    ∃ before strays after, Strays gap before strays after rest := by
  induction h with
  | nil => simp at hstray
  | comment => simp at hstray
  | loneQuote => simp at hstray
  | @blank c gap rest hc _ ih =>
      obtain ⟨before, strays, after, hstrays⟩ := ih (by simpa using hstray)
      exact ⟨_, _, _, hstrays.cons_blank hc⟩
  | @stray c gap rest hc hshape ih =>
      by_cases hmore : ∃ filler ∈ gap, filler.1 = .stray
      · obtain ⟨before, strays, after, hstrays⟩ := ih hmore
        exact ⟨_, _, _, hstrays.cons_stray hc⟩
      · have hgap : ∀ filler ∈ gap, filler.1 ≠ .stray := by
          simpa only [not_exists, not_and] using hmore
        exact ⟨_, _, _, .singleton hc hgap hshape⟩

theorem Strays.faults_eq {gap before strays after : Gap} {rest : List Char}
    (h : Strays gap before strays after rest) (p : Position) :
    let start := p.advanceAll before.source
    let stop := start.advanceAll strays.source
    gap.faults p = ⟨⟨start, stop⟩, .unexpected strays.source⟩ :: after.quoteFaults stop := by
  intro start stop
  have hne : strays ≠ [] := by
    rintro rfl
    exact h.stretch.ne_nil rfl
  have hkind : ∀ filler ∈ before ++ strays, filler.1 ≠ .loneQuote := by
    refine List.forall_mem_append.mpr ⟨?_, h.strays_kind⟩
    intro filler hfiller
    obtain ⟨b, rfl, -⟩ := h.before_blank filler hfiller
    nofun
  have hquote : gap.quoteFaults p = after.quoteFaults stop := by
    rw [h.eq, ← List.append_assoc, quoteFaults_append hkind, source_append,
      Position.advanceAll_append]
  rw [gap.faults_eq, hquote, h.strays_eq, h.before_eq, if_neg (by simpa using hne)]
  rfl

/-- Every gap is laid out in tiles. -/
theorem Shape.tiled {gap : Gap} {rest : List Char} (h : gap.Shape rest) {p : Position}
    {ls : List Lexeme} {fs : List LexFault}
    (hrest : Tiled (p.advanceAll gap.source) rest ls fs) :
    Tiled p (gap.source ++ rest) ls (gap.faults p ++ fs) := by
  by_cases hstray : ∃ filler ∈ gap, filler.1 = .stray
  · obtain ⟨before, strays, after, hstrays⟩ := h.exists_strays hstray
    rw [hstrays.faults_eq]
    rw [hstrays.eq] at hrest ⊢
    simp only [source_append, List.append_assoc, Position.advanceAll_append] at hrest ⊢
    have hafter := hstrays.after_shape.tiled_of_no_stray hstrays.after_kind hrest
    exact tiled_of_blanks hstrays.before_blank
      (.tile (.unexpected hstrays.stretch) hafter)
  · have hnone : ∀ filler ∈ gap, filler.1 ≠ .stray := by
      simpa only [not_exists, not_and] using hstray
    rw [faults_of_no_stray hnone]
    exact h.tiled_of_no_stray hnone hrest

end Gap

namespace Lexer

/-- Reading one token lays out a gap and, unless the source ends there, the token behind it. -/
theorem tiled_next (lexer : Lexer) {ls : List Lexeme} {fs : List LexFault}
    (hdone : lexer.next.lexeme.token = .endOfFile → ls = [] ∧ fs = [])
    (hmore : lexer.next.lexeme.token ≠ .endOfFile →
      Tiled lexer.next.after.place lexer.next.after.rest ls fs) :
    Tiled lexer.place lexer.rest (lexer.next.lexeme :: ls) (lexer.next.faults ++ fs) := by
  have hcovers := covers_leap lexer.ascii lexer.rest
  rw [← hcovers.source_eq]
  unfold next at hdone hmore ⊢
  generalize leap lexer.ascii lexer.rest = jump at hcovers hdone hmore ⊢
  obtain ⟨gap, found, rest, ascii⟩ := jump
  have hshape := hcovers.shape
  cases found with
  | none =>
      obtain ⟨rfl, rfl⟩ := hdone rfl
      obtain rfl : rest = [] := hcovers.done rfl
      exact hshape.tiled (.done _)
  | some found =>
      obtain ⟨token, flaw, source⟩ := found
      have hspells : Spells token flaw source rest := hcovers.token token flaw source rfl
      have hrest := hmore hspells.ne_endOfFile
      show Tiled _ _ _ (gap.faults lexer.place ++ _ ++ fs)
      rw [List.append_assoc (gap.faults lexer.place)]
      exact hshape.tiled (.tile (.token hspells) hrest)

theorem tiled_readings (lexer : Lexer) :
    Tiled lexer.place lexer.rest (lexer.readings.map Reading.lexeme)
      (lexer.readings.flatMap Reading.faults) := by
  fun_induction readings lexer with
  | case1 lexer hdone =>
      have htiled := lexer.tiled_next (fun _ => ⟨rfl, rfl⟩) (absurd hdone)
      simpa using htiled
  | case2 lexer hmore ih =>
      exact lexer.tiled_next (fun hdone => absurd hdone hmore) fun _ => ih

end Lexer

/-- Reading lays out every source. -/
theorem tiled_lexemes (text : String) :
    Tiled .origin text.toList (lexemes text) (lexFaults text) :=
  (Lexer.ofText text).tiled_readings

end RecipeDesk.Assembler
