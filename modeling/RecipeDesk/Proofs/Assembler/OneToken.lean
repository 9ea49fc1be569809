import RecipeDesk.Proofs.Assembler.Tiling
import RecipeDesk.Proofs.Text.LineTable

/-!
# One token at a time

What one call of the reader does, said once (`Lexer.Reads`): it goes over the fillers of a gap and
takes the token behind them, or it comes to the end of the source. With the token comes what it
makes of ASCII mode (`Token.settle`), and which of two things an apostrophe is depends on the mode
that the reader is in.

From call to call the reader stands in its text (`Lexer.StandsIn`): what it has read and what it has
left are the text, and its place is the one behind what it has read.
-/

namespace RecipeDesk.Assembler

/-! ### ASCII mode -/

/-- A local label: a number with a dollar sign behind it. It is an identifier that is no name. -/
def isLocalLabel (identifier : String) : Bool := identifier.toList.getLast? == some '$'

/-- The mode behind a token. Names settle it, and everything else leaves it as it was. -/
def Token.settle (ascii : Bool) : Token → Bool
  | .ident identifier => if isLocalLabel identifier then ascii else identifier == asciiName
  | _ => ascii

/-- The mode behind a piece. -/
def Piece.settle (ascii : Bool) : Piece → Bool
  | .filler _ => ascii
  | .token taken _ => taken.settle ascii

/-- Names have no dollar sign. -/
theorem isLocalLabel_name {c : Char} {cs : List Char} (hc : isNameStart c = true)
    (hcs : ∀ d ∈ cs, isNameRest d = true) : isLocalLabel (String.ofList (c :: cs)) = false := by
  have hdollar : '$' ∉ c :: cs := by
    intro hmem
    rcases List.mem_cons.mp hmem with hfirst | hlater
    · rw [← hfirst] at hc
      exact absurd hc (by decide)
    · exact absurd (hcs _ hlater) (by decide)
  by_contra hlabel
  rw [Bool.not_eq_false, isLocalLabel, String.toList_ofList, beq_iff_eq] at hlabel
  exact hdollar (List.mem_of_getLast? hlabel)

theorem ascii_cutText (ascii : Bool) (quote : Char) (cs : List Char) :
    (cutText ascii quote cs).ascii = (cutText ascii quote cs).piece.settle ascii := by
  unfold cutText
  split <;> rfl

theorem ascii_cutChar (ascii : Bool) (quote : Char) (cs : List Char) :
    (cutChar ascii quote cs).ascii = (cutChar ascii quote cs).piece.settle ascii := by
  cases cs <;> rfl

theorem ascii_cutName (ascii : Bool) {c : Char} (hc : isNameStart c = true) (cs : List Char) :
    (cutName c cs).ascii = (cutName c cs).piece.settle ascii := by
  have hname : isLocalLabel (String.ofList (c :: cs.takeWhile isNameRest)) = false :=
    isLocalLabel_name hc fun _ hmem => List.mem_takeWhile_imp hmem
  show (_ == asciiName) = if isLocalLabel _ then ascii else _ == asciiName
  rw [if_neg (by simpa using hname)]

theorem ascii_cutNumber (ascii : Bool) (c : Char) (cs : List Char) :
    (cutNumber ascii c cs).ascii = (cutNumber ascii c cs).piece.settle ascii := by
  unfold cutNumber
  split
  · have hlabel : isLocalLabel (String.ofList (c :: cs.takeWhile isNumberRest ++ ['$'])) = true := by
      rw [isLocalLabel, String.toList_ofList, List.getLast?_concat, beq_self_eq_true]
    show ascii = if isLocalLabel _ then ascii else _
    rw [if_pos hlabel]
  · unfold integerOf
    dsimp only
    split <;> rfl

/-- Only names change the mode. -/
theorem ascii_cut (ascii : Bool) (c : Char) (cs : List Char) :
    (cut ascii c cs).ascii = (cut ascii c cs).piece.settle ascii := by
  unfold cut
  split
  · rfl
  split
  · rfl
  split
  · rfl
  split
  · exact ascii_cutText ascii c cs
  split
  · split
    · exact ascii_cutText ascii c cs
    · exact ascii_cutChar ascii c cs
  split
  · next hname => exact ascii_cutName ascii hname cs
  split
  · exact ascii_cutNumber ascii c cs
  split <;> rfl

/-- An apostrophe opens a text in ASCII mode, and announces a character otherwise. -/
theorem cut_apostrophe (ascii : Bool) (cs : List Char) :
    cut ascii '\'' cs = if ascii then cutText ascii '\'' cs else cutChar ascii '\'' cs :=
  rfl

theorem piece_cutText (ascii : Bool) (quote : Char) (cs : List Char) :
    ∃ content flaw, (cutText ascii quote cs).piece = .token (.text content) flaw := by
  unfold cutText
  split <;> exact ⟨_, _, rfl⟩

/-- An apostrophe that begins a token opens a text where the mode says so. -/
def Opens (ascii : Bool) (token : Token) (source : List Char) : Prop :=
  source.head? = some '\'' → ((∃ content, token = .text content) ↔ ascii = true)

theorem opens_cut {ascii : Bool} {c : Char} {cs : List Char} {token : Token} {flaw : Option Flaw}
    (hpiece : (cut ascii c cs).piece = .token token flaw) :
    Opens ascii token (cut ascii c cs).source := by
  intro hquote
  rw [head?_source_cut] at hquote
  obtain rfl := Option.some.inj hquote
  rw [cut_apostrophe] at hpiece
  cases ascii with
  | true =>
      obtain ⟨content, flaw', htext⟩ := piece_cutText true '\'' cs
      cases htext.symm.trans hpiece
      simp
  | false =>
      cases cs with
      | nil => cases hpiece
      | cons d cs =>
          cases hpiece
          simp

/-- An apostrophe is left alone outside ASCII mode only. -/
theorem ascii_of_cut_loneQuote {ascii : Bool} {c : Char} {cs : List Char}
    (hpiece : (cut ascii c cs).piece = .filler .loneQuote) : ascii = false := by
  have htakes := takes_cut ascii c cs
  rw [hpiece] at htakes
  have hhead := head?_source_cut ascii c cs
  obtain rfl : c = '\'' := by
    generalize (cut ascii c cs).source = source at htakes hhead
    generalize (cut ascii c cs).rest = rest at htakes
    cases htakes with
    | filler hfills =>
        cases hfills
        exact (Option.some.inj hhead).symm
  rw [cut_apostrophe] at hpiece
  cases ascii with
  | true =>
      obtain ⟨content, flaw, htext⟩ := piece_cutText true '\'' cs
      cases htext.symm.trans hpiece
  | false => rfl

/-- What a leap makes of the mode, and the mode of what it meets. -/
structure Leap.Settles (ascii : Bool) (leap : Leap) : Prop where
  after : leap.ascii = leap.token.elim ascii fun found => found.1.settle ascii
  opens : ∀ token flaw source, leap.token = some (token, flaw, source) → Opens ascii token source
  lone : (∃ filler ∈ leap.gap, filler.1 = .loneQuote) → ascii = false

theorem settles_leap (ascii : Bool) (cs : List Char) : (leap ascii cs).Settles ascii := by
  fun_induction leap ascii cs with
  | case1 ascii => exact ⟨rfl, by simp, by simp⟩
  | case2 ascii c cs first token flaw hpiece =>
      have hascii : first.ascii = first.piece.settle ascii := ascii_cut ascii c cs
      rw [hpiece] at hascii
      refine ⟨hascii, ?_, by simp⟩
      intro token' flaw' source' htoken
      cases htoken
      exact opens_cut hpiece
  | case3 ascii c cs first kind hpiece later ih =>
      have hascii : first.ascii = first.piece.settle ascii := ascii_cut ascii c cs
      rw [hpiece] at hascii
      have hsame : first.ascii = ascii := hascii
      have hlater : later.Settles first.ascii := ih
      rw [hsame] at hlater
      refine ⟨hlater.after, hlater.opens, ?_⟩
      intro hlone
      obtain ⟨filler, hfiller, hkind⟩ := hlone
      rcases List.mem_cons.mp hfiller with hfirst | hmore
      · subst hfirst
        obtain rfl : kind = .loneQuote := hkind
        exact ascii_of_cut_loneQuote hpiece
      · exact hlater.lone ⟨filler, hmore, hkind⟩

/-! ### One call -/

/-- What one call of a reader gives. -/
inductive Lexer.Reads (lexer : Lexer) : Reading → Prop where
  /-- Nothing but fillers is left. -/
  | done {gap : Gap} (hrest : lexer.rest = gap.source) (hshape : gap.Shape [])
    (hlone : (∃ filler ∈ gap, filler.1 = .loneQuote) → lexer.ascii = false) :
    Reads lexer ⟨gap.faults lexer.place,
      ⟨.endOfFile, .empty (lexer.place.advanceAll gap.source)⟩,
      ⟨[], lexer.place.advanceAll gap.source, lexer.ascii⟩⟩
  /-- Behind the fillers stands a token. -/
  | token {gap : Gap} {token : Token} {flaw : Option Flaw} {source rest : List Char} {span : Span}
    (hrest : lexer.rest = gap.source ++ (source ++ rest)) (hshape : gap.Shape (source ++ rest))
    (hspells : Spells token flaw source rest)
    (hspan : span = ⟨lexer.place.advanceAll gap.source,
      (lexer.place.advanceAll gap.source).advanceAll source⟩)
    (hopens : Opens lexer.ascii token source) :
    Reads lexer ⟨gap.faults lexer.place ++ (flaw.map (·.fault span source)).toList, ⟨token, span⟩,
      ⟨rest, span.stop, token.settle lexer.ascii⟩⟩

namespace Lexer

theorem reads_next (lexer : Lexer) : lexer.Reads lexer.next := by
  have hcovers := covers_leap lexer.ascii lexer.rest
  have hsettles := settles_leap lexer.ascii lexer.rest
  unfold next
  generalize leap lexer.ascii lexer.rest = jump at hcovers hsettles ⊢
  obtain ⟨gap, found, rest, ascii⟩ := jump
  cases found with
  | none =>
      obtain rfl : rest = [] := hcovers.done rfl
      obtain rfl : ascii = lexer.ascii := hsettles.after
      refine .done ?_ hcovers.shape hsettles.lone
      simpa [Leap.tokenSource] using hcovers.source_eq.symm
  | some found =>
      obtain ⟨token, flaw, source⟩ := found
      obtain rfl : ascii = token.settle lexer.ascii := hsettles.after
      exact .token hcovers.source_eq.symm hcovers.shape (hcovers.token token flaw source rfl) rfl
        (hsettles.opens token flaw source rfl)

/-- The reader goes on where its last token ended. -/
theorem place_after_next (lexer : Lexer) :
    lexer.next.after.place = lexer.next.lexeme.span.stop := by
  have hreads := lexer.reads_next
  generalize lexer.next = reading at hreads ⊢
  cases hreads <;> rfl

/-- The reader behind `k` tokens. -/
def behind (lexer : Lexer) : Nat → Lexer
  | 0 => lexer
  | k + 1 => lexer.next.after.behind k

/-- The reading that the call number `k` gives. -/
def nth (lexer : Lexer) (k : Nat) : Reading := (lexer.behind k).next

theorem next_of_rest_nil {lexer : Lexer} (h : lexer.rest = []) :
    lexer.next = ⟨[], ⟨.endOfFile, .empty lexer.place⟩, lexer⟩ := by
  obtain ⟨rest, place, ascii⟩ := lexer
  obtain rfl : rest = [] := h
  rw [next, leap]
  rfl

/-- At the end of the source the reader stays. -/
theorem behind_of_rest_nil {lexer : Lexer} (h : lexer.rest = []) (k : Nat) :
    lexer.behind k = lexer := by
  induction k with
  | zero => rfl
  | succ k ih =>
      rw [behind, next_of_rest_nil h]
      exact ih

/-- At the end of the file the reader stands at the end of the source. -/
theorem next_of_endOfFile {lexer : Lexer} (h : lexer.next.lexeme.token = .endOfFile) :
    lexer.next.after.rest = [] ∧
      lexer.next.lexeme = ⟨.endOfFile, .empty lexer.next.after.place⟩ := by
  have hreads := lexer.reads_next
  generalize lexer.next = reading at hreads h ⊢
  cases hreads with
  | done => exact ⟨rfl, rfl⟩
  | token _ _ hspells => exact absurd h hspells.ne_endOfFile

/-- The reader is in the middle of a text: what it has read and what is left make up the text. -/
def StandsIn (text : String) (lexer : Lexer) : Prop :=
  ∃ read, text.toList = read ++ lexer.rest ∧ lexer.place = .after read

theorem standsIn_ofText (text : String) : (ofText text).StandsIn text := ⟨[], rfl, rfl⟩

theorem StandsIn.next {text : String} {lexer : Lexer} (h : lexer.StandsIn text) :
    lexer.next.after.StandsIn text := by
  obtain ⟨read, htext, hplace⟩ := h
  have hreads := lexer.reads_next
  generalize lexer.next = reading at hreads ⊢
  cases hreads with
  | @done gap hrest =>
      refine ⟨read ++ gap.source, ?_, ?_⟩
      · simp [htext, hrest]
      · simp [hplace, Position.after, Position.advanceAll_append]
  | @token gap token flaw source rest span hrest _ _ hspan =>
      refine ⟨read ++ (gap.source ++ source), ?_, ?_⟩
      · simp [htext, hrest]
      · simp [hspan, hplace, Position.after, Position.advanceAll_append]

end Lexer

end RecipeDesk.Assembler
