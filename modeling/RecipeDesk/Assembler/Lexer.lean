import RecipeDesk.Assembler.Token
import RecipeDesk.Text.Quoted

/-!
# From characters to tokens

The source is cut from the left into pieces, each of at least one character: tokens, and the
fillers between them (blanks, comments, characters that begin no token, and an apostrophe with
nothing behind it). `cut` takes off one piece and hands back the characters it consumed, so the
pieces put together again are the source, and reading always comes to an end.

An apostrophe usually announces a character literal. After the name `.ASCII`, and until the next
name, it delimits a text instead (the *ASCII mode*); a local label such as `10$` is a number with a
mark and leaves the mode as it is.

Faults never stop the reading. The characters of one gap that begin no token are reported
together, from the first to the last of them.
-/

namespace RecipeDesk.Assembler

/-- What fills the space between tokens. -/
inductive Filler where
  /-- A space, tab, carriage return or NUL. -/
  | blank
  /-- From a semicolon up to the end of its line. -/
  | comment
  /-- A character that begins no token. -/
  | stray
  /-- An apostrophe at the very end of the source. -/
  | loneQuote
deriving DecidableEq, Repr, Inhabited

/-- What can be wrong with a token that is read all the same. -/
inductive Flaw where
  /-- The digits exceed the range of a signed 64-bit integer. -/
  | hugeInteger
  /-- A text without closing delimiter. -/
  | unclosedText
deriving DecidableEq, Repr, Inhabited

/-- One piece of the source. -/
inductive Piece where
  /-- No token. -/
  | filler (kind : Filler)
  /-- A token, possibly with a flaw. -/
  | token (token : Token) (flaw : Option Flaw)
deriving DecidableEq, Repr, Inhabited

/-- A piece taken off the front of a source. -/
structure Cut where
  /-- What the piece is. -/
  piece : Piece
  /-- Its characters. -/
  source : List Char
  /-- The characters after it. -/
  rest : List Char
  /-- Whether ASCII mode is on after it. -/
  ascii : Bool
deriving DecidableEq, Repr, Inhabited

/-- Blanks are skipped; a line break is a token. -/
def isBlank (c : Char) : Bool :=
  c = ' ' || c = '\t' || c = '\r' || c = Char.ofNat 0

/-- The characters that begin a name. -/
def isNameStart (c : Char) : Bool := c.isAlpha || c = '.'

/-- The characters that continue a name. -/
def isNameRest (c : Char) : Bool := c.isAlphanum || c = '.'

/-- The characters that continue a number. -/
def isNumberRest (c : Char) : Bool := c.isDigit || c = '.'

/-- The value of a run of decimal digits. -/
def decimalValue (digits : List Char) : Nat :=
  digits.foldl (fun n d => 10 * n + (d.toNat - '0'.toNat)) 0

/-- The name that turns ASCII mode on. -/
def asciiName : String := ".ASCII"

/-- A text that opens with `quote`, up to the next `quote` or to the end of the source. -/
def cutText (ascii : Bool) (quote : Char) (cs : List Char) : Cut :=
  let content := cs.takeWhile (· != quote)
  let token := Token.text (String.ofList content)
  match cs.dropWhile (· != quote) with
  | [] => ⟨.token token (some .unclosedText), quote :: content, [], ascii⟩
  | close :: rest => ⟨.token token none, quote :: content ++ [close], rest, ascii⟩

/-- A character literal: whatever stands after the apostrophe. -/
def cutChar (ascii : Bool) (quote : Char) : List Char → Cut
  | [] => ⟨.filler .loneQuote, [quote], [], ascii⟩
  | c :: rest => ⟨.token (.char c) none, [quote, c], rest, ascii⟩

/-- A name, which settles whether ASCII mode is on. -/
def cutName (c : Char) (cs : List Char) : Cut :=
  let source := c :: cs.takeWhile isNameRest
  let name := String.ofList source
  ⟨.token (.ident name) none, source, cs.dropWhile isNameRest, name == asciiName⟩

/-- An integer as written: the value is that of the digits before the first point, and zero when
they exceed the range. -/
def integerOf (source : List Char) : Piece :=
  let value := decimalValue (source.takeWhile Char.isDigit)
  let raw := String.ofList source
  if value < 0x8000000000000000 then .token (.integer (Int64.ofNat value) raw) none
  else .token (.integer 0 raw) (some .hugeInteger)

/-- An integer, or a local label when a dollar sign follows the digits. -/
def cutNumber (ascii : Bool) (c : Char) (cs : List Char) : Cut :=
  let source := c :: cs.takeWhile isNumberRest
  match cs.dropWhile isNumberRest with
  | '$' :: rest =>
    let label := source ++ ['$']
    ⟨.token (.ident (String.ofList label)) none, label, rest, ascii⟩
  | rest => ⟨integerOf source, source, rest, ascii⟩

/-- The first piece of the source `c :: cs`. -/
def cut (ascii : Bool) (c : Char) (cs : List Char) : Cut :=
  if isBlank c then ⟨.filler .blank, [c], cs, ascii⟩
  else if c = ';' then
    ⟨.filler .comment, c :: cs.takeWhile (· != '\n'), cs.dropWhile (· != '\n'), ascii⟩
  else if c = '\n' then ⟨.token .endOfLine none, [c], cs, ascii⟩
  else if c = '"' || c = '/' then cutText ascii c cs
  else if c = '\'' then if ascii then cutText ascii c cs else cutChar ascii c cs
  else if isNameStart c then cutName c cs
  else if c.isDigit then cutNumber ascii c cs
  else match Symbol.ofChar? c with
    | some mark => ⟨.token (.symbol mark) none, [c], cs, ascii⟩
    | none => ⟨.filler .stray, [c], cs, ascii⟩

/-! ### Nothing is lost, and every piece takes at least one character -/

theorem source_append_rest_cutText (ascii : Bool) (quote : Char) (cs : List Char) :
    (cutText ascii quote cs).source ++ (cutText ascii quote cs).rest = quote :: cs := by
  have whole := List.takeWhile_append_dropWhile (p := (· != quote)) (l := cs)
  unfold cutText
  cases tail : cs.dropWhile (· != quote) with
  | nil => simpa [tail] using whole
  | cons close rest => simpa [tail] using whole

theorem source_append_rest_cutChar (ascii : Bool) (quote : Char) (cs : List Char) :
    (cutChar ascii quote cs).source ++ (cutChar ascii quote cs).rest = quote :: cs := by
  cases cs <;> rfl

theorem source_append_rest_cutName (c : Char) (cs : List Char) :
    (cutName c cs).source ++ (cutName c cs).rest = c :: cs := by
  simp [cutName]

theorem source_append_rest_cutNumber (ascii : Bool) (c : Char) (cs : List Char) :
    (cutNumber ascii c cs).source ++ (cutNumber ascii c cs).rest = c :: cs := by
  have whole := List.takeWhile_append_dropWhile (p := isNumberRest) (l := cs)
  unfold cutNumber
  split
  · next rest tail => rw [tail] at whole; simpa using whole
  · simp

/-- A piece and what follows it are the source it was cut from. -/
theorem source_append_rest_cut (ascii : Bool) (c : Char) (cs : List Char) :
    (cut ascii c cs).source ++ (cut ascii c cs).rest = c :: cs := by
  unfold cut
  split
  · rfl
  split
  · simp
  split
  · rfl
  split
  · exact source_append_rest_cutText ascii c cs
  split
  · split
    · exact source_append_rest_cutText ascii c cs
    · exact source_append_rest_cutChar ascii c cs
  split
  · exact source_append_rest_cutName c cs
  split
  · exact source_append_rest_cutNumber ascii c cs
  split <;> rfl

theorem head?_source_cutText (ascii : Bool) (quote : Char) (cs : List Char) :
    (cutText ascii quote cs).source.head? = some quote := by
  unfold cutText
  split <;> rfl

theorem head?_source_cutChar (ascii : Bool) (quote : Char) (cs : List Char) :
    (cutChar ascii quote cs).source.head? = some quote := by
  cases cs <;> rfl

theorem head?_source_cutNumber (ascii : Bool) (c : Char) (cs : List Char) :
    (cutNumber ascii c cs).source.head? = some c := by
  unfold cutNumber
  split <;> rfl

/-- A piece holds at least the character it was cut at. -/
theorem head?_source_cut (ascii : Bool) (c : Char) (cs : List Char) :
    (cut ascii c cs).source.head? = some c := by
  unfold cut
  split
  · rfl
  split
  · rfl
  split
  · rfl
  split
  · exact head?_source_cutText ascii c cs
  split
  · split
    · exact head?_source_cutText ascii c cs
    · exact head?_source_cutChar ascii c cs
  split
  · rfl
  split
  · exact head?_source_cutNumber ascii c cs
  split <;> rfl

theorem length_rest_cut (ascii : Bool) (c : Char) (cs : List Char) :
    (cut ascii c cs).rest.length < (c :: cs).length := by
  have whole := congrArg List.length (source_append_rest_cut ascii c cs)
  have nonempty : (cut ascii c cs).source ≠ [] := by
    intro none
    simpa [none] using head?_source_cut ascii c cs
  have positive := List.length_pos_iff.mpr nonempty
  simp only [List.length_append] at whole
  omega

/-! ### From one token to the next -/

/-- A stretch of filler with its characters. -/
abbrev Gap := List (Filler × List Char)

namespace Gap

/-- The characters of a gap. -/
def source (gap : Gap) : List Char := gap.flatMap Prod.snd

/-- The part of a gap from its first stray character to its last. -/
def strays (gap : Gap) : Gap :=
  ((gap.dropWhile (·.1 != .stray)).reverse.dropWhile (·.1 != .stray)).reverse

/-- The part of a gap before its first stray character. -/
def beforeStrays (gap : Gap) : Gap := gap.takeWhile (·.1 != .stray)

/-- The part of a gap before an apostrophe with nothing behind it. -/
def beforeQuote (gap : Gap) : Gap := gap.takeWhile (·.1 != .loneQuote)

end Gap

/-- What lies between the present place and the end of the next token. -/
structure Leap where
  /-- The fillers before the token. -/
  gap : Gap
  /-- The token with its flaw and its characters; none at the end of the source. -/
  token : Option (Token × Option Flaw × List Char)
  /-- The characters after the token. -/
  rest : List Char
  /-- Whether ASCII mode is on after the token. -/
  ascii : Bool
deriving DecidableEq, Repr, Inhabited

/-- Skip fillers up to the next token and take that token. -/
def leap (ascii : Bool) : List Char → Leap
  | [] => ⟨[], none, [], ascii⟩
  | c :: cs =>
    let first := cut ascii c cs
    match first.piece with
    | .token token flaw => ⟨[], some (token, flaw, first.source), first.rest, first.ascii⟩
    | .filler kind =>
      let later := leap first.ascii first.rest
      { later with gap := (kind, first.source) :: later.gap }
termination_by cs => cs.length
decreasing_by exact length_rest_cut ascii c cs

theorem length_rest_leap (ascii : Bool) (cs : List Char) (h : (leap ascii cs).token ≠ none) :
    (leap ascii cs).rest.length < cs.length := by
  fun_induction leap ascii cs with
  | case1 => simp at h
  | case2 ascii c cs first token flaw piece => exact length_rest_cut ascii c cs
  | case3 ascii c cs first kind piece later ih =>
    exact Nat.lt_trans (ih h) (length_rest_cut ascii c cs)

/-! ### Faults and readings -/

/-- Why a stretch of source is reported. -/
inductive LexCause where
  /-- Characters that begin no token. -/
  | unexpected (source : List Char)
  /-- An apostrophe at the end of the source. -/
  | unclosedChar
  /-- A text without closing delimiter. -/
  | unclosedText
  /-- An integer out of range. -/
  | hugeInteger (raw : String)
deriving DecidableEq, Repr, Inhabited

/-- The wording of a cause. -/
def LexCause.message : LexCause → String
  | unexpected source => "unexpected characters: " ++ quoted source
  | unclosedChar => "unterminated character literal"
  | unclosedText => "unterminated string"
  | hugeInteger raw => "invalid integer literal: " ++ raw

/-- A reported stretch of source. -/
structure LexFault where
  /-- The stretch. -/
  span : Span
  /-- Why it is reported. -/
  cause : LexCause
deriving DecidableEq, Repr, Inhabited

/-- The faults of a gap that begins at `place`. -/
def Gap.faults (gap : Gap) (place : Position) : List LexFault :=
  let strays := gap.strays.source
  let start := place.advanceAll gap.beforeStrays.source
  let quote := place.advanceAll gap.beforeQuote.source
  (if gap.strays.isEmpty then []
    else [⟨⟨start, start.advanceAll strays⟩, .unexpected strays⟩]) ++
  (if gap.any (·.1 == .loneQuote) then [⟨⟨quote, quote.right 1⟩, .unclosedChar⟩] else [])

/-- The fault that a flawed token gives. -/
def Flaw.fault (span : Span) (source : List Char) : Flaw → LexFault
  | hugeInteger => ⟨span, .hugeInteger (String.ofList source)⟩
  | unclosedText => ⟨span, .unclosedText⟩

/-- A reader in the middle of a source. -/
structure Lexer where
  /-- The characters still to be read. -/
  rest : List Char
  /-- The place they begin at. -/
  place : Position
  /-- Whether ASCII mode is on. -/
  ascii : Bool
deriving DecidableEq, Repr, Inhabited

/-- What reading one token gives. -/
structure Reading where
  /-- The faults met on the way, in source order. -/
  faults : List LexFault
  /-- The token. -/
  lexeme : Lexeme
  /-- The reader behind the token. -/
  after : Lexer
deriving DecidableEq, Repr, Inhabited

namespace Lexer

/-- A reader at the beginning of a source. -/
def ofText (text : String) : Lexer := ⟨text.toList, .origin, false⟩

/-- Read one token. At the end of the source this is the end of file, again and again. -/
def next (lexer : Lexer) : Reading :=
  let leap := leap lexer.ascii lexer.rest
  let start := lexer.place.advanceAll leap.gap.source
  let gapFaults := leap.gap.faults lexer.place
  match leap.token with
  | none => ⟨gapFaults, ⟨.endOfFile, .empty start⟩, ⟨leap.rest, start, leap.ascii⟩⟩
  | some (token, flaw, source) =>
    let span : Span := ⟨start, start.advanceAll source⟩
    ⟨gapFaults ++ (flaw.map (·.fault span source)).toList, ⟨token, span⟩,
      ⟨leap.rest, span.stop, leap.ascii⟩⟩

theorem length_rest_next (lexer : Lexer) (h : lexer.next.lexeme.token ≠ .endOfFile) :
    lexer.next.after.rest.length < lexer.rest.length := by
  cases found : (leap lexer.ascii lexer.rest).token with
  | none => simp [next, found] at h
  | some taken =>
    simpa [next, found] using length_rest_leap lexer.ascii lexer.rest (by simp [found])

/-- Read to the end of the source. The last reading is the end of file. -/
def readings (lexer : Lexer) : List Reading :=
  if lexer.next.lexeme.token = .endOfFile then [lexer.next]
  else lexer.next :: lexer.next.after.readings
termination_by lexer.rest.length
decreasing_by exact length_rest_next lexer ‹_›

end Lexer

/-- The tokens of a source, with the end of file as the last one. -/
def lexemes (text : String) : List Lexeme :=
  (Lexer.ofText text).readings.map Reading.lexeme

/-- The faults of a source, in the order in which they are met. -/
def lexFaults (text : String) : List LexFault :=
  (Lexer.ofText text).readings.flatMap Reading.faults

end RecipeDesk.Assembler
