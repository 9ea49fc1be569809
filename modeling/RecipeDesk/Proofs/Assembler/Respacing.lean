import RecipeDesk.Proofs.Assembler.OneToken

/-!
# Tokens read again from their own text

Take the tokens of a text as they are written there, put single spaces between them, and read the
result: the tokens are the same. What stands between tokens in the first place, blanks, comments and
characters that begin no token, has no say in what any token is.

The argument has two halves, and between them stands a row of written tokens (`WrittenRow`), which
says of each token that it is spelled by its characters alone, with nothing behind them:

* reading any text gives such a row, and the text is the row with gaps between its tokens
  (`exists_row`);
* reading a row with blanks between its tokens gives the row back (`readings_row`).

A row carries the mode from token to token, since an apostrophe is read by it, and a text that is
never closed can only be the last of a row.
-/

namespace RecipeDesk.Assembler

/-! ### Spelling and what follows -/

/-- A token that is spelled in front of something is spelled with nothing behind it. -/
theorem Spells.alone {token : Token} {flaw : Option Flaw} {source rest : List Char}
    (h : Spells token flaw source rest) : Spells token flaw source [] := by
  cases h with
  | symbol mark => exact .symbol mark []
  | endOfLine => exact .endOfLine []
  | name hfirst hmore _ => exact .name hfirst hmore (by simp)
  | localLabel hfirst hmore => exact .localLabel hfirst hmore []
  | integer hfirst hmore _ hvalue => exact .integer hfirst hmore (by simp) hvalue
  | hugeInteger hfirst hmore _ hvalue => exact .hugeInteger hfirst hmore (by simp) hvalue
  | char c => exact .char c []
  | text hquote hcontent => exact .text hquote hcontent []
  | unclosedText hquote hcontent => exact .unclosedText hquote hcontent

/-- A space goes on with no token but a text that is not closed. -/
theorem Spells.before_space {token : Token} {flaw : Option Flaw} {source : List Char}
    (h : Spells token flaw source []) (hclosed : flaw ≠ some .unclosedText) (rest : List Char) :
    Spells token flaw source (' ' :: rest) := by
  have hname : ∀ c ∈ (' ' :: rest).head?, isNameRest c = false := by
    rintro c ⟨⟩
    rfl
  have hnumber : ∀ c ∈ (' ' :: rest).head?, isNumberRest c = false ∧ c ≠ '$' := by
    rintro c ⟨⟩
    decide
  cases h with
  | symbol mark => exact .symbol mark _
  | endOfLine => exact .endOfLine _
  | name hfirst hmore _ => exact .name hfirst hmore hname
  | localLabel hfirst hmore => exact .localLabel hfirst hmore _
  | integer hfirst hmore _ hvalue => exact .integer hfirst hmore hnumber hvalue
  | hugeInteger hfirst hmore _ hvalue => exact .hugeInteger hfirst hmore hnumber hvalue
  | char c => exact .char c _
  | text hquote hcontent => exact .text hquote hcontent _
  | unclosedText => exact absurd rfl hclosed

/-- Behind a text that is not closed the source has ended. -/
theorem Spells.rest_eq_nil {token : Token} {flaw : Option Flaw} {source rest : List Char}
    (h : Spells token flaw source rest) (hopen : flaw = some .unclosedText) : rest = [] := by
  cases h with
  | unclosedText => rfl
  | _ => cases hopen

/-! ### What is spelled is what is cut -/

/-- The characters that are told apart before names and numbers are. -/
def firstMarks : List Char := [' ', '\t', '\r', Char.ofNat 0, ';', '\n', '"', '/', '\'']

/-- A character of a class without these begins a name, a number or a token of one character. -/
theorem cut_of_class (ascii : Bool) {look : Char → Bool} (hlook : firstMarks.any look = false)
    {c : Char} (hc : look c = true) (cs : List Char) :
    (isNameStart c = true → cut ascii c cs = cutName c cs) ∧
      (isNameStart c = false → c.isDigit = true → cut ascii c cs = cutNumber ascii c cs) := by
  have hne : ∀ d ∈ firstMarks, c ≠ d := by
    rintro d hd rfl
    exact List.any_eq_false.mp hlook c hd hc
  simp only [firstMarks, List.forall_mem_cons] at hne
  constructor
  · intro hname
    simp [cut, isBlank, hne, hname]
  · intro hname hdigit
    simp [cut, isBlank, hne, hname, hdigit]

theorem cut_of_isNameStart (ascii : Bool) {c : Char} (hc : isNameStart c = true) (cs : List Char) :
    cut ascii c cs = cutName c cs :=
  (cut_of_class ascii rfl hc cs).1 hc

theorem not_isNameStart_of_isDigit {c : Char} (hc : c.isDigit = true) : isNameStart c = false := by
  have hpoint : c ≠ '.' := by
    rintro rfl
    exact absurd hc (by decide)
  -- the classes are ranges of code points
  have hdigit : (decide (48 ≤ c.toNat) && decide (c.toNat ≤ 57)) = true := hc
  show (decide (65 ≤ c.toNat ∧ c.toNat ≤ 90) || (decide (97 ≤ c.toNat) && decide (c.toNat ≤ 122)) ||
    decide (c = '.')) = false
  simp only [Bool.and_eq_true, decide_eq_true_eq] at hdigit
  simp only [hpoint, decide_false, Bool.or_false, Bool.or_eq_false_iff, Bool.and_eq_false_iff,
    decide_eq_false_iff_not]
  omega

theorem cut_of_isDigit (ascii : Bool) {c : Char} (hc : c.isDigit = true) (cs : List Char) :
    cut ascii c cs = cutNumber ascii c cs :=
  (cut_of_class ascii rfl hc cs).2 (not_isNameStart_of_isDigit hc) hc

/-- A scan that goes over `cs` and stops behind it. -/
theorem scan_eq {look : Char → Bool} {cs rest : List Char} (hcs : ∀ c ∈ cs, look c = true)
    (hrest : ∀ c ∈ rest.head?, look c = false) :
    (cs ++ rest).takeWhile look = cs ∧ (cs ++ rest).dropWhile look = rest := by
  have hstop : rest.takeWhile look = [] ∧ rest.dropWhile look = rest := by
    cases rest with
    | nil => exact ⟨rfl, rfl⟩
    | cons c rest => simp [hrest c rfl]
  rw [List.takeWhile_append_of_pos hcs, List.dropWhile_append_of_pos hcs, hstop.1, hstop.2]
  exact ⟨List.append_nil cs, rfl⟩

theorem cutName_of_name {first : Char} {more rest : List Char}
    (hmore : ∀ c ∈ more, isNameRest c = true) (hrest : ∀ c ∈ rest.head?, isNameRest c = false) :
    (cutName first (more ++ rest)).piece = .token (.ident (String.ofList (first :: more))) none ∧
      (cutName first (more ++ rest)).rest = rest := by
  obtain ⟨htake, hdrop⟩ := scan_eq hmore hrest
  simp only [cutName, htake, hdrop, and_self]

theorem cutNumber_of_localLabel (ascii : Bool) {first : Char} {more : List Char}
    (hmore : ∀ c ∈ more, isNumberRest c = true) (rest : List Char) :
    (cutNumber ascii first (more ++ '$' :: rest)).piece =
        .token (.ident (String.ofList (first :: more ++ ['$']))) none ∧
      (cutNumber ascii first (more ++ '$' :: rest)).rest = rest := by
  have hdollar : ∀ c ∈ ('$' :: rest).head?, isNumberRest c = false := by
    simp only [List.head?_cons, Option.mem_some_iff, forall_eq']
    decide
  obtain ⟨htake, hdrop⟩ := scan_eq hmore hdollar
  simp only [cutNumber, htake, hdrop, and_self]

theorem cutNumber_of_integer (ascii : Bool) {first : Char} {more rest : List Char}
    (hmore : ∀ c ∈ more, isNumberRest c = true)
    (hrest : ∀ c ∈ rest.head?, isNumberRest c = false ∧ c ≠ '$') :
    (cutNumber ascii first (more ++ rest)).piece = integerOf (first :: more) ∧
      (cutNumber ascii first (more ++ rest)).rest = rest := by
  obtain ⟨htake, hdrop⟩ := scan_eq hmore fun c hc => (hrest c hc).1
  unfold cutNumber
  rw [htake, hdrop]
  dsimp only
  split
  · exact absurd rfl (hrest '$' rfl).2
  · exact ⟨rfl, rfl⟩

theorem integerOf_of_value {source : List Char} {value : Int64}
    (hvalue : value.toInt = digitsValue (source.takeWhile Char.isDigit)) :
    integerOf source = .token (.integer value (String.ofList source)) none := by
  have hbound := value.toInt_lt
  have hfits : decimalValue (source.takeWhile Char.isDigit) < 0x8000000000000000 := by
    rw [decimalValue_eq]
    omega
  have heq : Int64.ofNat (decimalValue (source.takeWhile Char.isDigit)) = value := by
    apply Int64.toInt_inj.mp
    rw [Int64.toInt_ofNat_of_lt hfits, hvalue, decimalValue_eq]
  unfold integerOf
  dsimp only
  rw [if_pos hfits, heq]

theorem integerOf_of_huge {source : List Char}
    (hvalue : 2 ^ 63 ≤ digitsValue (source.takeWhile Char.isDigit)) :
    integerOf source = .token (.integer 0 (String.ofList source)) (some .hugeInteger) := by
  unfold integerOf
  rw [decimalValue_eq]
  exact if_neg (Nat.not_lt.mpr hvalue)

theorem cutText_of_text (ascii : Bool) {quote : Char} {content : List Char}
    (hcontent : quote ∉ content) (rest : List Char) :
    (cutText ascii quote (content ++ quote :: rest)).piece =
        .token (.text (String.ofList content)) none ∧
      (cutText ascii quote (content ++ quote :: rest)).rest = rest := by
  have hlook : ∀ c ∈ content, (c != quote) = true := by
    intro c hc
    simpa using ne_of_mem_of_not_mem hc hcontent
  have hstop : ∀ c ∈ (quote :: rest).head?, (c != quote) = false := by simp
  obtain ⟨htake, hdrop⟩ := scan_eq hlook hstop
  simp only [cutText, htake, hdrop, and_self]

theorem cutText_of_unclosed (ascii : Bool) {quote : Char} {content : List Char}
    (hcontent : quote ∉ content) :
    (cutText ascii quote content).piece =
        .token (.text (String.ofList content)) (some .unclosedText) ∧
      (cutText ascii quote content).rest = [] := by
  have hlook : ∀ c ∈ content, (c != quote) = true := by
    intro c hc
    simpa using ne_of_mem_of_not_mem hc hcontent
  have hscan := scan_eq hlook (by simp : ∀ c ∈ ([] : List Char).head?, (c != quote) = false)
  rw [List.append_nil] at hscan
  obtain ⟨htake, hdrop⟩ := hscan
  simp only [cutText, htake, hdrop, and_self]

theorem cut_of_isQuote {ascii : Bool} {quote : Char} (hquote : isQuote quote = true)
    {content : String} {more : List Char} (hopens : Opens ascii (.text content) (quote :: more))
    (cs : List Char) : cut ascii quote cs = cutText ascii quote cs := by
  simp only [isQuote, Bool.or_eq_true, decide_eq_true_eq] at hquote
  rcases hquote with (rfl | rfl) | rfl
  · rfl
  · rfl
  · have hascii : ascii = true := (hopens rfl).mp ⟨content, rfl⟩
    rw [cut_apostrophe, if_pos hascii]

/-- What a token is spelled with is cut off as that token. -/
theorem piece_cut_of_spells {ascii : Bool} {token : Token} {flaw : Option Flaw} {c : Char}
    {cs rest : List Char} (h : Spells token flaw (c :: cs) rest)
    (hopens : Opens ascii token (c :: cs)) :
    (cut ascii c (cs ++ rest)).piece = .token token flaw ∧
      (cut ascii c (cs ++ rest)).rest = rest := by
  generalize hsource : c :: cs = source at h
  cases h with
  | symbol mark =>
      cases hsource
      cases mark <;> exact ⟨rfl, rfl⟩
  | endOfLine =>
      cases hsource
      exact ⟨rfl, rfl⟩
  | name hfirst hmore hrest =>
      cases hsource
      rw [cut_of_isNameStart ascii hfirst]
      exact cutName_of_name hmore hrest
  | localLabel hfirst hmore =>
      rw [List.cons_append, List.cons.injEq] at hsource
      obtain ⟨rfl, rfl⟩ := hsource
      rw [cut_of_isDigit ascii hfirst, List.append_assoc]
      exact cutNumber_of_localLabel ascii hmore rest
  | integer hfirst hmore hrest hvalue =>
      cases hsource
      rw [cut_of_isDigit ascii hfirst, ← integerOf_of_value hvalue]
      exact cutNumber_of_integer ascii hmore hrest
  | hugeInteger hfirst hmore hrest hvalue =>
      cases hsource
      rw [cut_of_isDigit ascii hfirst, ← integerOf_of_huge hvalue]
      exact cutNumber_of_integer ascii hmore hrest
  | char d =>
      cases hsource
      have hascii : ascii = false := by
        simpa using hopens rfl
      rw [cut_apostrophe, hascii]
      exact ⟨rfl, rfl⟩
  | text hquote hcontent =>
      rw [List.cons_append, List.cons.injEq] at hsource
      obtain ⟨rfl, rfl⟩ := hsource
      rw [cut_of_isQuote hquote hopens, List.append_assoc]
      exact cutText_of_text ascii hcontent rest
  | unclosedText hquote hcontent =>
      cases hsource
      rw [cut_of_isQuote hquote hopens, List.append_nil]
      exact cutText_of_unclosed ascii hcontent

theorem cut_of_spells {ascii : Bool} {token : Token} {flaw : Option Flaw} {c : Char}
    {cs rest : List Char} (h : Spells token flaw (c :: cs) rest)
    (hopens : Opens ascii token (c :: cs)) :
    cut ascii c (cs ++ rest) = ⟨.token token flaw, c :: cs, rest, token.settle ascii⟩ := by
  obtain ⟨hpiece, hrest⟩ := piece_cut_of_spells h hopens
  have hwhole := source_append_rest_cut ascii c (cs ++ rest)
  have hmode := ascii_cut ascii c (cs ++ rest)
  rw [hrest, ← List.cons_append] at hwhole
  rw [hpiece] at hmode
  have hsource := List.append_cancel_right hwhole
  generalize cut ascii c (cs ++ rest) = first at hpiece hrest hmode hsource
  obtain ⟨piece, source, rest', mode⟩ := first
  cases hpiece
  cases hrest
  cases hmode
  cases hsource
  rfl

/-! ### Reading one token behind blanks -/

theorem leap_blanks (ascii : Bool) {blanks : List Char} (hblanks : ∀ c ∈ blanks, isBlank c = true)
    (cs : List Char) :
    leap ascii (blanks ++ cs) = { leap ascii cs with
      gap := blanks.map (fun c => (.blank, [c])) ++ (leap ascii cs).gap } := by
  induction blanks with
  | nil => rfl
  | cons c blanks ih =>
      obtain ⟨hc, hmore⟩ := List.forall_mem_cons.mp hblanks
      have hcut : cut ascii c (blanks ++ cs) = ⟨.filler .blank, [c], blanks ++ cs, ascii⟩ := by
        rw [cut, if_pos hc]
      rw [List.cons_append, leap, hcut, ih hmore]
      rfl

theorem leap_of_spells {ascii : Bool} {token : Token} {flaw : Option Flaw}
    {source rest : List Char} (h : Spells token flaw source rest)
    (hopens : Opens ascii token source) :
    leap ascii (source ++ rest) = ⟨[], some (token, flaw, source), rest, token.settle ascii⟩ := by
  cases source with
  | nil => exact absurd rfl h.ne_nil
  | cons c cs => rw [List.cons_append, leap, cut_of_spells h hopens]

/-- Blanks give no faults. -/
theorem Gap.faults_blanks (blanks : List Char) (p : Position) :
    Gap.faults (blanks.map fun c => (.blank, [c])) p = [] := by
  rw [Gap.faults_of_no_stray (by simp), Gap.quoteFaults, if_neg (by simp)]

namespace Lexer

variable {lexer : Lexer} {blanks : List Char}

/-- What the reader makes of blanks and a token behind them. -/
theorem next_of_spells {token : Token} {flaw : Option Flaw} {source rest : List Char}
    (hblanks : ∀ c ∈ blanks, isBlank c = true) (h : Spells token flaw source rest)
    (hopens : Opens lexer.ascii token source) (hrest : lexer.rest = blanks ++ (source ++ rest)) :
    ∃ span, lexer.next = ⟨(flaw.map (·.fault span source)).toList, ⟨token, span⟩,
      ⟨rest, span.stop, token.settle lexer.ascii⟩⟩ := by
  unfold next
  rw [hrest, leap_blanks lexer.ascii hblanks, leap_of_spells h hopens]
  dsimp only
  rw [List.append_nil, Gap.faults_blanks, List.nil_append]
  exact ⟨_, rfl⟩

/-- Nothing but blanks is left. -/
theorem next_of_blanks (hblanks : ∀ c ∈ blanks, isBlank c = true) (hrest : lexer.rest = blanks) :
    lexer.next.faults = [] ∧ lexer.next.lexeme.token = .endOfFile := by
  have hleap : leap lexer.ascii blanks =
      ⟨blanks.map fun c => (.blank, [c]), none, [], lexer.ascii⟩ := by
    simpa [leap] using leap_blanks lexer.ascii hblanks []
  unfold next
  rw [hrest, hleap]
  exact ⟨Gap.faults_blanks blanks lexer.place, rfl⟩

end Lexer

/-! ### Rows of written tokens -/

/-- A token as it is written. -/
structure Written where
  /-- The token. -/
  token : Token
  /-- What is wrong with it. -/
  flaw : Option Flaw
  /-- Its characters. -/
  source : List Char

/-- The cause that a flaw is reported with. -/
def Flaw.cause (source : List Char) : Flaw → LexCause
  | hugeInteger => .hugeInteger (String.ofList source)
  | unclosedText => .unclosedText

theorem Flaw.cause_fault (flaw : Flaw) (span : Span) (source : List Char) :
    (flaw.fault span source).cause = flaw.cause source := by
  cases flaw <;> rfl

/-- What is reported of a written token. -/
def Written.causes (written : Written) : List LexCause :=
  (written.flaw.map (·.cause written.source)).toList

/-- Tokens one after the other, from a mode on. Each of them is spelled by its characters alone, and
behind a text that is not closed there is none. -/
inductive WrittenRow : Bool → List Written → Prop where
  | nil (ascii : Bool) : WrittenRow ascii []
  | cons {ascii : Bool} {written : Written} {row : List Written}
    (hspells : Spells written.token written.flaw written.source [])
    (hopens : Opens ascii written.token written.source)
    (hlast : written.flaw = some .unclosedText → row = [])
    (hrow : WrittenRow (written.token.settle ascii) row) : WrittenRow ascii (written :: row)

/-- The characters of a row, with a space between two tokens. -/
def rowSource (row : List Written) : List Char := [' '].intercalate (row.map Written.source)

/-- In a row that is written out, each token is spelled in front of what follows it. -/
theorem exists_blanks {written : Written} {row : List Written}
    (hspells : Spells written.token written.flaw written.source [])
    (hlast : written.flaw = some .unclosedText → row = []) :
    ∃ blanks : List Char, (∀ c ∈ blanks, isBlank c = true) ∧
      rowSource (written :: row) = written.source ++ (blanks ++ rowSource row) ∧
      Spells written.token written.flaw written.source (blanks ++ rowSource row) := by
  cases row with
  | nil => exact ⟨[], by simp, by simp [rowSource, List.intercalate], hspells⟩
  | cons following row =>
      have hclosed : written.flaw ≠ some .unclosedText := by
        intro hopen
        simpa using hlast hopen
      refine ⟨[' '], List.forall_mem_singleton.mpr rfl, ?_, hspells.before_space hclosed _⟩
      simp [rowSource, List.intercalate]

/-- Reading a row gives the row back, and of each of its tokens what was reported of it. -/
theorem readings_row {ascii : Bool} {row : List Written} (hrow : WrittenRow ascii row)
    (lexer : Lexer) (hascii : lexer.ascii = ascii)
    {blanks : List Char} (hblanks : ∀ c ∈ blanks, isBlank c = true)
    (hrest : lexer.rest = blanks ++ rowSource row) :
    lexer.readings.map (·.lexeme.token) = row.map Written.token ++ [.endOfFile] ∧
      (lexer.readings.flatMap Reading.faults).map LexFault.cause = row.flatMap Written.causes := by
  induction hrow generalizing lexer blanks with
  | nil ascii =>
      obtain ⟨hfaults, htoken⟩ := lexer.next_of_blanks hblanks (by simpa [rowSource] using hrest)
      rw [Lexer.readings, if_pos htoken]
      simp [hfaults, htoken]
  | @cons ascii written row hspells hopens hlast _ ih =>
      subst hascii
      obtain ⟨spaces, hspaces, hsource, hspelled⟩ := exists_blanks hspells hlast
      rw [hsource] at hrest
      obtain ⟨span, hnext⟩ := Lexer.next_of_spells hblanks hspelled hopens hrest
      obtain ⟨htokens, hcauses⟩ := ih lexer.next.after (by rw [hnext]) hspaces (by rw [hnext])
      have hmore : lexer.next.lexeme.token ≠ .endOfFile := by
        rw [hnext]
        exact hspells.ne_endOfFile
      rw [Lexer.readings, if_neg hmore]
      constructor
      · rw [List.map_cons, htokens, hnext]
        rfl
      · rw [List.flatMap_cons, List.map_append, hcauses, hnext, List.flatMap_cons]
        congr 1
        cases hflaw : written.flaw with
        | none => simp [Written.causes, hflaw]
        | some flaw => simp [Written.causes, hflaw, Flaw.cause_fault]

/-! ### The row of a text -/

/-- The causes that concern a token. The others concern what stands between tokens. -/
def LexCause.isFlaw : LexCause → Bool
  | unclosedText | hugeInteger _ => true
  | unexpected _ | unclosedChar => false

theorem Flaw.isFlaw_cause (flaw : Flaw) (source : List Char) :
    (flaw.cause source).isFlaw = true := by
  cases flaw <;> rfl

theorem Gap.filter_faults (gap : Gap) (p : Position) :
    ((gap.faults p).map LexFault.cause).filter LexCause.isFlaw = [] := by
  unfold Gap.faults
  dsimp only
  split <;> split <;> rfl

/-- The characters are those of a row, with a gap before each token and a gap behind the last. -/
inductive Gapped : List Char → List Written → Prop where
  | done {gap : Gap} (hshape : gap.Shape []) : Gapped gap.source []
  | token {gap : Gap} {written : Written} {rest : List Char} {row : List Written}
    (hshape : gap.Shape (written.source ++ rest))
    (hspells : Spells written.token written.flaw written.source rest) (hrest : Gapped rest row) :
    Gapped (gap.source ++ (written.source ++ rest)) (written :: row)

/-- A row holds the tokens that were read from a text, with their characters and their flaws. -/
structure WrittenRowOf (text : String) (readings : List Reading) (row : List Written) : Prop where
  tokens : readings.map (·.lexeme.token) = row.map Written.token ++ [.endOfFile]
  sources : ((readings.map Reading.lexeme).filter (·.token != .endOfFile)).map (·.span.slice text) =
    row.map (String.ofList ·.source)
  causes : ((readings.flatMap Reading.faults).map LexFault.cause).filter LexCause.isFlaw =
    row.flatMap Written.causes

/-- The token that one call of the reader gives, as it is written. -/
theorem Lexer.exists_written {text : String} {lexer : Lexer} (hstands : lexer.StandsIn text)
    (hmore : lexer.next.lexeme.token ≠ .endOfFile) :
    ∃ written : Written, lexer.next.lexeme.token = written.token ∧
      lexer.next.lexeme.span.slice text = String.ofList written.source ∧
      (lexer.next.faults.map LexFault.cause).filter LexCause.isFlaw = written.causes ∧
      Spells written.token written.flaw written.source lexer.next.after.rest ∧
      (∃ gap : Gap, gap.Shape (written.source ++ lexer.next.after.rest) ∧
        lexer.rest = gap.source ++ (written.source ++ lexer.next.after.rest)) ∧
      Opens lexer.ascii written.token written.source ∧
      lexer.next.after.ascii = written.token.settle lexer.ascii := by
  obtain ⟨read, htext, hplace⟩ := hstands
  have hreads := lexer.reads_next
  generalize lexer.next = reading at hreads hmore ⊢
  cases hreads with
  | done => exact absurd rfl hmore
  | @token gap token flaw source rest span hrest hshape hspells hspan hopens =>
      have hcut : text.toList = (read ++ gap.source) ++ (source ++ rest) := by
        rw [htext, hrest, List.append_assoc]
      have hplaces :
          span = ⟨.after (read ++ gap.source), .after (read ++ gap.source ++ source)⟩ := by
        simp [hspan, hplace, Position.after, Position.advanceAll_append]
      refine ⟨⟨token, flaw, source⟩, rfl, ?_, ?_, hspells, ⟨gap, hshape, hrest⟩, hopens, rfl⟩
      · rw [hplaces, ← String.toList_inj, String.toList_ofList]
        exact toList_slice hcut
      · rw [List.map_append, List.filter_append, Gap.filter_faults, List.nil_append]
        cases flaw with
        | none => rfl
        | some flaw => simp [Written.causes, Flaw.cause_fault, Flaw.isFlaw_cause]

/-- Where nothing is left there is no token. -/
theorem Gapped.row_eq_nil {row : List Written} (h : Gapped [] row) : row = [] := by
  generalize hnil : [] = cs at h
  cases h with
  | done => rfl
  | token _ hspells =>
      have hempty := (List.append_eq_nil_iff.mp hnil.symm).2
      exact absurd (List.append_eq_nil_iff.mp hempty).1 hspells.ne_nil

/-- Reading a text gives a row, and the text is that row with gaps. -/
theorem exists_row {text : String} (lexer : Lexer) (hstands : lexer.StandsIn text) :
    ∃ row, WrittenRow lexer.ascii row ∧ WrittenRowOf text lexer.readings row ∧
      Gapped lexer.rest row := by
  fun_induction Lexer.readings lexer with
  | case1 lexer hdone =>
      obtain ⟨hcauses, hgapped⟩ :
          (lexer.next.faults.map LexFault.cause).filter LexCause.isFlaw = [] ∧
            Gapped lexer.rest [] := by
        have hreads := lexer.reads_next
        generalize lexer.next = reading at hreads hdone ⊢
        cases hreads with
        | done hrest hshape => exact ⟨Gap.filter_faults _ _, hrest ▸ .done hshape⟩
        | token _ _ hspells => exact absurd hdone hspells.ne_endOfFile
      exact ⟨[], .nil _, ⟨by simp [hdone], by simp [hdone], by simpa using hcauses⟩, hgapped⟩
  | case2 lexer hmore ih =>
      obtain ⟨row, hrow, hof, hgapped⟩ := ih hstands.next
      obtain ⟨written, htoken, hslice, hcauses, hspells, ⟨gap, hshape, hrest⟩, hopens, hascii⟩ :=
        Lexer.exists_written hstands hmore
      rw [hascii] at hrow
      refine ⟨written :: row, .cons hspells.alone hopens ?_ hrow, ⟨?_, ?_, ?_⟩,
        hrest ▸ .token hshape hspells hgapped⟩
      · intro hopen
        rw [hspells.rest_eq_nil hopen] at hgapped
        exact hgapped.row_eq_nil
      · rw [List.map_cons, hof.tokens, htoken]
        rfl
      · rw [List.map_cons, List.filter_cons_of_pos (by simpa using hmore), List.map_cons,
          hof.sources, hslice]
        rfl
      · rw [List.flatMap_cons, List.map_append, List.filter_append, hof.causes, hcauses]
        rfl

/-! ### Reading again -/

/-- The tokens of a text as they are written there, the end of the file aside. -/
def tokenSources (text : String) : List String :=
  ((lexemes text).filter (·.token != .endOfFile)).map (·.span.slice text)

/-- The tokens of a text as they are written there, with single spaces between them and nothing
else. -/
def respaced (text : String) : String := " ".intercalate (tokenSources text)

/-- An integer that is out of range. -/
def LexCause.isHugeInteger : LexCause → Bool
  | hugeInteger _ => true
  | _ => false

/-- Of the flaws of a row, the text that is not closed comes last, and there is at most one. -/
theorem WrittenRow.causes_eq {ascii : Bool} {row : List Written} (hrow : WrittenRow ascii row) :
    row.flatMap Written.causes = (row.flatMap Written.causes).filter LexCause.isHugeInteger ++
      if .unclosedText ∈ row.flatMap Written.causes then [.unclosedText] else [] := by
  induction hrow with
  | nil => rfl
  | @cons ascii written row hspells hopens hlast _ ih =>
      obtain ⟨token, flaw, source⟩ := written
      cases flaw with
      | none => exact ih
      | some flaw =>
          cases flaw with
          | hugeInteger =>
              have hcauses : Written.causes ⟨token, some .hugeInteger, source⟩ =
                  [.hugeInteger (String.ofList source)] := rfl
              have hmem : .unclosedText ∈ LexCause.hugeInteger (String.ofList source) ::
                  row.flatMap Written.causes ↔ .unclosedText ∈ row.flatMap Written.causes := by
                simp
              rw [List.flatMap_cons, hcauses, List.singleton_append, List.filter_cons_of_pos rfl,
                List.cons_append, if_congr hmem rfl rfl, ← ih]
          | unclosedText =>
              obtain rfl := hlast rfl
              rfl

/-- The flaws of a row, said by all that is reported of its text. -/
theorem WrittenRowOf.causes_eq {text : String} {ascii : Bool} {row : List Written}
    (hrow : WrittenRow ascii row) (hof : WrittenRowOf text (Lexer.ofText text).readings row) :
    row.flatMap Written.causes =
      ((lexFaults text).map LexFault.cause).filter LexCause.isHugeInteger ++
        if .unclosedText ∈ (lexFaults text).map LexFault.cause then [.unclosedText] else [] := by
  have hkept : ((lexFaults text).map LexFault.cause).filter LexCause.isFlaw =
      row.flatMap Written.causes := hof.causes
  have hhuge : ((lexFaults text).map LexFault.cause).filter LexCause.isHugeInteger =
      (row.flatMap Written.causes).filter LexCause.isHugeInteger := by
    rw [← hkept, List.filter_filter]
    congr 1
    funext cause
    cases cause <;> rfl
  have hopen : .unclosedText ∈ (lexFaults text).map LexFault.cause ↔
      .unclosedText ∈ row.flatMap Written.causes := by
    rw [← hkept, List.mem_filter]
    exact (and_iff_left rfl).symm
  rw [hhuge, if_congr hopen rfl rfl, ← hrow.causes_eq]

/-- Tokens do not depend on what stands between them. A text is its tokens with gaps of blanks,
comments and characters that begin no token, and what is reported of the tokens are their flaws. The
respaced text is the same tokens with single spaces, and is read as the same tokens again. Then
nothing is reported but the integers out of range, each as before, and a text that is not closed if
there was one. -/
theorem respaced_tokens_same (text : String) :
    ∃ row : List Written, Gapped text.toList row ∧ (respaced text).toList = rowSource row ∧
      (lexemes text).map Lexeme.token = row.map Written.token ++ [.endOfFile] ∧
      ((lexFaults text).map LexFault.cause).filter LexCause.isFlaw = row.flatMap Written.causes ∧
      (lexemes (respaced text)).map Lexeme.token = (lexemes text).map Lexeme.token ∧
      (lexFaults (respaced text)).map LexFault.cause =
        ((lexFaults text).map LexFault.cause).filter LexCause.isHugeInteger ++
          if .unclosedText ∈ (lexFaults text).map LexFault.cause then [.unclosedText] else [] := by
  obtain ⟨row, hrow, hof, hgapped⟩ :=
    exists_row (Lexer.ofText text) (Lexer.standsIn_ofText text)
  have hsource : (respaced text).toList = rowSource row := by
    have hsources : tokenSources text = row.map (String.ofList ·.source) := hof.sources
    simp [respaced, rowSource, hsources, Function.comp_def]
  obtain ⟨htokens, hcauses⟩ := readings_row hrow (Lexer.ofText (respaced text)) rfl
    (by simp : ∀ c ∈ [], isBlank c = true) hsource
  have hsame (text : String) : (lexemes text).map Lexeme.token =
      (Lexer.ofText text).readings.map (·.lexeme.token) := List.map_map
  refine ⟨row, hgapped, hsource, (hsame text).trans hof.tokens, hof.causes, ?_, ?_⟩
  · rw [hsame, hsame, htokens, hof.tokens]
  · exact hcauses.trans (hof.causes_eq hrow)

end RecipeDesk.Assembler
