import RecipeDesk.Proofs.Assembler.Stages

/-!
# What a syntax error expects

A line that cannot be read is reported at the token that takes it off every line that can be read,
and the error says what could have stood there. Here both are said without the stages: a line is
`Accepted` if it can be read, and `Viable` if it is the beginning of one that can. The list in the
error is exact (`expected_iff_viable`): it allows a token if and only if the tokens before the fault,
and then that token, are viable.

The stages give all of it, because they accept what the grammar derives, and because from every stage
some line can be completed: so a token without a step is not only unread but ruled out.
-/

namespace RecipeDesk.Assembler

/-- A line that can be read. -/
def Accepted (ls : List Lexeme) : Prop := ∃ statements, parseLine ls = .ok statements

/-- The beginning of a line that can be read. -/
def Viable (ls : List Lexeme) : Prop := ∃ rest, Accepted (ls ++ rest)

/-- Labels and nothing else, or nothing at all. -/
inductive LabelsOnly : List Lexeme → Prop where
  | nil : LabelsOnly []
  | label {ls : List Lexeme} (name : Name) (colon : Span) (h : LabelsOnly ls) :
    LabelsOnly (⟨.ident name.text, name.span⟩ :: ⟨.symbol .colon, colon⟩ :: ls)

/-- The tokens that an expectation allows. -/
def Expectation.covers : Expectation → Token → Bool
  | symbol mark, token => token == .symbol mark
  | endOfLine, _ => false
  | expression, token => token.isAtom
  | identifier, .ident _ => true
  | identifier, _ => false
  | operand, .symbol mark =>
    mark == .sharp || mark == .leftParen || mark == .minus || mark == .atSign
  | operand, token => token.isAtom

/-- The error is reported at the token number `k`, or behind the last token if there is no such
token. -/
structure SyntaxError.IsAt (error : SyntaxError) (ls : List Lexeme) (k : Nat) : Prop where
  found : error.found = ls[k]?.map Lexeme.token
  span : error.span = (ls[k]?.map Lexeme.span).getD
    (.empty ((ls.getLast?.map (·.span.stop)).getD .origin))

namespace Stage

/-! ### What a stage expects -/

/-- What a stage expects is what it has steps for. -/
theorem any_covers_expected (stage : Stage) (token : Token) :
    stage.expected.any (·.covers token) = (stage.step token).isSome := by
  rcases stage with _ | _ | _ | _ | _ | ⟨⟨_ | _, _ | _⟩⟩ | _ | _ | ⟨⟨_ | _, _ | _⟩⟩ <;>
    rcases token with ⟨⟨⟩⟩ | _ | _ | _ | _ | _ | _ <;> rfl

theorem endOfLine_mem_expected_iff (stage : Stage) :
    .endOfLine ∈ stage.expected ↔ stage.mayEnd = true := by
  cases stage <;> simp [expected, mayEnd]

/-- From every stage some line can be completed. -/
theorem exists_accepts (stage : Stage) : ∃ ls, stage.Accepts ls := by
  let name : Lexeme := ⟨.ident "A", .empty .origin⟩
  let closing : Lexeme := ⟨.symbol .rightParen, .empty .origin⟩
  cases stage with
  | start | head | expr | closed => exact ⟨[], rfl⟩
  | operand | minus | factor => exact ⟨[name], _, rfl, rfl⟩
  | paren => exact ⟨[name, closing], _, rfl, _, rfl, rfl⟩
  | register => exact ⟨[closing], _, rfl, rfl⟩

/-! ### Following a line -/

theorem follow_cons_of_some {stage next : Stage} {l : Lexeme}
    (h : stage.step l.token = some next) (ls : List Lexeme) :
    stage.follow (l :: ls) = next.follow ls := by
  rw [follow, h]

theorem follow_cons_of_none {stage : Stage} {l : Lexeme} (h : stage.step l.token = none)
    (ls : List Lexeme) : stage.follow (l :: ls) = (stage, l :: ls) := by
  rw [follow, h]

theorem accepts_append {stage : Stage} {ls rest : List Lexeme} :
    stage.Accepts (ls ++ rest) ↔ ∃ final, stage.follow ls = (final, []) ∧ final.Accepts rest := by
  induction ls generalizing stage with
  | nil => simp [follow]
  | cons l ls ih =>
      cases hstep : stage.step l.token with
      | none => simp [Accepts, follow_cons_of_none hstep, hstep]
      | some next => simp [Accepts, follow_cons_of_some hstep, hstep, ih]

/-- A line is followed up to the first token without a step. -/
theorem exists_follow (stage : Stage) (ls : List Lexeme) :
    ∃ taken final left, ls = taken ++ left ∧ stage.follow ls = (final, left) ∧
      stage.follow taken = (final, []) ∧ ∀ l ∈ left.head?, final.step l.token = none := by
  induction ls generalizing stage with
  | nil => exact ⟨[], stage, [], rfl, rfl, rfl, nofun⟩
  | cons l ls ih =>
      cases hstep : stage.step l.token with
      | none =>
          refine ⟨[], stage, l :: ls, rfl, follow_cons_of_none hstep ls, rfl, ?_⟩
          rintro _ ⟨⟩
          exact hstep
      | some next =>
          obtain ⟨taken, final, left, rfl, hall, htaken, hleft⟩ := ih next
          refine ⟨l :: taken, final, left, rfl, ?_, ?_, hleft⟩
          · rw [follow_cons_of_some hstep, hall]
          · rw [follow_cons_of_some hstep, htaken]

end Stage

/-! ### Accepted and viable lines -/

theorem accepted_iff_derives {ls : List Lexeme} :
    Accepted ls ↔ ∃ statements, DerivesLine ls statements := by
  constructor
  · rintro ⟨statements, h⟩
    exact ⟨statements, readLine?_sound (parseLine_eq_ok.mp h)⟩
  · rintro ⟨statements, h⟩
    obtain ⟨found, hread, -⟩ := readLine?_complete h
    exact ⟨found, parseLine_eq_ok.mpr hread⟩

theorem accepted_iff {ls : List Lexeme} : Accepted ls ↔ Stage.start.Accepts ls :=
  accepted_iff_derives.trans Stage.accepts_start_iff.symm

theorem LabelsOnly.accepted {ls : List Lexeme} (h : LabelsOnly ls) : Accepted ls := by
  rw [accepted_iff_derives]
  induction h with
  | nil => exact ⟨[], .nothing⟩
  | label name colon _ ih =>
      obtain ⟨statements, hline⟩ := ih
      exact ⟨_, .label name colon hline⟩

section Followed

variable {ls : List Lexeme} {final : Stage} (h : Stage.start.follow ls = (final, []))

include h

theorem accepted_append_iff (rest : List Lexeme) : Accepted (ls ++ rest) ↔ final.Accepts rest := by
  rw [accepted_iff, Stage.accepts_append, h]
  simp

theorem viable_of_follow : Viable ls := by
  obtain ⟨rest, hrest⟩ := final.exists_accepts
  exact ⟨rest, (accepted_append_iff h rest).mpr hrest⟩

theorem accepted_iff_mayEnd : Accepted ls ↔ final.mayEnd = true := by
  have hwhole := accepted_append_iff h []
  rwa [List.append_nil] at hwhole

/-- One more token is viable if there is a step over it. -/
theorem viable_append_iff (l : Lexeme) :
    Viable (ls ++ [l]) ↔ (final.step l.token).isSome = true := by
  simp only [Viable, List.append_assoc, List.singleton_append, accepted_append_iff h]
  rw [Option.isSome_iff_exists]
  constructor
  · rintro ⟨rest, next, hstep, -⟩
    exact ⟨next, hstep⟩
  · rintro ⟨next, hstep⟩
    obtain ⟨rest, hrest⟩ := next.exists_accepts
    exact ⟨rest, next, hstep, hrest⟩

end Followed

theorem getElem?_length_append (taken left : List Lexeme) :
    (taken ++ left)[taken.length]? = left.head? := by
  rw [List.getElem?_append_right (Nat.le_refl _), Nat.sub_self, List.head?_eq_getElem?]

/-- The error of a line: where it is, and the stage it tells of. -/
theorem SyntaxError.isAt_ofLine {taken left : List Lexeme} {final : Stage}
    (h : Stage.start.follow (taken ++ left) = (final, left)) :
    (ofLine (taken ++ left)).IsAt (taken ++ left) taken.length ∧
      (ofLine (taken ++ left)).expected = final.expected := by
  have hfault := getElem?_length_append taken left
  unfold ofLine
  rw [h]
  refine ⟨⟨?_, ?_⟩, ?_⟩
  · rw [hfault]
    cases left <;> rfl
  · rw [hfault]
    cases left <;> rfl
  · cases left <;> rfl

/-- **The list in a syntax error is the set of ways to go on.** The error is at the first token that
takes the line off every line that can be read. The tokens before it, followed by a token `t`, begin
a line that can be read if and only if an expectation allows `t`; and the end of the line is expected
if and only if these tokens are a line by themselves. -/
theorem expected_iff_viable {ls : List Lexeme} {error : SyntaxError}
    (h : parseLine ls = .error error) :
    ∃ k ≤ ls.length, error.IsAt ls k ∧ Viable (ls.take k) ∧
      (∀ l ∈ ls[k]?, ¬ Viable (ls.take k ++ [l])) ∧
      (∀ t : Lexeme, Viable (ls.take k ++ [t]) ↔
        ∃ expectation ∈ error.expected, expectation.covers t.token = true) ∧
      (.endOfLine ∈ error.expected ↔ Accepted (ls.take k) ∨ LabelsOnly (ls.take k)) := by
  obtain rfl : error = .ofLine ls := by
    unfold parseLine at h
    split at h <;> cases h
    rfl
  obtain ⟨taken, final, left, rfl, hall, htaken, hleft⟩ := Stage.start.exists_follow ls
  obtain ⟨hat, hexpected⟩ := SyntaxError.isAt_ofLine hall
  have htake : (taken ++ left).take taken.length = taken := List.take_left
  refine ⟨taken.length, by simp, hat, ?_, ?_, ?_, ?_⟩
  · rw [htake]
    exact viable_of_follow htaken
  · intro l hl
    rw [getElem?_length_append] at hl
    rw [htake, viable_append_iff htaken, hleft l hl]
    nofun
  · intro t
    rw [htake, viable_append_iff htaken, hexpected, ← Stage.any_covers_expected, List.any_eq_true]
  · rw [htake, hexpected, Stage.endOfLine_mem_expected_iff, ← accepted_iff_mayEnd htaken]
    exact ⟨Or.inl, fun haccepted => haccepted.elim id LabelsOnly.accepted⟩

/-- `MOV #,`: behind the sharp only an expression can stand. -/
theorem expected_iff_viable_immediate :
    let comma : Span := ⟨⟨5, 0, 5⟩, ⟨6, 0, 6⟩⟩
    let ls : List Lexeme := [⟨.ident "MOV", ⟨⟨0, 0, 0⟩, ⟨3, 0, 3⟩⟩⟩,
      ⟨.symbol .sharp, ⟨⟨4, 0, 4⟩, ⟨5, 0, 5⟩⟩⟩, ⟨.symbol .comma, comma⟩]
    let error : SyntaxError := ⟨comma, [.symbol .minus, .expression], some (.symbol .comma)⟩
    parseLine ls = .error error ∧
      ∃ k ≤ ls.length, error.IsAt ls k ∧ ∀ t : Lexeme, Viable (ls.take k ++ [t]) ↔
        ∃ expectation ∈ error.expected, expectation.covers t.token = true := by
  intro comma ls error
  have hread : readLine? ls = none := by decide +kernel
  have hrejected : parseLine ls = .error error := by
    rw [parseLine, hread]
    rfl
  obtain ⟨k, hk, hat, -, -, hviable, -⟩ := expected_iff_viable hrejected
  exact ⟨hrejected, k, hk, hat, hviable⟩

end RecipeDesk.Assembler
