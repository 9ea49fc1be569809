import Mathlib.Data.List.TakeDrop
import Mathlib.Logic.ExistsUnique
import RecipeDesk.Proofs.Assembler.Nodes

/-!
# Where a line goes wrong

A line that cannot be read goes wrong at one place: at the first token with which it is no longer
the beginning of any line that can be read, or behind its last token if there is no such token
(`FaultAt`). The error of the line is reported there, and the number of the line in it is told by
the line breaks of the text before that place (`error_points_at_fault`).

The stages find the place without looking ahead. That they find the right one rests on two facts:
what they have followed can be completed, and what has no step cannot.
-/

namespace RecipeDesk.Assembler

/-- The number of the first token that no line goes on with, when the line has come that far; the
number of all tokens if there is no such token. -/
inductive FaultAt (ls : List Lexeme) : Nat → Prop where
  | token {k : Nat} (hk : k < ls.length) (hfault : ¬ Viable (ls.take (k + 1)))
    (hbefore : ∀ j < k, Viable (ls.take (j + 1))) : FaultAt ls k
  | lineEnd (h : Viable ls) : FaultAt ls ls.length

/-- The beginning of a viable line is viable. -/
theorem Viable.of_isPrefix {ls rs : List Lexeme} (h : Viable rs) (hsub : ls <+: rs) :
    Viable ls := by
  obtain ⟨more, rfl⟩ := hsub
  obtain ⟨rest, hrest⟩ := h
  refine ⟨more ++ rest, ?_⟩
  rwa [← List.append_assoc]

namespace FaultAt

variable {ls : List Lexeme} {j k : Nat}

theorem not_lt (hj : FaultAt ls j) (hk : FaultAt ls k) : ¬ j < k := by
  intro hlt
  cases hj with
  | token _ hfault _ =>
      cases hk with
      | token _ _ hbefore => exact hfault (hbefore j hlt)
      | lineEnd hviable => exact hfault (hviable.of_isPrefix (List.take_prefix _ _))
  | lineEnd _ =>
      cases hk with
      | token hk _ _ => omega
      | lineEnd _ => omega

/-- A line goes wrong at one place only. -/
theorem unique (hj : FaultAt ls j) (hk : FaultAt ls k) : j = k :=
  Nat.le_antisymm (Nat.not_lt.mp (hk.not_lt hj)) (Nat.not_lt.mp (hj.not_lt hk))

/-- The stages stop where the line goes wrong. -/
theorem of_follow (taken left : List Lexeme) {final : Stage}
    (htaken : Stage.start.follow taken = (final, []))
    (hleft : ∀ l ∈ left.head?, final.step l.token = none) :
    FaultAt (taken ++ left) taken.length := by
  have hviable := viable_of_follow htaken
  cases left with
  | nil =>
      rw [List.append_nil]
      exact .lineEnd hviable
  | cons l rest =>
      refine .token (by simp) ?_ ?_
      · have htake : (taken ++ l :: rest).take (taken.length + 1) = taken ++ [l] := by
          simp [List.take_append]
        rw [htake, viable_append_iff htaken, hleft l rfl]
        simp
      · intro j hj
        rw [List.take_append_of_le_length (by omega)]
        exact hviable.of_isPrefix (List.take_prefix _ _)

end FaultAt

theorem parseLine_of_not_accepted {ls : List Lexeme} (h : ¬ Accepted ls) :
    parseLine ls = .error (.ofLine ls) := by
  cases hread : readLine? ls with
  | some statements => exact absurd ⟨statements, parseLine_eq_ok.mpr hread⟩ h
  | none => rw [parseLine, hread]

/-- **A syntax error points at the first token that cannot be continued.** A line that cannot be
read has one error. It names the token where the line goes wrong and lies on that token; where no
token is at fault, it names none and is the empty span behind the last one. For a line of a text,
the line number in it counts the line breaks before that place. -/
theorem error_points_at_fault {ls : List Lexeme} (h : ¬ Accepted ls) :
    ∃ error, parseLine ls = .error error ∧ (∃! k, FaultAt ls k) ∧
      (∀ k, FaultAt ls k →
        (∀ l ∈ ls[k]?, error.span = l.span ∧ error.found = some l.token) ∧
          (k = ls.length → error.found = none ∧
            ∃ last ∈ ls.getLast?, error.span = .empty last.span.stop)) ∧
      ∀ text, ls ∈ tokenLines (lexemes text) →
        error.line = (text.toList.take error.span.start.offset).count '\n' + 1 := by
  have hne : ls ≠ [] := by
    rintro rfl
    exact h LabelsOnly.nil.accepted
  obtain ⟨taken, final, left, rfl, hall, htaken, hleft⟩ := Stage.start.exists_follow ls
  have hfault := FaultAt.of_follow taken left htaken hleft
  obtain ⟨hfound, hspan⟩ := (SyntaxError.isAt_ofLine hall).1
  refine ⟨_, parseLine_of_not_accepted h, ⟨_, hfault, fun j hj => hj.unique hfault⟩, ?_, ?_⟩
  · intro k hk
    obtain rfl := hk.unique hfault
    constructor
    · intro l hl
      rw [hfound, hspan, Option.mem_def.mp hl]
      exact ⟨rfl, rfl⟩
    · intro hend
      have hnone : (taken ++ left)[taken.length]? = none := List.getElem?_eq_none (by omega)
      have hlast := List.getLast?_eq_some_getLast hne
      rw [hfound, hspan, hnone, hlast]
      exact ⟨rfl, _, rfl, rfl⟩
  · intro text hline
    rw [SyntaxError.line, (isIn_ofLine (track_line hline) hne).start.line_eq]

/-- The second line of this text goes wrong at its second comma: only an operand can stand there. -/
theorem error_points_at_fault_second_comma :
    let text := "CLR R0\nMOV R0,, R1\n"
    let comma : Lexeme := ⟨.symbol .comma, ⟨⟨14, 1, 7⟩, ⟨15, 1, 8⟩⟩⟩
    let ls : List Lexeme := [⟨.ident "MOV", ⟨⟨7, 1, 0⟩, ⟨10, 1, 3⟩⟩⟩,
      ⟨.ident "R0", ⟨⟨11, 1, 4⟩, ⟨13, 1, 6⟩⟩⟩, ⟨.symbol .comma, ⟨⟨13, 1, 6⟩, ⟨14, 1, 7⟩⟩⟩, comma,
      ⟨.ident "R1", ⟨⟨16, 1, 9⟩, ⟨18, 1, 11⟩⟩⟩]
    ¬ Accepted ls ∧ ls ∈ tokenLines (lexemes text) ∧ FaultAt ls 3 ∧
      ∃ error, parseLine ls = .error error ∧ error.span = comma.span ∧
        error.found = some (.symbol .comma) ∧ error.line = 2 := by
  intro text comma ls
  have hrejected : ¬ Accepted ls := by
    rw [accepted_iff]
    rintro ⟨_, ⟨⟩, _, ⟨⟩, _, ⟨⟩, _, ⟨⟩, -⟩
  have hlexemes : tokenLines (lexemes text) = [[⟨.ident "CLR", ⟨⟨0, 0, 0⟩, ⟨3, 0, 3⟩⟩⟩,
      ⟨.ident "R0", ⟨⟨4, 0, 4⟩, ⟨6, 0, 6⟩⟩⟩], ls] := by decide +kernel
  have hline : ls ∈ tokenLines (lexemes text) := by
    rw [hlexemes]
    exact List.mem_cons_of_mem _ List.mem_cons_self
  obtain ⟨error, hparse, -, hat, hnumber⟩ := error_points_at_fault hrejected
  have hthree : FaultAt ls 3 :=
    .of_follow [_, _, _] [comma, _] rfl (by rintro _ ⟨⟩; rfl)
  obtain ⟨hspan, hfound⟩ := (hat 3 hthree).1 comma rfl
  refine ⟨hrejected, hline, hthree, error, hparse, hspan, hfound, ?_⟩
  rw [hnumber text hline, hspan]
  decide

end RecipeDesk.Assembler
