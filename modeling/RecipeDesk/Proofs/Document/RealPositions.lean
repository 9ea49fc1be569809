import RecipeDesk.Document.Basic
import RecipeDesk.Proofs.Assembler.Nodes
import RecipeDesk.Proofs.Recipe.Renaming
import RecipeDesk.Proofs.Recipe.Spans

/-!
# Every reported place is a real one

Whatever either language reports about a text, it reports with spans of the text, and the line table
finds both ends of them again, by character number as well as by line and column
(`reported_places_real`). So nothing is lost when an editor is sent lines and columns only: asked
about them, the server is at the same place again (`Snapshot.Sends`).
-/

namespace RecipeDesk

/-- A span between two places that the table finds again, the first not behind the second. -/
structure Lines.HasSpan (lines : Lines) (span : Span) : Prop where
  start : lines.Has span.start
  stop : lines.Has span.stop
  ordered : span.start.offset ≤ span.stop.offset

theorem Lines.hasSpan_of_isIn {text : String} {span : Span} (h : span.IsIn text) :
    (ofText text).HasSpan span :=
  ⟨has_of_isIn h.start, has_of_isIn h.stop, h.ordered⟩

/-- The spans that an editor is sent about a snapshot: those of the diagnostics, the word to be
renamed at a caret, and the words that a renaming replaces. -/
inductive Snapshot.Sends (snapshot : Snapshot) : Span → Prop where
  | diagnostic {d : Diagnostic} (h : d ∈ snapshot.diagnostics) : Sends snapshot d.span
  | target {line column : Nat} {span : Span} {word : String}
    (h : snapshot.renameable? line column = some (span, word)) : Sends snapshot span
  | edit {line column : Nat} {newName : String} {edits : List Edit} {edit : Edit}
    (hrename : snapshot.rename line column newName = .ok (some edits)) (h : edit ∈ edits) :
    Sends snapshot edit.span

namespace Analysis

variable {vocabulary : Vocabulary} {text : String}

theorem isIn_renameable {caret : Position} {span : Span}
    (h : (ofText vocabulary text).renameable? vocabulary caret = some span) : span.IsIn text := by
  unfold renameable? at h
  split at h
  · cases h
  · next location hlocate =>
      split at h
      · cases h
      split at h
      · cases h
      split at h
      · cases h
      split at h
      · obtain ⟨word, hword, rfl⟩ := Option.map_eq_some_iff.mp h
        exact Recipe.isIn_words word (Recipe.mem_words_of_word? hlocate hword)
      · cases h

theorem isIn_rename {caret : Position} {newName : String} {edits : List Edit}
    (h : (ofText vocabulary text).rename caret newName = .ok edits) :
    ∀ edit ∈ edits, edit.span.IsIn text := by
  intro edit hedit
  obtain ⟨-, word, ingredient, -, hget, rfl⟩ := rename_cases h (List.ne_nil_of_mem hedit)
  obtain ⟨w, hw, rfl⟩ := List.mem_map.mp (List.mem_mergeSort.mp hedit)
  exact isIn_index vocabulary text ingredient (List.mem_of_find?_eq_some hget) w hw

end Analysis

theorem Assembler.Listing.isIn_diagnostics (text : String) :
    ∀ d ∈ (ofText text).diagnostics, d.span.IsIn text := by
  intro d hd
  rcases List.mem_append.mp hd with hd | hd
  · obtain ⟨fault, hfault, rfl⟩ := List.mem_map.mp hd
    exact isIn_lexFaults text fault hfault
  · obtain ⟨error, herror, rfl⟩ := List.mem_map.mp hd
    exact isIn_syntaxErrors text error herror

theorem ok_of_map_some {ε α : Type} {x : Except ε α} {a : α}
    (h : x.map some = .ok (some a)) : x = .ok a := by
  cases x with
  | error => cases h
  | ok => cases h; rfl

theorem Snapshot.document_ofDocument (vocabulary : Vocabulary) (document : Document) :
    (ofDocument vocabulary document).document = document := by
  unfold ofDocument
  split <;> rfl

theorem Snapshot.diagnostics_ofDocument (vocabulary : Vocabulary) (document : Document) :
    (ofDocument vocabulary document).diagnostics =
      document.language.check vocabulary document.text := by
  unfold ofDocument Language.check
  cases document.language <;> rfl

/-- What an editor is sent about a document lies in its text. -/
theorem Snapshot.Sends.isIn {vocabulary : Vocabulary} {document : Document} {span : Span}
    (h : (ofDocument vocabulary document).Sends span) : span.IsIn document.text := by
  unfold ofDocument at h
  split at h
  · -- a recipe
    cases h with
    | diagnostic h => exact Analysis.isIn_diagnostics vocabulary document.text _ h
    | target h =>
        obtain ⟨target, htarget, heq⟩ := Option.map_eq_some_iff.mp h
        cases heq
        exact Analysis.isIn_renameable htarget
    | @edit line column newName edits edit hrename h =>
        exact Analysis.isIn_rename (ok_of_map_some hrename) edit h
  · -- a listing, in which nothing can be renamed
    cases h with
    | diagnostic h => exact Assembler.Listing.isIn_diagnostics document.text _ h
    | target h => cases h
    | edit hrename => cases hrename

/-- **Every reported place is a real place of the text.** Both ends of every span of an analysis, of
every token and every fault, of every node of every statement and of every diagnostic are found
again by the line table, and no span runs backward. So an editor that is sent lines and columns, and
asks about them, is answered about the same places. -/
theorem reported_places_real (vocabulary : Vocabulary) (text uri : String) (version : Int) :
    let lines := Lines.ofText text
    let listing := Assembler.Listing.ofText text
    let snapshot := Snapshot.ofDocument vocabulary ⟨uri, version, text⟩
    (∀ span ∈ (Analysis.ofText vocabulary text).spans, lines.HasSpan span) ∧
      (∀ l ∈ Assembler.lexemes text, lines.HasSpan l.span) ∧
      (∀ fault ∈ Assembler.lexFaults text, lines.HasSpan fault.span) ∧
      (∀ statement ∈ listing.statements, ∀ span ∈ statement.spans, lines.HasSpan span) ∧
      (∀ d ∈ listing.diagnostics, lines.HasSpan d.span) ∧
      (∀ span, lines.HasSpan span → span.start.offset + span.length = span.stop.offset) ∧
      ∀ span, snapshot.Sends span →
        snapshot.caret span.start.line span.start.column = span.start ∧
          snapshot.caret span.stop.line span.stop.column = span.stop := by
  intro lines listing snapshot
  refine ⟨?_, ?_, ?_, ?_, ?_, ?_, ?_⟩
  · exact fun span hspan => Lines.hasSpan_of_isIn (Analysis.isIn_spans vocabulary text span hspan)
  · exact fun l hl => Lines.hasSpan_of_isIn ((Assembler.track_lexemes text).isIn l hl)
  · exact fun fault hfault =>
      Lines.hasSpan_of_isIn (Assembler.isIn_lexFaults text fault hfault)
  · exact fun statement hstatement span hspan =>
      Lines.hasSpan_of_isIn (Assembler.isIn_statements text statement hstatement span hspan)
  · exact fun d hd => Lines.hasSpan_of_isIn (Assembler.Listing.isIn_diagnostics text d hd)
  · intro span hspan
    have hordered := hspan.ordered
    rw [Span.length]
    omega
  · intro span hsends
    have hspan := Lines.hasSpan_of_isIn hsends.isIn
    rw [Snapshot.caret, Snapshot.caret, Snapshot.document_ofDocument]
    exact ⟨hspan.start.by_column, hspan.stop.by_column⟩

/-- An accented title and an ingredient declared twice: the second declaration is reported at a
place that line 3, column 0 leads back to. Read as a listing, the same text has an unexpected
character, reported at a real place too. -/
theorem reported_places_real_accented :
    let vocabulary : Vocabulary := ⟨["v"], ["v"], [], [], "i"⟩
    let text := "# é\n## i\nb\nb"
    let span : Span := ⟨⟨11, 3, 0⟩, ⟨12, 3, 1⟩⟩
    let accent : Span := ⟨⟨2, 0, 2⟩, ⟨3, 0, 3⟩⟩
    let snapshot := Snapshot.ofDocument vocabulary ⟨"tarte", 1, text⟩
    (span ∈ (Analysis.ofText vocabulary text).spans ∧ (Lines.ofText text).HasSpan span) ∧
      (⟨accent, .unexpected ['é']⟩ ∈ Assembler.lexFaults text ∧
        (Lines.ofText text).HasSpan accent) ∧
      snapshot.Sends span ∧ snapshot.caret 3 0 = ⟨11, 3, 0⟩ := by
  intro vocabulary text span accent snapshot
  have hdiagnostics : (Analysis.ofText vocabulary text).diagnostics =
      [⟨.error, span, "duplicated ingredient", none⟩] := by decide +kernel
  have hfaults : Assembler.lexFaults text = [⟨accent, .unexpected ['é']⟩] := by decide +kernel
  obtain ⟨hspans, -, hlexFaults, -, -, -, hcaret⟩ :=
    reported_places_real vocabulary text "tarte" 1
  have hmem : span ∈ (Analysis.ofText vocabulary text).spans := by
    refine List.mem_append_right _ ?_
    rw [hdiagnostics]
    exact List.mem_singleton.mpr rfl
  have hfault : ⟨accent, .unexpected ['é']⟩ ∈ Assembler.lexFaults text := by
    rw [hfaults]
    exact List.mem_singleton.mpr rfl
  have hsends : snapshot.Sends span := by
    have hlanguage : Document.language ⟨"tarte", 1, text⟩ = .recipe := by decide
    have hreported : snapshot.diagnostics = [⟨.error, span, "duplicated ingredient", none⟩] := by
      rw [Snapshot.diagnostics_ofDocument, hlanguage]
      exact hdiagnostics
    exact .diagnostic (hreported ▸ List.mem_singleton.mpr rfl)
  exact ⟨⟨hmem, hspans span hmem⟩, ⟨hfault, hlexFaults _ hfault⟩, hsends, (hcaret span hsends).1⟩

end RecipeDesk
