import RecipeDesk.Text.Position

/-!
# Diagnostics

What either language reports about a text: how serious it is, where, and in which words. Reports
are ordered for display by where they begin, then by where they end, then by severity, and keep
their order among equals.
-/

namespace RecipeDesk

/-- How serious a diagnostic is, the most serious first. -/
inductive Severity where
  /-- The text is wrong. -/
  | error
  /-- The text is suspicious. -/
  | warning
  /-- Worth knowing. -/
  | information
  /-- A suggestion. -/
  | hint
deriving DecidableEq, Repr, Inhabited

namespace Severity

/-- The place of a severity in the order, from one. -/
def rank : Severity → Nat
  | error => 1
  | warning => 2
  | information => 3
  | hint => 4

/-- The word before a message. -/
def display : Severity → String
  | error => "error"
  | warning => "warning"
  | information => "info"
  | hint => "hint"

end Severity

/-- A report about a stretch of text. -/
structure Diagnostic where
  /-- How serious it is. -/
  severity : Severity
  /-- What it is about. -/
  span : Span
  /-- What it says. -/
  message : String
  /-- What to write at the underlined stretch instead of the message. -/
  label : Option String := none
deriving DecidableEq, Repr, Inhabited

namespace Diagnostic

/-- Severity and message in one line. -/
def display (d : Diagnostic) : String := d.severity.display ++ ": " ++ d.message

/-- Span, severity and message in one line. -/
def displayWithSpan (d : Diagnostic) : String := d.span.display ++ " " ++ d.display

/-- Whether `d` may stand before `e` for display. -/
def precedes (d e : Diagnostic) : Bool :=
  if d.span.start ≠ e.span.start then d.span.start.precedes e.span.start
  else if d.span.stop ≠ e.span.stop then d.span.stop.precedes e.span.stop
  else d.severity.rank ≤ e.severity.rank

/-- Diagnostics in the order for display. -/
def sort (ds : List Diagnostic) : List Diagnostic := ds.mergeSort precedes

/-- Number of diagnostics of one severity. -/
def count (severity : Severity) (ds : List Diagnostic) : Nat :=
  ds.countP fun d => d.severity == severity

end Diagnostic

end RecipeDesk
