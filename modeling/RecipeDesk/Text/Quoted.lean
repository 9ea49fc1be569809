import RecipeDesk.Text.Unprintable

/-!
# Quoted text

The form in which a report quotes characters of the source: between double quotes, with a
backslash before a quote or backslash, the usual short escapes for tab, carriage return, line feed
and NUL, and every character that cannot be shown as itself written by its number in hexadecimal.
-/

namespace RecipeDesk

namespace Quoted

/-- The characters that stand for `c` inside quotes. -/
def escape (c : Char) : List Char :=
  if c = Char.ofNat 0 then ['\\', '0']
  else if c = '\t' then ['\\', 't']
  else if c = '\r' then ['\\', 'r']
  else if c = '\n' then ['\\', 'n']
  else if c = '"' || c = '\\' then ['\\', c]
  else if CodePoints.unprintable.contains c then
    ['\\', 'u', '\x7b'] ++ Nat.toDigits 16 c.toNat ++ ['\x7d']
  else [c]

end Quoted

/-- A stretch of source in quotes. -/
def quoted (cs : List Char) : String :=
  String.ofList ('"' :: cs.flatMap Quoted.escape ++ ['"'])

end RecipeDesk
