import RecipeDesk.Json.Basic

/-!
# Reading JSON

A strict reader: only space, tab, carriage return and line feed around tokens, no comments, no
commas too many, nothing after the value. Strings hold no bare control characters. Any well-formed
number is accepted, however large, and any string whose escapes are well formed, also one with a
lone surrogate.

The readers of values, items and members call one another as deep as the text nests; the number of
calls is bounded by twice the length of the text, which is what the fuel counts.
-/

namespace RecipeDesk.Json

/-- The white space of JSON. -/
def isJsonSpace (c : Char) : Bool := c = ' ' || c = '\t' || c = '\n' || c = '\r'

/-- Leave out white space. -/
def skipSpace (cs : List Char) : List Char := cs.dropWhile isJsonSpace

/-- What follows a given word. -/
def afterWord? : List Char → List Char → Option (List Char)
  | [], cs => some cs
  | w :: word, c :: cs => if w = c then afterWord? word cs else none
  | _ :: _, [] => none

/-! ### Numbers -/

/-- At least one digit. -/
def readDigits? (cs : List Char) : Option (List Char × List Char) :=
  match cs.takeWhile Char.isDigit with
  | [] => none
  | digits => some (digits, cs.dropWhile Char.isDigit)

/-- The integer part: zero, or digits that do not begin with zero. -/
def readWhole? : List Char → Option (List Char × List Char)
  | '0' :: rest => some (['0'], rest)
  | cs => readDigits? cs

/-- A fraction, if a point follows. -/
def readFraction? : List Char → Option (List Char × List Char)
  | '.' :: rest => (readDigits? rest).map fun (digits, rest) => ('.' :: digits, rest)
  | cs => some ([], cs)

/-- The sign of an exponent, if there is one. -/
def readSign : List Char → List Char × List Char
  | '+' :: rest => (['+'], rest)
  | '-' :: rest => (['-'], rest)
  | cs => ([], cs)

/-- An exponent, if its mark follows. -/
def readExponent? : List Char → Option (List Char × List Char)
  | [] => some ([], [])
  | c :: rest =>
    if c = 'e' || c = 'E' then
      let (sign, rest) := readSign rest
      (readDigits? rest).map fun (digits, rest) => (c :: sign ++ digits, rest)
    else some ([], c :: rest)

/-- A number without its sign. -/
def readMagnitude? (cs : List Char) : Option (List Char × List Char) :=
  (readWhole? cs).bind fun (whole, cs) =>
    (readFraction? cs).bind fun (fraction, cs) =>
      (readExponent? cs).map fun (exponent, cs) => (whole ++ fraction ++ exponent, cs)

/-- A number. -/
def readNumber? : List Char → Option (Json × List Char)
  | '-' :: rest =>
    (readMagnitude? rest).map fun (digits, rest) => (.number (String.ofList ('-' :: digits)), rest)
  | cs => (readMagnitude? cs).map fun (digits, rest) => (.number (String.ofList digits), rest)

/-! ### Strings -/

/-- The value of a hexadecimal digit. -/
def hexDigit? (c : Char) : Option Nat :=
  if c.isDigit then some (c.toNat - '0'.toNat)
  else if 'a' ≤ c ∧ c ≤ 'f' then some (c.toNat - 'a'.toNat + 10)
  else if 'A' ≤ c ∧ c ≤ 'F' then some (c.toNat - 'A'.toNat + 10)
  else none

/-- The value of four hexadecimal digits. -/
def hexValue? (digits : List Char) : Option Nat :=
  digits.foldlM (fun value c => (hexDigit? c).map (16 * value + ·)) 0

/-- The character of a short escape. -/
def shortEscape? : Char → Option Char
  | '"' => some '"'
  | '\\' => some '\\'
  | '/' => some '/'
  | 'b' => some (Char.ofNat 8)
  | 'f' => some (Char.ofNat 12)
  | 'n' => some '\n'
  | 'r' => some '\r'
  | 't' => some '\t'
  | _ => none

/-- The units of a string up to its closing quote. -/
def readUnits? : List Char → Option (List TextUnit × List Char)
  | [] => none
  | '"' :: rest => some ([], rest)
  | '\\' :: 'u' :: a :: b :: c :: d :: rest =>
    match hexValue? [a, b, c, d] with
    | none => none
    | some value => (readUnits? rest).map fun (units, rest) => (.code value :: units, rest)
  | '\\' :: e :: rest =>
    match shortEscape? e with
    | none => none
    | some c => (readUnits? rest).map fun (units, rest) => (.char c :: units, rest)
  | c :: rest =>
    if c.toNat < 0x20 || c = '\\' then none
    else (readUnits? rest).map fun (units, rest) => (.char c :: units, rest)

/-! ### Values -/

/-- A word that stands for a value. -/
def readWord? (cs : List Char) : Option (Json × List Char) :=
  match afterWord? "true".toList cs, afterWord? "false".toList cs, afterWord? "null".toList cs with
  | some rest, _, _ => some (.bool true, rest)
  | _, some rest, _ => some (.bool false, rest)
  | _, _, some rest => some (.null, rest)
  | none, none, none => none

mutual

/-- A value, white space before it allowed. -/
def readValue? : Nat → List Char → Option (Json × List Char)
  | 0, _ => none
  | fuel + 1, cs =>
    match skipSpace cs with
    | '[' :: rest =>
      match skipSpace rest with
      | ']' :: rest => some (.array [], rest)
      | rest => (readItems? fuel rest).map fun (items, rest) => (.array items, rest)
    | '\x7b' :: rest =>
      match skipSpace rest with
      | '\x7d' :: rest => some (.object [], rest)
      | rest => (readMembers? fuel rest).map fun (members, rest) => (.object members, rest)
    | '"' :: rest => (readUnits? rest).map fun (units, rest) => (.string units, rest)
    | cs => readWord? cs <|> readNumber? cs

/-- The items of an array up to its closing bracket. -/
def readItems? : Nat → List Char → Option (List Json × List Char)
  | 0, _ => none
  | fuel + 1, cs =>
    match readValue? fuel cs with
    | none => none
    | some (item, rest) =>
      match skipSpace rest with
      | ']' :: rest => some ([item], rest)
      | ',' :: rest => (readItems? fuel rest).map fun (items, rest) => (item :: items, rest)
      | _ => none

/-- The members of an object up to its closing brace. -/
def readMembers? : Nat → List Char → Option (List (List TextUnit × Json) × List Char)
  | 0, _ => none
  | fuel + 1, cs =>
    match skipSpace cs with
    | '"' :: rest =>
      match readUnits? rest with
      | none => none
      | some (key, rest) =>
        match skipSpace rest with
        | ':' :: rest =>
          match readValue? fuel rest with
          | none => none
          | some (value, rest) =>
            match skipSpace rest with
            | '\x7d' :: rest => some ([(key, value)], rest)
            | ',' :: rest =>
              (readMembers? fuel rest).map fun (members, rest) => ((key, value) :: members, rest)
            | _ => none
        | _ => none
    | _ => none

end

/-- The value that a text holds, if it holds one and nothing else. -/
def parse? (text : String) : Option Json :=
  let cs := text.toList
  match readValue? (2 * cs.length + 2) cs with
  | none => none
  | some (value, rest) => if (skipSpace rest).isEmpty then some value else none

end RecipeDesk.Json
