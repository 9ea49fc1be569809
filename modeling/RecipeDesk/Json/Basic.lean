/-!
# JSON values and their written form

The text of a JSON string is a sequence of units: characters, and UTF-16 code units that were given
by number. A pair of surrogate units stands for one character; a surrogate without its partner is
allowed by the format but stands for none, so not every JSON string has a text.

Numbers keep the literal they were written as. The members of an object keep their order and may
repeat a key.
-/

namespace RecipeDesk

/-- One unit of a JSON string. -/
inductive TextUnit where
  /-- A character written as itself or by a short escape. -/
  | char (c : Char)
  /-- A 16-bit code unit written by its number. -/
  | code (value : Nat)
deriving DecidableEq, Repr, Inhabited

namespace TextUnit

/-- Whether a code unit is the first half of a pair. -/
def isHighSurrogate (value : Nat) : Bool := 0xD800 ≤ value && value < 0xDC00

/-- Whether a code unit is the second half of a pair. -/
def isLowSurrogate (value : Nat) : Bool := 0xDC00 ≤ value && value < 0xE000

/-- The characters that units stand for, unless a surrogate lacks its partner. -/
def decode? : List TextUnit → Option (List Char)
  | [] => some []
  | char c :: rest => (decode? rest).map (c :: ·)
  | code high :: code low :: rest =>
    if isHighSurrogate high then
      if isLowSurrogate low then
        let value := 0x10000 + (high - 0xD800) * 0x400 + (low - 0xDC00)
        (decode? rest).map (Char.ofNat value :: ·)
      else none
    else if isLowSurrogate high then none
    else (decode? (code low :: rest)).map (Char.ofNat high :: ·)
  | code value :: rest =>
    if isHighSurrogate value || isLowSurrogate value then none
    else (decode? rest).map (Char.ofNat value :: ·)

/-- The units of a text. -/
def ofText (text : String) : List TextUnit := text.toList.map char

/-- The text of units, if they have one. -/
def text? (units : List TextUnit) : Option String := (decode? units).map String.ofList

/-- A hexadecimal number of four digits. -/
def hex4 (value : Nat) : List Char :=
  let digits := Nat.toDigits 16 value
  List.replicate (4 - digits.length) '0' ++ digits

/-- The written form of a unit: quotes, backslashes and control characters are escaped, and nothing
else that is a character. -/
def write : TextUnit → List Char
  | code value => ['\\', 'u'] ++ hex4 value
  | char c =>
    if c = '"' || c = '\\' then ['\\', c]
    else if c = '\n' then ['\\', 'n']
    else if c = '\r' then ['\\', 'r']
    else if c = '\t' then ['\\', 't']
    else if c = Char.ofNat 8 then ['\\', 'b']
    else if c = Char.ofNat 12 then ['\\', 'f']
    else if c.toNat < 0x20 then ['\\', 'u'] ++ hex4 c.toNat
    else [c]

end TextUnit

/-- A JSON value. -/
inductive Json where
  /-- `null` -/
  | null
  /-- `true` or `false` -/
  | bool (value : Bool)
  /-- A number, by its literal. -/
  | number (literal : String)
  /-- A string, by its units. -/
  | string (units : List TextUnit)
  /-- An array. -/
  | array (items : List Json)
  /-- An object, by its members in order. -/
  | object (members : List (List TextUnit × Json))
deriving Repr, Inhabited

namespace Json

/-- A text as a JSON string. -/
def text (value : String) : Json := .string (TextUnit.ofText value)

/-- A natural number. -/
def nat (value : Nat) : Json := .number (toString value)

/-- An integer. -/
def int (value : Int) : Json := .number (toString value)

/-- An object with the given members. -/
def fields (members : List (String × Json)) : Json :=
  .object (members.map fun (key, value) => (TextUnit.ofText key, value))

/-- The written form of a string. -/
def quote (units : List TextUnit) : String :=
  String.ofList ('"' :: units.flatMap TextUnit.write ++ ['"'])

/-- A line break and two blanks for every level. -/
def lineAt (level : Nat) : String := "\n" ++ String.ofList (List.replicate (2 * level) ' ')

mutual

/-- The written form over several lines, two blanks a level; an empty array or object takes no
line of its own. `level` is that of the line the value begins on. -/
def pretty (level : Nat) : Json → String
  | null => "null"
  | bool value => if value then "true" else "false"
  | number literal => literal
  | string units => quote units
  | array [] => "[]"
  | array (item :: items) =>
    "[" ++ lineAt (level + 1) ++ pretty (level + 1) item ++ prettyItems (level + 1) items ++
      lineAt level ++ "]"
  | object [] => "\x7b\x7d"
  | object ((key, value) :: members) =>
    "\x7b" ++ lineAt (level + 1) ++ quote key ++ ": " ++ pretty (level + 1) value ++
      prettyMembers (level + 1) members ++ lineAt level ++ "\x7d"

/-- Further items of an array, each on a line of its own. -/
def prettyItems (level : Nat) : List Json → String
  | [] => ""
  | item :: items => "," ++ lineAt level ++ pretty level item ++ prettyItems level items

/-- Further members of an object, each on a line of its own. -/
def prettyMembers (level : Nat) : List (List TextUnit × Json) → String
  | [] => ""
  | (key, value) :: members =>
    "," ++ lineAt level ++ quote key ++ ": " ++ pretty level value ++ prettyMembers level members

end

end Json

end RecipeDesk
