import Formulary.Document.Basic
import Formulary.Number.Shortest

/-!
# Writing JSON

A document is written on one line, or with every part on a line of its own. Texts are escaped as
little as the format allows.

## Main definitions

* `Json.quoted` — a text between quotes
* `Json.compact` — a document on one line
* `Json.pretty` — a document with two blanks of indentation a level
-/

namespace Formulary.Json

/-- A character inside quotes. -/
def escape (c : Char) : List Char :=
  match c with
  | '"' => ['\\', '"']
  | '\\' => ['\\', '\\']
  | '\x08' => ['\\', 'b']
  | '\x0c' => ['\\', 'f']
  | '\n' => ['\\', 'n']
  | '\r' => ['\\', 'r']
  | '\t' => ['\\', 't']
  | c =>
    if c.toNat < 0x20 then
      "\\u00".toList ++ [Nat.digitChar (c.toNat / 16), Nat.digitChar (c.toNat % 16)]
    else [c]

/-- A text between quotes. -/
def quoted (s : String) : String :=
  "\"" ++ String.ofList (s.toList.flatMap escape) ++ "\""

/-- The text of a number. -/
def numeral : Numeral → String
  | .whole n => toString n
  | .real x => if Double.isFinite x then Double.render Double.json x else "null"

mutual

/-- A document on one line. -/
def compact : Document → String
  | .null => "null"
  | .boolean b => if b then "true" else "false"
  | .number n => numeral n
  | .string s => quoted s
  | .array items => "[" ++ ",".intercalate (compactItems items) ++ "]"
  | .object members => "\x7b" ++ ",".intercalate (compactMembers members) ++ "\x7d"

/-- The items of an array, each on one line. -/
def compactItems : List Document → List String
  | [] => []
  | d :: rest => compact d :: compactItems rest

/-- The members of an object, each on one line. -/
def compactMembers : List (String × Document) → List String
  | [] => []
  | (k, d) :: rest => (quoted k ++ ":" ++ compact d) :: compactMembers rest

end

/-- A line break and the indentation of a level. -/
def newline (level : Nat) : String := "\n" ++ String.ofList (List.replicate (2 * level) ' ')

/-- The parts of a container on lines of their own between its brackets. -/
def laidOut (level : Nat) (left right : String) (parts : List String) : String :=
  if parts.isEmpty then left ++ right
  else left ++ newline (level + 1) ++ ("," ++ newline (level + 1)).intercalate parts ++
    newline level ++ right

mutual

/-- A document over several lines, at a level of indentation. -/
def prettyAt (level : Nat) : Document → String
  | .array items => laidOut level "[" "]" (prettyItems (level + 1) items)
  | .object members => laidOut level "\x7b" "\x7d" (prettyMembers (level + 1) members)
  | d => compact d

/-- The items of an array. -/
def prettyItems (level : Nat) : List Document → List String
  | [] => []
  | d :: rest => prettyAt level d :: prettyItems level rest

/-- The members of an object. -/
def prettyMembers (level : Nat) : List (String × Document) → List String
  | [] => []
  | (k, d) :: rest => (quoted k ++ ": " ++ prettyAt level d) :: prettyMembers level rest

end

/-- A document over several lines. -/
def pretty (d : Document) : String := prettyAt 0 d

end Formulary.Json
