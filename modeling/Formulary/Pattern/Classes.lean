import Formulary.Text.Classes

/-!
# Classes of patterns

The sets of characters that a pattern names by a letter, by a dot, or by a word between colons.

## Main definitions

* `CharSet.posix?` — the named ASCII classes
* `CharSet.digits`, `blanks`, `words` — the classes of letters, with Unicode or without
* `CharSet.withinLine` — what a dot stands for
-/

namespace Formulary.Text.CharSet

/-- The ranges of a named ASCII class. -/
def posixRanges? : String → Option (List (Char × Char))
  | "alnum" => some [('0', '9'), ('A', 'Z'), ('a', 'z')]
  | "alpha" => some [('A', 'Z'), ('a', 'z')]
  | "ascii" => some [('\x00', '\x7F')]
  | "blank" => some [('\t', '\t'), (' ', ' ')]
  | "cntrl" => some [('\x00', '\x1F'), ('\x7F', '\x7F')]
  | "digit" => some [('0', '9')]
  | "graph" => some [('!', '~')]
  | "lower" => some [('a', 'z')]
  | "print" => some [(' ', '~')]
  | "punct" => some [('!', '/'), (':', '@'), ('[', '\x60'), ('\x7B', '~')]
  | "space" => some [('\t', '\r'), (' ', ' ')]
  | "upper" => some [('A', 'Z')]
  | "word" => some [('0', '9'), ('A', 'Z'), ('_', '_'), ('a', 'z')]
  | "xdigit" => some [('0', '9'), ('A', 'F'), ('a', 'f')]
  | _ => none

/-- The union of ranges of characters. -/
def ofCharRanges (ranges : List (Char × Char)) : CharSet :=
  unions (ranges.map fun (low, high) => range low high)

/-- A named ASCII class. -/
def posix? (name : String) : Option CharSet := (posixRanges? name).map ofCharRanges

/-- The digits. -/
def digits (unicode : Bool) : CharSet :=
  if unicode then decimalDigit else ofCharRanges [('0', '9')]

/-- White space. -/
def blanks (unicode : Bool) : CharSet :=
  if unicode then whiteSpace else ofCharRanges [('\t', '\r'), (' ', ' ')]

/-- The characters of words. -/
def words (unicode : Bool) : CharSet :=
  if unicode then word else ofCharRanges [('0', '9'), ('A', 'Z'), ('_', '_'), ('a', 'z')]

/-- All characters that end no line. -/
def withinLine (crlf : Bool) : CharSet :=
  if crlf then complement (ofCharRanges [('\n', '\n'), ('\r', '\r')]) else complement (single '\n')

end Formulary.Text.CharSet
