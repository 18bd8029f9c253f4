import Formulary.Text.Category
import Formulary.Text.Classes

/-!
# Quoted texts for diagnostics

A text between double quotes, in which everything that cannot be seen or that joins the character
before it is escaped by its number.

## Main definitions

* `isVisible` — whether a character is shown as it is
* `debugQuoted` — a text between double quotes
-/

namespace Formulary.Text

/-- Whether a character is shown as it is: it stands for itself and takes up a place of its own. -/
def isVisible (c : Char) : Bool :=
  c == ' ' ||
    match Category.of .seventeen c with
    | .control | .format | .surrogate | .privateUse | .unassigned | .spaceSeparator
    | .lineSeparator | .paragraphSeparator | .nonspacingMark | .enclosingMark => false
    | _ => !CharSet.otherGraphemeExtend.contains c

/-- A character between double quotes. -/
def debugChar (c : Char) : List Char :=
  match c with
  | '"' => ['\\', '"']
  | '\\' => ['\\', '\\']
  | '\n' => ['\\', 'n']
  | '\r' => ['\\', 'r']
  | '\t' => ['\\', 't']
  | '\x00' => ['\\', '0']
  | c =>
    if isVisible c then [c]
    else "\\u\x7b".toList ++ (Nat.toDigits 16 c.toNat ++ ['\x7d'])

/-- A text between double quotes. -/
def debugQuoted (s : String) : String :=
  String.ofList ('"' :: (s.toList.flatMap debugChar ++ ['"']))

end Formulary.Text
