import Formulary.Pattern.Mode
import Formulary.Pattern.Property
import Formulary.Text.Quoted

/-!
# Escapes in a pattern

What a backslash introduces: a character given by itself, by a letter or by its number, a class, or
a condition on the position.

## Main definitions

* `Escape` — what an escape stands for
* `Escape.read?` — the escape after a backslash
-/

namespace Formulary

open Text

/-- What an escape stands for. -/
inductive Escape
  /-- A character. -/
  | char (c : Char)
  /-- A class of characters. -/
  | set (s : CharSet)
  /-- A condition on the position. -/
  | look (l : Look)

namespace Escape

/-- A result and the rest of the text. -/
abbrev Read (α : Type) := Option (α × List Char)

/-! ### Characters by number -/

/-- The character with a number in hexadecimal digits, of which there has to be one. -/
def ofHex? (digits : List Char) : Option Char :=
  match digits, Quoted.hexNumber? digits with
  | _ :: _, some n => if n.isValidChar then some (Char.ofNat n) else none
  | _, _ => none

/-- A fixed number of hexadecimal digits, where blanks may be skipped. -/
def hexDigits? (m : Mode) : (count : Nat) → List Char → Read (List Char)
  | 0, cs => some ([], cs)
  | n + 1, cs =>
    match m.skip cs with
    | [] => none
    | c :: rest => (hexDigits? m n rest).map fun (digits, rest) => (c :: digits, rest)

/-- A character by its number: in braces, or in a fixed number of digits. Two digits give a byte. -/
def number? (m : Mode) (count : Nat) (cs : List Char) : Read Char :=
  match m.skip cs with
  | '\x7b' :: rest =>
    (m.braced? rest).bind fun (digits, rest) => (ofHex? digits).map fun c => (c, rest)
  | cs =>
    (hexDigits? m count cs).bind fun (digits, rest) =>
      (ofHex? digits).bind fun c => if 2 < count || m.allows c then some (c, rest) else none

/-! ### Properties -/

/-- A text before and after the first place where `mark` occurs. -/
def splitAt? (mark : List Char) : List Char → Option (List Char × List Char)
  | [] => none
  | c :: rest =>
    if mark.isPrefixOf (c :: rest) then some ([], (c :: rest).drop mark.length)
    else (splitAt? mark rest).map fun (before, after) => (c :: before, after)

/-- The set that stands between the braces of a property, before it is negated, and whether the
braces negate it. -/
def property? (content : List Char) : Option (CharSet × Bool) :=
  match splitAt? ['!', '='] content with
  | some (name, value) => (Property.ofPair? name value).map (·, true)
  | none =>
    match splitAt? [':'] content <|> splitAt? ['='] content with
    | some (name, value) => (Property.ofPair? name value).map (·, false)
    | none => (Property.ofName? content).map (·, false)

/-- What stands after the letter of a property: a name in braces or a single letter. -/
def propertyName? (m : Mode) (cs : List Char) : Read (List Char) :=
  match m.skip cs with
  | '\x7b' :: rest => m.braced? rest
  | '\\' :: _ | [] => none
  | c :: rest => some ([c], rest)

/-- A property after its letter, which needs Unicode. -/
def propertyClass? (m : Mode) (negated : Bool) (cs : List Char) : Read CharSet :=
  if m.unicode then
    (propertyName? m cs).bind fun (content, rest) =>
      (property? content).bind fun (s, flipped) =>
        (m.close? (negated != flipped) s).map (·, rest)
  else none

/-- A class that is given by a letter. -/
def letterClass? (m : Mode) (negated : Bool) (s : Bool → CharSet) : Option CharSet :=
  if negated then if m.unicode then some (s true).complement else none else some (s m.unicode)

/-! ### Conditions -/

/-- The condition that stands in braces after `\b`. -/
def boundary? (m : Mode) (name : List Char) : Option Look :=
  match String.ofList name with
  | "start" => some (.wordStart m.unicode)
  | "end" => some (.wordStop m.unicode)
  | "start-half" => some (.noWordBefore m.unicode)
  | "end-half" => some (.noWordAfter m.unicode)
  | _ => none

/-- The condition of `\b`, with its braces if letters stand in them. Other braces are left, as they
count repetitions. -/
def boundaryFrom? (m : Mode) (cs : List Char) : Read Look :=
  match cs with
  | '\x7b' :: rest =>
    match m.skip rest with
    | [] => none
    | c :: _ =>
      if c.isAlpha || c == '-' then
        (m.braced? rest).bind fun (name, rest) => (boundary? m name).map (·, rest)
      else some (.boundary m.unicode, cs)
  | _ => some (.boundary m.unicode, cs)

/-! ### All escapes -/

/-- The character that a letter stands for. -/
def letter? : Char → Option Char
  | 'a' => some '\x07'
  | 'f' => some '\x0C'
  | 't' => some '\t'
  | 'n' => some '\n'
  | 'r' => some '\r'
  | 'v' => some '\x0B'
  | _ => none

/-- A character that stands for itself after a backslash: any of ASCII but letters, digits and angle
brackets. -/
def isEscapable (c : Char) : Bool := isAscii c && !c.isAlphanum && c != '<' && c != '>'

/-- The escape at the front of a text that follows a backslash. -/
def read? (m : Mode) : List Char → Read Escape
  | [] => none
  | c :: rest =>
    let sized (s : Option CharSet) : Read Escape := s.map fun s => (.set s, rest)
    let looked (l : Look) : Read Escape := some (.look l, rest)
    match c with
    | 'x' => (number? m 2 rest).map fun (c, rest) => (.char c, rest)
    | 'u' => (number? m 4 rest).map fun (c, rest) => (.char c, rest)
    | 'U' => (number? m 8 rest).map fun (c, rest) => (.char c, rest)
    | 'p' => (propertyClass? m false rest).map fun (s, rest) => (.set s, rest)
    | 'P' => (propertyClass? m true rest).map fun (s, rest) => (.set s, rest)
    | 'd' => sized (letterClass? m false .digits)
    | 'D' => sized (letterClass? m true .digits)
    | 's' => sized (letterClass? m false .blanks)
    | 'S' => sized (letterClass? m true .blanks)
    | 'w' => sized (letterClass? m false .words)
    | 'W' => sized (letterClass? m true .words)
    | 'A' => looked .start
    | 'z' => looked .stop
    | 'b' => (boundaryFrom? m rest).map fun (l, rest) => (.look l, rest)
    | 'B' => looked (.noBoundary m.unicode)
    | '<' => looked (.wordStart m.unicode)
    | '>' => looked (.wordStop m.unicode)
    | c =>
      match letter? c with
      | some c => some (.char c, rest)
      | none => if isEscapable c then some (.char c, rest) else none

end Escape

end Formulary
