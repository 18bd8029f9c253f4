import Formulary.Document.Yaml.Scalar
import Formulary.Document.Yaml.Token
import Formulary.Number.Shortest

/-!
# Writing YAML

Documents are written in block style. The items of a sequence inside a mapping stand in the column
of their key; anything else moves two columns to the right. Texts are written without quotes where
that is safe, else between apostrophes, and with escapes only where they hold characters that
cannot be shown. A text of several lines is written line by line.

## Main definitions

* `Yaml.Shape` — what makes a text safe without quotes
* `Yaml.scalarText` — a text in the style that it needs
* `Yaml.write` — the text of a document
-/

namespace Formulary.Yaml

open Text

/-! ### Styles of texts -/

/-- Whether a character is shown as it is. -/
def isShown (c : Char) : Bool :=
  c == '\n' || (' ' ≤ c && c ≤ '~') || (0xA0 ≤ c.toNat && c.toNat < 0xFFFE && c.toNat != 0xFEFF)

/-- A line break in any script. -/
def isLineBreak (c : Char) : Bool :=
  isBreak c || c == '\u0085' || c == '\u2028' || c == '\u2029'

/-- A blank, a line break or the end. -/
def isEdge (c : Option Char) : Bool :=
  match c with
  | none => true
  | some c => isGap c || isLineBreak c

/-- Whether a character inside a text keeps it from being written without quotes. -/
def indicatesInside (previous : Option Char) (c : Char) (next : Option Char) : Bool :=
  (c == ':' && isEdge next) || (c == '#' && isEdge previous)

/-- Whether the first character of a text keeps it from being written without quotes. -/
def indicatesFirst (c : Char) (next : Option Char) : Bool :=
  indicators.contains c || ((c == '?' || c == ':' || c == '-') && isEdge next)

/-- Whether some character after the first one keeps a text from being written without quotes. -/
def hasIndicator (previous : Char) : List Char → Bool
  | [] => false
  | c :: rest => indicatesInside (some previous) c rest.head? || hasIndicator c rest

/-- Whether a mark between documents begins a text. -/
def startsWithMark (cs : List Char) : Bool :=
  ['-', '-', '-'].isPrefixOf cs || ['.', '.', '.'].isPrefixOf cs

/-- Whether two neighbours of a text are a pair of some kind. -/
def hasPair (p : Char → Char → Bool) : List Char → Bool
  | a :: b :: rest => p a b || hasPair p (b :: rest)
  | _ => false

/-- What decides the style of a text. -/
structure Shape where
  /-- Whether it may stand without quotes. -/
  plain : Bool
  /-- Whether it may stand between apostrophes. -/
  single : Bool
  /-- Whether it may be written line by line. -/
  block : Bool

/-- What decides the style of a text. -/
def shapeOf (cs : List Char) : Shape :=
  match cs with
  | [] => ⟨true, true, false⟩
  | c :: rest =>
    let special := cs.any (!isShown ·)
    let breaks := cs.any isLineBreak
    let spaceBreak := hasPair (fun a b => a == ' ' && isLineBreak b) cs
    let breakSpace := hasPair (fun a b => isLineBreak a && b == ' ') cs
    let edges := c == ' ' || isLineBreak c || cs.getLast?.any fun d => d == ' ' || isLineBreak d
    let indicated := startsWithMark cs || indicatesFirst c rest.head? || hasIndicator c rest
    let unsafeAnywhere := special || spaceBreak
    { plain := !(unsafeAnywhere || breakSpace || breaks || edges || indicated)
      single := !(unsafeAnywhere || breakSpace)
      block := !(unsafeAnywhere || cs.getLast? == some ' ') }

/-- A character between double quotes. -/
def escapeChar (c : Char) : List Char :=
  let hex (width n : Nat) :=
    let digits := (Nat.toDigits 16 n).map Char.toUpper
    List.replicate (width - digits.length) '0' ++ digits
  match c with
  | '"' => ['\\', '"']
  | '\\' => ['\\', '\\']
  | '\x00' => ['\\', '0']
  | '\x07' => ['\\', 'a']
  | '\x08' => ['\\', 'b']
  | '\t' => ['\\', 't']
  | '\n' => ['\\', 'n']
  | '\x0b' => ['\\', 'v']
  | '\x0c' => ['\\', 'f']
  | '\r' => ['\\', 'r']
  | '\x1b' => ['\\', 'e']
  | '\u0085' => ['\\', 'N']
  | '\u2028' => ['\\', 'L']
  | '\u2029' => ['\\', 'P']
  | c =>
    if isShown c then [c]
    else if c.toNat ≤ 0xFF then '\\' :: 'x' :: hex 2 c.toNat
    else if c.toNat ≤ 0xFFFF then '\\' :: 'u' :: hex 4 c.toNat
    else '\\' :: 'U' :: hex 8 c.toNat

/-- A text between apostrophes. -/
def singleQuoted (cs : List Char) : List Char :=
  '\'' :: (cs.flatMap (fun c => if c == '\'' then [c, c] else [c]) ++ ['\''])

/-- A text between double quotes. -/
def doubleQuoted (cs : List Char) : List Char := '"' :: (cs.flatMap escapeChar ++ ['"'])

/-- Blanks. -/
def spaces (n : Nat) : List Char := List.replicate n ' '

/-- The header of a text written line by line: a hint at the indentation where the text begins with
a blank, and what becomes of the breaks at the end. -/
def literalHeader (cs : List Char) : List Char :=
  let hint := if cs.head?.any (fun c => c == ' ' || isLineBreak c) then ['2'] else []
  let chomp :=
    match cs.reverse with
    | '\n' :: '\n' :: _ | ['\n'] => ['+']
    | '\n' :: _ => []
    | _ => ['-']
  '|' :: (hint ++ chomp)

/-- A text written line by line. -/
def literalText (indent : Nat) (cs : List Char) : List Char :=
  let lines := splitLines (if cs.getLast? == some '\n' then cs.dropLast else cs)
  literalHeader cs ++
    lines.flatMap fun line => '\n' :: (if line.isEmpty then [] else spaces indent ++ line)

/-- A text in the style that it needs. Keys are never written line by line. -/
def scalarText (isKey : Bool) (indent : Nat) (s : String) : String :=
  let cs := s.toList
  let shape := shapeOf cs
  String.ofList <|
    if cs.contains '\n' && !isKey && shape.block then literalText indent cs
    else if !cs.contains '\n' && shape.plain && !isAmbiguous s then cs
    else if !cs.contains '\n' && shape.single then singleQuoted cs
    else doubleQuoted cs

/-! ### Documents -/

/-- The text of a number. -/
def numeralText : Numeral → String
  | .whole n => toString n
  | .real x => if Double.isFinite x then Double.render Double.yaml x else "null"

/-- A line break and an indentation. -/
def newline (indent : Nat) : String := String.ofList ('\n' :: spaces indent)

mutual

/-- A document that begins in the column `indent`. -/
def blockText (indent : Nat) : Document → String
  | .null => "null"
  | .boolean b => if b then "true" else "false"
  | .number n => numeralText n
  | .string s => scalarText false (indent + 2) s
  | .array [] => "[]"
  | .object [] => "\x7b\x7d"
  | .array items => (newline indent).intercalate (itemTexts indent items)
  | .object members => (newline indent).intercalate (memberTexts indent members)

/-- The items of a sequence, each behind a dash. -/
def itemTexts (indent : Nat) : List Document → List String
  | [] => []
  | .string s :: rest => ("- " ++ scalarText false (indent + 2) s) :: itemTexts indent rest
  | d :: rest => ("- " ++ blockText (indent + 2) d) :: itemTexts indent rest

/-- The entries of a mapping, each behind its key. -/
def memberTexts (indent : Nat) : List (String × Document) → List String
  | [] => []
  | (k, .array (d :: ds)) :: rest =>
    (scalarText true indent k ++ ":" ++ newline indent ++
      (newline indent).intercalate (itemTexts indent (d :: ds))) :: memberTexts indent rest
  | (k, .object (m :: ms)) :: rest =>
    (scalarText true indent k ++ ":" ++ newline (indent + 2) ++
      (newline (indent + 2)).intercalate (memberTexts (indent + 2) (m :: ms))) ::
      memberTexts indent rest
  | (k, d) :: rest =>
    (scalarText true indent k ++ ": " ++ blockText indent d) :: memberTexts indent rest

end

/-- The text of a document. -/
def write (d : Document) : String := blockText 0 d ++ "\n"

end Formulary.Yaml
