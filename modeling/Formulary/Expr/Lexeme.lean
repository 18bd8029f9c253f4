import Formulary.Expr.Operator
import Formulary.Fault
import Formulary.Text.Classes
import Formulary.Text.Quoted
import Formulary.Text.Search

/-!
# Lexemes

A source text is cut into tokens, with blanks between them. Each token keeps the byte offsets it
was found at. A character that starts no token is an item of its own, a fault, after which reading
goes on.

A number takes its decimal digits from every script, and as many characters are passed over as the
number has bytes.

## Main definitions

* `Token`, `Lexeme` — a token, and a token in its place
* `Lexeme.items` — the lexemes and faults of a source
* `Lexeme.ofSource` — the lexemes of a source without faults
-/

namespace Formulary

/-- The kinds of literals. -/
inductive LiteralKind
  | boolean
  | integer
  | real
  | string
  deriving DecidableEq, Repr, Inhabited

/-- A token of a source text. -/
inductive Token
  | operator (op : BinaryOp)
  | not
  | leftParen
  | rightParen
  | leftBracket
  | rightBracket
  | comma
  | dot
  | identifier (name : String)
  /-- A literal as it is written, with its quotes. -/
  | literal (kind : LiteralKind) (text : String)
  deriving DecidableEq, Repr, Inhabited

/-- A token in its place. -/
structure Lexeme where
  /-- The token. -/
  token : Token
  /-- The offset of its first byte. -/
  start : Nat
  /-- The offset after its last byte. -/
  stop : Nat
  deriving DecidableEq, Repr, Inhabited

namespace Lexeme

open Text

/-- A lexeme, or a fault where there is none. -/
abbrev Item := Except SyntaxFault Lexeme

/-- The token of a word: a keyword or a name. -/
def wordToken (word : String) : Token :=
  match word with
  | "true" | "false" => .literal .boolean word
  | "not" => .not
  | "and" => .operator .and
  | "or" => .operator .or
  | "startsWith" => .operator .startsWith
  | "endsWith" => .operator .endsWith
  | "contains" => .operator .contains
  | "matches" => .operator .fullMatch
  | _ => .identifier word

/-- The token that two characters make together. -/
def pairToken? : Char → Char → Option Token
  | '=', '=' => some (.operator .eq)
  | '!', '=' => some (.operator .ne)
  | '<', '>' => some (.operator .ne)
  | '<', '=' => some (.operator .le)
  | '>', '=' => some (.operator .ge)
  | '&', '&' => some (.operator .and)
  | '|', '|' => some (.operator .or)
  | _, _ => none

/-- The token that a character makes alone. -/
def singleToken? : Char → Option Token
  | '/' => some (.operator .div)
  | '*' => some (.operator .mul)
  | '+' => some (.operator .add)
  | '-' => some (.operator .sub)
  | '(' => some .leftParen
  | ')' => some .rightParen
  | '[' => some .leftBracket
  | ']' => some .rightBracket
  | ',' => some .comma
  | '=' => some (.operator .eq)
  | '!' => some .not
  | '<' => some (.operator .lt)
  | '>' => some (.operator .gt)
  | '.' => some .dot
  | _ => none

/-! ### Numbers -/

/-- A point with digits after it, if there is one. -/
def fractionPart : List Char → List Char
  | '.' :: rest =>
    let digits := rest.takeWhile isDecimalDigit
    if digits.isEmpty then [] else '.' :: digits
  | _ => []

/-- An exponent with its digits, if there is one. -/
def exponentPart : List Char → List Char
  | c :: rest =>
    if c == 'e' || c == 'E' then
      let sign := rest.take 1 |>.filter fun s => s == '-' || s == '+'
      let digits := (rest.drop sign.length).takeWhile isDecimalDigit
      if digits.isEmpty then [] else c :: (sign ++ digits)
    else []
  | [] => []

/-- The number that a text begins with. -/
def numberText (cs : List Char) : List Char :=
  let whole := cs.takeWhile isDecimalDigit
  let fraction := fractionPart (cs.drop whole.length)
  let exponent := exponentPart (cs.drop (whole.length + fraction.length))
  whole ++ fraction ++ exponent

/-- Whether a number has a fraction or an exponent. -/
def isReal (number : List Char) : Bool := number.any fun c => c == '.' || c == 'e' || c == 'E'

/-! ### Items -/

/-- The item made of a text at an offset, and how many characters follow its first one. -/
def made (offset : Nat) (token : Token) (text : List Char) : Item × Nat :=
  (.ok ⟨token, offset, offset + byteLength text⟩, text.length - 1)

/-- The number at an offset. More characters than the number has are passed over where some of
them take several bytes. -/
def number (offset : Nat) (cs : List Char) : Item × Nat :=
  let text := numberText cs
  let kind := if isReal text then .real else .integer
  let stop := offset + byteLength text
  (.ok ⟨.literal kind (String.ofList text), offset, stop⟩, byteLength text - 1)

/-- The quoted text at an offset, or the fault of a quote that nothing closes. -/
def quotedText (offset : Nat) (quote : Char) (rest : List Char) : Item × Nat :=
  match Quoted.body? quote rest with
  | some body =>
    let text := quote :: (body ++ [quote])
    made offset (.literal .string (String.ofList text)) text
  | none =>
    (.error (.of offset (offset + byteLength (quote :: rest)) .unclosedString), rest.length)

/-- Whether a character and the one after it begin a number. -/
def startsNumber (c : Char) (next : Option Char) : Bool :=
  c.isDigit || (c == '.' && next.any Char.isDigit)

/-- The item that begins with a character other than a blank, and how many more characters it
takes. -/
def item (offset : Nat) (c : Char) (rest : List Char) : Item × Nat :=
  if startsNumber c rest.head? then number offset (c :: rest)
  else if c == '\'' || c == '"' then quotedText offset c rest
  else if isIdentifierStart c then
    let word := c :: rest.takeWhile isIdentifierContinue
    made offset (wordToken (String.ofList word)) word
  else
    match rest.head?.bind (pairToken? c) with
    | some token => made offset token (c :: rest.take 1)
    | none =>
      match singleToken? c with
      | some token => made offset token [c]
      | none => (.error (.of offset (offset + c.utf8Size) .unrecognizedToken), 0)

/-- The items of a text that begins at an offset, after `skip` characters that belong to the item
before. -/
def itemsFrom (offset skip : Nat) : List Char → List Item
  | [] => []
  | c :: rest =>
    let next := offset + c.utf8Size
    match skip with
    | skip + 1 => itemsFrom next skip rest
    | 0 =>
      if isBlank c then itemsFrom next 0 rest
      else (item offset c rest).1 :: itemsFrom next (item offset c rest).2 rest

/-- The lexemes and faults of a source. -/
def items (source : String) : List Item := itemsFrom 0 0 source.toList

/-- The lexemes of a source, or its first fault. -/
def ofSource (source : String) : Except SyntaxFault (List Lexeme) := (items source).mapM id

end Lexeme

end Formulary
