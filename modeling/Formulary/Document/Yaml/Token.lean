import Formulary.Text.Quoted
import Formulary.Text.Search

/-!
# YAML tokens

A YAML text is cut into tokens that know their line and their column: scalars, the brackets and
commas of flow collections, the colon after a key and the dash before an item. Anchors, aliases,
tags, directives, complex keys and block scalars are not part of the subset.

## Main definitions

* `Yaml.Token` — a token in its place
* `Yaml.tokens?` — the tokens of a text
-/

namespace Formulary.Yaml

open Text

/-- The kinds of tokens. -/
inductive Kind
  | plain (text : String)
  | quoted (text : String)
  | openArray
  | closeArray
  | openObject
  | closeObject
  | comma
  | colon
  | dash
  deriving DecidableEq, Repr

/-- A token in its place. -/
structure Token where
  /-- The kind. -/
  kind : Kind
  /-- The line it begins on, from zero. -/
  line : Nat
  /-- The column it begins in, from zero. -/
  column : Nat
  /-- The line it ends on. -/
  lastLine : Nat
  deriving DecidableEq, Repr

/-- A blank inside a line. -/
def isGap (c : Char) : Bool := c == ' ' || c == '\t'

/-- A line break. -/
def isBreak (c : Char) : Bool := c == '\n' || c == '\r'

/-- Whether a text ends or goes on with a blank or a line break. -/
def atBoundary : List Char → Bool
  | [] => true
  | c :: _ => isGap c || isBreak c

/-! ### Folding -/

/-- A list without the blanks at its end. -/
def dropTrailing (cs : List Char) : List Char := (cs.reverse.dropWhile isGap).reverse

/-- Lines put together: a single break is a blank, and of several breaks the first is dropped. -/
def joinLines : (breaks : Nat) → List (List Char) → List Char
  | _, [] => []
  | breaks, [last] => separator breaks ++ last.dropWhile isGap
  | breaks, line :: rest =>
    let line := dropTrailing (line.dropWhile isGap)
    if line.isEmpty then joinLines (breaks + 1) rest
    else separator breaks ++ line ++ joinLines 1 rest
where
  /-- What stands for a number of breaks. -/
  separator (breaks : Nat) : List Char :=
    if breaks = 1 then [' '] else List.replicate (breaks - 1) '\n'

/-- The lines of a text. -/
def splitLines (cs : List Char) : List (List Char) :=
  cs.foldr (fun c lines =>
    if c == '\n' then [] :: lines
    else match lines with
      | line :: rest => (c :: line) :: rest
      | [] => [[c]]) [[]]

/-- A quoted text with its line breaks folded. -/
def foldLines (cs : List Char) : List Char :=
  match splitLines (cs.filter (· != '\r')) with
  | [] => []
  | [line] => line
  | line :: rest => dropTrailing line ++ joinLines 1 rest

/-! ### Quoted scalars -/

/-- The raw text before the closing apostrophe; two apostrophes stand for one. -/
def singleBody? : List Char → Option (List Char)
  | [] => none
  | '\'' :: '\'' :: rest => (singleBody? rest).map ('\'' :: '\'' :: ·)
  | c :: rest => if c = '\'' then some [] else (singleBody? rest).map (c :: ·)

/-- Two apostrophes made one. -/
def undouble : List Char → List Char
  | '\'' :: '\'' :: rest => '\'' :: undouble rest
  | c :: rest => c :: undouble rest
  | [] => []

/-- The character of an escape of one letter. -/
def letter? (c : Char) : Option Char :=
  match c with
  | '0' => some '\x00'
  | 'a' => some '\x07'
  | '\t' => some '\t'
  | 'v' => some '\x0b'
  | 'e' => some '\x1b'
  | ' ' => some ' '
  | 'N' => some '\u0085'
  | '_' => some '\u00a0'
  | 'L' => some '\u2028'
  | 'P' => some '\u2029'
  | c => Quoted.escapedChar? c

/-- The character of a number, if it has one. -/
def charOf? (n : Nat) : Option Char := if n.isValidChar then some (Char.ofNat n) else none

/-- The text of a body between double quotes. -/
def unescape? : List Char → Option (List Char)
  | '\\' :: 'x' :: a :: b :: rest => do
    let c ← (Quoted.hexNumber? [a, b]).bind charOf?
    return c :: (← unescape? rest)
  | '\\' :: 'u' :: a :: b :: c :: d :: rest => do
    let c ← (Quoted.hexNumber? [a, b, c, d]).bind charOf?
    return c :: (← unescape? rest)
  | '\\' :: 'U' :: a :: b :: c :: d :: e :: f :: g :: h :: rest => do
    let c ← (Quoted.hexNumber? [a, b, c, d, e, f, g, h]).bind charOf?
    return c :: (← unescape? rest)
  | '\\' :: c :: rest => do
    let c ← letter? c
    return c :: (← unescape? rest)
  | c :: rest => do
    if c = '\\' then none
    return c :: (← unescape? rest)
  | [] => some []

/-! ### Plain scalars -/

/-- The characters that no plain scalar begins with. -/
def indicators : List Char := ",[]\x7b\x7d#&*!|>'\"%@`".toList

/-- Whether a plain scalar begins here. -/
def startsPlain (inFlow : Bool) (c : Char) (rest : List Char) : Bool :=
  if c == '-' then !(rest.head?.any isGap)
  else if c == '?' || c == ':' then !inFlow && !atBoundary rest
  else !indicators.contains c

/-- The characters that end a plain scalar inside a flow collection. -/
def flowIndicators : List Char := ",[]\x7b\x7d?".toList

/-- The rest of a plain scalar on its line, with the blanks after it. -/
def plainRest (inFlow : Bool) (previous : Char) : List Char → List Char
  | [] => []
  | c :: rest =>
    if isBreak c then []
    else if c == '#' && isGap previous then []
    else if c == ':' && atBoundary rest then []
    else if inFlow && flowIndicators.contains c then []
    else c :: plainRest inFlow c rest

/-! ### Tokens -/

/-- The number of line breaks in a text. -/
def breaksIn (cs : List Char) : Nat := cs.countP (· == '\n')

/-- The kind of the token that begins with a character, how many more characters it takes, and how
many line breaks are in it. -/
def scan? (inFlow : Bool) (c : Char) (rest : List Char) : Option (Kind × Nat × Nat) :=
  if c == '[' then some (.openArray, 0, 0)
  else if c == ']' then some (.closeArray, 0, 0)
  else if c == '\x7b' then some (.openObject, 0, 0)
  else if c == '\x7d' then some (.closeObject, 0, 0)
  else if c == ',' && inFlow then some (.comma, 0, 0)
  else if c == ':' && (inFlow || atBoundary rest) then some (.colon, 0, 0)
  else if c == '-' && atBoundary rest then if inFlow then none else some (.dash, 0, 0)
  else if c == '?' && atBoundary rest then none
  else if c == '"' then do
    let body ← Quoted.body? '"' rest
    let text ← unescape? (foldLines body)
    return (.quoted (String.ofList text), body.length + 1, breaksIn body)
  else if c == '\'' then do
    let body ← singleBody? rest
    let text := undouble (foldLines body)
    return (.quoted (String.ofList text), body.length + 1, breaksIn body)
  else if startsPlain inFlow c rest then
    let more := plainRest inFlow c rest
    some (.plain (String.ofList (dropTrailing (c :: more))), more.length, 0)
  else none

/-- Where the reading of a text stands. -/
structure Cursor where
  /-- The line. -/
  line : Nat
  /-- The column. -/
  column : Nat
  /-- How many flow collections are open. -/
  depth : Nat
  /-- Whether only blanks, or an item's dash, come before on the line. -/
  fresh : Bool
  /-- How many characters still belong to the last token. -/
  skip : Nat
  /-- Whether a comment is being passed over. -/
  comment : Bool
  /-- The tokens so far. -/
  done : Array Token

namespace Cursor

/-- The start of a text. -/
def start : Cursor := ⟨0, 0, 0, true, 0, false, #[]⟩

/-- Past a character. -/
def past (k : Cursor) (c : Char) : Cursor :=
  if c == '\n' then { k with line := k.line + 1, column := 0, fresh := true, comment := false }
  else { k with column := k.column + 1 }

/-- The number of open flow collections after a token. -/
def depthAfter (k : Cursor) : Kind → Nat
  | .openArray | .openObject => k.depth + 1
  | .closeArray | .closeObject => k.depth - 1
  | _ => k.depth

/-- Past the first character of a token. -/
def take (k : Cursor) (c : Char) (kind : Kind) (skip breaks : Nat) : Cursor :=
  let token : Token := ⟨kind, k.line, k.column, k.line + breaks⟩
  { k.past c with
    depth := k.depthAfter kind
    fresh := kind == .dash && k.fresh
    skip := skip
    done := k.done.push token }

/-- Whether the line begins with a mark between documents. -/
def atMark (k : Cursor) (mark : List Char) (cs : List Char) : Bool :=
  k.column == 0 && mark.isPrefixOf cs && atBoundary (cs.drop mark.length)

end Cursor

/-- The tokens of a text. A single mark may begin the document. -/
private def tokensFrom? (k : Cursor) : List Char → Option (List Token)
  | [] => some k.done.toList
  | c :: rest =>
    if 0 < k.skip then tokensFrom? { k.past c with skip := k.skip - 1 } rest
    else if k.comment then tokensFrom? (k.past c) rest
    else if isBreak c || c == ' ' then tokensFrom? (k.past c) rest
    else if c == '\t' then
      if k.fresh && k.depth == 0 then none else tokensFrom? (k.past c) rest
    else if c == '#' then tokensFrom? { k.past c with comment := true } rest
    else if k.atMark ['-', '-', '-'] (c :: rest) then
      if k.done.isEmpty && k.line == 0 then tokensFrom? { k.past c with skip := 2 } rest else none
    else if k.atMark ['.', '.', '.'] (c :: rest) then none
    else
      match scan? (0 < k.depth) c rest with
      | some (kind, skip, breaks) => tokensFrom? (k.take c kind skip breaks) rest
      | none => none

/-- The tokens of a text. -/
def tokens? (cs : List Char) : Option (List Token) := tokensFrom? .start cs

end Formulary.Yaml
