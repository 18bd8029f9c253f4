import Formulary.Document.Yaml.Scalar
import Formulary.Document.Yaml.Token

/-!
# Reading YAML

Block collections are told by columns: the items of a sequence stand behind dashes in one column,
and the keys of a mapping stand in one column. A value begins on the line of its key or further to
the right on a later one; a sequence may also begin in the column of its key. Flow collections are
bracketed. Reading is bounded by the number of tokens, and the depth of a document by a limit.

## Main definitions

* `Yaml.readFlow?` — a flow collection or a scalar inside one
* `Yaml.readBlock?` — a node in a block
* `Yaml.read?` — the document written by a text
* `Yaml.readNamed?` — the same, where every key has to be a text
-/

namespace Formulary.Yaml

/-- The text of a scalar that is a key. -/
def keyText? : Kind → Option String
  | .plain s | .quoted s => some s
  | _ => none

/-- Whether tokens go on with a colon on a given line. -/
def colonOn (line : Nat) : List Token → Bool
  | t :: _ => t.kind == .colon && t.line == line
  | [] => false

/-- A plain scalar with the lines that continue it, which stand to the right of `parent`. -/
def continued (parent : Int) (text : String) (line : Nat) : List Token → String × List Token
  | ⟨.plain more, l, c, last⟩ :: rest =>
    if line < l ∧ parent < c ∧ !colonOn last rest then
      let gap := if l = line + 1 then " " else String.ofList (List.replicate (l - line - 1) '\n')
      continued parent (text ++ gap ++ more) last rest
    else (text, ⟨.plain more, l, c, last⟩ :: rest)
  | ts => (text, ts)

/-- A scalar with its continuation. -/
def readScalar? (parent : Int) : List Token → Option (Document × List Token)
  | ⟨.plain s, line, _, _⟩ :: rest => do
    let (text, rest) := continued parent s line rest
    return (← resolve? text, rest)
  | ⟨.quoted s, _, _, _⟩ :: rest => some (.string s, rest)
  | _ => none

mutual

/-- A node inside a flow collection. Where none stands there is nothing. -/
def readFlow? : (fuel : Nat) → List Token → Option (Document × List Token)
  | 0, _ => none
  | fuel + 1, ts =>
    match ts with
    | ⟨.openArray, _, _, _⟩ :: rest => do
      let (items, rest) ← readFlowItems? fuel rest
      return (.array items, rest)
    | ⟨.openObject, _, _, _⟩ :: rest => do
      let (members, rest) ← readFlowMembers? fuel rest
      return (.object members, rest)
    | ⟨.plain _, _, _, _⟩ :: _ | ⟨.quoted _, _, _, _⟩ :: _ => readScalar? (-1) ts
    | ⟨.comma, _, _, _⟩ :: _ | ⟨.closeArray, _, _, _⟩ :: _ | ⟨.closeObject, _, _, _⟩ :: _ =>
      some (.null, ts)
    | _ => none

/-- The items of a flow sequence up to its end. An item with a colon is a mapping of one entry. -/
def readFlowItems? : (fuel : Nat) → List Token → Option (List Document × List Token)
  | 0, _ => none
  | fuel + 1, ts =>
    match ts with
    | ⟨.closeArray, _, _, _⟩ :: rest => some ([], rest)
    | ⟨.comma, _, _, _⟩ :: _ => none
    | _ => do
      let (item, rest) ← readFlowItem? fuel ts
      let (items, rest) ← match rest with
        | ⟨.comma, _, _, _⟩ :: rest => readFlowItems? fuel rest
        | ⟨.closeArray, _, _, _⟩ :: rest => some ([], rest)
        | _ => none
      return (item :: items, rest)

/-- An item of a flow sequence. -/
def readFlowItem? : (fuel : Nat) → List Token → Option (Document × List Token)
  | 0, _ => none
  | fuel + 1, ts =>
    match ts with
    | ⟨key, _, _, _⟩ :: ⟨.colon, _, _, _⟩ :: rest => do
      let key ← keyText? key
      let (value, rest) ← readFlow? fuel rest
      return (.object [(key, value)], rest)
    | _ => readFlow? fuel ts

/-- The entries of a flow mapping up to its end. -/
def readFlowMembers? : (fuel : Nat) → List Token → Option (List (String × Document) × List Token)
  | 0, _ => none
  | fuel + 1, ts =>
    match ts with
    | ⟨.closeObject, _, _, _⟩ :: rest => some ([], rest)
    | ⟨key, _, _, _⟩ :: rest => do
      let key ← keyText? key
      let (value, rest) ← match rest with
        | ⟨.colon, _, _, _⟩ :: rest => readFlow? fuel rest
        | _ => some (.null, rest)
      let (members, rest) ← match rest with
        | ⟨.comma, _, _, _⟩ :: rest => readFlowMembers? fuel rest
        | ⟨.closeObject, _, _, _⟩ :: rest => some ([], rest)
        | _ => none
      return ((key, value) :: members, rest)
    | [] => none

end

mutual

/-- A node that stands to the right of `parent`. -/
def readBlock? : (fuel : Nat) → (parent : Int) → List Token → Option (Document × List Token)
  | 0, _, _ => none
  | fuel + 1, parent, ts =>
    match ts with
    | ⟨.dash, _, column, _⟩ :: _ => do
      let (items, rest) ← readItems? fuel column ts
      return (.array items, rest)
    | ⟨.openArray, _, _, _⟩ :: _ | ⟨.openObject, _, _, _⟩ :: _ => readFlow? (4 * ts.length + 4) ts
    | ⟨.plain _, line, column, last⟩ :: rest | ⟨.quoted _, line, column, last⟩ :: rest =>
      if line = last ∧ colonOn line rest then do
        let (members, rest) ← readMembers? fuel column ts
        return (.object members, rest)
      else readScalar? parent ts
    | _ => none

/-- The items behind the dashes of a column. -/
def readItems? : (fuel column : Nat) → List Token → Option (List Document × List Token)
  | 0, _, _ => none
  | fuel + 1, column, ts =>
    match ts with
    | ⟨.dash, line, c, last⟩ :: rest =>
      if c = column then do
        let inside := match rest with
          | t :: _ => decide (column < t.column)
          | [] => false
        let (item, rest) ← if inside then readBlock? fuel column rest else some (.null, rest)
        let (items, rest) ← readItems? fuel column rest
        return (item :: items, rest)
      else some ([], ⟨.dash, line, c, last⟩ :: rest)
    | _ => some ([], ts)

/-- The entries whose keys stand in a column. -/
def readMembers? : (fuel column : Nat) → List Token →
    Option (List (String × Document) × List Token)
  | 0, _, _ => none
  | fuel + 1, column, ts =>
    match ts with
    | ⟨kind, line, c, last⟩ :: ⟨.colon, colonLine, c', last'⟩ :: rest =>
      if c = column ∧ line = last ∧ colonLine = line then do
        let key ← keyText? kind
        let (value, rest) ← readValue? fuel column line rest
        let (members, rest) ← readMembers? fuel column rest
        return ((key, value) :: members, rest)
      else some ([], ⟨kind, line, c, last⟩ :: ⟨.colon, colonLine, c', last'⟩ :: rest)
    | _ => some ([], ts)

/-- The value of a key in a column: on the key's line, further right on a later line, or a sequence
in the same column. -/
def readValue? : (fuel column line : Nat) → List Token → Option (Document × List Token)
  | 0, _, _, _ => none
  | fuel + 1, column, line, ts =>
    match ts with
    | [] => some (.null, [])
    | t :: rest =>
      if t.line = line then
        match t.kind with
        | .openArray | .openObject => readFlow? (4 * ts.length + 4) ts
        | .plain _ | .quoted _ => if colonOn t.lastLine rest then none else readScalar? column ts
        | _ => none
      else if column < t.column then readBlock? fuel column ts
      else if t.kind = .dash ∧ t.column = column then do
        let (items, rest) ← readItems? fuel column ts
        return (.array items, rest)
      else some (.null, ts)

end

/-- The greatest depth of a document. -/
def maxDepth : Nat := 128

/-- The document that tokens make, its entries as they stand. Without tokens it is nothing. -/
def ofTokens? (ts : List Token) : Option Document :=
  if ts.isEmpty then some .null
  else
    match readBlock? (4 * ts.length + 4) (-1) ts with
    | some (d, []) => if d.depth ≤ maxDepth then some d else none
    | _ => none

/-- The document written by a text. A key is taken as it is written. -/
def read? (cs : List Char) : Option Document := (tokens? cs).bind ofTokens?

/-- Whether every key is a text. One without quotes may be a number, a truth value or nothing. -/
def keysAreTexts : List Token → Bool
  | ⟨.plain s, _, _, _⟩ :: ⟨.colon, line, column, last⟩ :: rest =>
    (match resolve? s with
      | some (.string _) => true
      | _ => false) && keysAreTexts (⟨.colon, line, column, last⟩ :: rest)
  | _ :: rest => keysAreTexts rest
  | [] => true

/-- The document written by a text, if every key is a text. -/
def readNamed? (cs : List Char) : Option Document :=
  (tokens? cs).bind fun ts => if keysAreTexts ts then ofTokens? ts else none

end Formulary.Yaml
