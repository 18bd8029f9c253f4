import Formulary.Expr.Tree

/-!
# From lexemes to trees

The grammar, loosest first:

* `or`, then `and`: chains of operands, folded to the left;
* `not`, before an operand of its own kind or a relation;
* the relations, then sums, then products: chains folded to the left;
* a sign, before an operand of its own kind;
* an atom with indexes and members after it.

The depth of the nesting and the height of the tree are both bounded. The bound on nesting is the
measure of the descent: the parsers of one level are built from those of the level below, and below
the last level every parser fails. Both bounds are parameters here; a source is read with
`maxDepth` for both.

## Main definitions

* `Descent.Levels` — the parsers that one nesting level offers to the level around it
* `Descent.levels` — the levels with a budget
* `Tree.ofLexemes` — the tree of a sequence of lexemes
* `Tree.ofSource` — the tree of a source text
-/

namespace Formulary

/-- The greatest depth of nesting, and the greatest height of a tree. -/
def maxDepth : Nat := 128

namespace Descent

/-- A parser takes lexemes from the front. -/
abbrev Parser (α : Type) := List Lexeme → Except SyntaxFault (α × List Lexeme)

/-- A fault at the next lexeme, or just after the end. -/
def faultAt (eof : Nat) (atLexeme atEnd : Code) : List Lexeme → SyntaxFault
  | l :: _ => .of l.start l.stop atLexeme
  | [] => .of eof (eof + 1) atEnd

/-- The fault of a lexeme that cannot stand where it does. -/
def unexpected (eof : Nat) (ts : List Lexeme) : SyntaxFault :=
  faultAt eof .unrecognizedToken .unrecognizedEof ts

/-- The fault of an expression that is nested too deeply. -/
def tooDeep (eof : Nat) (ts : List Lexeme) : SyntaxFault :=
  faultAt eof .expressionTooDeep .expressionTooDeep ts

/-- A node, unless it is higher than `limit`. -/
def checked (limit : Nat) (t : Tree) : Except SyntaxFault Tree :=
  if t.height ≤ limit then .ok t else .error ⟨t.span, .expressionTooDeep⟩

/-- The end of the next lexeme, which has to be a given token. -/
def expect (eof : Nat) (token : Token) : Parser Nat
  | l :: rest => if l.token = token then .ok (l.stop, rest) else .error (unexpected eof (l :: rest))
  | [] => .error (unexpected eof [])

/-- The parsers that one nesting level offers to the level around it. -/
structure Levels where
  /-- A whole expression. -/
  expr : Parser Tree
  /-- An operand of `not`. -/
  negated : Parser Tree
  /-- An operand of a sign. -/
  signed : Parser Tree

section

variable (eof limit : Nat)

/-! ### Chains -/

/-- The rest of a chain of operators of one precedence, folded to the left. -/
def chain (operand : Parser Tree) (level : Nat) : (fuel : Nat) → Tree → Parser Tree
  | 0, left, ts => .ok (left, ts)
  | fuel + 1, left, ts =>
    match ts with
    | ⟨.operator op, _, _⟩ :: rest =>
      if op.precedence = level then do
        let (right, rest) ← operand rest
        let node ← checked limit (.binary op left right (left.span.union right.span))
        chain operand level fuel node rest
      else .ok (left, ts)
    | _ => .ok (left, ts)

/-- A chain of operators of one precedence. -/
def chained (operand : Parser Tree) (level : Nat) : Parser Tree := fun ts => do
  let (left, rest) ← operand ts
  chain limit operand level rest.length left rest

/-! ### Atoms -/

/-- The arguments after the first one. -/
def moreArguments (deeper : Levels) : (fuel : Nat) → Parser (List Tree)
  | 0, ts => .ok ([], ts)
  | fuel + 1, ts =>
    match ts with
    | ⟨.comma, _, _⟩ :: rest => do
      let (arg, rest) ← deeper.expr rest
      let (args, rest) ← moreArguments deeper fuel rest
      return (arg :: args, rest)
    | _ => .ok ([], ts)

/-- The arguments of a call, up to the closing parenthesis. -/
def arguments (deeper : Levels) : Parser (List Tree) := fun ts =>
  match ts with
  | ⟨.rightParen, _, _⟩ :: _ => .ok ([], ts)
  | _ => do
    let (arg, rest) ← deeper.expr ts
    let (args, rest) ← moreArguments deeper rest.length rest
    return (arg :: args, rest)

/-- A literal, a variable, a call or an expression in parentheses. -/
def atom (deeper : Levels) : Parser Tree
  | ⟨.literal kind text, start, stop⟩ :: rest =>
    .ok (.literal kind text (.of start stop), rest)
  | ⟨.identifier name, start, _⟩ :: ⟨.leftParen, _, _⟩ :: rest => do
    let (args, rest) ← arguments deeper rest
    let (stop, rest) ← expect eof .rightParen rest
    let node ← checked limit (.call name args (.of start stop))
    return (node, rest)
  | ⟨.identifier name, start, stop⟩ :: rest => .ok (.var name (.of start stop), rest)
  | ⟨.leftParen, _, _⟩ :: rest => do
    let (inner, rest) ← deeper.expr rest
    let (_, rest) ← expect eof .rightParen rest
    return (inner, rest)
  | ts => .error (unexpected eof ts)

/-! ### Indexes and members -/

/-- The name after a point, with the end of it. -/
def memberName : Parser (String × Nat)
  | ⟨.identifier name, _, stop⟩ :: rest => .ok ((name, stop), rest)
  | ts => .error (unexpected eof ts)

/-- The indexes and members after a base. -/
def accesses (deeper : Levels) : (fuel : Nat) → Tree → Parser Tree
  | 0, base, ts => .ok (base, ts)
  | fuel + 1, base, ts =>
    match ts with
    | ⟨.leftBracket, _, _⟩ :: rest => do
      let (index, rest) ← deeper.expr rest
      let (stop, rest) ← expect eof .rightBracket rest
      let node ← checked limit (.index base index (.of base.span.start stop))
      accesses deeper fuel node rest
    | ⟨.dot, _, _⟩ :: rest => do
      let ((name, stop), rest) ← memberName eof rest
      let node ← checked limit (.member base name (.of base.span.start stop))
      accesses deeper fuel node rest
    | _ => .ok (base, ts)

/-- An atom with its indexes and members. -/
def accessed (deeper : Levels) : Parser Tree := fun ts => do
  let (base, rest) ← atom eof limit deeper ts
  accesses eof limit deeper rest.length base rest

/-! ### Operators -/

/-- The sign that an operator is before an operand. -/
def sign? : BinaryOp → Option UnaryOp
  | .add => some .positive
  | .sub => some .negative
  | _ => none

/-- An operator before an operand. -/
def prefixed (op : UnaryOp) (start : Nat) (operand : Parser Tree) : Parser Tree := fun ts => do
  let (inner, rest) ← operand ts
  let node ← checked limit (.unary op inner (.of start inner.span.stop))
  return (node, rest)

/-- An operand with an optional sign. -/
def signed (deeper : Levels) : Parser Tree := fun ts =>
  match ts with
  | ⟨.operator op, start, _⟩ :: rest =>
    match sign? op with
    | some sign => prefixed limit sign start deeper.signed rest
    | none => accessed eof limit deeper ts
  | _ => accessed eof limit deeper ts

/-- A relation, a sum, a product or less. -/
def relation (deeper : Levels) : Parser Tree :=
  chained limit (chained limit (chained limit (signed eof limit deeper) 5) 4) 3

/-- A relation with an optional `not`. -/
def negated (deeper : Levels) : Parser Tree := fun ts =>
  match ts with
  | ⟨.not, start, _⟩ :: rest => prefixed limit .not start deeper.negated rest
  | _ => relation eof limit deeper ts

/-- An expression. -/
def disjunction (deeper : Levels) : Parser Tree :=
  chained limit (chained limit (negated eof limit deeper) 2) 1

/-- The parsers of the outermost of `budget` nesting levels. Without a level left nothing is
accepted. -/
def levels : (budget : Nat) → Levels
  | 0 =>
    let refuse : Parser Tree := fun ts => .error (tooDeep eof ts)
    ⟨refuse, refuse, refuse⟩
  | budget + 1 =>
    let deeper := levels budget
    ⟨disjunction eof limit deeper, negated eof limit deeper, signed eof limit deeper⟩

end

end Descent

namespace Tree

/-- The offset after the last lexeme. -/
def endOf (ts : List Lexeme) : Nat := (ts.getLast?.map Lexeme.stop).getD 0

/-- The tree of a sequence of lexemes, nothing for the empty one. -/
def ofLexemes (ts : List Lexeme) : Except SyntaxFault (Option Tree) :=
  if ts.isEmpty then .ok none
  else do
    let (tree, rest) ← (Descent.levels (endOf ts) maxDepth maxDepth).expr ts
    match rest with
    | [] => return some tree
    | l :: _ => .error (.of l.start l.stop .extraToken)

/-- The tree of a source text, nothing for a blank one. -/
def ofSource (source : String) : Except SyntaxFault (Option Tree) := do
  ofLexemes (← Lexeme.ofSource source)

end Tree

end Formulary
