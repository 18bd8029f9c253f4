import Formulary.Expr.Lexeme
import Formulary.Expr.Operator
import Formulary.Span

/-!
# Parse trees

The shape of a source text: literals are kept as they are written, and every node knows its place.

## Main definitions

* `Tree` — a parse tree
* `Tree.span` — the place of a node
* `Tree.height` — the number of nodes on the longest way down
-/

namespace Formulary

/-- A parse tree. -/
inductive Tree
  | literal (kind : LiteralKind) (text : String) (span : Span)
  | var (name : String) (span : Span)
  | call (name : String) (args : List Tree) (span : Span)
  | index (base index : Tree) (span : Span)
  | member (base : Tree) (name : String) (span : Span)
  | unary (op : UnaryOp) (operand : Tree) (span : Span)
  | binary (op : BinaryOp) (left right : Tree) (span : Span)
  deriving Repr, Inhabited

namespace Tree

/-- The place of a node. -/
def span : Tree → Span
  | literal _ _ s | var _ s | call _ _ s | index _ _ s | member _ _ s | unary _ _ s
  | binary _ _ _ s => s

mutual

/-- The number of nodes on the longest way down. -/
def height : Tree → Nat
  | literal .. | var .. => 1
  | call _ args _ => 1 + heights args
  | index base i _ => 1 + max (height base) (height i)
  | member base _ _ => 1 + height base
  | unary _ operand _ => 1 + height operand
  | binary _ l r _ => 1 + max (height l) (height r)

/-- The greatest height among trees. -/
def heights : List Tree → Nat
  | [] => 0
  | t :: rest => max (height t) (heights rest)

end

theorem height_pos (t : Tree) : 0 < t.height := by
  cases t <;> simp only [height] <;> omega

theorem height_le_heights {t : Tree} {ts : List Tree} (h : t ∈ ts) : t.height ≤ heights ts := by
  induction ts with
  | nil => simp at h
  | cons s rest ih =>
    rw [heights]
    rcases List.mem_cons.mp h with rfl | h
    · exact Nat.le_max_left ..
    · exact Nat.le_trans (ih h) (Nat.le_max_right ..)

end Tree

end Formulary
