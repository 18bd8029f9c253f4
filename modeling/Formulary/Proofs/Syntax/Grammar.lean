import Formulary.Expr.Descent

/-!
# The grammar of expressions

What it means for a sequence of tokens to be an expression, as a relation between tokens and trees.
The relation is declarative: it says how the tokens of a tree can be put together and nothing about
how they are found.

```
or      := and (OR and)*                 and     := not (AND not)*
not     := NOT not | rel                 rel     := add (relop add)*
add     := mul ((+|-) mul)*              mul     := unary ((*|/) unary)*
unary   := (+|-) unary | postfix         postfix := atom ('[' or ']' | '.' name)*
atom    := literal | name | name '(' [or (',' or)*] ')' | '(' or ')'
```

Every repetition is folded to the left. A derivation also counts how many levels it nests below the
one it stands on: parentheses, brackets, arguments and operators before an operand open a level.

## Implementation notes

Trees are compared without their places, so the trees of the relation carry no place of their own
and `Tree.bare` takes the places off the trees that are read.

Chains are stated with the recursion on the left. That is the repetition together with the way it is
folded, and it is the shape in which a loop that carries the tree so far is followed.

## Main definitions

* `Tree.bare` — a tree without its places
* `Grammar.Category` — the nonterminals
* `Grammar.Derives`, `Grammar.DerivesArguments` — the derivations

## Main results

* `Grammar.Derives.head` — the tokens that an expression can begin with
-/

namespace Formulary

/-! ### Trees without places -/

namespace Tree

mutual

/-- The tree without its places. -/
def bare : Tree → Tree
  | literal kind text _ => literal kind text default
  | var name _ => var name default
  | call name args _ => call name (bareAll args) default
  | index base i _ => index (bare base) (bare i) default
  | member base name _ => member (bare base) name default
  | unary op operand _ => unary op (bare operand) default
  | binary op l r _ => binary op (bare l) (bare r) default

/-- The trees without their places. -/
def bareAll : List Tree → List Tree
  | [] => []
  | t :: rest => bare t :: bareAll rest

end

theorem bareAll_eq_map (ts : List Tree) : bareAll ts = ts.map bare := by
  induction ts with
  | nil => rfl
  | cons t rest ih => rw [bareAll, ih, List.map_cons]

mutual

@[simp] theorem height_bare : (t : Tree) → t.bare.height = t.height
  | literal .. | var .. => rfl
  | call _ args _ => by rw [bare, height, height, heights_bareAll args]
  | index base i _ => by rw [bare, height, height, height_bare base, height_bare i]
  | member base _ _ => by rw [bare, height, height, height_bare base]
  | unary _ operand _ => by rw [bare, height, height, height_bare operand]
  | binary _ l r _ => by rw [bare, height, height, height_bare l, height_bare r]

@[simp] theorem heights_bareAll : (ts : List Tree) → heights (bareAll ts) = heights ts
  | [] => rfl
  | t :: rest => by rw [bareAll, heights, heights, height_bare t, heights_bareAll rest]

end

theorem heights_append (ts us : List Tree) :
    heights (ts ++ us) = max (heights ts) (heights us) := by
  induction ts with
  | nil => rw [List.nil_append, heights, Nat.zero_max]
  | cons t rest ih => rw [List.cons_append, heights, heights, ih, Nat.max_assoc]

end Tree

namespace Grammar

/-! ### Derivations -/

/-- The nonterminals, loosest first. -/
inductive Category
  | disjunction
  | conjunction
  | negation
  | relation
  | sum
  | product
  | signed
  | access
  | atom
  deriving DecidableEq, Repr

/-- The operators that link a chain and the nonterminal of its operands, for the nonterminals that
are chains. -/
def Category.chain? : Category → Option (List BinaryOp × Category)
  | disjunction => some ([.or], conjunction)
  | conjunction => some ([.and], negation)
  | relation =>
    some ([.lt, .le, .eq, .ne, .gt, .ge, .startsWith, .endsWith, .contains, .fullMatch], sum)
  | sum => some ([.add, .sub], product)
  | product => some ([.mul, .div], signed)
  | negation | signed | access | atom => none

mutual

/-- `Derives c ts t depth`: the tokens `ts` are the tree `t` of the nonterminal `c`, and the
derivation nests `depth` levels. -/
inductive Derives : Category → List Token → Tree → Nat → Prop
  | operand {c operand : Category} {ops : List BinaryOp} {ts : List Token} {t : Tree} {d : Nat}
      (hc : c.chain? = some (ops, operand)) (h : Derives operand ts t d) : Derives c ts t d
  | link {c operand : Category} {ops : List BinaryOp} {op : BinaryOp} {ts₁ ts₂ : List Token}
      {l r : Tree} {d₁ d₂ : Nat} (hc : c.chain? = some (ops, operand)) (hop : op ∈ ops)
      (hl : Derives c ts₁ l d₁) (hr : Derives operand ts₂ r d₂) :
      Derives c (ts₁ ++ .operator op :: ts₂) (.binary op l r default) (max d₁ d₂)
  | not {ts : List Token} {t : Tree} {d : Nat} (h : Derives .negation ts t d) :
      Derives .negation (.not :: ts) (.unary .not t default) (d + 1)
  | unnegated {ts : List Token} {t : Tree} {d : Nat} (h : Derives .relation ts t d) :
      Derives .negation ts t d
  | positive {ts : List Token} {t : Tree} {d : Nat} (h : Derives .signed ts t d) :
      Derives .signed (.operator .add :: ts) (.unary .positive t default) (d + 1)
  | negative {ts : List Token} {t : Tree} {d : Nat} (h : Derives .signed ts t d) :
      Derives .signed (.operator .sub :: ts) (.unary .negative t default) (d + 1)
  | unsigned {ts : List Token} {t : Tree} {d : Nat} (h : Derives .access ts t d) :
      Derives .signed ts t d
  | base {ts : List Token} {t : Tree} {d : Nat} (h : Derives .atom ts t d) :
      Derives .access ts t d
  | index {ts₁ ts₂ : List Token} {base i : Tree} {d₁ d₂ : Nat} (hbase : Derives .access ts₁ base d₁)
      (hi : Derives .disjunction ts₂ i d₂) :
      Derives .access (ts₁ ++ .leftBracket :: (ts₂ ++ [.rightBracket])) (.index base i default)
        (max d₁ (d₂ + 1))
  | member {ts : List Token} {base : Tree} {d : Nat} (name : String)
      (hbase : Derives .access ts base d) :
      Derives .access (ts ++ [.dot, .identifier name]) (.member base name default) d
  | literal (kind : LiteralKind) (text : String) :
      Derives .atom [.literal kind text] (.literal kind text default) 0
  | var (name : String) : Derives .atom [.identifier name] (.var name default) 0
  | nullary (name : String) :
      Derives .atom [.identifier name, .leftParen, .rightParen] (.call name [] default) 0
  | call {ts : List Token} {args : List Tree} {d : Nat} (name : String)
      (h : DerivesArguments ts args d) :
      Derives .atom (.identifier name :: .leftParen :: (ts ++ [.rightParen]))
        (.call name args default) d
  | parens {ts : List Token} {t : Tree} {d : Nat} (h : Derives .disjunction ts t d) :
      Derives .atom (.leftParen :: (ts ++ [.rightParen])) t (d + 1)

/-- `DerivesArguments ts args depth`: the tokens `ts` are one or more expressions `args` with commas
between them. -/
inductive DerivesArguments : List Token → List Tree → Nat → Prop
  | one {ts : List Token} {t : Tree} {d : Nat} (h : Derives .disjunction ts t d) :
      DerivesArguments ts [t] (d + 1)
  | more {ts₁ ts₂ : List Token} {args : List Tree} {t : Tree} {d₁ d₂ : Nat}
      (h₁ : DerivesArguments ts₁ args d₁) (h₂ : Derives .disjunction ts₂ t d₂) :
      DerivesArguments (ts₁ ++ .comma :: ts₂) (args ++ [t]) (max d₁ (d₂ + 1))

end

/-! ### First tokens -/

/-- The tokens that a nonterminal can begin with. -/
def Category.starts (c : Category) : Token → Bool
  | .literal .. | .identifier _ | .leftParen => true
  | .operator op => (op == .add || op == .sub) && c != .access && c != .atom
  | .not => c == .disjunction || c == .conjunction || c == .negation
  | _ => false

theorem Category.starts_of_chain? {c operand : Category} {ops : List BinaryOp} {token : Token}
    (hc : c.chain? = some (ops, operand)) (h : operand.starts token = true) :
    c.starts token = true := by
  cases c <;> cases hc <;> cases token <;> simp_all [Category.starts]

/-- An expression begins with a token, and with one that its nonterminal can begin with. -/
theorem Derives.head : ∀ {c : Category} {ts : List Token} {t : Tree} {d : Nat}, Derives c ts t d →
    ∃ token rest, ts = token :: rest ∧ c.starts token = true
  | _, _, _, _, .operand hc h => by
    obtain ⟨token, rest, rfl, hs⟩ := h.head
    exact ⟨token, rest, rfl, Category.starts_of_chain? hc hs⟩
  | _, _, _, _, .link _ _ hl _ => by
    obtain ⟨token, rest, rfl, hs⟩ := hl.head
    exact ⟨token, _, rfl, hs⟩
  | _, _, _, _, .not _ => ⟨_, _, rfl, rfl⟩
  | _, _, _, _, .unnegated h => by
    obtain ⟨token, rest, rfl, hs⟩ := h.head
    exact ⟨token, rest, rfl, by cases token <;> simp_all [Category.starts]⟩
  | _, _, _, _, .positive _ => ⟨_, _, rfl, rfl⟩
  | _, _, _, _, .negative _ => ⟨_, _, rfl, rfl⟩
  | _, _, _, _, .unsigned h => by
    obtain ⟨token, rest, rfl, hs⟩ := h.head
    exact ⟨token, rest, rfl, by cases token <;> simp_all [Category.starts]⟩
  | _, _, _, _, .base h => by
    obtain ⟨token, rest, rfl, hs⟩ := h.head
    exact ⟨token, rest, rfl, by cases token <;> simp_all [Category.starts]⟩
  | _, _, _, _, .index hbase _ => by
    obtain ⟨token, rest, rfl, hs⟩ := hbase.head
    exact ⟨token, _, rfl, hs⟩
  | _, _, _, _, .member _ hbase => by
    obtain ⟨token, rest, rfl, hs⟩ := hbase.head
    exact ⟨token, _, rfl, hs⟩
  | _, _, _, _, .literal .. => ⟨_, _, rfl, rfl⟩
  | _, _, _, _, .var _ => ⟨_, _, rfl, rfl⟩
  | _, _, _, _, .nullary _ => ⟨_, _, rfl, rfl⟩
  | _, _, _, _, .call _ _ => ⟨_, _, rfl, rfl⟩
  | _, _, _, _, .parens _ => ⟨_, _, rfl, rfl⟩

end Grammar

end Formulary
