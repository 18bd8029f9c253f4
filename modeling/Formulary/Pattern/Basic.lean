import Formulary.Pattern.Classes

/-!
# Patterns

A pattern describes a set of texts, given what stands around them.

## Main definitions

* `Look` — conditions on the two characters around a position
* `Pattern` — patterns
* `Pattern.Matches` — the texts that a pattern describes
* `Pattern.depth`, `Pattern.names` — what the limits on patterns look at
-/

namespace Formulary

open Text

/-- A condition on a position in a text. -/
inductive Look
  /-- The start of the text. -/
  | start
  /-- The end of the text. -/
  | stop
  /-- The start of a line. -/
  | lineStart (crlf : Bool)
  /-- The end of a line. -/
  | lineStop (crlf : Bool)
  /-- A word starts or ends. -/
  | boundary (unicode : Bool)
  /-- No word starts or ends. -/
  | noBoundary (unicode : Bool)
  /-- A word starts. -/
  | wordStart (unicode : Bool)
  /-- A word ends. -/
  | wordStop (unicode : Bool)
  /-- No word stands before. -/
  | noWordBefore (unicode : Bool)
  /-- No word stands after. -/
  | noWordAfter (unicode : Bool)
  deriving Repr, DecidableEq, Inhabited

/-- Whether a neighbour, if there is one, belongs to a word. -/
def Look.isWordAt (unicode : Bool) : Option Char → Bool
  | none => false
  | some c => (CharSet.words unicode).contains c

/-- Whether a condition holds between two neighbours. -/
def Look.holds (l : Look) (before after : Option Char) : Bool :=
  match l with
  | start => before.isNone
  | stop => after.isNone
  | lineStart false => before.isNone || before == some '\n'
  | lineStop false => after.isNone || after == some '\n'
  | lineStart true =>
    before.isNone || before == some '\n' || (before == some '\r' && after != some '\n')
  | lineStop true =>
    after.isNone || after == some '\r' || (after == some '\n' && before != some '\r')
  | boundary u => isWordAt u before != isWordAt u after
  | noBoundary u => isWordAt u before == isWordAt u after
  | wordStart u => !isWordAt u before && isWordAt u after
  | wordStop u => isWordAt u before && !isWordAt u after
  | noWordBefore u => !isWordAt u before
  | noWordAfter u => !isWordAt u after

/-- What parentheses do besides holding a pattern together. -/
inductive GroupKind
  /-- Nothing. -/
  | plain
  /-- They keep what the pattern takes, by its number. -/
  | numbered
  /-- They keep what the pattern takes, by its number and a name. -/
  | named (name : String)
  deriving Repr, DecidableEq, Inhabited

/-- A pattern. -/
inductive Pattern
  /-- The empty text. -/
  | empty
  /-- One character of a set, which was written with `depth` levels of brackets. -/
  | chars (set : CharSet) (depth : Nat)
  /-- The empty text, where a condition holds. -/
  | look (l : Look)
  /-- One pattern, then another. -/
  | seq (first second : Pattern)
  /-- One pattern or another. -/
  | alt (first second : Pattern)
  /-- A pattern at least `least` times and, if there is a bound, at most `most` times. A lazy one
  prefers few times, which does not change what is described. -/
  | times (least : Nat) (most : Option Nat) (lazy : Bool) (body : Pattern)
  /-- A pattern in parentheses. -/
  | group (kind : GroupKind) (body : Pattern)

namespace Pattern

/-- The pattern `p`, `n` times. -/
def copies (p : Pattern) : Nat → Pattern
  | 0 => empty
  | n + 1 => seq p (copies p n)

/-- The pattern `p` describes the text `inside` between `before`, which is given last character
first, and `after`. -/
inductive Matches : Pattern → List Char → List Char → List Char → Prop
  | empty (before after) : Matches empty before [] after
  | chars {set : CharSet} (depth before) {c : Char} (after) (h : set.contains c = true) :
    Matches (chars set depth) before [c] after
  | look {l : Look} {before after} (h : l.holds before.head? after.head? = true) :
    Matches (look l) before [] after
  | seq {p q : Pattern} {before u v after} (hp : Matches p before u (v ++ after))
    (hq : Matches q (u.reverse ++ before) v after) : Matches (seq p q) before (u ++ v) after
  | altLeft {p : Pattern} (q) {before u after} (h : Matches p before u after) :
    Matches (alt p q) before u after
  | altRight (p) {q : Pattern} {before u after} (h : Matches q before u after) :
    Matches (alt p q) before u after
  | times {p : Pattern} {least n : Nat} {most : Option Nat} (lazy) {before u after}
    (hl : least ≤ n) (hm : ∀ m ∈ most, n ≤ m) (h : Matches (copies p n) before u after) :
    Matches (times least most lazy p) before u after
  | group (kind) {p : Pattern} {before u after} (h : Matches p before u after) :
    Matches (group kind p) before u after

/-! ### Building -/

/-- Patterns one after another. -/
def sequence : List Pattern → Pattern
  | [] => empty
  | [p] => p
  | p :: rest => seq p (sequence rest)

/-- One of several patterns. -/
def choice : List Pattern → Pattern
  | [] => empty
  | [p] => p
  | p :: rest => alt p (choice rest)

/-! ### Measures -/

/-- How deeply parts are nested. A sequence counts once, whatever its length, and so does a
choice. -/
def depth : Pattern → Nat
  | empty | look _ => 0
  | chars _ d => d
  | seq p (seq q r) => max (p.depth + 1) (seq q r).depth
  | seq p q => max p.depth q.depth + 1
  | alt p (alt q r) => max (p.depth + 1) (alt q r).depth
  | alt p q => max p.depth q.depth + 1
  | times _ _ _ p => p.depth + 1
  | group _ p => p.depth + 1

/-- The greatest depth of a pattern. -/
def maxDepth : Nat := 250

/-- The names of the groups, from left to right. -/
def names : Pattern → List String
  | empty | look _ | chars _ _ => []
  | seq p q | alt p q => p.names ++ q.names
  | times _ _ _ p => p.names
  | group (.named name) p => name :: p.names
  | group _ p => p.names

end Pattern

end Formulary
