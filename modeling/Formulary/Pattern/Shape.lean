import Formulary.Pattern.Basic
import Formulary.Text.ByteRanges

/-!
# Shapes of patterns

The size of the automaton for a pattern depends on a form of it in which nothing is written in a
roundabout way: sequences and choices are not nested in themselves, neighbouring characters make one
text, and what all branches of a choice begin with stands before it. Groups matter only where they
keep what they take.

## Main definitions

* `Shape` — patterns in that form
* `Shape.append`, `Shape.choice`, `Shape.repeated` — building shapes
* `Shape.ofPattern` — the shape of a pattern
* `Shape.minLength?`, `Shape.maxLength?` — the lengths in bytes of the texts that are described
* `Shape.isAnchored` — whether the texts start, or end, where the whole text does

## Main results

* `Shape.append_empty`, `Shape.empty_append` — the empty text adds nothing to a sequence
-/

namespace Formulary

open Text

/-- The form of a pattern that decides the size of its automaton. -/
inductive Shape
  /-- The empty text. -/
  | empty
  /-- A text that is not empty. -/
  | literal (text : List Char)
  /-- One character of a set. -/
  | set (s : CharSet)
  /-- The empty text, where a condition holds. -/
  | look (l : Look)
  /-- A part, which is no sequence, and the parts after it. -/
  | seq (first rest : Shape)
  /-- A branch, which is no choice, and the branches after it. -/
  | alt (first rest : Shape)
  /-- A shape at least `least` times and, if there is a bound, at most `most` times. -/
  | times (least : Nat) (most : Option Nat) (lazy : Bool) (body : Shape)
  /-- A group that keeps what it takes. -/
  | capture (body : Shape)
  deriving Repr

namespace Shape

/-! ### Lengths -/

/-- How many bytes the form of a code point has. -/
def formLength (n : Nat) : Nat :=
  if n < 0x80 then 1 else if n < 0x800 then 2 else if n < 0x10000 then 3 else 4

/-- How many bytes a text has. -/
def textLength (text : List Char) : Nat := text.foldr (fun c n => c.utf8Size + n) 0

/-- The length of the shortest texts, where there are any. -/
def minLength? : Shape → Option Nat
  | empty | look _ => some 0
  | literal text => some (textLength text)
  | set s => s.ranges.head?.map fun (low, _) => formLength low
  | seq p q => return (← p.minLength?) + (← q.minLength?)
  | alt p q => return min (← p.minLength?) (← q.minLength?)
  | times least _ _ p => return least * (← p.minLength?)
  | capture p => p.minLength?

/-- The length of the longest texts, where it is bounded. -/
def maxLength? : Shape → Option Nat
  | empty | look _ => some 0
  | literal text => some (textLength text)
  | set s => s.ranges.getLast?.map fun (_, high) => formLength high
  | seq p q => return (← p.maxLength?) + (← q.maxLength?)
  | alt p q => return max (← p.maxLength?) (← q.maxLength?)
  | times _ most _ p => return (← most) * (← p.maxLength?)
  | capture p => p.maxLength?

/-- Whether only the empty text is described. -/
def isWidthless (p : Shape) : Bool := p.maxLength? == some 0

/-- Whether the empty text is certain not to be described. -/
def isSolid (p : Shape) : Bool := (p.minLength?.getD 0) != 0

/-- Whether every text stands at the start of the whole text, or at its end. -/
def isAnchored (atStart : Bool) : Shape → Bool
  | look l => l == if atStart then .start else .stop
  | seq p q =>
    if atStart then p.isAnchored atStart || (p.isWidthless && q.isAnchored atStart)
    else q.isAnchored atStart || (q.isWidthless && p.isAnchored atStart)
  | alt p q => p.isAnchored atStart && q.isAnchored atStart
  | times least _ _ p => least != 0 && p.isAnchored atStart
  | capture p => p.isAnchored atStart
  | empty | literal _ | set _ => false

/-! ### Sequences -/

/-- One character of a set; a set of one character is a text. -/
def ofSet (s : CharSet) : Shape :=
  match s.ranges with
  | [(low, high)] => if low = high then literal [Char.ofNat low] else set s
  | _ => set s

/-- One shape after another. -/
def append : Shape → Shape → Shape
  | empty, q => q
  | p, empty => p
  | seq p rest, q => seq p (rest.append q)
  | literal u, literal v => literal (u ++ v)
  | literal u, seq (literal v) rest => seq (literal (u ++ v)) rest
  | p, q => seq p q

@[simp] theorem empty_append (p : Shape) : empty.append p = p := by cases p <;> rfl

@[simp] theorem append_empty (p : Shape) : p.append empty = p := by cases p <;> rfl

/-- The shapes of a list, one after another. -/
def sequence (parts : List Shape) : Shape := parts.foldr append empty

/-- The parts of a sequence, none for any other shape. -/
def parts? : Shape → Option (List Shape)
  | seq p rest => some (p :: (rest.parts?.getD [rest]))
  | _ => none

/-! ### Choices -/

/-- Whether two shapes agree. Groups keep what they take each for itself, so they never do. -/
def same : Shape → Shape → Bool
  | empty, empty => true
  | literal u, literal v => u == v
  | set s, set t => s == t
  | look l, look k => l == k
  | seq p q, seq p' q' | alt p q, alt p' q' => p.same p' && q.same q'
  | times least most lazy p, times least' most' lazy' p' =>
    least == least' && most == most' && lazy == lazy' && p.same p'
  | _, _ => false

/-- The branches of a choice; any other shape is a branch of its own. -/
def branches : Shape → List Shape
  | alt p rest => p :: rest.branches
  | p => [p]

/-- The branches as they are, one or another. -/
def oneOf : List Shape → Shape
  | [] => set .empty
  | [p] => p
  | p :: rest => alt p (oneOf rest)

/-- The character of a text of one character. -/
def character? : Shape → Option CharSet
  | literal [c] => some (.single c)
  | _ => none

/-- The set of a shape that is one. -/
def set? : Shape → Option CharSet
  | set s => some s
  | _ => none

/-- The parts that two lists begin with. -/
def sharedParts : List Shape → List Shape → List Shape
  | p :: ps, q :: qs => if p.same q then p :: sharedParts ps qs else []
  | _, _ => []

/-- The parts that all of several lists begin with. -/
def sharedByAll : List (List Shape) → List Shape
  | [] => []
  | ps :: rest => rest.foldl sharedParts ps

/-- How many shapes a shape is built of. -/
def nodes : Shape → Nat
  | empty | literal _ | set _ | look _ => 1
  | seq p q | alt p q => p.nodes + q.nodes + 1
  | times _ _ _ p | capture p => p.nodes + 1

/-- One of several branches. Characters make a set, and so do sets. What sequences begin with
together stands before the choice of what remains of them. -/
def choiceFrom : (fuel : Nat) → List Shape → Shape
  | 0, list => oneOf list
  | fuel + 1, list =>
    let list := list.flatMap branches
    match list with
    | [p] => p
    | _ =>
      match list.mapM character? <|> list.mapM set? with
      | some sets => ofSet (.unions sets)
      | none =>
        match list.mapM parts? with
        | none => oneOf list
        | some lists =>
          let shared := sharedByAll lists
          if shared.isEmpty then oneOf list
          else
            let rest := choiceFrom fuel (lists.map fun ps => sequence (ps.drop shared.length))
            sequence (shared ++ [rest])

/-- One of several branches. What is left over after a common beginning is smaller, so the number of
nodes bounds how often one is found. -/
def choice : List Shape → Shape
  | [p] => p
  | list => choiceFrom (list.foldl (fun n p => n + p.nodes) 1) list

/-! ### Repetitions -/

/-- A shape repeated. The empty text need not be repeated. -/
def repeated (least : Nat) (most : Option Nat) (lazy : Bool) (p : Shape) : Shape :=
  let (least, most) :=
    if p.isWidthless then (min least 1, some (min (most.getD 1) 1)) else (least, most)
  if least = 0 ∧ most = some 0 then empty
  else if least = 1 ∧ most = some 1 then p
  else times least most lazy p

/-! ### Patterns -/

/-- The shapes of the branches of a pattern; a pattern that is no choice is its only branch. -/
def branchesOf : Pattern → List Shape
  | .empty => [empty]
  | .chars s _ => [ofSet s]
  | .look l => [look l]
  | .seq p q => [(choice (branchesOf p)).append (choice (branchesOf q))]
  | .alt p q => choice (branchesOf p) :: branchesOf q
  | .times least most lazy p => [repeated least most lazy (choice (branchesOf p))]
  | .group .plain p => [choice (branchesOf p)]
  | .group _ p => [capture (choice (branchesOf p))]

/-- The shape of a pattern. -/
def ofPattern (p : Pattern) : Shape := choice (branchesOf p)

end Shape

end Formulary
