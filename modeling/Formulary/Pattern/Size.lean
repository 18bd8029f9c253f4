import Formulary.Pattern.Shape
import Formulary.Pattern.Tally

/-!
# The size of the automaton

A pattern is refused if an automaton for it takes too many bytes. Two automata are built, one that
reads forward and keeps what groups take, and one that reads backward. Counting ends as soon as the
bytes are too many, so that a repetition of many copies costs no more than it may.

## Main definitions

* `Shape.count?` — what a shape adds, unless that is too much
* `Pattern.fits` — whether both automata for a pattern are small enough
* `Pattern.isSound` — whether a pattern is within all limits
-/

namespace Formulary

open Text

namespace Shape

/-- The direction in which an automaton reads. -/
inductive Direction
  | forward
  | backward
  deriving DecidableEq, Repr

/-- Where a shape stands in a choice. -/
inductive Place
  /-- First, or in no choice. -/
  | first
  /-- Second. -/
  | second
  /-- After the second. -/
  | further
  deriving DecidableEq, Repr

/-- What a branch adds to a choice besides its own states. -/
def Place.addTo : Place → Tally → Tally
  | .first, t => t
  | .second, t => (t.add 2).addBranches 2
  | .further, t => t.addBranches 1

/-- The bytes of a shape that is a text. -/
def bytes? : Shape → Option (List Nat)
  | literal text => some (text.flatMap utf8Bytes)
  | _ => none

/-- Repeats a count, unless it becomes too much. -/
def copies? (step : Tally → Option Tally) : (n : Nat) → Tally → Option Tally
  | 0, t => some t
  | n + 1, t => (step t).bind (copies? step n)

/-- The count of exactly `n` copies. -/
def exactly? (step : Tally → Option Tally) (n : Nat) (t : Tally) : Option Tally :=
  if n = 0 then (t.add 1).within? else copies? step n t

/-- The count of a repetition of a shape that `step` counts. A solid one describes no empty text. -/
def times? (step : Tally → Option Tally) (isSolid : Bool) (least : Nat) :
    (most : Option Nat) → Tally → Option Tally
  | none, t =>
    if least = 0 ∧ isSolid then (step (t.add 1)).bind fun t => (t.addBranches 2).within?
    else if least = 0 then (step t).bind fun t => ((t.add 3).addBranches 4).within?
    else (exactly? step least t).bind fun t => ((t.add 1).addBranches 2).within?
  | some most, t =>
    if least = 0 ∧ most = 1 then
      (step (t.add 1)).bind fun t => ((t.add 1).addBranches 2).within?
    else
      (exactly? step least t).bind fun t =>
        if least = most then some t
        else
          copies? (fun t => step ((t.add 1).addBranches 2)) (most - least) (t.add 1)

/-- What a shape adds to an automaton, unless that is too much. -/
def count? (d : Direction) : (p : Shape) → Place → Tally → Option Tally
  | alt p q, place, t =>
    let texts? := if place = .first then (alt p q).branches.mapM bytes? else none
    match texts? with
    | some texts =>
      (t.addTexts (if d = .forward then texts else texts.map List.reverse)).within?
    | none =>
      (p.count? d .first t).bind fun t =>
        q.count? d (if place = .first then .second else .further) (place.addTo t)
  | seq p q, place, t =>
    let whole : Option Tally := match d with
      | .forward => (p.count? d .first t).bind (q.count? d .first)
      | .backward => (q.count? d .first t).bind (p.count? d .first)
    whole.bind fun t => (place.addTo t).within?
  | times least most _ p, place, t =>
    (times? (p.count? d .first) p.isSolid least most t).bind fun t => (place.addTo t).within?
  | capture p, place, t =>
    let whole : Option Tally := match d with
      | .forward => (p.count? d .first (t.add 1)).map (·.add 1)
      | .backward => p.count? d .first t
    whole.bind fun t => (place.addTo t).within?
  | set s, place, t =>
    (place.addTo (if d = .forward then t.addForwardSet s else t.addBackwardSet s)).within?
  | literal text, place, t => (place.addTo (t.add (textLength text))).within?
  | empty, place, t | look _, place, t => (place.addTo (t.add 1)).within?

/-- What stands before the states of a shape: one state if the shape is anchored where reading
starts, else a loop over all bytes. -/
def entry (d : Direction) (p : Shape) : Tally :=
  if p.isAnchored (d = .forward) then Tally.add {} 1
  else ((Tally.add {} 2).addTransitions 1).addBranches 2

/-- Whether the automaton that reads in one direction is small enough. Forward, it keeps what the
whole pattern takes. -/
def fits (d : Direction) (p : Shape) : Bool :=
  let body := match d with
    | .forward => capture p
    | .backward => p
  ((body.count? d .first (entry d p)).bind fun t => (t.add 1).within?).isSome

end Shape

namespace Pattern

/-- Whether both automata for a pattern are small enough. -/
def fits (p : Pattern) : Bool :=
  let shape := Shape.ofPattern p
  shape.fits .forward && shape.fits .backward

/-- Whether a pattern is within the limits and has no two groups of one name. -/
def isSound (p : Pattern) : Bool := p.depth ≤ maxDepth && p.names.Nodup && p.fits

end Pattern

end Formulary
