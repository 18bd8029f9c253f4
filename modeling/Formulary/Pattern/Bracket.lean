import Formulary.Pattern.Escape

/-!
# Sets in brackets

A set in brackets lists characters, ranges, classes and further sets in brackets. Two lists may be
joined by `&&`, `--` and `~~`, which are of one precedence and are folded to the left.

Brackets are nested, and so are lists of several items and operations. The depth of the nesting is
bounded, and the bound is the measure of the descent: a level of brackets is read with the reader of
the level below it.

## Main definitions

* `Bracket.read?` — the set after an opening bracket
-/

namespace Formulary.Bracket

open Text Escape

/-- A reader of a set with the depth of its nesting. -/
abbrev Reader := Mode → List Char → Read (CharSet × Nat)

/-- An operation that joins two lists. -/
abbrev Join := CharSet → CharSet → CharSet

/-- What stands before an operation. -/
structure Operand where
  /-- The set before it. -/
  set : CharSet
  /-- The depth of the set. -/
  depth : Nat
  /-- The operation. -/
  join : Join

/-- What has been read of a set. -/
structure Progress where
  /-- What stands before the last operation, if there is one. -/
  left : Option Operand := none
  /-- The list after it. -/
  list : CharSet := .empty
  /-- How many items the list has. -/
  items : Nat := 0
  /-- The greatest depth of an item. -/
  itemDepth : Nat := 0

namespace Progress

/-- Adds an item to the list. -/
def add (p : Progress) (s : CharSet) (depth : Nat) : Progress :=
  { p with list := p.list.union s, items := p.items + 1, itemDepth := max p.itemDepth depth }

/-- The set that has been read. An operation ignores case on both sides if the modes do. -/
def value (m : Mode) (p : Progress) : CharSet :=
  match p.left with
  | none => p.list
  | some left =>
    if m.ignoreCase then left.join (left.set.folded m.unicode) (p.list.folded m.unicode)
    else left.join left.set p.list

/-- The depth of the list. A list of one item is the item. -/
def listDepth (p : Progress) : Nat := if p.items ≤ 1 then p.itemDepth else p.itemDepth + 1

/-- The depth of what has been read. -/
def depth (p : Progress) : Nat :=
  match p.left with
  | none => p.listDepth
  | some left => max left.depth p.listDepth + 1

/-- Starts a new list after an operation. -/
def join (m : Mode) (p : Progress) (op : Join) : Progress :=
  { left := some ⟨p.value m, p.depth, op⟩ }

end Progress

/-- A class in brackets and colons, such as `[:alpha:]`, after its opening bracket. -/
def posix? (m : Mode) (cs : List Char) : Option (Option CharSet × List Char) :=
  match cs with
  | ':' :: rest =>
    let (negated, rest) := match rest with
      | '^' :: rest => (true, rest)
      | _ => (false, rest)
    match rest.span (· != ':') with
    | (name, ':' :: ']' :: rest) =>
      (CharSet.posix? (String.ofList name)).map fun s => (m.close? negated s, rest)
    | _ => none
  | _ => none

/-- One member: a character, or what an escape stands for. -/
def member? (m : Mode) : List Char → Read Escape
  | [] => none
  | '\\' :: rest => Escape.read? m rest
  | c :: rest => some (.char c, rest)

/-- The set that a member stands for by itself. -/
def memberSet? (m : Mode) : Escape → Option CharSet
  | .char c => if m.allows c then some (.single c) else none
  | .set s => some s
  | .look _ => none

/-- A member or a range between two characters. A hyphen before a bracket or a further hyphen makes
no range. -/
def item? (m : Mode) (cs : List Char) : Read CharSet :=
  (member? m cs).bind fun (low, rest) =>
    let alone := (memberSet? m low).map (·, m.skip rest)
    match m.skip rest with
    | [] => none
    | '-' :: after =>
      match m.skip after with
      | [] | ']' :: _ | '-' :: _ => alone
      | after =>
        match low, member? m after with
        | .char low, some (.char high, rest) =>
          if low ≤ high && m.allows high then some (.range low high, rest) else none
        | _, _ => none
    | _ :: _ => alone

/-- The items of a set up to the closing bracket. -/
def items? (nested : Reader) (m : Mode) : (fuel : Nat) → Progress → List Char →
    Read (CharSet × Nat)
  | 0, _, _ => none
  | fuel + 1, p, cs =>
    match m.skip cs with
    | [] => none
    | ']' :: rest => some ((p.value m, p.depth), rest)
    | '&' :: '&' :: rest => items? nested m fuel (p.join m .inter) rest
    | '-' :: '-' :: rest => items? nested m fuel (p.join m .diff) rest
    | '~' :: '~' :: rest => items? nested m fuel (p.join m .symmDiff) rest
    | '[' :: rest =>
      match posix? m rest with
      | some (some s, rest) => items? nested m fuel (p.add s 0) rest
      | some (none, _) => none
      | none =>
        (nested m rest).bind fun ((s, depth), rest) =>
          items? nested m fuel (p.add s depth) rest
    | cs => (item? m cs).bind fun (s, rest) => items? nested m fuel (p.add s 0) rest

/-- The hyphens at the front of a set, which stand for themselves. -/
def hyphens (m : Mode) : (fuel : Nat) → Progress → List Char → Progress × List Char
  | fuel + 1, p, '-' :: rest => hyphens m fuel (p.add (.single '-') 0) (m.skip rest)
  | _, p, cs => (p, cs)

/-- A set after its opening bracket: a caret negates it, and a closing bracket in front stands for
itself. -/
def level (nested : Reader) : Reader := fun m cs =>
  let cs := m.skip cs
  let (negated, cs) := match cs with
    | '^' :: rest => (true, m.skip rest)
    | _ => (false, cs)
  let (p, rest) := match cs with
    | ']' :: rest => (Progress.add {} (.single ']') 0, rest)
    | _ => hyphens m cs.length {} cs
  (items? nested m (rest.length + 1) p rest).bind fun ((s, depth), rest) =>
    (m.close? negated s).map fun s => ((s, depth + 1), rest)

/-- The reader of sets with a bounded depth of brackets. -/
def levels : (budget : Nat) → Reader
  | 0 => fun _ _ => none
  | budget + 1 => level (levels budget)

/-- The set after an opening bracket, with the depth of its nesting. -/
def read? : Reader := levels Pattern.maxDepth

end Formulary.Bracket
