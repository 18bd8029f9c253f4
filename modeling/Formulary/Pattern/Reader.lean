import Formulary.Pattern.Bracket
import Formulary.Pattern.Size

/-!
# Reading patterns

A pattern is one or more branches, a branch is a sequence of parts, and a part is a character, a
class, a condition or a group, perhaps repeated. Flags in parentheses hold up to the end of the
group around them, over all its branches.

The depth of groups is bounded, and the bound is the measure of the descent: a level of groups is
read with the reader of the level below it.

## Main definitions

* `Pattern.read?` — the pattern that a text denotes
-/

namespace Formulary.Pattern

open Text Escape

/-- A reader of a pattern, which stops at the end or before a closing parenthesis. -/
abbrev Reader := Mode → List Char → Read Pattern

/-! ### Groups -/

/-- A character that may stand in the name of a group. -/
def isNameChar (first : Bool) (c : Char) : Bool :=
  c == '_' ||
    if first then isAlphabetic c else c == '.' || c == '[' || c == ']' || isAlphanumeric c

/-- The name of a group up to the angle that closes it. -/
def name? (cs : List Char) : Read String :=
  match cs.span (· != '>') with
  | (first :: more, _ :: rest) =>
    if isNameChar true first && more.all (isNameChar false) then
      some (String.ofList (first :: more), rest)
    else none
  | _ => none

/-- What an opening parenthesis introduces. -/
inductive Opening
  /-- A group, with the modes of its body. -/
  | body (kind : GroupKind) (m : Mode)
  /-- New modes for the rest of the group around. -/
  | flags (m : Mode)

/-- What stands after an opening parenthesis. -/
def opening? (m : Mode) (cs : List Char) : Read Opening :=
  match m.skip cs with
  | '?' :: 'P' :: '<' :: rest | '?' :: '<' :: rest =>
    (name? rest).map fun (name, rest) => (.body (.named name) m, rest)
  | '?' :: rest =>
    match m.ofFlags? rest with
    | some (m, .body, rest) => some (.body .plain m, rest)
    | some (m, .rest, rest) => some (.flags m, rest)
    | none => none
  | cs => some (.body .numbered m, cs)

/-! ### Repetitions -/

/-- How often a part is repeated. -/
structure Repetition where
  /-- The least count. -/
  least : Nat
  /-- The greatest count, if there is one. -/
  most : Option Nat
  /-- Whether few times are preferred. -/
  lazy : Bool

/-- A repetition with the mark that makes it lazy, if that follows. -/
def repetitionOf (m : Mode) (least : Nat) (most : Option Nat) : List Char → Repetition × List Char
  | '?' :: rest => (⟨least, most, !m.lazy⟩, rest)
  | cs => (⟨least, most, m.lazy⟩, cs)

/-- The greatest count of a repetition. -/
def maxCount : Nat := 4294967295

/-- A count, with blanks around it. -/
def count? (m : Mode) (cs : List Char) : Read Nat :=
  let cs := cs.dropWhile isBlank
  let (digits, rest) := m.span Char.isDigit cs.length cs
  let n := digits.foldl (fun n c => 10 * n + (c.toNat - '0'.toNat)) 0
  if !digits.isEmpty && n ≤ maxCount then some (n, rest.dropWhile isBlank) else none

/-- A counted repetition after its brace. -/
def counted? (m : Mode) (cs : List Char) : Read Repetition :=
  (count? m (m.skip cs)).bind fun (least, rest) =>
    match rest with
    | '\x7d' :: rest => some (repetitionOf m least (some least) (m.skip rest))
    | ',' :: rest =>
      match m.skip rest with
      | '\x7d' :: rest => some (repetitionOf m least none (m.skip rest))
      | rest =>
        (count? m rest).bind fun (most, rest) =>
          match rest with
          | '\x7d' :: rest =>
            if least ≤ most then some (repetitionOf m least (some most) (m.skip rest)) else none
          | _ => none
    | _ => none

/-- The repetition that a mark stands for. -/
def repetition? (m : Mode) : List Char → Option (Read Repetition)
  | '?' :: rest => some (some (repetitionOf m 0 (some 1) rest))
  | '*' :: rest => some (some (repetitionOf m 0 none rest))
  | '+' :: rest => some (some (repetitionOf m 1 none rest))
  | '\x7b' :: rest => some (counted? m rest)
  | _ => none

/-- Repeats the last part. There has to be one, and it cannot be flags. -/
def repeatLast? (r : Repetition) : List Pattern → Option (List Pattern)
  | [] | empty :: _ => none
  | p :: parts => some (times r.least r.most r.lazy p :: parts)

/-! ### Parts -/

/-- The pattern that an escape stands for. -/
def ofEscape (m : Mode) : Escape → Pattern
  | .char c => chars (m.literal c) 0
  | .set s => chars s 0
  | .look l => look l

/-- A part other than a group or a repetition. -/
def part? (m : Mode) : List Char → Read Pattern
  | [] => none
  | '[' :: rest => (Bracket.read? m rest).map fun ((s, depth), rest) => (chars s depth, rest)
  | '\\' :: rest => (Escape.read? m rest).map fun (e, rest) => (ofEscape m e, rest)
  | '.' :: rest => m.dot?.map fun s => (chars s 0, rest)
  | '^' :: rest => some (look m.startAnchor, rest)
  | '$' :: rest => some (look m.stopAnchor, rest)
  | c :: rest => some (chars (m.literal c) 0, rest)

/-- What has been read of a group. -/
structure Branches where
  /-- The branches that are complete, last first. -/
  complete : List Pattern := []
  /-- The parts of the branch at hand, last first. Flags count as empty parts. -/
  parts : List Pattern := []

namespace Branches

/-- Adds a part to the branch at hand. -/
def add (b : Branches) (p : Pattern) : Branches := { b with parts := p :: b.parts }

/-- Ends the branch at hand. -/
def close (b : Branches) : Branches :=
  { complete := sequence b.parts.reverse :: b.complete }

/-- The pattern that has been read. -/
def value (b : Branches) : Pattern := choice b.close.complete.reverse

end Branches

/-- The branches of a group. -/
def branches? (inner : Reader) : (fuel : Nat) → Mode → Branches → List Char → Read Pattern
  | 0, _, _, _ => none
  | fuel + 1, m, b, cs =>
    match m.skip cs with
    | [] => some (b.value, [])
    | ')' :: rest => some (b.value, ')' :: rest)
    | '|' :: rest => branches? inner fuel m b.close rest
    | '(' :: rest =>
      match opening? m rest with
      | none => none
      | some (.flags m, rest) => branches? inner fuel m (b.add empty) rest
      | some (.body kind body, rest) =>
        match inner body rest with
        | some (p, ')' :: rest) => branches? inner fuel m (b.add (group kind p)) rest
        | _ => none
    | cs =>
      match repetition? m cs with
      | some none => none
      | some (some (r, rest)) =>
        match repeatLast? r b.parts with
        | some parts => branches? inner fuel m { b with parts } rest
        | none => none
      | none =>
        match part? m cs with
        | some (p, rest) => branches? inner fuel m (b.add p) rest
        | none => none

/-- The reader of patterns with a bounded depth of groups. -/
def levels : (budget : Nat) → Reader
  | 0 => fun _ _ => none
  | budget + 1 => fun m cs => branches? (levels budget) (cs.length + 1) m {} cs

/-- The pattern that a text denotes, if it denotes one within the limits. -/
def read? (cs : List Char) : Option Pattern :=
  match levels (maxDepth + 1) {} cs with
  | some (p, []) => if p.isSound then some p else none
  | _ => none

end Formulary.Pattern
