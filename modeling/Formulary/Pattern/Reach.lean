import Formulary.Pattern.Reader

/-!
# Matching

The positions of a text are the bits of a number: bit `i` is set if the position after `i`
characters is in the set. A pattern takes the positions where it may start to those where it may
end, so that no order of the alternatives matters and no work is done twice. It is first laid over
the text, which settles once where its characters stand and its conditions hold.

## Main definitions

* `Positions.ofList` — positions from a list of tests
* `Overlay`, `Pattern.overlay` — a pattern laid over a text
* `Pattern.reach` — the positions that a pattern reaches
* `Pattern.occursIn` — whether a pattern describes some part of a text
* `Pattern.anchored?` — the pattern that describes whole texts only

## Main results

* `Positions.testBit_ofList`, `Positions.testBit_advance_succ` — positions as bits
* `Pattern.reach_chars`, `Pattern.reach_seq` and others — what each form of pattern reaches
-/

namespace Formulary

/-! ### Positions -/

/-- Positions of a text. -/
abbrev Positions := Nat

namespace Positions

/-- The positions at which a list of tests holds. -/
def ofList (tests : List Bool) : Positions := tests.foldr (fun b s => 2 * s + b.toNat) 0

/-- The next positions. -/
def advance (s : Positions) : Positions := 2 * s

/-- Positions after `n` rounds; a round that changes nothing is the last. -/
def iterate (f : Positions → Positions) : (n : Nat) → Positions → Positions
  | 0, s => s
  | n + 1, s =>
    let t := f s
    if t = s then s else iterate f n t

/-- Positions after at most `n` rounds. -/
def within (f : Positions → Positions) (n : Nat) (s : Positions) : Positions :=
  iterate (fun s => s ||| f s) n s

@[simp] theorem ofList_nil : ofList [] = 0 := rfl

theorem ofList_cons (b : Bool) (rest : List Bool) :
    ofList (b :: rest) = 2 * ofList rest + b.toNat := rfl

/-- A position is in the set exactly when its test holds. -/
theorem testBit_ofList (tests : List Bool) (i : Nat) :
    (ofList tests).testBit i = tests.getD i false := by
  induction tests generalizing i with
  | nil => simp
  | cons b rest ih =>
    have half (n : Nat) : (2 * n + b.toNat) / 2 = n := by
      have := b.toNat_lt
      omega
    rw [ofList_cons]
    cases i with
    | zero => cases b <;> simp [Nat.testBit_zero]
    | succ i => rw [Nat.testBit_succ, half, ih, List.getD_cons_succ]

/-- Advancing moves every position by one. -/
theorem testBit_advance_succ (s : Positions) (i : Nat) :
    (advance s).testBit (i + 1) = s.testBit i := by
  rw [advance, Nat.testBit_succ, Nat.mul_div_cancel_left s (by decide)]

/-- No position advances to the start. -/
theorem testBit_advance_zero (s : Positions) : (advance s).testBit 0 = false := by
  simp [advance, Nat.testBit_zero]

end Positions

/-- The neighbours of each position of a text. -/
def Look.gaps (text : List Char) : List (Option Char × Option Char) :=
  (none :: text.map some).zip (text.map some ++ [none])

/-! ### Patterns over a text -/

/-- A pattern laid over a text. -/
inductive Overlay
  /-- Nothing is taken. -/
  | stay
  /-- One character is taken, after the given positions. -/
  | take (places : Positions)
  /-- Nothing is taken, at the given positions. -/
  | keep (places : Positions)
  /-- One overlay, then another. -/
  | seq (first second : Overlay)
  /-- One overlay or another. -/
  | alt (first second : Overlay)
  /-- An overlay `least` times, and at most `more` times again. -/
  | times (least more : Nat) (body : Overlay)

namespace Overlay

open Positions

/-- The positions where an overlay may end, given those where it may start. -/
def reach : Overlay → Positions → Positions
  | stay, s => s
  | take places, s => advance (s &&& places)
  | keep places, s => s &&& places
  | seq a b, s => b.reach (a.reach s)
  | alt a b, s => a.reach s ||| b.reach s
  | times least more a, s => within a.reach more (iterate a.reach least s)

end Overlay

namespace Pattern

open Positions

/-- A pattern over a text. Without a bound of its own it is repeated as often as the text could
call for. -/
def overlay (text : List Char) : Pattern → Overlay
  | empty => .stay
  | chars set _ => .take (ofList (text.map set.contains))
  | look l => .keep (ofList ((Look.gaps text).map fun (before, after) => l.holds before after))
  | seq p q => .seq (p.overlay text) (q.overlay text)
  | alt p q => .alt (p.overlay text) (q.overlay text)
  | times least most _ p =>
    .times least (most.getD (least + text.length + 1) - least) (p.overlay text)
  | group _ p => p.overlay text

/-- The positions where a pattern may end, given those where it may start. -/
def reach (text : List Char) (p : Pattern) (s : Positions) : Positions := (p.overlay text).reach s

theorem reach_empty (text : List Char) (s : Positions) : empty.reach text s = s := rfl

theorem reach_chars (text : List Char) (set : Text.CharSet) (depth : Nat) (s : Positions) :
    (chars set depth).reach text s = advance (s &&& ofList (text.map set.contains)) := rfl

theorem reach_look (text : List Char) (l : Look) (s : Positions) :
    (look l).reach text s =
      s &&& ofList ((Look.gaps text).map fun (before, after) => l.holds before after) := rfl

theorem reach_seq (text : List Char) (p q : Pattern) (s : Positions) :
    (seq p q).reach text s = q.reach text (p.reach text s) := rfl

theorem reach_alt (text : List Char) (p q : Pattern) (s : Positions) :
    (alt p q).reach text s = p.reach text s ||| q.reach text s := rfl

theorem reach_times (text : List Char) (least : Nat) (most : Option Nat) (lazy : Bool)
    (p : Pattern) (s : Positions) :
    (times least most lazy p).reach text s =
      within (p.reach text) (most.getD (least + text.length + 1) - least)
        (iterate (p.reach text) least s) := rfl

theorem reach_group (text : List Char) (kind : GroupKind) (p : Pattern) (s : Positions) :
    (group kind p).reach text s = p.reach text s := rfl

/-- Whether a pattern describes some part of a text. -/
def occursIn (p : Pattern) (text : List Char) : Bool :=
  p.reach text (ofList (List.replicate (text.length + 1) true)) != 0

/-- A pattern with anchors on both sides, in the way a text is put between anchors. -/
def anchored? (source : List Char) : Option Pattern :=
  read? ("^(?:".toList ++ source ++ ")$".toList)

/-- Whether a pattern, put between anchors, occurs in a text, unless what that makes is no
pattern. -/
def describes? (source text : String) : Option Bool :=
  (anchored? source.toList).map (·.occursIn text.toList)

end Pattern

end Formulary
