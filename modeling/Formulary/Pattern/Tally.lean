import Std.Data.TreeMap
import Formulary.Text.ByteRanges

/-!
# Counting the states of an automaton

Every state of an automaton takes a fixed number of bytes; the states that hold lists take more for
each entry.

Sets beyond ASCII are the reason for counting with care: the automaton shares the states for equal
ends of byte sequences, but remembers a limited number of them. States are remembered in slots, a
state goes to the slot of its hash, and there it drives out the one before. The hash depends on the
numbers of the states that follow, so states are numbered here as they are made.

## Main definitions

* `Tally` — the states and bytes that have been counted
* `Tally.within?` — a tally that is not too much
* `Tally.addForwardSet`, `Tally.addBackwardSet` — what a set adds
* `Tally.addTexts` — what a choice among texts adds

## Main results

* `Tally.within?_eq_some_iff` — a tally is refused exactly if its bytes are too many
-/

namespace Formulary

open Text

/-- The states and bytes of an automaton. -/
structure Tally where
  /-- The number of states. -/
  states : Nat := 0
  /-- The bytes of the lists that states hold. -/
  entries : Nat := 0
  deriving DecidableEq, Repr, Inhabited

namespace Tally

/-- The bytes of every state. -/
def stateBytes : Nat := 32

/-- The bytes of a transition in a list. -/
def transitionBytes : Nat := 8

/-- The bytes of a branch in a list. -/
def branchBytes : Nat := 4

/-- The bytes that an automaton may take. -/
def maxBytes : Nat := 10 * 1024 * 1024

/-- The bytes of an automaton. -/
def bytes (t : Tally) : Nat := stateBytes * t.states + t.entries

/-- The tally, unless it is too much. -/
def within? (t : Tally) : Option Tally := if t.bytes ≤ maxBytes then some t else none

/-- Adds states without lists. -/
def add (t : Tally) (n : Nat) : Tally := { t with states := t.states + n }

/-- Adds a state with transitions in a list. -/
def addTransitions (t : Tally) (n : Nat) : Tally :=
  ⟨t.states + 1, t.entries + transitionBytes * n⟩

/-- Adds entries to a list of branches. -/
def addBranches (t : Tally) (n : Nat) : Tally := { t with entries := t.entries + branchBytes * n }

/-! ### Remembered states -/

/-- States that are remembered in slots, with what they were made for. -/
abbrev Memory (α : Type) := Std.TreeMap Nat (α × Nat)

/-- The hash of some numbers, which takes in one after the other by exclusive or and a product. -/
def hash (numbers : List Nat) : UInt64 :=
  numbers.foldl (fun h n => (h ^^^ n.toUInt64) * 1099511628211) 14695981039346656037

/-- The state that was made for `key`, if its slot still remembers it. -/
def remembered? {α : Type} [DecidableEq α] (memory : Memory α) (slot : Nat) (key : α) :
    Option Nat :=
  memory[slot]?.bind fun (k, state) => if k = key then some state else none

/-! ### Sets -/

/-- A transition on a range of bytes to a state. -/
abbrev Transition := ByteRange × Nat

/-- The slots for states by their transitions. -/
def forwardSlots : Nat := 10000

/-- A tally with the states that are remembered by their transitions. -/
structure Forward where
  /-- What has been counted. -/
  tally : Tally
  /-- The states that are remembered. -/
  memory : Memory (List Transition) := {}

/-- The state with the given transitions, a new one unless it is remembered. -/
def Forward.state (f : Forward) (transitions : List Transition) : Nat × Forward :=
  let numbers := transitions.flatMap fun (r, next) => [r.low, r.high, next]
  let slot := (hash numbers).toNat % forwardSlots
  match remembered? f.memory slot transitions with
  | some state => (state, f)
  | none =>
    (f.tally.states, ⟨f.tally.addTransitions transitions.length,
      f.memory.insert slot (transitions, f.tally.states)⟩)

/-- The state that reads one of some ascending sequences of byte ranges and goes on to `stop`. No
sequence is longer than `longest`. -/
def Forward.read (stop : Nat) : (longest : Nat) → List (List ByteRange) → Forward → Nat × Forward
  | 0, _, f => (stop, f)
  | longest + 1, sequences, f =>
    if sequences.all List.isEmpty then (stop, f)
    else
      let groups := sequences.splitBy fun a b => a.head? == b.head?
      let (transitions, f) := groups.foldl (fun (done, f) group =>
        match group with
        | (r :: _) :: _ =>
          let (next, f) := read stop longest (group.map (·.drop 1)) f
          ((r, next) :: done, f)
        | _ => (done, f)) ([], f)
      f.state transitions.reverse

/-- The slots for states by the one transition that they have, and what follows it. -/
def backwardSlots : Nat := 1000

/-- The state that reads a range of bytes and goes on to the state before, a new one unless it is
remembered. -/
def backwardState (state : Tally × Memory Transition × Nat) (r : ByteRange) :
    Tally × Memory Transition × Nat :=
  let (t, memory, next) := state
  let slot := (hash [next, r.low, r.high]).toNat % backwardSlots
  match remembered? memory slot (r, next) with
  | some found => (t, memory, found)
  | none => (t.add 1, memory.insert slot ((r, next), t.states), t.states)

/-- The most bytes of a character. -/
def longestForm : Nat := 4

/-- Adds a set of ASCII characters: a state with all its ranges, and one to go on from. -/
def addAsciiSet (t : Tally) (s : CharSet) : Tally := (t.add 1).addTransitions s.ranges.length

/-- Adds a set to an automaton that reads forward: the state to go on from, and a tree of states
with the equal ones shared. -/
def addForwardSet (t : Tally) (s : CharSet) : Tally :=
  if s.ranges.all (·.2 < 0x80) then t.addAsciiSet s
  else (Forward.read t.states longestForm s.byteSequences { tally := t.add 1 }).2.tally

/-- Adds a set to an automaton that reads backward: a state with a branch for each byte sequence,
the state to go on from, and a chain of states for each sequence, with equal ends shared. -/
def addBackwardSet (t : Tally) (s : CharSet) : Tally :=
  if s.ranges.all (·.2 < 0x80) then t.addAsciiSet s
  else
    let stop := t.states + 1
    (s.byteSequences.foldl (fun (t, memory) sequence =>
      let (t, memory, _) := sequence.foldl backwardState (t, memory, stop)
      (t.addBranches 1, memory)) (t.add 2, ({} : Memory Transition))).1

/-! ### Texts -/

/-- Lists of bytes up to the first empty one, and after it. -/
def splitAtEmpty : List (List Nat) → List (List (List Nat))
  | [] => [[]]
  | [] :: rest => [] :: splitAtEmpty rest
  | (b :: bs) :: rest =>
    match splitAtEmpty rest with
    | [] => [[b :: bs]]
    | chunk :: chunks => ((b :: bs) :: chunk) :: chunks

/-- Lists of bytes without empty ones in front but for the last of them. -/
def dropRepeatedEnds : List (List Nat) → List (List Nat)
  | [] :: [] :: rest => dropRepeatedEnds ([] :: rest)
  | list => list

/-- The bytes that some lists begin with, each once. -/
def firstBytes (chunk : List (List Nat)) : List Nat := (chunk.filterMap List.head?).eraseDups

/-- Adds a choice among texts of at most `longest` bytes: a tree of states. A text that ends inside
the tree divides the texts before it from those after it, so that the order among texts is kept. At
the leaves nothing is added. -/
def addTree : (longest : Nat) → List (List Nat) → Tally → Tally
  | 0, _, t => t
  | longest + 1, texts, t =>
    if texts.all List.isEmpty then t
    else
      let chunks := splitAtEmpty (dropRepeatedEnds texts)
      let filled := (chunks.map firstBytes).filter (!·.isEmpty)
      let t := filled.foldl (fun t bytes =>
        if bytes.length = 1 then t.add 1 else t.addTransitions bytes.length) t
      let t := (t.add 1).addBranches (filled.length + (chunks.length - 1))
      chunks.foldl (fun t chunk => (firstBytes chunk).foldl (fun t b =>
        addTree longest ((chunk.filter (·.head? == some b)).map (·.drop 1)) t) t) t

/-- Adds a choice among texts that are not empty. -/
def addTexts (t : Tally) (texts : List (List Nat)) : Tally :=
  addTree ((texts.map List.length).foldl max 0) texts (t.add 1)

/-! ### First consequences -/

/-- A tally is refused exactly if its bytes are too many. -/
theorem within?_eq_some_iff {t u : Tally} : t.within? = some u ↔ t = u ∧ t.bytes ≤ maxBytes := by
  rw [within?]
  split
  · simp_all
  · constructor
    · simp
    · rintro ⟨rfl, h⟩
      contradiction

/-- Each state adds its bytes. -/
@[simp] theorem bytes_add (t : Tally) (n : Nat) : (t.add n).bytes = t.bytes + stateBytes * n := by
  simp only [bytes, add, Nat.mul_add]
  omega

@[simp] theorem bytes_addTransitions (t : Tally) (n : Nat) :
    (t.addTransitions n).bytes = t.bytes + stateBytes + transitionBytes * n := by
  simp only [bytes, addTransitions, Nat.mul_add]
  omega

@[simp] theorem bytes_addBranches (t : Tally) (n : Nat) :
    (t.addBranches n).bytes = t.bytes + branchBytes * n := by
  simp only [bytes, addBranches]
  omega

end Tally

end Formulary
