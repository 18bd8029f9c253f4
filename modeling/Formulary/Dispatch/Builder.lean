import Formulary.Dispatch.Table

/-!
# Building dispatch tables

A table is built from overloads and from a sequence of tags, widest first. An overload that
declares the tag at one position of the sequence also takes every tag after it. Declared signatures
are found before widened ones; where several overloads could be widened to one signature, the most
specific one takes it.

## Main definitions

* `Table.Builder` — the overloads and the sequence
* `Table.Builder.live` — the overloads that were not replaced
* `Table.Builder.specificity` — how far along the sequence the parameters stand
* `Table.Builder.variants` — the signatures that are widened onto a parameter list
* `Table.Builder.build` — the table

## Main results

* `Table.Builder.mem_narrower` — which tags a declared tag takes
-/

namespace Formulary.Table

/-- The overloads of a table and the sequence that widens arguments. -/
structure Builder where
  /-- The name of the table. -/
  name : String
  /-- The tags that arguments are widened along, widest first. -/
  widening : List Tag
  /-- The overloads, in the order they were added. -/
  overloads : List Overload
  /-- Whether other signatures are left to be looked up again. -/
  defers : Bool

namespace Builder

/-- A builder without overloads. -/
def new (name : String) (widening : List Tag) : Builder := ⟨name, widening, [], true⟩

/-- Another sequence. -/
def setWidening (b : Builder) (widening : List Tag) : Builder := { b with widening := widening }

/-- One more overload. It replaces an earlier one with the same parameters. -/
def add (b : Builder) (o : Overload) : Builder := { b with overloads := b.overloads ++ [o] }

/-- Signatures that the table does not list are refused. -/
def withoutDeferral (b : Builder) : Builder := { b with defers := false }

/-- The overloads of a list that no later one replaces. -/
def lastOfEach : List Overload → List Overload
  | [] => []
  | o :: rest =>
    let kept := lastOfEach rest
    if rest.any fun p => p.params == o.params then kept else o :: kept

/-- The overloads that were not replaced. -/
def live (b : Builder) : List Overload := lastOfEach b.overloads

/-! ### Order -/

/-- The position of a tag in the sequence, before its start for tags outside. -/
def position (widening : List Tag) (t : Tag) : Int :=
  match widening.idxOf? t with
  | some i => i
  | none => -1

/-- How far along the sequence the parameters stand. -/
def specificity (widening : List Tag) (o : Overload) : Int :=
  o.params.foldr (fun t n => position widening t + n) 0

/-- Whether an overload comes before another: the more specific one first, and among equals the
one with the lesser parameters. -/
def before (widening : List Tag) (a b : Overload) : Bool :=
  specificity widening b < specificity widening a ||
    (specificity widening a == specificity widening b && signatureLe a.params b.params)

/-- The overloads, most specific first. -/
def ordered (b : Builder) : List Overload := b.live.mergeSort (before b.widening)

/-! ### Widening -/

/-- The tags that are widened to a declared one: those after its first place in the sequence. -/
def narrower (widening : List Tag) (declared : Tag) : List Tag :=
  (widening.dropWhile (· != declared)).drop 1

/-- The signatures that are widened onto a parameter list, itself included. -/
def variants (widening : List Tag) : Signature → List Signature
  | [] => [[]]
  | declared :: rest =>
    (declared :: narrower widening declared).flatMap fun t => (variants widening rest).map (t :: ·)

/-- The row of a declared signature. -/
def exactRow (o : Overload) : Signature × Target := (o.params, .exact o)

/-- The rows of the signatures that are widened onto an overload. -/
def widenedRows (widening : List Tag) (o : Overload) : List (Signature × Target) :=
  (variants widening o.params).map fun key => (key, .widened o key)

/-- The table: declared signatures first, then the widened ones of one overload after the other. -/
def build (b : Builder) : Table where
  name := b.name
  widening := b.widening
  rows := b.ordered.map exactRow ++ b.ordered.flatMap (widenedRows b.widening)
  defers := b.defers

/-- A declared tag takes the tags after its first place in the sequence. -/
theorem mem_narrower {before after : List Tag} {declared t : Tag} (h : declared ∉ before) :
    t ∈ narrower (before ++ declared :: after) declared ↔ t ∈ after := by
  have hd : (before ++ declared :: after).dropWhile (· != declared) = declared :: after := by
    induction before with
    | nil => simp
    | cons b rest ih =>
      have hb : b ≠ declared := fun h' => h (h' ▸ List.mem_cons_self ..)
      rw [List.cons_append, List.dropWhile_cons_of_pos (by simpa using hb)]
      exact ih fun h' => h (List.mem_cons_of_mem _ h')
  simp [narrower, hd]

end Builder

end Formulary.Table
