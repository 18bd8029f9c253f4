import Formulary.Fault
import Formulary.Number.Digits
import Formulary.Value.Basic

/-!
# Records

A record is a row of slots, each holding a value. Its length never changes.

## Main definitions

* `Record` — the slots
* `Record.empty` — a record without values
* `Record.get?`, `Record.set` — access to one slot

## Main results

* `Record.length_set` — a write keeps the length
* `Record.get?_set` — a write is seen in its own slot and in no other
-/

namespace Formulary

/-- A row of slots. -/
structure Record where
  /-- The values, by slot. -/
  slots : List Value
  deriving Inhabited

namespace Record

/-- A record of `n` slots without values. -/
def empty (n : Nat) : Record := ⟨List.replicate n .null⟩

/-- The number of slots. -/
def length (r : Record) : Nat := r.slots.length

/-- The value in a slot. -/
def get? (r : Record) (slot : Nat) : Option Value := r.slots[slot]?

/-- Write a value into a slot that the record has. -/
def set (r : Record) (slot : Nat) (value : Value) : Except Fault Record :=
  if slot < r.length then .ok ⟨r.slots.set slot value⟩ else .error (.slotPastEnd slot r.length)

/-- The lines that show values from a slot on. -/
def linesFrom (slot : Nat) : List Value → List String
  | [] => []
  | v :: rest => (Number.padded 3 slot ++ ": " ++ v.text ++ "\n") :: linesFrom (slot + 1) rest

/-- The printed form: a line for every slot. -/
def text (r : Record) : String := "".intercalate (linesFrom 0 r.slots)

/-- Equality of records, slot by slot. -/
def same (a b : Record) : Bool := Value.sameItems a.slots b.slots

theorem length_empty (n : Nat) : (empty n).length = n := by simp [empty, length]

/-- A write keeps the length. -/
theorem length_set {r r' : Record} {slot : Nat} {value : Value} (h : r.set slot value = .ok r') :
    r'.length = r.length := by
  rw [set] at h
  split at h
  · obtain rfl := Except.ok.inj h
    simp [length]
  · simp at h

/-- A write is seen in its own slot and in no other. -/
theorem get?_set {r r' : Record} {slot : Nat} {value : Value} (h : r.set slot value = .ok r')
    (i : Nat) : r'.get? i = if i = slot then some value else r.get? i := by
  rw [set] at h
  split at h
  · next hlt =>
    obtain rfl := Except.ok.inj h
    simp only [get?, List.getElem?_set]
    split
    · next h => subst h; simp; exact hlt
    · next h => rw [if_neg fun h' => h h'.symm]
  · simp at h

end Record

end Formulary
