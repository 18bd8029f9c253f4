import Formulary.Record.Fields
import Mathlib.Data.List.Nodup

/-!
# Records that conform to a layout

A record is read leaf by leaf, each into a slot of its own. So whatever the document holds, a slot
holds no value or one that its leaf admits, and everything that is known of the leaves of a layout
stays known of the records that are read with it.

## Scope

The document need not have the shape of the schema, and names may occur more than once in either.

## Main definitions

* `Layout.leaves` — the leaves below a node, with their tags and slots
* `Layout.Numbered` — leaves on consecutive slots
* `Record.Conforms` — every slot holds what its leaf admits

## Main results

* `Layout.numbered_place` — leaves are put on consecutive slots
* `Schema.conforms_read` — a record that is read conforms
-/

namespace Formulary

namespace Layout

/-! ### Leaves -/

mutual

/-- The leaves below a node, from left to right. -/
def leaves : Layout → List (Tag × Nat)
  | leaf t slot => [(t, slot)]
  | tuple elements => leavesAll elements
  | dict fields => leavesNamed fields

/-- The leaves below several nodes. -/
def leavesAll : List Layout → List (Tag × Nat)
  | [] => []
  | l :: rest => leaves l ++ leavesAll rest

/-- The leaves below named nodes. -/
def leavesNamed : List (String × Layout) → List (Tag × Nat)
  | [] => []
  | (_, l) :: rest => leaves l ++ leavesNamed rest

end

theorem leaves_sublist_leavesAll {nodes : List Layout} {l : Layout} (h : l ∈ nodes) :
    l.leaves.Sublist (leavesAll nodes) := by
  induction nodes with
  | nil => simp at h
  | cons head rest ih =>
    rw [leavesAll]
    rcases List.mem_cons.mp h with rfl | h
    · exact List.sublist_append_left ..
    · exact (ih h).trans (List.sublist_append_right ..)

theorem leaves_sublist_leavesNamed {fields : List (String × Layout)} {name : String} {l : Layout}
    (h : Entries.find? fields name = some l) : l.leaves.Sublist (leavesNamed fields) := by
  induction fields with
  | nil => simp at h
  | cons head rest ih =>
    obtain ⟨k, node⟩ := head
    rw [Entries.find?_cons] at h
    rw [leavesNamed]
    split at h
    · obtain rfl := Option.some.inj h
      exact List.sublist_append_left ..
    · exact (ih h).trans (List.sublist_append_right ..)

/-- An element has no leaves but those of its tuple. -/
theorem leaves_element? {node l : Layout} {i : Nat} (h : node.element? i = some l) :
    l.leaves.Sublist node.leaves := by
  cases node with
  | leaf t slot => simp [element?] at h
  | dict fields => simp [element?] at h
  | tuple elements =>
    rw [element?] at h
    rw [leaves]
    exact leaves_sublist_leavesAll (List.mem_of_getElem? h)

/-- A field has no leaves but those of its dict. -/
theorem leaves_field? {node l : Layout} {name : String} (h : node.field? name = some l) :
    l.leaves.Sublist node.leaves := by
  cases node with
  | leaf t slot => simp [field?] at h
  | tuple elements => simp [field?] at h
  | dict fields =>
    rw [leaves]
    exact leaves_sublist_leavesNamed h

/-! ### Consecutive slots -/

/-- Leaves on the slots from `next` up to `stop`, one after the other. -/
def Numbered (next : Nat) (leaves : List (Tag × Nat)) (stop : Nat) : Prop :=
  next ≤ stop ∧ leaves.map (·.2) = List.range' next (stop - next)

namespace Numbered

variable {a b c : Nat} {xs ys : List (Tag × Nat)}

theorem nil (a : Nat) : Numbered a [] a := ⟨Nat.le_refl a, by simp⟩

theorem singleton (t : Tag) (a : Nat) : Numbered a [(t, a)] (a + 1) :=
  ⟨Nat.le_succ a, by simp⟩

theorem append (hx : Numbered a xs b) (hy : Numbered b ys c) : Numbered a (xs ++ ys) c := by
  obtain ⟨hab, hx⟩ := hx
  obtain ⟨hbc, hy⟩ := hy
  refine ⟨Nat.le_trans hab hbc, ?_⟩
  rw [List.map_append, hx, hy, show c - a = (b - a) + (c - b) by omega, ← List.range'_append_1,
    show a + (b - a) = b by omega]

/-- No slot is taken twice. -/
theorem nodup (hx : Numbered a xs b) : (xs.map (·.2)).Nodup := by
  rw [hx.2]
  exact List.nodup_range'

end Numbered

/-- A schema is put on one slot, or it is a tuple or a dict. -/
theorem place_cases (next : Nat) (s : Schema) :
    (∃ t, place next s = (leaf t next, next + 1)) ∨ (∃ items, s = .arrayAt items (some false)) ∨
      ∃ properties, s = .record properties (some false) := by
  rw [place.eq_def]
  split
  · next items => exact Or.inr (Or.inl ⟨items, rfl⟩)
  · next properties => exact Or.inr (Or.inr ⟨properties, rfl⟩)
  all_goals exact Or.inl ⟨_, rfl⟩

mutual

/-- The leaves of a schema are put on consecutive slots. -/
theorem numbered_place (next : Nat) (s : Schema) :
    Numbered next (place next s).1.leaves (place next s).2 := by
  rcases place_cases next s with ⟨t, h⟩ | ⟨items, rfl⟩ | ⟨properties, rfl⟩
  · rw [h, leaves]
    exact Numbered.singleton t next
  · rw [place, leaves]
    exact numbered_placeAll next items
  · rw [place, leaves]
    exact numbered_placeNamed next properties

theorem numbered_placeAll (next : Nat) (items : List Schema) :
    Numbered next (leavesAll (placeAll next items).1) (placeAll next items).2 := by
  cases items with
  | nil => exact Numbered.nil next
  | cons s rest =>
    rw [placeAll, leavesAll]
    exact (numbered_place next s).append (numbered_placeAll (place next s).2 rest)

theorem numbered_placeNamed (next : Nat) (properties : List (String × Schema)) :
    Numbered next (leavesNamed (placeNamed next properties).1) (placeNamed next properties).2 := by
  match properties with
  | [] => exact Numbered.nil next
  | (k, s) :: rest =>
    rw [placeNamed, leavesNamed]
    exact (numbered_place next s).append (numbered_placeNamed (place next s).2 rest)

end

end Layout

/-! ### Slots and leaves -/

/-- Every slot of a leaf holds what the leaf admits. -/
def Record.Conforms (r : Record) (leaves : List (Tag × Nat)) : Prop :=
  ∀ t slot v, (t, slot) ∈ leaves → r.get? slot = some v → t.Admits v

/-- A leaf reads values that carry its tag, or it reads any value for what it is. -/
theorem Field.tag_of_read? {t : Tag} {d : Document} {v : Value} (h : Field.read? t d = some v) :
    v.tag = t ∨ t = .object ∧ v = Value.ofDocument d := by
  rw [read?.eq_def] at h
  split at h
  all_goals first
    | exact Or.inl (Option.some.inj h ▸ rfl)
    | exact Or.inr ⟨rfl, (Option.some.inj h).symm⟩
    | obtain ⟨_, -, rfl⟩ := Option.map_eq_some_iff.mp h
      exact Or.inl rfl
    | exact nomatch h

theorem Field.admits_of_read? {t : Tag} {d : Document} {v : Value} (h : Field.read? t d = some v) :
    t.Admits v :=
  Or.inr ((tag_of_read? h).imp_right And.left)

/-- A write that its leaf admits leaves the other slots as they are. -/
theorem Record.Conforms.set {slots : List Value} {leaves : List (Tag × Nat)} {t : Tag} {slot : Nat}
    {v : Value} (h : (⟨slots⟩ : Record).Conforms leaves) (hnodup : (leaves.map (·.2)).Nodup)
    (hleaf : (t, slot) ∈ leaves) (hv : t.Admits v) :
    (⟨slots.set slot v⟩ : Record).Conforms leaves := by
  intro t' slot' w hleaf' hw
  rw [Record.get?, List.getElem?_set] at hw
  split at hw
  · next hslot =>
    -- one slot has one leaf
    have heq : (t, slot) = (t', slot') := List.inj_on_of_nodup_map hnodup hleaf hleaf' hslot
    obtain ⟨rfl, rfl⟩ := Prod.mk.inj heq
    split at hw
    · obtain rfl := Option.some.inj hw
      exact hv
    · simp at hw
  · exact h t' slot' w hleaf' hw

namespace Layout

section

variable {known : List (Tag × Nat)}

mutual

/-- Reading a document keeps the slots as the leaves ask for. -/
theorem conforms_fill (hnodup : (known.map (·.2)).Nodup) (slots : List Value) (l : Layout)
    (d : Document) (hl : l.leaves ⊆ known) (h : (⟨slots⟩ : Record).Conforms known) :
    (⟨fill slots l d⟩ : Record).Conforms known := by
  match l with
  | leaf t slot =>
    rw [fill]
    split
    · next v hv => exact h.set hnodup (hl (by simp [leaves])) (Field.admits_of_read? hv)
    · exact h
  | tuple elements =>
    rw [leaves] at hl
    cases d with
    | array items => exact conforms_fillAll hnodup slots elements items hl h
    | _ => exact h
  | dict fields =>
    rw [leaves] at hl
    cases d with
    | object members => exact conforms_fillNamed hnodup slots fields members hl h
    | _ => exact h

theorem conforms_fillAll (hnodup : (known.map (·.2)).Nodup) (slots : List Value)
    (nodes : List Layout) (items : List Document) (hl : leavesAll nodes ⊆ known)
    (h : (⟨slots⟩ : Record).Conforms known) :
    (⟨fillAll slots nodes items⟩ : Record).Conforms known := by
  match nodes, items with
  | [], _ => rwa [fillAll.eq_def]
  | l :: rest, [] => rwa [fillAll.eq_def]
  | l :: rest, d :: ds =>
    rw [leavesAll, List.append_subset] at hl
    rw [fillAll]
    exact conforms_fillAll hnodup _ rest ds hl.2 (conforms_fill hnodup slots l d hl.1 h)

theorem conforms_fillNamed (hnodup : (known.map (·.2)).Nodup) (slots : List Value)
    (fields : List (String × Layout)) (members : List (String × Document))
    (hl : leavesNamed fields ⊆ known) (h : (⟨slots⟩ : Record).Conforms known) :
    (⟨fillNamed slots fields members⟩ : Record).Conforms known := by
  match fields with
  | [] => rwa [fillNamed.eq_def]
  | (k, l) :: rest =>
    rw [leavesNamed, List.append_subset] at hl
    rw [fillNamed]
    split
    · next d _ =>
      exact conforms_fillNamed hnodup _ rest members hl.2 (conforms_fill hnodup slots l d hl.1 h)
    · exact conforms_fillNamed hnodup slots rest members hl.2 h

end

end

end Layout

/-- **A record that is read conforms.** Every slot of a leaf holds no value, or one that carries
the tag of the leaf, or any value where the leaf asks for none in particular. -/
theorem Schema.conforms_read (s : Schema) (d : Document) :
    (s.read d).Conforms (Layout.ofSchema s).leaves := by
  refine Layout.conforms_fill (Layout.numbered_place 0 s).nodup s.emptyRecord.slots
    (Layout.ofSchema s) d (fun _ h => h) ?_
  intro t slot v _ hv
  obtain rfl : v = .null := List.eq_of_mem_replicate (List.mem_of_getElem? hv)
  exact t.admits_null

end Formulary
