import Formulary.Proofs.Record.Conformity

/-!
# Paths to the leaves

A path goes down from the root, by positions in tuples and by names of fields. Layouts and documents
are followed along the same paths. Reading a document puts into the slot of a leaf what the document
has at the end of the path to that leaf, whatever it has elsewhere, and no two paths lead to one
slot.

## Scope

The document need not have the shape of the layout: it may be a tuple that is too short, an object
without the member, or a scalar where the path still goes on.

## Main definitions

* `Step`, `Path` — one step down, and a way from the root
* `Layout.follow?`, `Document.follow?` — what is at the end of a path

## Main results

* `Layout.follow?_injective` — no two paths lead to one slot
* `Layout.getElem?_fill_of_notMem`, `Layout.getElem?_fill_of_follow?` — what reading a document
  leaves alone, and what it writes
* `Schema.get?_read` — what a record that is read holds for a leaf
-/

namespace Formulary

/-- One step down. -/
inductive Step
  | position (i : Nat)
  | field (name : String)
  deriving DecidableEq, Repr

/-- A way from the root. -/
abbrev Path := List Step

/-! ### Following a path -/

/-- The part of a document that a step leads to. -/
def Document.child? : Document → Step → Option Document
  | array items, .position i => items[i]?
  | object members, .field name => Entries.find? members name
  | _, _ => none

/-- The part of a document at the end of a path. -/
def Document.follow? (d : Document) : Path → Option Document
  | [] => some d
  | k :: path => (d.child? k).bind (follow? · path)

namespace Layout

/-- The part of a layout that a step leads to. -/
def child? (l : Layout) : Step → Option Layout
  | .position i => l.element? i
  | .field name => l.field? name

/-- The part of a layout at the end of a path. -/
def follow? (l : Layout) : Path → Option Layout
  | [] => some l
  | k :: path => (l.child? k).bind (follow? · path)

@[simp] theorem follow?_nil (l : Layout) : l.follow? [] = some l := rfl

theorem follow?_append (l : Layout) (path path' : Path) :
    l.follow? (path ++ path') = (l.follow? path).bind (follow? · path') := by
  induction path generalizing l with
  | nil => rfl
  | cons k path ih =>
    rw [List.cons_append, follow?, follow?, Option.bind_assoc]
    exact congrArg _ (funext fun child => ih child)

@[simp] theorem child?_leaf (t : Tag) (slot : Nat) (k : Step) : (leaf t slot).child? k = none := by
  cases k <;> rfl

/-- The slots below a node. -/
def slots (l : Layout) : List Nat := l.leaves.map (·.2)

@[simp] theorem slots_leaf (t : Tag) (slot : Nat) : (leaf t slot).slots = [slot] := rfl

@[simp] theorem slots_tuple_nil : (tuple []).slots = [] := rfl

@[simp] theorem slots_dict_nil : (dict []).slots = [] := rfl

theorem slots_tuple_cons (l : Layout) (rest : List Layout) :
    (tuple (l :: rest)).slots = l.slots ++ (tuple rest).slots := by
  simp only [slots, leaves, leavesAll, List.map_append]

theorem slots_dict_cons (name : String) (l : Layout) (rest : List (String × Layout)) :
    (dict ((name, l) :: rest)).slots = l.slots ++ (dict rest).slots := by
  simp only [slots, leaves, leavesNamed, List.map_append]

theorem slots_child? {l node : Layout} {k : Step} (h : l.child? k = some node) :
    node.slots.Sublist l.slots := by
  refine List.Sublist.map _ ?_
  cases k with
  | position i => exact leaves_element? h
  | field name => exact leaves_field? h

/-! ### One path to a slot -/

/-- Elements at different positions have no slot in common. -/
theorem position_unique {nodes : List Layout} (hnodup : (tuple nodes).slots.Nodup) {i j : Nat}
    {a b : Layout} (ha : nodes[i]? = some a) (hb : nodes[j]? = some b) {slot : Nat}
    (hslot : slot ∈ a.slots) (hslot' : slot ∈ b.slots) : i = j := by
  induction nodes generalizing i j with
  | nil => simp at ha
  | cons head rest ih =>
    rw [slots_tuple_cons, List.nodup_append'] at hnodup
    have apart : ∀ {n : Nat} {c}, rest[n]? = some c → slot ∈ c.slots → slot ∉ head.slots :=
      fun {n _} hc hmem hhead =>
        hnodup.2.2 hhead ((slots_child? (l := tuple rest) (k := .position n) hc).subset hmem)
    match i, j with
    | 0, 0 => rfl
    | 0, j + 1 =>
      obtain rfl : head = a := Option.some.inj ha
      exact absurd hslot (apart hb hslot')
    | i + 1, 0 =>
      obtain rfl : head = b := Option.some.inj hb
      exact absurd hslot' (apart ha hslot)
    | i + 1, j + 1 => rw [ih hnodup.2.1 ha hb]

/-- Fields of different names have no slot in common. -/
theorem field_unique {fields : List (String × Layout)} (hnodup : (dict fields).slots.Nodup)
    {name name' : String} {a b : Layout} (ha : Entries.find? fields name = some a)
    (hb : Entries.find? fields name' = some b) {slot : Nat} (hslot : slot ∈ a.slots)
    (hslot' : slot ∈ b.slots) : name = name' := by
  induction fields with
  | nil => simp at ha
  | cons head rest ih =>
    obtain ⟨key, node⟩ := head
    rw [slots_dict_cons, List.nodup_append'] at hnodup
    have apart : ∀ {n c}, Entries.find? rest n = some c → slot ∈ c.slots → slot ∉ node.slots :=
      fun {n _} hc hmem hhead =>
        hnodup.2.2 hhead ((slots_child? (l := dict rest) (k := .field n) hc).subset hmem)
    rw [Entries.find?_cons] at ha hb
    split at ha <;> split at hb
    · next h h' => rw [h, h']
    · obtain rfl := Option.some.inj ha
      exact absurd hslot (apart hb hslot')
    · obtain rfl := Option.some.inj hb
      exact absurd hslot' (apart ha hslot)
    · exact ih hnodup.2.1 ha hb

/-- Different steps lead to different slots. -/
theorem step_unique {l a b : Layout} (hnodup : l.slots.Nodup) {k k' : Step}
    (ha : l.child? k = some a) (hb : l.child? k' = some b) {slot : Nat} (hslot : slot ∈ a.slots)
    (hslot' : slot ∈ b.slots) : k = k' := by
  cases l with
  | leaf t i => simp at ha
  | tuple nodes =>
    match k, k' with
    | .position i, .position j => rw [position_unique hnodup ha hb hslot hslot']
    | .field _, _ => exact nomatch ha
    | _, .field _ => exact nomatch hb
  | dict fields =>
    match k, k' with
    | .field name, .field name' => rw [field_unique hnodup ha hb hslot hslot']
    | .position _, _ => exact nomatch ha
    | _, .position _ => exact nomatch hb

theorem mem_slots_of_follow? {l : Layout} {path : Path} {t : Tag} {slot : Nat}
    (h : l.follow? path = some (leaf t slot)) : slot ∈ l.slots := by
  induction path generalizing l with
  | nil =>
    obtain rfl := Option.some.inj h
    exact List.mem_singleton_self slot
  | cons k path ih =>
    obtain ⟨child, hchild, h⟩ := Option.bind_eq_some_iff.mp h
    exact (slots_child? hchild).subset (ih h)

/-- **No two paths lead to one slot.** -/
theorem follow?_injective {l : Layout} (hnodup : l.slots.Nodup) {path path' : Path} {t t' : Tag}
    {slot : Nat} (h : l.follow? path = some (leaf t slot))
    (h' : l.follow? path' = some (leaf t' slot)) : path = path' := by
  induction path generalizing l path' with
  | nil =>
    obtain rfl := Option.some.inj h
    cases path' with
    | nil => rfl
    | cons k' path' => simp [follow?] at h'
  | cons k path ih =>
    obtain ⟨child, hchild, hpath⟩ := Option.bind_eq_some_iff.mp h
    cases path' with
    | nil =>
      obtain rfl := Option.some.inj h'
      simp at hchild
    | cons k' path' =>
      obtain ⟨child', hchild', hpath'⟩ := Option.bind_eq_some_iff.mp h'
      obtain rfl : k = k' := step_unique hnodup hchild hchild' (mem_slots_of_follow? hpath)
        (mem_slots_of_follow? hpath')
      obtain rfl : child = child' := Option.some.inj (hchild.symm.trans hchild')
      rw [ih (hnodup.sublist (slots_child? hchild)) hpath hpath']

/-! ### Reading a document -/

mutual

/-- Reading a document leaves alone the slots that are not below the node. -/
theorem getElem?_fill_of_notMem {slot : Nat} (slots : List Value) (l : Layout) (d : Document)
    (h : slot ∉ l.slots) : (fill slots l d)[slot]? = slots[slot]? := by
  match l with
  | leaf t i =>
    rw [fill]
    split
    · refine List.getElem?_set_ne fun hi => h ?_
      rw [← hi]
      exact List.mem_singleton_self i
    · rfl
  | tuple nodes =>
    cases d with
    | array items => exact getElem?_fillAll_of_notMem slots nodes items h
    | _ => rfl
  | dict fields =>
    cases d with
    | object members => exact getElem?_fillNamed_of_notMem slots fields members h
    | _ => rfl

theorem getElem?_fillAll_of_notMem {slot : Nat} (slots : List Value) (nodes : List Layout)
    (items : List Document) (h : slot ∉ (tuple nodes).slots) :
    (fillAll slots nodes items)[slot]? = slots[slot]? := by
  match nodes, items with
  | [], _ => rw [fillAll.eq_def]
  | _ :: _, [] => rw [fillAll.eq_def]
  | l :: rest, d :: ds =>
    rw [slots_tuple_cons, List.mem_append, not_or] at h
    rw [fillAll, getElem?_fillAll_of_notMem _ rest ds h.2, getElem?_fill_of_notMem slots l d h.1]

theorem getElem?_fillNamed_of_notMem {slot : Nat} (slots : List Value)
    (fields : List (String × Layout)) (members : List (String × Document))
    (h : slot ∉ (dict fields).slots) :
    (fillNamed slots fields members)[slot]? = slots[slot]? := by
  match fields with
  | [] => rw [fillNamed.eq_def]
  | (name, l) :: rest =>
    rw [slots_dict_cons, List.mem_append, not_or] at h
    rw [fillNamed]
    split
    · next d _ =>
      rw [getElem?_fillNamed_of_notMem _ rest members h.2, getElem?_fill_of_notMem slots l d h.1]
    · exact getElem?_fillNamed_of_notMem slots rest members h.2

end

section

variable {slot : Nat} {v : Value} {node : Layout} {f : Document → Value}

/-- Of the items of an array, the one at the position of an element decides on its slots. -/
theorem getElem?_fillAll {nodes : List Layout} (hnodup : (tuple nodes).slots.Nodup)
    (hslot : slot ∈ node.slots)
    (hfill : ∀ slots d, slots[slot]? = some v → (fill slots node d)[slot]? = some (f d)) {i : Nat}
    (hnode : nodes[i]? = some node) (items : List Document) {slots : List Value}
    (hv : slots[slot]? = some v) :
    (fillAll slots nodes items)[slot]? = some ((items[i]?.map f).getD v) := by
  induction nodes generalizing i items slots with
  | nil => simp at hnode
  | cons l rest ih =>
    rw [slots_tuple_cons, List.nodup_append'] at hnodup
    cases items with
    | nil => rwa [fillAll.eq_def]
    | cons d ds =>
      rw [fillAll]
      cases i with
      | zero =>
        obtain rfl : l = node := Option.some.inj hnode
        rw [getElem?_fillAll_of_notMem _ rest ds (hnodup.2.2 hslot), hfill slots d hv]
        rfl
      | succ i =>
        have hrest : slot ∈ (tuple rest).slots :=
          (slots_child? (l := tuple rest) (k := .position i) hnode).subset hslot
        refine ih hnodup.2.1 hnode ds ?_
        rwa [getElem?_fill_of_notMem slots l d fun h => hnodup.2.2 h hrest]

/-- Of the members of an object, the one under the name of a field decides on its slots. -/
theorem getElem?_fillNamed {fields : List (String × Layout)} (hnodup : (dict fields).slots.Nodup)
    (hslot : slot ∈ node.slots)
    (hfill : ∀ slots d, slots[slot]? = some v → (fill slots node d)[slot]? = some (f d))
    {name : String} (hnode : Entries.find? fields name = some node)
    (members : List (String × Document)) {slots : List Value} (hv : slots[slot]? = some v) :
    (fillNamed slots fields members)[slot]? =
      some (((Entries.find? members name).map f).getD v) := by
  induction fields generalizing slots with
  | nil => simp at hnode
  | cons head rest ih =>
    obtain ⟨key, l⟩ := head
    rw [slots_dict_cons, List.nodup_append'] at hnodup
    rw [Entries.find?_cons] at hnode
    rw [fillNamed]
    split at hnode
    · next hkey =>
      obtain rfl := Option.some.inj hnode
      subst hkey
      have hrest := hnodup.2.2 hslot
      split
      · next d hd =>
        rw [getElem?_fillNamed_of_notMem _ rest members hrest, hfill slots d hv, hd]
        rfl
      · next hd =>
        rw [getElem?_fillNamed_of_notMem _ rest members hrest, hv, hd]
        rfl
    · have hrest : slot ∈ (dict rest).slots :=
        (slots_child? (l := dict rest) (k := .field name) hnode).subset hslot
      split
      · next d _ =>
        refine ih hnodup.2.1 hnode ?_
        rwa [getElem?_fill_of_notMem slots l d fun h => hnodup.2.2 h hrest]
      · exact ih hnodup.2.1 hnode hv

end

/-- **What reading a document writes.** The slot of a leaf takes the value that the leaf reads from
the document at the end of its path. Where there is nothing to read the slot stays as it is. -/
theorem getElem?_fill_of_follow? {l : Layout} (hnodup : l.slots.Nodup) {path : Path} {t : Tag}
    {slot : Nat} (h : l.follow? path = some (leaf t slot)) (d : Document) {slots : List Value}
    {v : Value} (hv : slots[slot]? = some v) :
    (fill slots l d)[slot]? = some (((d.follow? path).bind (Field.read? t)).getD v) := by
  induction path generalizing l d slots with
  | nil =>
    obtain rfl := Option.some.inj h
    rw [fill, Document.follow?, Option.bind_some]
    cases Field.read? t d with
    | none => exact hv
    | some w =>
      rw [List.getElem?_set_self]
      · rfl
      · exact (List.getElem?_eq_some_iff.mp hv).1
  | cons k path ih =>
    obtain ⟨node, hnode, hpath⟩ := Option.bind_eq_some_iff.mp h
    have hslot : slot ∈ node.slots := mem_slots_of_follow? hpath
    have hfill : ∀ slots d, slots[slot]? = some v → (fill slots node d)[slot]? =
        some (((d.follow? path).bind (Field.read? t)).getD v) :=
      fun slots d => ih (hnodup.sublist (slots_child? hnode)) hpath d
    rw [Document.follow?]
    cases l with
    | leaf t i => simp at hnode
    | tuple nodes =>
      match k with
      | .field _ => exact nomatch hnode
      | .position i =>
        cases d with
        | array items =>
          rw [fill, getElem?_fillAll hnodup hslot hfill hnode items hv]
          cases h : items[i]? <;> simp [Document.child?, h]
        | _ => exact hv
    | dict fields =>
      match k with
      | .position _ => exact nomatch hnode
      | .field name =>
        cases d with
        | object members =>
          rw [fill, getElem?_fillNamed hnodup hslot hfill hnode members hv]
          cases h : Entries.find? members name <;> simp [Document.child?, h]
        | _ => exact hv

/-! ### Lengths -/

mutual

theorem length_fill (slots : List Value) (l : Layout) (d : Document) :
    (fill slots l d).length = slots.length := by
  match l with
  | leaf tag slot =>
    rw [fill]
    split
    · exact List.length_set
    · rfl
  | tuple elements =>
    cases d with
    | array items => exact length_fillAll slots elements items
    | _ => rfl
  | dict fields =>
    cases d with
    | object members => exact length_fillNamed slots fields members
    | _ => rfl

theorem length_fillAll (slots : List Value) (ls : List Layout) (ds : List Document) :
    (fillAll slots ls ds).length = slots.length := by
  match ls, ds with
  | l :: rest, d :: ds => rw [fillAll, length_fillAll, length_fill]
  | [], _ => rw [fillAll.eq_def]
  | _ :: _, [] => rfl

theorem length_fillNamed (slots : List Value) (fields : List (String × Layout))
    (members : List (String × Document)) :
    (fillNamed slots fields members).length = slots.length := by
  match fields with
  | [] => rfl
  | (k, l) :: rest =>
    rw [fillNamed]
    split
    · rw [length_fillNamed, length_fill]
    · exact length_fillNamed slots rest members

end

end Layout

namespace Schema

theorem nodup_slots (s : Schema) : (Layout.ofSchema s).slots.Nodup :=
  (Layout.numbered_place 0 s).nodup

/-- The slots of a layout are those of its records. -/
theorem mem_slots_iff (s : Schema) (slot : Nat) :
    slot ∈ (Layout.ofSchema s).slots ↔ slot < Layout.slotCount s := by
  obtain ⟨-, hslots⟩ := Layout.numbered_place 0 s
  rw [Layout.slots, Layout.ofSchema, hslots, List.mem_range'_1, Layout.slotCount]
  omega

theorem length_emptyRecord (s : Schema) : s.emptyRecord.length = Layout.slotCount s :=
  Record.length_empty _

/-- Reading keeps the number of slots. -/
theorem length_read (s : Schema) (d : Document) : (s.read d).length = Layout.slotCount s := by
  rw [Record.length, read, Layout.length_fill]
  exact s.length_emptyRecord

/-- **What a record that is read holds for a leaf**: the value that the leaf reads from the document
at the end of its path, or no value. -/
theorem get?_read (s : Schema) {path : Path} {t : Tag} {slot : Nat}
    (h : (Layout.ofSchema s).follow? path = some (.leaf t slot)) (d : Document) :
    (s.read d).get? slot = some (((d.follow? path).bind (Field.read? t)).getD .null) := by
  have hlt : slot < Layout.slotCount s := (s.mem_slots_iff slot).mp (Layout.mem_slots_of_follow? h)
  refine Layout.getElem?_fill_of_follow? s.nodup_slots h d ?_
  rw [emptyRecord, Record.empty, List.getElem?_replicate_of_lt hlt]

/-- A record that is read has no slots but those of the layout. -/
theorem get?_read_of_notMem (s : Schema) {slot : Nat} (h : slot ∉ (Layout.ofSchema s).slots)
    (d : Document) : (s.read d).get? slot = none := by
  rw [Record.get?, read, Layout.getElem?_fill_of_notMem _ _ d h, emptyRecord, Record.empty,
    List.getElem?_eq_none]
  rw [List.length_replicate]
  rw [mem_slots_iff] at h
  omega

end Schema

end Formulary
