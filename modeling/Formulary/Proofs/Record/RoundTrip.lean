import Formulary.Proofs.Number.Rounding
import Formulary.Proofs.Record.Paths

/-!
# Writing records and reading them back

A record that was read from a document is written as a document again, and that document is read.
Every slot then holds what it held, with two exceptions. Documents have no number that is not
finite: such a double is written as nothing. And documents have no decimals: a decimal is written as
a double, and comes back as the decimal that the text of this double spells.

## Implementation notes

The writer goes down the same paths as the reader, so at the end of the path to a leaf the written
document has what the slot of the leaf is written as. What is left is one question for each tag:
what does a leaf read from what its own values are written as?

Documents are taken to be proper, and schemas to be distinct. This is how they come: a document that
was read from a text is proper, and a schema that was read from a document is distinct, as is shown
where their readers are followed.

## Main definitions

* `Document.Proper` — documents whose numbers are words of sixty-four bits or finite
* `Schema.Distinct` — schemas whose objects have no two properties of one name
* `Value.rewritten` — what is left of a value after writing and reading it

## Main results

* `Layout.follow?_write` — what is written at the end of a path
* `Layout.exists_path` — every leaf is at the end of a path
* `Value.ofDocument_toDocument` — generic trees come back as they were
* `Schema.read_write` — records come back as they were, but for doubles and decimals
-/

namespace Formulary

/-! ### Documents -/

/-- Numbers are words of sixty-four bits, with or without a sign, or finite. -/
def Numeral.Proper : Numeral → Prop
  | whole n => isWhole n = true
  | real x => Double.isFinite x = true

namespace Document

mutual

/-- Every number in the document is a word of sixty-four bits or finite. -/
def Proper : Document → Prop
  | number n => n.Proper
  | array items => ProperAll items
  | object members => ProperMembers members
  | _ => True

/-- Every number in the items is proper. -/
def ProperAll : List Document → Prop
  | [] => True
  | d :: rest => Proper d ∧ ProperAll rest

/-- Every number in the members is proper. -/
def ProperMembers : List (String × Document) → Prop
  | [] => True
  | (_, d) :: rest => Proper d ∧ ProperMembers rest

end

theorem properAll_iff {items : List Document} : ProperAll items ↔ ∀ d ∈ items, d.Proper := by
  induction items with
  | nil => simp [ProperAll]
  | cons d rest ih => rw [ProperAll, ih, List.forall_mem_cons]

theorem properMembers_iff {members : List (String × Document)} :
    ProperMembers members ↔ ∀ member ∈ members, member.2.Proper := by
  induction members with
  | nil => simp [ProperMembers]
  | cons head rest ih => rw [ProperMembers, ih, List.forall_mem_cons]

theorem ProperMembers.find? {members : List (String × Document)} (h : ProperMembers members)
    {name : String} {d : Document} (hd : Entries.find? members name = some d) : d.Proper :=
  properMembers_iff.mp h _ (Entries.mem_of_find? hd)

theorem Proper.child? {d part : Document} (h : d.Proper) {k : Step} (hk : d.child? k = some part) :
    part.Proper := by
  cases d with
  | array items =>
    cases k with
    | position i => exact properAll_iff.mp h part (List.mem_of_getElem? hk)
    | field name => exact nomatch hk
  | object members =>
    cases k with
    | position i => exact nomatch hk
    | field name => exact ProperMembers.find? h hk
  | _ => exact nomatch hk

/-- Parts of a proper document are proper. -/
theorem Proper.follow? {d part : Document} (h : d.Proper) {path : Path}
    (hpath : d.follow? path = some part) : part.Proper := by
  induction path generalizing d with
  | nil =>
    obtain rfl := Option.some.inj hpath
    exact h
  | cons k path ih =>
    obtain ⟨child, hchild, hpath⟩ := Option.bind_eq_some_iff.mp hpath
    exact ih (h.child? hchild) hpath

end Document

theorem Numeral.Proper.isFinite {n : Numeral} (h : n.Proper) :
    Double.isFinite n.toDouble = true := by
  cases n with
  | whole n =>
    rw [Proper, isWhole, Bool.and_eq_true, decide_eq_true_eq, decide_eq_true_eq] at h
    exact Double.isFinite_ofInt (by omega) h.2
  | real x => exact h

/-! ### Generic trees -/

namespace Value

/-- A long is written as a whole number, and read as a long. -/
theorem toInt64?_toInt (n : Int64) : (Numeral.whole n.toInt).toInt64? = some n := by
  have := n.le_toInt
  have := n.toInt_lt
  rw [Numeral.toInt64?, if_pos (by omega), Int64.ofInt_toInt]

theorem ofDocument_toDocument_ofNumeral {n : Numeral} (h : n.Proper) :
    ofDocument (toDocument (ofNumeral n)) = ofNumeral n := by
  rw [ofNumeral]
  split
  · next i hi =>
    rw [toDocument, Document.whole, ofDocument, ofNumeral, toInt64?_toInt]
  · rw [toDocument, Document.real, if_pos h.isFinite]
    rfl

mutual

/-- **Generic trees come back as they were.** -/
theorem ofDocument_toDocument {d : Document} (h : d.Proper) :
    ofDocument (toDocument (ofDocument d)) = ofDocument d := by
  match d with
  | .null | .boolean _ | .string _ => rfl
  | .number n => exact ofDocument_toDocument_ofNumeral h
  | .array items =>
    rw [ofDocument, toDocument, ofDocument, ofItems_toItems h]
  | .object members =>
    rw [ofDocument, toDocument, ofDocument, ofMembers_toMembers h]

theorem ofItems_toItems {items : List Document} (h : Document.ProperAll items) :
    ofItems (toItems (ofItems items)) = ofItems items := by
  match items with
  | [] => rfl
  | d :: rest =>
    rw [ofItems, toItems, ofItems, ofDocument_toDocument h.1, ofItems_toItems h.2]

theorem ofMembers_toMembers {members : List (String × Document)}
    (h : Document.ProperMembers members) :
    ofMembers (toMembers (ofMembers members)) = ofMembers members := by
  match members with
  | [] => rfl
  | (k, d) :: rest =>
    rw [ofMembers, toMembers, ofMembers, ofDocument_toDocument h.1, ofMembers_toMembers h.2]

end

end Value

/-! ### Values of leaves -/

/-- What is left of a decimal: the decimal that the text of its double spells. -/
def Decimal.rewritten (d : Decimal) : Decimal :=
  let x := Double.ofDecimal d
  if Double.isFinite x then (Decimal.read? (Double.render Double.json x).toList).getD 0 else 0

/-- What is left of a value. A double that is not finite is lost, and becomes zero among others. A
decimal becomes the decimal that the text of its double spells, and is lost if that double is not
finite. -/
def Value.rewritten : Value → Value
  | double x => if Double.isFinite x then double x else null
  | decimal d => if Double.isFinite (Double.ofDecimal d) then decimal d.rewritten else null
  | doubleArray items => doubleArray (items.map fun x => if Double.isFinite x then x else 0.0)
  | decimalArray items => decimalArray (items.map Decimal.rewritten)
  | v => v

namespace Field

theorem readLong_whole (n : Int64) : readLong (.whole n.toInt) = n := by
  rw [Document.whole, readLong, Value.toInt64?_toInt, Option.getD_some]

theorem readInteger_whole (n : Int32) : readInteger (.whole n.toInt) = n := by
  rw [← Int32.toInt_toInt64, readInteger, readLong_whole, Int32.toInt32_toInt64]

theorem readDouble_real (x : Float) :
    readDouble (.real x) = if Double.isFinite x then x else 0.0 := by
  rw [Document.real]
  split <;> rfl

theorem readDecimal_real (d : Decimal) :
    readDecimal (.real (Double.ofDecimal d)) = d.rewritten := by
  rw [Document.real, Decimal.rewritten]
  split
  · next h => rw [readDecimal, Json.numeral, if_pos h]
  · rfl

/-- A generic value is not changed. -/
theorem rewritten_ofDocument {d : Document} (h : d.Proper) :
    (Value.ofDocument d).rewritten = Value.ofDocument d := by
  cases d with
  | number n =>
    rw [Value.ofDocument, Value.ofNumeral]
    split
    · rfl
    · rw [Value.rewritten, if_pos h.isFinite]
  | _ => rfl

/-- A leaf for any value reads back a generic value. -/
theorem read?_object {d : Document} (h : d.Proper) :
    (read? .object (Value.ofDocument d).toDocument).getD .null = Value.ofDocument d := by
  have hback := Value.ofDocument_toDocument h
  generalize (Value.ofDocument d).toDocument = written at hback ⊢
  rw [← hback]
  cases written <;> rfl

section

variable {α : Type} {each : Document → α} {write : α → Document}

theorem map_read {f : α → α} (h : ∀ a, each (write a) = f a) (items : List α) :
    (items.map write).map each = items.map f := by
  rw [List.map_map]
  exact List.map_congr_left fun a _ => h a

theorem map_read_self (h : ∀ a, each (write a) = a) (items : List α) :
    (items.map write).map each = items :=
  (map_read h items).trans (List.map_id' items)

end

theorem read?_objectArray {d : Document} {items : List Value}
    (h : read? .objectArray d = some (.objectArray items)) :
    ∃ ds, d = .array ds ∧ Value.ofItems ds = items := by
  cases d with
  | array ds =>
    exact ⟨ds, rfl, (Value.ofItems_eq_map ds).trans (Value.objectArray.inj (Option.some.inj h))⟩
  | _ => exact nomatch h

theorem read?_list {d : Document} {items : List Value} (h : read? .list d = some (.list items)) :
    ∃ ds, d = .array ds ∧ Value.ofItems ds = items := by
  cases d with
  | array ds => exact ⟨ds, rfl, Value.list.inj (Option.some.inj h)⟩
  | _ => exact nomatch h

theorem read?_map {d : Document} {entries : List (String × Value)}
    (h : read? .map d = some (.map entries)) :
    ∃ members, d = .object members ∧ Value.ofMembers members = entries := by
  cases d with
  | object members => exact ⟨members, rfl, Value.map.inj (Option.some.inj h)⟩
  | _ => exact nomatch h

/-- **What a leaf reads from what its own value is written as.** -/
theorem read?_toDocument {t : Tag} {d : Document} (hd : d.Proper) {v : Value}
    (h : read? t d = some v) : (read? t v.toDocument).getD .null = v.rewritten := by
  rcases tag_of_read? h with rfl | ⟨rfl, rfl⟩
  · cases v with
    | null => rfl
    | boolean b => rfl
    | integer n =>
      show Value.integer (readInteger (.whole n.toInt)) = _
      rw [readInteger_whole]
      rfl
    | long n =>
      show Value.long (readLong (.whole n.toInt)) = _
      rw [readLong_whole]
      rfl
    | double x =>
      rw [Value.toDocument, Document.real, Value.rewritten]
      split <;> rfl
    | decimal d =>
      have hread := readDecimal_real d
      rw [Document.real] at hread
      rw [Value.toDocument, Document.real, Value.rewritten]
      split
      · next hfinite =>
        rw [if_pos hfinite] at hread
        rw [← hread]
        rfl
      · rfl
    | string s => rfl
    | booleanArray items => exact congrArg Value.booleanArray (map_read_self (fun _ => rfl) items)
    | integerArray items =>
      exact congrArg Value.integerArray (map_read_self readInteger_whole items)
    | longArray items => exact congrArg Value.longArray (map_read_self readLong_whole items)
    | doubleArray items => exact congrArg Value.doubleArray (map_read readDouble_real items)
    | decimalArray items => exact congrArg Value.decimalArray (map_read readDecimal_real items)
    | stringArray items => exact congrArg Value.stringArray (map_read_self (fun _ => rfl) items)
    | objectArray items =>
      obtain ⟨ds, rfl, rfl⟩ := read?_objectArray h
      show Value.objectArray ((Value.toItems (Value.ofItems ds)).map Value.ofDocument) = _
      rw [← Value.ofItems_eq_map, Value.ofItems_toItems hd]
      rfl
    | list items =>
      obtain ⟨ds, rfl, rfl⟩ := read?_list h
      exact congrArg Value.list (Value.ofItems_toItems hd)
    | map entries =>
      obtain ⟨members, rfl, rfl⟩ := read?_map h
      exact congrArg Value.map (Value.ofMembers_toMembers hd)
    | time t => cases d <;> exact nomatch h
  · rw [read?_object hd, rewritten_ofDocument hd]

end Field

/-! ### Written documents -/

namespace Layout

theorem writeAll_eq_map (r : Record) (nodes : List Layout) :
    writeAll r nodes = nodes.map (write r) := by
  induction nodes with
  | nil => rfl
  | cons l rest ih => rw [writeAll, ih, List.map_cons]

theorem writeNamed_eq_mapValues (r : Record) (fields : List (String × Layout)) :
    writeNamed r fields = Entries.mapValues (write r) fields := by
  induction fields with
  | nil => rfl
  | cons head rest ih =>
    rw [writeNamed, ih]
    rfl

theorem child?_write (r : Record) {l node : Layout} {k : Step} (h : l.child? k = some node) :
    (write r l).child? k = some (write r node) := by
  cases l with
  | leaf t slot => simp at h
  | tuple nodes =>
    cases k with
    | position i =>
      have hnode : nodes[i]? = some node := h
      rw [write, writeAll_eq_map, Document.child?, List.getElem?_map, hnode, Option.map_some]
    | field name => cases h
  | dict fields =>
    cases k with
    | position i => cases h
    | field name =>
      have hnode : Entries.find? fields name = some node := h
      rw [write, writeNamed_eq_mapValues, Document.child?, Entries.find?_mapValues, hnode,
        Option.map_some]

/-- The written document has the document of every part at the end of the path to it. -/
theorem follow?_write (r : Record) {l node : Layout} {path : Path}
    (h : l.follow? path = some node) : (write r l).follow? path = some (write r node) := by
  induction path generalizing l with
  | nil =>
    obtain rfl := Option.some.inj h
    rfl
  | cons k path ih =>
    obtain ⟨child, hchild, hpath⟩ := Option.bind_eq_some_iff.mp h
    rw [Document.follow?, child?_write r hchild, Option.bind_some, ih hpath]

end Layout

/-! ### Paths to all leaves -/

namespace Schema

mutual

/-- No object has two properties of one name. -/
def Distinct : Schema → Prop
  | arrayOf item _ => Distinct item
  | arrayAt items _ => DistinctAll items
  | record properties _ => (properties.map (·.1)).Nodup ∧ DistinctNamed properties
  | _ => True

/-- No object in the schemas has two properties of one name. -/
def DistinctAll : List Schema → Prop
  | [] => True
  | s :: rest => Distinct s ∧ DistinctAll rest

/-- No object in the properties has two properties of one name. -/
def DistinctNamed : List (String × Schema) → Prop
  | [] => True
  | (_, s) :: rest => Distinct s ∧ DistinctNamed rest

end

end Schema

namespace Layout

/-- A layout has the names of its schema. -/
theorem keys_placeNamed (next : Nat) (properties : List (String × Schema)) :
    (placeNamed next properties).1.map (·.1) = properties.map (·.1) := by
  induction properties generalizing next with
  | nil => rfl
  | cons head rest ih =>
    obtain ⟨k, s⟩ := head
    rw [placeNamed, List.map_cons, List.map_cons, ih]

theorem mem_keys_of_find? {fields : List (String × Layout)} {name : String} {l : Layout}
    (h : Entries.find? fields name = some l) : name ∈ fields.map (·.1) :=
  List.mem_map_of_mem (Entries.mem_of_find? h)

mutual

/-- Every leaf is at the end of a path. -/
theorem exists_path (next : Nat) {s : Schema} (hs : s.Distinct) {t : Tag} {slot : Nat}
    (h : (t, slot) ∈ (place next s).1.leaves) :
    ∃ path, (place next s).1.follow? path = some (leaf t slot) := by
  rcases place_cases next s with ⟨t', hplace⟩ | ⟨items, rfl⟩ | ⟨properties, rfl⟩
  · rw [hplace] at h ⊢
    obtain ⟨rfl, rfl⟩ := Prod.mk.inj (List.mem_singleton.mp h)
    exact ⟨[], rfl⟩
  · rw [place] at h ⊢
    obtain ⟨i, l, path, hl, hpath⟩ := exists_path_all next hs h
    exact ⟨.position i :: path, Option.bind_eq_some_iff.mpr ⟨l, hl, hpath⟩⟩
  · rw [place] at h ⊢
    obtain ⟨name, l, path, hl, hpath⟩ := exists_path_named next hs.1 hs.2 h
    exact ⟨.field name :: path, Option.bind_eq_some_iff.mpr ⟨l, hl, hpath⟩⟩

theorem exists_path_all (next : Nat) {items : List Schema} (hs : Schema.DistinctAll items) {t : Tag}
    {slot : Nat} (h : (t, slot) ∈ leavesAll (placeAll next items).1) :
    ∃ (i : Nat) (l : Layout) (path : Path), (placeAll next items).1[i]? = some l ∧
      l.follow? path = some (leaf t slot) := by
  match items with
  | [] => simp [placeAll, leavesAll] at h
  | s :: rest =>
    rw [placeAll] at h ⊢
    rcases List.mem_append.mp h with h | h
    · obtain ⟨path, hpath⟩ := exists_path next hs.1 h
      exact ⟨0, _, path, rfl, hpath⟩
    · obtain ⟨i, l, path, hl, hpath⟩ := exists_path_all _ hs.2 h
      exact ⟨i + 1, l, path, hl, hpath⟩

theorem exists_path_named (next : Nat) {properties : List (String × Schema)}
    (hnodup : (properties.map (·.1)).Nodup) (hs : Schema.DistinctNamed properties) {t : Tag}
    {slot : Nat} (h : (t, slot) ∈ leavesNamed (placeNamed next properties).1) :
    ∃ (name : String) (l : Layout) (path : Path),
      Entries.find? (placeNamed next properties).1 name = some l ∧
        l.follow? path = some (leaf t slot) := by
  match properties with
  | [] => simp [placeNamed, leavesNamed] at h
  | (key, s) :: rest =>
    rw [placeNamed] at h ⊢
    rw [List.map_cons, List.nodup_cons] at hnodup
    rcases List.mem_append.mp h with h | h
    · obtain ⟨path, hpath⟩ := exists_path next hs.1 h
      exact ⟨key, _, path, by rw [Entries.find?_cons, if_pos rfl], hpath⟩
    · obtain ⟨name, l, path, hl, hpath⟩ := exists_path_named _ hnodup.2 hs.2 h
      -- The first field does not hide the one that was found.
      have hname : name ≠ key := by
        rintro rfl
        refine hnodup.1 ?_
        rw [← keys_placeNamed]
        exact mem_keys_of_find? hl
      exact ⟨name, l, path, by rw [Entries.find?_cons, if_neg hname, hl], hpath⟩

end

end Layout

/-! ### Records -/

/-- **Records come back from the documents that they are written as.** Every slot holds what is
left of its value, which is the value itself, except where it is a decimal or has one among its
items, or is a double that is not finite or has one among its items. -/
theorem Schema.read_write (s : Schema) (hs : s.Distinct) (d : Document) (hd : d.Proper)
    (slot : Nat) :
    (s.read (s.write (s.read d))).get? slot = ((s.read d).get? slot).map Value.rewritten := by
  by_cases hslot : slot ∈ (Layout.ofSchema s).slots
  · obtain ⟨⟨t, slot⟩, hleaf, rfl⟩ := List.mem_map.mp hslot
    obtain ⟨path, hpath⟩ : ∃ path, (Layout.ofSchema s).follow? path = some (.leaf t slot) :=
      Layout.exists_path 0 hs hleaf
    have hread := s.get?_read hpath d
    rw [s.get?_read hpath, write, Layout.follow?_write _ hpath, Layout.write, hread,
      Option.bind_some, Option.map_some, Option.map_some, Option.getD_some]
    cases hpart : d.follow? path with
    | none => rfl
    | some part =>
      rw [Option.bind_some]
      cases hvalue : Field.read? t part with
      | none => rfl
      | some v => exact congrArg some (Field.read?_toDocument (hd.follow? hpart) hvalue)
  · rw [s.get?_read_of_notMem hslot, s.get?_read_of_notMem hslot, Option.map_none]

/-- An exact amount, a name, and a place whose second part may be missing. -/
def priceTag : Schema :=
  .record [("amount", .number (some Schema.decimalFormat)), ("name", .string),
    ("place", .arrayAt [.number none, .integer none] (some false))] (some false)

/-- A document whose amount has more digits than a double. -/
def longPrice : Document :=
  .object [("amount", .string "0.12345678901234567890"), ("name", .number (.whole 7)),
    ("place", .array [.number (.real 0.5)])]

/-- The digits of an amount that no double has are lost, and the texts and doubles next to it come
back as they were. -/
theorem Schema.read_write_longPrice :
    priceTag.Distinct ∧ longPrice.Proper ∧
      ((priceTag.read longPrice).get? 0 = some (.decimal ⟨12345678901234567890, 20⟩) ∧
        (priceTag.read (priceTag.write (priceTag.read longPrice))).get? 0 =
          some (.decimal ⟨12345678901234568, 17⟩)) ∧
      ((priceTag.read longPrice).get? 1 = some (.string "7") ∧
        (priceTag.read (priceTag.write (priceTag.read longPrice))).get? 1 = some (.string "7")) ∧
      ((priceTag.read longPrice).get? 3 = some .null ∧
        (priceTag.read (priceTag.write (priceTag.read longPrice))).get? 3 = some .null) := by
  have hdistinct : priceTag.Distinct := by
    simp [priceTag, Distinct, DistinctNamed, DistinctAll]
  have hproper : longPrice.Proper := by
    have hhalf : Double.isFinite 0.5 = true := by decide +kernel
    simp [longPrice, Document.Proper, Document.ProperMembers, Document.ProperAll, Numeral.Proper,
      Numeral.isWhole, hhalf]
  have hback := priceTag.read_write hdistinct longPrice hproper
  have hamount : (priceTag.read longPrice).get? 0 =
      some (.decimal ⟨12345678901234567890, 20⟩) := rfl
  have hname : (priceTag.read longPrice).get? 1 = some (.string "7") := rfl
  have hunset : (priceTag.read longPrice).get? 3 = some .null := rfl
  refine ⟨hdistinct, hproper, ⟨hamount, ?_⟩, ⟨hname, ?_⟩, ⟨hunset, ?_⟩⟩
  · rw [hback, hamount, Option.map_some, Value.rewritten, if_pos (by decide +kernel),
      show Decimal.rewritten ⟨12345678901234567890, 20⟩ = ⟨12345678901234568, 17⟩ by
        decide +kernel]
  · rw [hback, hname]
    rfl
  · rw [hback, hunset]
    rfl

/-- No number of a document is infinite: a double that was read from the text `inf` is written as
nothing, and does not come back. -/
theorem Schema.read_write_infinite :
    ((Schema.number none).read (.string "inf")).get? 0 = some (.double Double.infinity) ∧
      ((Schema.number none).read ((Schema.number none).write
        ((Schema.number none).read (.string "inf")))).get? 0 = some .null ∧
      ¬ ∀ (s : Schema) (d : Document) (slot : Nat), s.Distinct → d.Proper →
        (s.read (s.write (s.read d))).get? slot = (s.read d).get? slot := by
  have hread : ((Schema.number none).read (.string "inf")).get? 0 =
      some (.double Double.infinity) := rfl
  have hlost : ((Schema.number none).read ((Schema.number none).write
      ((Schema.number none).read (.string "inf")))).get? 0 = some .null := rfl
  refine ⟨hread, hlost, fun h => ?_⟩
  have hsame := h (.number none) (.string "inf") 0 trivial trivial
  rw [hread, hlost] at hsame
  exact nomatch hsame

end Formulary
