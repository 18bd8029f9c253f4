import Formulary.Proofs.Record.Conforming
import Mathlib.Data.String.Basic

/-!
# The numbering of slots

The leaves of a schema are put on slots one after the other. So the slots of a layout, from its
first leaf to its last, are all the numbers from zero up to the length of its records; and a part of
a schema may give way to any other one with as many leaves without moving a leaf outside of it.

## Scope

A part of a schema need not be laid out itself: the item of an array, or a property of an object
that admits others, is below a leaf. Such a part has no leaves, and all leaves are outside of it.

## Implementation notes

A layout keeps its fields as a list. That the list is in the order of the bytes of the names is
said apart, as `Layout.Ascending`; names are compared character by character, so it takes that the
bytes of texts are ordered as their characters are.

Where the numbering starts does not matter to how far it goes, `Layout.stop_place`. This is what the
comparison of two schemas rests on: behind the parts that differ both are at one slot again.

## Main definitions

* `Text.bytes` — the bytes of a text
* `Layout.Ascending` — a layout whose fields are in the order of their names
* `Schema.Frame`, `Schema.plug` — a schema around a part, layer by layer
* `Schema.Outside` — the paths that do not lead through the part
* `Layout.slotAt?` — the slot of the leaf at the end of a path

## Main results

* `Text.bytes_lt` — texts are in the order of their bytes
* `Layout.slotAt?_plug` — leaves outside of a part keep their slots
* `Schema.slots_in_order` — the numbering of slots
-/

namespace Formulary

/-! ### The order of bytes -/

namespace Text

/-- The bytes of a text. -/
def bytes (s : String) : List UInt8 := s.toUTF8.data.toList

theorem bytes_eq (s : String) : bytes s = s.toList.flatMap String.utf8EncodeChar := by
  obtain ⟨cs, rfl⟩ : ∃ cs, s = String.ofList cs := ⟨s.toList, String.ofList_toList.symm⟩
  rw [bytes, String.toUTF8_eq_toByteArray, String.toByteArray_ofList, List.utf8Encode,
    List.toList_data_toByteArray, String.toList_ofList]

/-- Of two characters the smaller one has the smaller bytes, whatever comes after them. -/
theorem encode_append_lt {c d : Char} (h : c < d) (xs ys : List UInt8) :
    String.utf8EncodeChar c ++ xs < String.utf8EncodeChar d ++ ys := by
  have hlt : c.val.toNat < d.val.toNat := h
  have hvalid : d.val.toNat < 1114112 := by
    have hd := d.valid
    unfold UInt32.isValidChar Nat.isValidChar at hd
    omega
  -- the bytes after the first one are digits in base sixty-four
  have hdigits : ∀ n : Nat, n / 4096 = n / 64 / 64 ∧ n / 262144 = n / 64 / 64 / 64 := by
    omega
  obtain ⟨hc₂, hc₃⟩ := hdigits c.val.toNat
  obtain ⟨hd₂, hd₃⟩ := hdigits d.val.toNat
  simp only [String.utf8EncodeChar, hc₂, hc₃, hd₂, hd₃]
  -- a case for every two numbers of bytes
  split_ifs <;> simp only [List.cons_append, List.nil_append, List.cons_lt_cons_iff,
    UInt8.lt_iff_toNat_lt, ← UInt8.toNat_inj, UInt8.toNat_ofNat'] <;>
  · simp (disch := omega) only [Nat.mod_eq_of_lt]
    omega

/-- **Texts are in the order of their bytes.** -/
theorem bytes_lt {s t : String} (h : s < t) : bytes s < bytes t := by
  rw [bytes_eq, bytes_eq]
  have hlt : s.toList < t.toList := String.lt_iff_toList_lt.mp h
  generalize s.toList = cs at hlt
  generalize t.toList = ds at hlt
  induction hlt with
  | @nil d ds =>
    rw [List.flatMap_nil, List.flatMap_cons]
    obtain ⟨b, bs, hd⟩ := List.exists_cons_of_ne_nil (String.utf8EncodeChar_ne_nil (c := d))
    rw [hd]
    exact List.nil_lt_cons ..
  | rel hlt =>
    rw [List.flatMap_cons, List.flatMap_cons]
    exact encode_append_lt hlt _ _
  | cons _ ih =>
    rw [List.flatMap_cons, List.flatMap_cons]
    exact List.append_left_lt ih

end Text

namespace Layout

mutual

/-- The fields of every dict are in the order of the bytes of their names. -/
def Ascending : Layout → Prop
  | leaf .. => True
  | tuple elements => AscendingAll elements
  | dict fields => fields.Pairwise (Text.bytes ·.1 < Text.bytes ·.1) ∧ AscendingNamed fields

/-- The fields of every dict below the nodes are in order. -/
def AscendingAll : List Layout → Prop
  | [] => True
  | l :: rest => Ascending l ∧ AscendingAll rest

/-- The fields of every dict below the named nodes are in order. -/
def AscendingNamed : List (String × Layout) → Prop
  | [] => True
  | (_, l) :: rest => Ascending l ∧ AscendingNamed rest

end

mutual

/-- A schema with sorted names is laid out in the order of the names. -/
theorem ascending_place (next : Nat) {s : Schema} (hs : s.Sorted) : (place next s).1.Ascending := by
  rcases place_cases next s with ⟨t, h⟩ | ⟨items, rfl⟩ | ⟨properties, rfl⟩
  · rw [h]
    trivial
  · rw [place]
    exact ascending_placeAll next hs
  · rw [place]
    exact ⟨(pairwise_placeNamed next hs.1).imp Text.bytes_lt, ascending_placeNamed next hs.2⟩

theorem ascending_placeAll (next : Nat) {items : List Schema} (hs : Schema.SortedAll items) :
    AscendingAll (placeAll next items).1 := by
  match items with
  | [] => trivial
  | s :: rest => exact ⟨ascending_place next hs.1, ascending_placeAll _ hs.2⟩

theorem ascending_placeNamed (next : Nat) {properties : List (String × Schema)}
    (hs : Schema.SortedNamed properties) : AscendingNamed (placeNamed next properties).1 := by
  match properties with
  | [] => trivial
  | (k, s) :: rest => exact ⟨ascending_place next hs.1, ascending_placeNamed _ hs.2⟩

end

/-! ### How far the numbering goes -/

mutual

/-- From wherever the numbering starts it goes equally far. -/
theorem stop_place (m n : Nat) (s : Schema) : (place m s).2 + n = (place n s).2 + m := by
  match s with
  | .arrayAt items (some false) => exact stop_placeAll m n items
  | .record properties (some false) => exact stop_placeNamed m n properties
  | .integer _ | .number _ | .string | .boolean | .array _ | .arrayOf .. | .arrayAt _ none
  | .arrayAt _ (some true) | .object none | .object (some true) | .object (some false)
  | .record _ none | .record _ (some true) =>
    simp only [place]
    omega

theorem stop_placeAll (m n : Nat) (items : List Schema) :
    (placeAll m items).2 + n = (placeAll n items).2 + m := by
  match items with
  | [] => exact Nat.add_comm m n
  | s :: rest =>
    have hhead := stop_place m n s
    have hrest := stop_placeAll (place m s).2 (place n s).2 rest
    rw [placeAll, placeAll]
    dsimp only
    omega

theorem stop_placeNamed (m n : Nat) (properties : List (String × Schema)) :
    (placeNamed m properties).2 + n = (placeNamed n properties).2 + m := by
  match properties with
  | [] => exact Nat.add_comm m n
  | (k, s) :: rest =>
    have hhead := stop_place m n s
    have hrest := stop_placeNamed (place m s).2 (place n s).2 rest
    rw [placeNamed, placeNamed]
    dsimp only
    omega

end

/-- Schemas with as many slots go equally far. -/
theorem stop_place_eq {a b : Schema} (h : slotCount a = slotCount b) (next : Nat) :
    (place next a).2 = (place next b).2 := by
  have ha := stop_place next 0 a
  have hb := stop_place next 0 b
  rw [slotCount, slotCount] at h
  omega

theorem length_leaves_ofSchema (s : Schema) : (ofSchema s).leaves.length = slotCount s := by
  have h := congrArg List.length (numbered_place 0 s).2
  rwa [List.length_map, List.length_range', Nat.sub_zero] at h

theorem placeAll_append (next : Nat) (xs ys : List Schema) :
    placeAll next (xs ++ ys) =
      ((placeAll next xs).1 ++ (placeAll (placeAll next xs).2 ys).1,
        (placeAll (placeAll next xs).2 ys).2) := by
  induction xs generalizing next with
  | nil => rfl
  | cons s xs ih => simp only [List.cons_append, placeAll, ih]

theorem placeNamed_append (next : Nat) (xs ys : List (String × Schema)) :
    placeNamed next (xs ++ ys) =
      ((placeNamed next xs).1 ++ (placeNamed (placeNamed next xs).2 ys).1,
        (placeNamed (placeNamed next xs).2 ys).2) := by
  induction xs generalizing next with
  | nil => rfl
  | cons s xs ih => simp only [List.cons_append, placeNamed, ih]

theorem length_placeAll (next : Nat) (items : List Schema) :
    (placeAll next items).1.length = items.length := by
  induction items generalizing next with
  | nil => rfl
  | cons s rest ih => rw [placeAll, List.length_cons, List.length_cons, ih]

/-- The slot of the leaf at the end of a path, if there is one. -/
def slotAt? (l : Layout) (path : Path) : Option Nat := (l.follow? path).bind slot?

end Layout

/-! ### A part of a schema -/

namespace Schema

/-- A schema around one part of it, without the part. -/
inductive Frame
  /-- The part describes the items of an array. -/
  | item (additional : Option Bool)
  /-- The part stands at a position, with others before and after it. -/
  | element (before after : List Schema) (additional : Option Bool)
  /-- The part is a property, with others before and after it. -/
  | property (before : List (String × Schema)) (name : String) (after : List (String × Schema))
    (additional : Option Bool)

/-- The schema with a part put in. -/
def Frame.fill : Frame → Schema → Schema
  | item additional, s => .arrayOf s additional
  | element before after additional, s => .arrayAt (before ++ s :: after) additional
  | property before name after additional, s => .record (before ++ (name, s) :: after) additional

/-- The step that leads to the part, where it is laid out. -/
def Frame.step? : Frame → Option Step
  | element before _ (some false) => some (.position before.length)
  | property _ name _ (some false) => some (.field name)
  | _ => none

/-- The schema around a part at any depth, the outermost layer first. -/
def plug : List Frame → Schema → Schema
  | [], s => s
  | f :: frames, s => f.fill (plug frames s)

/-- The way to the part, where it is laid out. -/
def way? : List Frame → Option Path
  | [] => some []
  | f :: frames => f.step?.bind fun k => (way? frames).map (k :: ·)

/-- A path does not lead to the part or through it. -/
def Outside (frames : List Frame) (path : Path) : Prop :=
  ∀ way, way? frames = some way → ¬ way <+: path

/-- Beyond the first step a path is outside of the part as it was before. -/
theorem Outside.tail {f : Frame} {frames : List Frame} {k : Step} {path : Path}
    (h : Outside (f :: frames) (k :: path)) (hk : f.step? = some k) : Outside frames path := by
  intro way hway hprefix
  refine h (k :: way) ?_ ((List.prefix_cons_inj k).mpr hprefix)
  rw [way?, hk, Option.bind_some, hway, Option.map_some]

end Schema

namespace Layout

open Schema (plug Outside)

section

variable {l l' : Layout} {path : Path}

theorem slotAt?_cons (l : Layout) (k : Step) (path : Path) :
    l.slotAt? (k :: path) = (l.child? k).bind (slotAt? · path) := by
  rw [slotAt?, follow?, Option.bind_assoc]
  rfl

/-- The leaves of two tuples that differ in one element are equal where those of the elements
are. -/
theorem slotAt?_tuple_congr (before after : List Layout)
    (h : ∀ rest, path = .position before.length :: rest → l.slotAt? rest = l'.slotAt? rest) :
    (tuple (before ++ l :: after)).slotAt? path = (tuple (before ++ l' :: after)).slotAt? path := by
  match path with
  | [] => rfl
  | .field _ :: _ => rfl
  | .position i :: rest =>
    rw [slotAt?_cons, slotAt?_cons, child?, child?, element?, element?]
    by_cases hi : i = before.length
    · subst hi
      rw [List.getElem?_append_right (Nat.le_refl _), List.getElem?_append_right (Nat.le_refl _),
        Nat.sub_self, List.getElem?_cons_zero, List.getElem?_cons_zero]
      exact h rest rfl
    · rw [List.getElem?_append, List.getElem?_append]
      split
      · rfl
      · obtain ⟨j, hj⟩ : ∃ j, i - before.length = j + 1 := ⟨i - before.length - 1, by omega⟩
        rw [hj, List.getElem?_cons_succ, List.getElem?_cons_succ]

/-- The leaves of two dicts that differ in one field are equal where those of the fields are. -/
theorem slotAt?_dict_congr (before after : List (String × Layout)) (name : String)
    (h : ∀ rest, path = .field name :: rest → l.slotAt? rest = l'.slotAt? rest) :
    (dict (before ++ (name, l) :: after)).slotAt? path =
      (dict (before ++ (name, l') :: after)).slotAt? path := by
  match path with
  | [] => rfl
  | .position _ :: _ => rfl
  | .field key :: rest =>
    rw [slotAt?_cons, slotAt?_cons, child?, child?, field?, field?]
    induction before with
    | nil =>
      rw [List.nil_append, List.nil_append, Entries.find?_cons, Entries.find?_cons]
      split
      · next hkey => exact h rest (by rw [hkey])
      · rfl
    | cons head before ih =>
      obtain ⟨k, node⟩ := head
      rw [List.cons_append, List.cons_append, Entries.find?_cons, Entries.find?_cons]
      split
      · rfl
      · exact ih

end

section

variable {a b : Schema}

/-- With either part a schema has as many slots. -/
theorem slotCount_plug (h : slotCount a = slotCount b) (frames : List Schema.Frame) :
    slotCount (plug frames a) = slotCount (plug frames b) := by
  induction frames with
  | nil => exact h
  | cons f frames ih =>
    have hstop := stop_place_eq ih
    rw [slotCount, slotCount]
    cases f with
    | item _ => rfl
    | element before after additional =>
      rcases additional with _ | _ | _
      · rfl
      · simp only [plug, Schema.Frame.fill, place, placeAll_append, placeAll, hstop]
      · rfl
    | property before name after additional =>
      rcases additional with _ | _ | _
      · rfl
      · simp only [plug, Schema.Frame.fill, place, placeNamed_append, placeNamed, hstop]
      · rfl

/-- **Leaves outside of a part keep their slots**, whichever part of as many slots is put in. -/
theorem slotAt?_plug (h : slotCount a = slotCount b) (next : Nat) (frames : List Schema.Frame)
    {path : Path} (hpath : Outside frames path) :
    (place next (plug frames a)).1.slotAt? path = (place next (plug frames b)).1.slotAt? path := by
  induction frames generalizing next path with
  | nil => exact absurd List.nil_prefix (hpath [] rfl)
  | cons f frames ih =>
    -- behind the part both schemas are at one slot again
    have hstop := stop_place_eq (slotCount_plug h frames)
    cases f with
    | item _ => cases path <;> rfl
    | element before after additional =>
      rcases additional with _ | _ | _
      · rfl
      · simp only [plug, Schema.Frame.fill, place, placeAll_append, placeAll, hstop]
        refine slotAt?_tuple_congr _ _ fun rest hrest => ?_
        rw [hrest, length_placeAll] at hpath
        exact ih _ (hpath.tail rfl)
      · rfl
    | property before name after additional =>
      rcases additional with _ | _ | _
      · rfl
      · simp only [plug, Schema.Frame.fill, place, placeNamed_append, placeNamed, hstop]
        refine slotAt?_dict_congr _ _ _ fun rest hrest => ?_
        rw [hrest] at hpath
        exact ih _ (hpath.tail rfl)
      · rfl

end

end Layout

/-! ### The numbering -/

namespace Schema

open Layout (slotCount)

/-- **The numbering of slots.** The leaves of a schema, elements from left to right and fields in
the order of the bytes of their names, are on the slots from zero up to the number of slots, in that
order and each on one of its own. A record has so many slots. A part of the schema may give way to
another one with as many leaves, and all leaves outside of it stay on their slots. -/
theorem slots_in_order (s : Schema) (hs : s.Sorted) :
    (Layout.ofSchema s).Ascending ∧
    (Layout.ofSchema s).slots = List.range (slotCount s) ∧
    s.emptyRecord.length = slotCount s ∧
    ∀ frames a b, s = plug frames a →
      (Layout.ofSchema a).leaves.length = (Layout.ofSchema b).leaves.length →
      ∀ path, Outside frames path →
        (Layout.ofSchema s).slotAt? path = (Layout.ofSchema (plug frames b)).slotAt? path := by
  refine ⟨Layout.ascending_place 0 hs, ?_, s.length_emptyRecord, ?_⟩
  · have hslots := (Layout.numbered_place 0 s).2
    rwa [Nat.sub_zero, ← List.range_eq_range'] at hslots
  · rintro frames a b rfl hleaves path hpath
    rw [Layout.length_leaves_ofSchema, Layout.length_leaves_ofSchema] at hleaves
    exact Layout.slotAt?_plug hleaves 0 frames hpath

/-- What is around the address of a parcel: its weight, and a note under a name that is not in
ASCII. -/
def parcel : List Frame :=
  [.property [] "to" [("weight", .number none), ("\u00fcber", .string)] (some false)]

/-- A name, and a postal code within a country. -/
def address : Schema :=
  .arrayAt [.string, .record [("country", .string), ("zip", .integer none)] (some false)]
    (some false)

/-- The note stays on its slot when the address is given by three numbers. -/
theorem slots_in_order_parcel :
    ((plug parcel address).Sorted ∧ Outside parcel [.field "\u00fcber"]) ∧
    (Layout.ofSchema (plug parcel address)).slots = [0, 1, 2, 3, 4] ∧
    some 4 = (Layout.ofSchema (plug parcel
      (.arrayAt [.number none, .number none, .number none] (some false)))).slotAt?
        [.field "\u00fcber"] := by
  have hs : (plug parcel address).Sorted := by
    simp only [plug, parcel, address, Frame.fill, List.nil_append, Sorted, SortedNamed, SortedAll,
      and_true]
    decide +kernel
  have houtside : Outside parcel [.field "\u00fcber"] := by
    rintro way ⟨⟩ hprefix
    exact absurd (List.cons_prefix_cons.mp hprefix).1 (by decide)
  obtain ⟨-, hslots, -, hparts⟩ := slots_in_order (plug parcel address) hs
  exact ⟨⟨hs, houtside⟩, hslots, hparts parcel address _ rfl rfl _ houtside⟩

end Schema

end Formulary
