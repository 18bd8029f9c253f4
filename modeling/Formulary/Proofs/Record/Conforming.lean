import Formulary.Proofs.Record.RoundTrip

/-!
# Documents that have the shape of a schema

Leaves are lenient, so in general a record that is written is not the document that it was read
from. Where the document has the shape that the schema describes, nothing is converted and nothing
is passed over: the record holds all of the document, and is written as that very document.

## Scope

A leaf may meet nothing, whatever its tag. Leaves for decimals are left out: a document has no
decimals, and a double need not survive the way through one.

Members are taken to be sorted by name, in documents as in schemas. This is how they come: whatever
is read from a text is sorted, as is shown where the readers are followed.

## Main definitions

* `Document.Sorted`, `Schema.Sorted` — objects whose names are sorted, at every depth
* `Document.FitsLongs` — documents whose whole numbers are longs
* `Tag.Takes`, `Layout.Describes` — the documents that a leaf takes as they are, and the documents
  that have the shape of a layout
* `Layout.Holds` — records that hold what a layout reads from a document

## Main results

* `Value.toDocument_ofDocument` — generic trees are written as they were read
* `Field.toDocument_read?` — so is what a leaf takes
* `Layout.write_of_holds` — a record that holds a document is written as that document
* `Schema.write_read` — documents of the shape of a schema survive reading and writing
-/

namespace Formulary

/-! ### Sorted names -/

namespace Document

mutual

/-- The names of every object in the document are sorted, and none stands twice. -/
def Sorted : Document → Prop
  | array items => SortedAll items
  | object members => members.Pairwise (·.1 < ·.1) ∧ SortedMembers members
  | _ => True

/-- The names of every object in the items are sorted. -/
def SortedAll : List Document → Prop
  | [] => True
  | d :: rest => Sorted d ∧ SortedAll rest

/-- The names of every object in the members are sorted. -/
def SortedMembers : List (String × Document) → Prop
  | [] => True
  | (_, d) :: rest => Sorted d ∧ SortedMembers rest

end

theorem sortedMembers_iff {members : List (String × Document)} :
    SortedMembers members ↔ ∀ member ∈ members, member.2.Sorted := by
  induction members with
  | nil => simp [SortedMembers]
  | cons head rest ih => rw [SortedMembers, ih, List.forall_mem_cons]

theorem SortedMembers.find? {members : List (String × Document)} (h : SortedMembers members)
    {name : String} {d : Document} (hd : Entries.find? members name = some d) : d.Sorted :=
  sortedMembers_iff.mp h _ (Entries.mem_of_find? hd)

end Document

namespace Schema

mutual

/-- The properties of every object are sorted by name, and no name stands twice. -/
def Sorted : Schema → Prop
  | arrayOf item _ => Sorted item
  | arrayAt items _ => SortedAll items
  | record properties _ => properties.Pairwise (·.1 < ·.1) ∧ SortedNamed properties
  | _ => True

/-- The properties of every object in the schemas are sorted. -/
def SortedAll : List Schema → Prop
  | [] => True
  | s :: rest => Sorted s ∧ SortedAll rest

/-- The properties of every object in the properties are sorted. -/
def SortedNamed : List (String × Schema) → Prop
  | [] => True
  | (_, s) :: rest => Sorted s ∧ SortedNamed rest

end

theorem sortedNamed_iff {properties : List (String × Schema)} :
    SortedNamed properties ↔ ∀ property ∈ properties, property.2.Sorted := by
  induction properties with
  | nil => simp [SortedNamed]
  | cons head rest ih => rw [SortedNamed, ih, List.forall_mem_cons]

mutual

/-- Sorted names are distinct. -/
theorem Sorted.distinct {s : Schema} (h : s.Sorted) : s.Distinct := by
  match s with
  | .arrayOf item _ => exact Sorted.distinct (s := item) h
  | .arrayAt items _ => exact SortedAll.distinct h
  | .record properties _ =>
    refine ⟨List.pairwise_map.mpr (h.1.imp fun hlt => String.ne_of_lt hlt), ?_⟩
    exact SortedNamed.distinct h.2
  | .integer _ | .number _ | .string | .boolean | .array _ | .object _ => trivial

theorem SortedAll.distinct {items : List Schema} (h : SortedAll items) : DistinctAll items := by
  match items with
  | [] => trivial
  | s :: rest => exact ⟨Sorted.distinct h.1, SortedAll.distinct h.2⟩

theorem SortedNamed.distinct {properties : List (String × Schema)} (h : SortedNamed properties) :
    DistinctNamed properties := by
  match properties with
  | [] => trivial
  | (_, s) :: rest => exact ⟨Sorted.distinct h.1, SortedNamed.distinct h.2⟩

end

end Schema

/-- A layout has its fields in the order of the properties. -/
theorem Layout.pairwise_placeNamed (next : Nat) {properties : List (String × Schema)}
    (h : properties.Pairwise (·.1 < ·.1)) :
    (placeNamed next properties).1.Pairwise (·.1 < ·.1) := by
  have hkeys : (properties.map (·.1)).Pairwise (· < ·) := List.pairwise_map.mpr h
  rw [← keys_placeNamed next] at hkeys
  exact List.pairwise_map.mp hkeys

/-! ### Generic trees -/

namespace Document

mutual

/-- Every whole number in the document is a long. -/
def FitsLongs : Document → Prop
  | number (.whole n) => -2 ^ 63 ≤ n ∧ n < 2 ^ 63
  | array items => FitLongs items
  | object members => MembersFitLongs members
  | _ => True

/-- Every whole number in the items is a long. -/
def FitLongs : List Document → Prop
  | [] => True
  | d :: rest => FitsLongs d ∧ FitLongs rest

/-- Every whole number in the members is a long. -/
def MembersFitLongs : List (String × Document) → Prop
  | [] => True
  | (_, d) :: rest => FitsLongs d ∧ MembersFitLongs rest

end

end Document

namespace Value

/-- A whole number that is a long is written as it was read. -/
theorem whole_toInt_ofInt {n : Int} (h : -2 ^ 63 ≤ n) (h' : n < 2 ^ 63) :
    Document.whole (Int64.ofInt n).toInt = .number (.whole n) := by
  rw [Int64.toInt_ofInt_of_le h h', Document.whole]

theorem toDocument_ofNumeral {n : Numeral} (hn : n.Proper)
    (h : (Document.number n).FitsLongs) : toDocument (ofNumeral n) = .number n := by
  cases n with
  | whole n =>
    have hrange : -2 ^ 63 ≤ n ∧ n < 2 ^ 63 := h
    rw [ofNumeral, Numeral.toInt64?, if_pos hrange, toDocument,
      whole_toInt_ofInt hrange.1 hrange.2]
  | real x =>
    have hfinite : Double.isFinite x = true := hn
    rw [ofNumeral, Numeral.toInt64?, toDocument, Numeral.toDouble, Document.real, if_pos hfinite]

mutual

/-- **Generic trees are written as they were read.** -/
theorem toDocument_ofDocument {d : Document} (hd : d.Proper) (h : d.FitsLongs) :
    toDocument (ofDocument d) = d := by
  match d with
  | .null | .boolean _ | .string _ => rfl
  | .number n => exact toDocument_ofNumeral hd h
  | .array items => rw [ofDocument, toDocument, toItems_ofItems hd h]
  | .object members => rw [ofDocument, toDocument, toMembers_ofMembers hd h]

theorem toItems_ofItems {items : List Document} (hd : Document.ProperAll items)
    (h : Document.FitLongs items) : toItems (ofItems items) = items := by
  match items with
  | [] => rfl
  | d :: rest => rw [ofItems, toItems, toDocument_ofDocument hd.1 h.1, toItems_ofItems hd.2 h.2]

theorem toMembers_ofMembers {members : List (String × Document)}
    (hd : Document.ProperMembers members) (h : Document.MembersFitLongs members) :
    toMembers (ofMembers members) = members := by
  match members with
  | [] => rfl
  | (k, d) :: rest =>
    rw [ofMembers, toMembers, toDocument_ofDocument hd.1 h.1, toMembers_ofMembers hd.2 h.2]

end

end Value

/-! ### Leaves -/

namespace Tag

/-- The documents, nothing apart, that a leaf takes as they are when its tag is that of no typed
array. -/
def TakesOne : Tag → Document → Prop
  | boolean, .boolean _ => True
  | integer, .number (.whole n) => -2 ^ 31 ≤ n ∧ n < 2 ^ 31
  | long, .number (.whole n) => -2 ^ 63 ≤ n ∧ n < 2 ^ 63
  | double, .number (.real _) => True
  | decimal, .number _ => True
  | string, .string _ => True
  | list, .array items => Document.FitLongs items
  | map, .object members => Document.MembersFitLongs members
  | object, d => d.FitsLongs
  | _, _ => False

/-- The documents, nothing apart, that a leaf takes as they are. -/
def Takes (t : Tag) (d : Document) : Prop :=
  match t.element?, d with
  | none, d => t.TakesOne d
  | some element, .array items => ∀ item ∈ items, element.TakesOne item
  | some _, _ => False

/-- Decimals, or arrays of them. -/
def isDecimal (t : Tag) : Prop := t = decimal ∨ t = decimalArray

end Tag

namespace Field

theorem whole_readInteger {d : Document} (h : Tag.integer.TakesOne d) :
    Document.whole (readInteger d).toInt = d := by
  match d with
  | .number (.whole n) =>
    obtain ⟨hlow, hhigh⟩ : -2 ^ 31 ≤ n ∧ n < 2 ^ 31 := h
    have hlong : readLong (.number (.whole n)) = Int64.ofInt n := by
      rw [readLong, Numeral.toInt64?, if_pos (by omega), Option.getD_some]
    rw [readInteger, hlong, Int64.toInt32_ofInt, Int32.toInt_ofInt_of_le hlow hhigh,
      Document.whole]

theorem whole_readLong {d : Document} (h : Tag.long.TakesOne d) :
    Document.whole (readLong d).toInt = d := by
  match d with
  | .number (.whole n) =>
    obtain ⟨hlow, hhigh⟩ : -2 ^ 63 ≤ n ∧ n < 2 ^ 63 := h
    rw [readLong, Numeral.toInt64?, if_pos ⟨hlow, hhigh⟩, Option.getD_some,
      Value.whole_toInt_ofInt hlow hhigh]

theorem real_readDouble {d : Document} (hd : d.Proper) (h : Tag.double.TakesOne d) :
    Document.real (readDouble d) = d := by
  obtain ⟨x, rfl⟩ : ∃ x, d = .number (.real x) := by
    cases d with
    | number n =>
      cases n with
      | whole n => exact h.elim
      | real x => exact ⟨x, rfl⟩
    | _ => exact h.elim
  have hfinite : Double.isFinite x = true := hd
  rw [readDouble, Numeral.toDouble, Document.real, if_pos hfinite]

theorem boolean_readBoolean {d : Document} (h : Tag.boolean.TakesOne d) :
    Document.boolean (readBoolean d) = d := by
  match d with
  | .boolean _ => rfl

theorem string_readText {d : Document} (h : Tag.string.TakesOne d) :
    Document.string (readText d) = d := by
  match d with
  | .string _ => rfl

/-- An array whose items are written as they were read is written as it was read. -/
theorem map_write_read {α : Type} {each : Document → α} {write : α → Document}
    {items : List Document} (h : ∀ item ∈ items, write (each item) = item) :
    (items.map each).map write = items := by
  rw [List.map_map]
  exact (List.map_congr_left h).trans (List.map_id' items)

/-- **What a leaf takes is written as it was read.** -/
theorem toDocument_read? {t : Tag} {d : Document} (hd : d.Proper) (ht : ¬ t.isDecimal)
    (h : d = .null ∨ t.Takes d) : ((read? t d).getD .null).toDocument = d := by
  rcases h with rfl | h
  · cases t <;> rfl
  · cases t with
    | boolean =>
      cases d with
      | boolean b => rfl
      | _ => exact h.elim
    | integer =>
      cases d with
      | number n => exact whole_readInteger (d := .number n) h
      | _ => exact h.elim
    | long =>
      cases d with
      | number n => exact whole_readLong (d := .number n) h
      | _ => exact h.elim
    | double =>
      cases d with
      | number n => exact real_readDouble (d := .number n) hd h
      | _ => exact h.elim
    | string =>
      cases d with
      | string s => rfl
      | _ => exact h.elim
    | object =>
      cases d with
      | null => rfl
      | _ => exact Value.toDocument_ofDocument hd h
    | list =>
      cases d with
      | array items => exact Value.toDocument_ofDocument (d := .array items) hd h
      | _ => exact h.elim
    | map =>
      cases d with
      | object members => exact Value.toDocument_ofDocument (d := .object members) hd h
      | _ => exact h.elim
    | booleanArray =>
      cases d with
      | array items =>
        refine congrArg Document.array (map_write_read fun item hi => ?_)
        exact boolean_readBoolean (h item hi)
      | _ => exact h.elim
    | integerArray =>
      cases d with
      | array items =>
        exact congrArg Document.array (map_write_read fun item hi => whole_readInteger (h item hi))
      | _ => exact h.elim
    | longArray =>
      cases d with
      | array items =>
        exact congrArg Document.array (map_write_read fun item hi => whole_readLong (h item hi))
      | _ => exact h.elim
    | doubleArray =>
      cases d with
      | array items =>
        exact congrArg Document.array (map_write_read fun item hi =>
          real_readDouble (Document.properAll_iff.mp hd item hi) (h item hi))
      | _ => exact h.elim
    | stringArray =>
      cases d with
      | array items =>
        exact congrArg Document.array (map_write_read fun item hi => string_readText (h item hi))
      | _ => exact h.elim
    | objectArray =>
      cases d with
      | array items =>
        refine congrArg Document.array ?_
        rw [Value.toItems_eq_map]
        exact map_write_read fun item hi =>
          Value.toDocument_ofDocument (Document.properAll_iff.mp hd item hi) (h item hi)
      | _ => exact h.elim
    | decimal => exact (ht (Or.inl rfl)).elim
    | decimalArray => exact (ht (Or.inr rfl)).elim
    | tuple | dict | time | null => exact h.elim

end Field

/-! ### Layouts -/

namespace Layout

mutual

/-- The documents that have the shape of a layout: arrays as long as the tuple, objects with the
names of the dict, and at each leaf nothing or what the leaf takes. -/
def Describes : Layout → Document → Prop
  | leaf t _, d => d = .null ∨ t.Takes d
  | tuple elements, .array items => DescribesAll elements items
  | dict fields, .object members =>
    Entries.keys members ⊆ Entries.keys fields ∧ DescribesNamed fields members
  | _, _ => False

/-- Each item has the shape of its element, and there are as many. -/
def DescribesAll : List Layout → List Document → Prop
  | [], [] => True
  | l :: rest, d :: ds => Describes l d ∧ DescribesAll rest ds
  | _, _ => False

/-- Under the name of each field there is a member that has its shape. -/
def DescribesNamed : List (String × Layout) → List (String × Document) → Prop
  | [], _ => True
  | (k, l) :: rest, members =>
    (∃ d, Entries.find? members k = some d ∧ Describes l d) ∧ DescribesNamed rest members

end

/-- The record holds, for every leaf, what the leaf reads from the document at the end of its
path. -/
def Holds (r : Record) (l : Layout) (d : Document) : Prop :=
  ∀ path t slot, l.follow? path = some (leaf t slot) →
    r.get? slot = some (((d.follow? path).bind (Field.read? t)).getD .null)

/-- A record that holds a document holds its parts. -/
theorem Holds.child {r : Record} {l node : Layout} {d part : Document} (h : Holds r l d) {k : Step}
    (hl : l.child? k = some node) (hd : d.child? k = some part) : Holds r node part := by
  intro path t slot hpath
  have hslot := h (k :: path) t slot (Option.bind_eq_some_iff.mpr ⟨node, hl, hpath⟩)
  rwa [Document.follow?, hd, Option.bind_some] at hslot

/-- No leaf is for decimals. -/
def WithoutDecimals (leaves : List (Tag × Nat)) : Prop := ∀ leaf ∈ leaves, ¬ leaf.1.isDecimal

section

variable {r : Record}

mutual

/-- **A record that holds a document is written as that document.** -/
theorem write_of_holds (next : Nat) {s : Schema} (hs : s.Sorted) {d : Document} (hd : d.Proper)
    (hsorted : d.Sorted) (hleaves : WithoutDecimals (place next s).1.leaves)
    (hshape : (place next s).1.Describes d) (hr : Holds r (place next s).1 d) :
    write r (place next s).1 = d := by
  rcases place_cases next s with ⟨t, hplace⟩ | ⟨items, rfl⟩ | ⟨properties, rfl⟩
  · rw [hplace] at hleaves hshape hr ⊢
    rw [write, hr [] t next rfl, Document.follow?, Option.bind_some, Option.map_some,
      Option.getD_some]
    exact Field.toDocument_read? hd (hleaves (t, next) (List.mem_singleton_self _)) hshape
  · rw [place] at hleaves hshape hr ⊢
    cases d with
    | array ds =>
      refine congrArg Document.array (writeAll_of_holds next hs hd hsorted hleaves hshape ?_)
      intro i node part hnode hpart
      exact hr.child (k := .position i) hnode hpart
    | _ => exact hshape.elim
  · rw [place] at hleaves hshape hr ⊢
    cases d with
    | object members =>
      have hfields := pairwise_placeNamed next hs.1
      have hfound : ∀ name node, (name, node) ∈ (placeNamed next properties).1 →
          Entries.find? members name = some (write r node) :=
        find?_of_holds next hs.2 hd hsorted.2 hleaves hshape.2 fun name node part hnode hpart =>
          hr.child (k := .field name) (Entries.find?_of_mem hfields hnode) hpart
      -- Both sides are sorted, so it is enough that the same is found in them.
      rw [write, writeNamed_eq_mapValues]
      refine congrArg Document.object (Entries.eq_of_find?_eq
        (Entries.pairwise_mapValues hfields _) hsorted.1 fun name => ?_)
      rw [Entries.find?_mapValues]
      cases hnode : Entries.find? (placeNamed next properties).1 name with
      | some node => rw [Option.map_some, hfound name node (Entries.mem_of_find? hnode)]
      | none =>
        have hname := Entries.find?_eq_none_iff.mp hnode
        rw [Option.map_none, Entries.find?_eq_none_iff.mpr fun hmem => hname (hshape.1 hmem)]
    | _ => exact hshape.elim

theorem writeAll_of_holds (next : Nat) {items : List Schema} (hs : Schema.SortedAll items)
    {ds : List Document} (hd : Document.ProperAll ds) (hsorted : Document.SortedAll ds)
    (hleaves : WithoutDecimals (leavesAll (placeAll next items).1))
    (hshape : DescribesAll (placeAll next items).1 ds)
    (hr : ∀ (i : Nat) node part, (placeAll next items).1[i]? = some node → ds[i]? = some part →
      Holds r node part) : writeAll r (placeAll next items).1 = ds := by
  match items, ds with
  | [], [] => rfl
  | [], _ :: _ => exact hshape.elim
  | _ :: _, [] => exact hshape.elim
  | s :: rest, d :: ds =>
    rw [placeAll] at hleaves hshape hr ⊢
    have hhead := write_of_holds next hs.1 hd.1 hsorted.1
      (fun leaf hleaf => hleaves leaf (List.mem_append_left _ hleaf)) hshape.1 (hr 0 _ _ rfl rfl)
    have hrest := writeAll_of_holds _ hs.2 hd.2 hsorted.2
      (fun leaf hleaf => hleaves leaf (List.mem_append_right _ hleaf)) hshape.2
      fun i node part hnode hpart => hr (i + 1) node part hnode hpart
    rw [writeAll, hhead, hrest]

theorem find?_of_holds (next : Nat) {properties : List (String × Schema)}
    (hs : Schema.SortedNamed properties) {members : List (String × Document)}
    (hd : Document.ProperMembers members) (hsorted : Document.SortedMembers members)
    (hleaves : WithoutDecimals (leavesNamed (placeNamed next properties).1))
    (hshape : DescribesNamed (placeNamed next properties).1 members)
    (hr : ∀ name node part, (name, node) ∈ (placeNamed next properties).1 →
      Entries.find? members name = some part → Holds r node part) :
    ∀ name node, (name, node) ∈ (placeNamed next properties).1 →
      Entries.find? members name = some (write r node) := by
  match properties with
  | [] => exact fun _ _ h => nomatch h
  | (k, s) :: rest =>
    rw [placeNamed] at hleaves hshape hr ⊢
    obtain ⟨⟨part, hpart, hhead⟩, hrest⟩ := hshape
    have hwritten := write_of_holds next hs.1 (hd.find? hpart) (hsorted.find? hpart)
      (fun leaf hleaf => hleaves leaf (List.mem_append_left _ hleaf)) hhead
      (hr k _ _ (List.mem_cons_self ..) hpart)
    intro name node hmem
    rcases List.mem_cons.mp hmem with heq | hmem
    · obtain ⟨rfl, rfl⟩ := Prod.mk.inj heq
      rw [hwritten, hpart]
    · exact find?_of_holds _ hs.2 hd hsorted
        (fun leaf hleaf => hleaves leaf (List.mem_append_right _ hleaf)) hrest
        (fun name node part hnode => hr name node part (List.mem_cons_of_mem _ hnode)) name node
        hmem

end

end

end Layout

/-! ### Records -/

namespace Schema

/-- **Documents that have the shape of a schema survive reading and writing**, where no leaf is for
decimals. -/
theorem write_read (s : Schema) (hs : s.Sorted)
    (hleaves : Layout.WithoutDecimals (Layout.ofSchema s).leaves) (d : Document) (hd : d.Proper)
    (hsorted : d.Sorted) (hshape : (Layout.ofSchema s).Describes d) : s.write (s.read d) = d :=
  Layout.write_of_holds 0 hs hd hsorted hleaves hshape fun _ _ _ hpath => s.get?_read hpath d

/-- A place, a name that may be missing, notes of any kind, and a row of numbers. -/
def survey : Schema :=
  .record [("at", .arrayAt [.number none, .integer (some Schema.int32Format)] (some false)),
    ("name", .string), ("notes", .object none), ("readings", .arrayOf (.integer none) none)]
    (some false)

/-- A place and numbers at the ends of their ranges, without a name. -/
def fullSurvey : Document :=
  .object [("at", .array [.number (.real 0.5), .number (.whole (-2147483648))]), ("name", .null),
    ("notes", .object [("by", .null), ("on", .array [.number (.whole 3), .object []])]),
    ("readings", .array [.number (.whole 9223372036854775807), .number (.whole 0)])]

/-- The survey is written as it was read. -/
theorem write_read_survey :
    (survey.Sorted ∧ Layout.WithoutDecimals (Layout.ofSchema survey).leaves) ∧
      (fullSurvey.Proper ∧ fullSurvey.Sorted ∧ (Layout.ofSchema survey).Describes fullSurvey) ∧
      survey.write (survey.read fullSurvey) = fullSurvey := by
  have hs : survey.Sorted := by
    simp only [survey, Sorted, SortedNamed, SortedAll, and_true]
    decide +kernel
  have hleaves : Layout.WithoutDecimals (Layout.ofSchema survey).leaves := by
    have hlist : (Layout.ofSchema survey).leaves =
        [(.double, 0), (.integer, 1), (.string, 2), (.map, 3), (.longArray, 4)] := rfl
    simp [hlist, Layout.WithoutDecimals, Tag.isDecimal]
  have hhalf : Double.isFinite 0.5 = true := by decide +kernel
  have hproper : fullSurvey.Proper := by
    simp [fullSurvey, Document.Proper, Document.ProperMembers, Document.ProperAll, Numeral.Proper,
      Numeral.isWhole, hhalf]
  have hsorted : fullSurvey.Sorted := by
    simp only [fullSurvey, Document.Sorted, Document.SortedMembers, Document.SortedAll, and_true]
    decide +kernel
  have hshape : (Layout.ofSchema survey).Describes fullSurvey := by
    refine ⟨fun _ h => h, ⟨_, rfl, ?place⟩, ⟨_, rfl, Or.inl rfl⟩, ⟨_, rfl, Or.inr ?notes⟩,
      ⟨_, rfl, Or.inr ?readings⟩, trivial⟩
    case place =>
      refine ⟨Or.inr trivial, Or.inr ?_, trivial⟩
      show -2 ^ 31 ≤ -2147483648 ∧ -2147483648 < 2 ^ 31
      decide
    case notes =>
      refine ⟨trivial, ⟨?_, trivial, trivial⟩, trivial⟩
      show -2 ^ 63 ≤ 3 ∧ 3 < 2 ^ 63
      decide
    case readings =>
      refine List.forall_mem_cons.mpr ⟨?_, List.forall_mem_singleton.mpr ?_⟩
      · show -2 ^ 63 ≤ 9223372036854775807 ∧ 9223372036854775807 < 2 ^ 63
        decide
      · show -2 ^ 63 ≤ 0 ∧ 0 < 2 ^ 63
        decide
  exact ⟨⟨hs, hleaves⟩, ⟨hproper, hsorted, hshape⟩,
    write_read survey hs hleaves fullSurvey hproper hsorted hshape⟩

end Schema

end Formulary
