import Formulary.Proofs.Document.PrettyJson
import Formulary.Proofs.Record.ReadSchemas

/-!
# Schemas that are written and read

The document of a schema is read as that schema again, at the outermost place and below it. Members
that are absent are left out, so the keys of a document are some of those that its kind knows, in
their order, and the kind is read first.

Nothing in the document says whether `items` are one schema or a list. The reader tries one schema
first, and an array can be one: a kind and the values of its members. It is none here, since the
documents of schemas are objects, and an object is no kind.

## Implementation notes

Schemas are taken to be sorted, as those are that were read. The properties of an object that is not
sorted would come back in another order.

## Main results

* `Schema.ofDocument?_object` — a document that names its kind first is read member by member
* `Schema.ofDocument?_toDocuments` — a list of documents is not taken for one schema
* `Schema.ofDocument?_toDocument` — the document of a schema is read as the schema
* `Schema.numberless_toDocument` — the document of a schema has no numbers
* `Schema.read_back` — schemas come back from documents and texts
-/

namespace Formulary

namespace Schema

/-! ### Members -/

theorem Kind.ofDocument?_name (nested : Bool) (kind : Kind) :
    Kind.ofDocument? nested (.string kind.name) = some kind := by
  cases kind <;> rfl

theorem unrepeated_of_nodup (known : List String) {members : List (String × Document)}
    (h : (members.map (·.1)).Nodup) : unrepeated known members = true := by
  refine List.all_eq_true.mpr fun key _ => decide_eq_true ?_
  have hcount := List.nodup_iff_count_le_one.mp h key
  rwa [List.count, List.countP_map] at hcount

theorem keys_textMember (key : String) (text : Option String) :
    ((textMember key text).map (·.1)).Sublist [key] := by
  cases text
  · exact List.nil_sublist _
  · exact List.Sublist.refl _

theorem keys_flagMember (key : String) (flag : Option Bool) :
    ((flagMember key flag).map (·.1)).Sublist [key] := by
  cases flag
  · exact List.nil_sublist _
  · exact List.Sublist.refl _

/-- A document that names its kind, and has the members of that kind or some of them in their
order, is read member by member. -/
theorem ofDocument?_object (nested : Bool) {kind : Kind} {fields : List (String × Document)}
    (h : (fields.map (·.1)).Sublist kind.members) :
    ofDocument? nested (.object (kindMember kind :: fields)) =
      ofMembers? kind (kindMember kind :: fields) := by
  have hnodup : ((kindMember kind :: fields).map (·.1)).Nodup := by
    refine ((h.cons_cons "type").nodup ?_)
    cases kind <;> decide
  have hkind : (List.lookup "type" (kindMember kind :: fields)).bind (Kind.ofDocument? nested) =
      some kind := Kind.ofDocument?_name nested kind
  rw [ofDocument?, hkind, Option.bind_eq_bind, Option.bind_some, unrepeated_of_nodup _ hnodup,
    if_pos rfl]

section

variable {α : Type} {read : Document → Option (Option α)} {key : String}

theorem readMember?_cons_of_ne {name : String} (h : key ≠ name) (d : Document)
    (rest : List (String × Document)) :
    readMember? read key ((name, d) :: rest) = readMember? read key rest := by
  rw [readMember?, readMember?, List.lookup_cons, beq_eq_false_iff_ne.mpr h]

theorem readMember?_textMember (key : String) (text : Option String) :
    readMember? readText? key (textMember key text) = some text := by
  cases text with
  | none => rfl
  | some text =>
    rw [textMember, readMember?, List.lookup_cons_self]
    rfl

theorem readMember?_flagMember (key : String) (flag : Option Bool) :
    readMember? readFlag? key (flagMember key flag) = some flag := by
  cases flag with
  | none => rfl
  | some flag =>
    rw [flagMember, readMember?, List.lookup_cons_self]
    rfl

end

/-! ### Kinds -/

theorem ofDocument?_integer (nested : Bool) (format : Option String) :
    ofDocument? nested (.object (kindMember .integer :: textMember "format" format)) =
      some (integer format) := by
  rw [ofDocument?_object nested (keys_textMember "format" format), ofMembers?, kindMember,
    readMember?_cons_of_ne (by decide), readMember?_textMember]
  rfl

theorem ofDocument?_number (nested : Bool) (format : Option String) :
    ofDocument? nested (.object (kindMember .number :: textMember "format" format)) =
      some (number format) := by
  rw [ofDocument?_object nested (keys_textMember "format" format), ofMembers?, kindMember,
    readMember?_cons_of_ne (by decide), readMember?_textMember]
  rfl

theorem ofDocument?_anyArray (nested : Bool) (additional : Option Bool) :
    ofDocument? nested (.object (kindMember .array :: flagMember "additionalItems" additional)) =
      some (array additional) := by
  have hkeys : ((flagMember "additionalItems" additional).map (·.1)).Sublist Kind.array.members :=
    (keys_flagMember "additionalItems" additional).cons "items"
  have hitems : itemsMember? (kindMember .array :: flagMember "additionalItems" additional) =
      some .absent := by
    cases additional <;> simp [kindMember, flagMember, itemsMember?]
  rw [ofDocument?_object nested hkeys, ofMembers?, hitems, kindMember,
    readMember?_cons_of_ne (by decide), readMember?_flagMember]
  rfl

theorem ofDocument?_anyObject (nested : Bool) (additional : Option Bool) :
    ofDocument? nested
        (.object (kindMember .object :: flagMember "additionalProperties" additional)) =
      some (object additional) := by
  have hkeys : ((flagMember "additionalProperties" additional).map (·.1)).Sublist
      Kind.object.members := (keys_flagMember "additionalProperties" additional).cons "properties"
  have hproperties : propertiesMember?
      (kindMember .object :: flagMember "additionalProperties" additional) = some none := by
    cases additional <;> simp [kindMember, flagMember, propertiesMember?]
  rw [ofDocument?_object nested hkeys, ofMembers?, hproperties, kindMember,
    readMember?_cons_of_ne (by decide), readMember?_flagMember]
  rfl

theorem ofDocument?_items (nested : Bool) {d : Document} {items : Items}
    (h : readItems? d = some items) (additional : Option Bool) :
    ofDocument? nested (.object (kindMember .array :: ("items", d) ::
      flagMember "additionalItems" additional)) = some (ofItems items additional) := by
  have hkeys : ((("items", d) :: flagMember "additionalItems" additional).map (·.1)).Sublist
      Kind.array.members := (keys_flagMember "additionalItems" additional).cons_cons "items"
  rw [ofDocument?_object nested hkeys, ofMembers?, kindMember,
    readMember?_cons_of_ne (by decide), readMember?_cons_of_ne (by decide), readMember?_flagMember,
    itemsMember?, if_neg (by decide), itemsMember?, if_pos rfl, h]
  rfl

theorem ofDocument?_properties (nested : Bool) {d : Document}
    {properties : Option (List (String × Schema))} (h : readProperties? d = some properties)
    (additional : Option Bool) :
    ofDocument? nested (.object (kindMember .object :: ("properties", d) ::
      flagMember "additionalProperties" additional)) =
        some (ofProperties properties additional) := by
  have hkeys : ((("properties", d) :: flagMember "additionalProperties" additional).map
      (·.1)).Sublist Kind.object.members :=
    (keys_flagMember "additionalProperties" additional).cons_cons "properties"
  rw [ofDocument?_object nested hkeys, ofMembers?, kindMember,
    readMember?_cons_of_ne (by decide), readMember?_cons_of_ne (by decide), readMember?_flagMember,
    propertiesMember?, if_neg (by decide), propertiesMember?, if_pos rfl, h]
  rfl

/-! ### Items and properties -/

theorem exists_toDocument_eq (s : Schema) : ∃ members, s.toDocument = .object members := by
  cases s <;> exact ⟨_, rfl⟩

/-- A list of documents of schemas is not itself the document of a schema. -/
theorem ofDocument?_toDocuments (nested : Bool) (items : List Schema) :
    ofDocument? nested (.array (toDocuments items)) = none := by
  cases items with
  | nil => simp only [toDocuments, ofDocument?]
  | cons s rest =>
    obtain ⟨members, hmembers⟩ := s.exists_toDocument_eq
    rw [toDocuments, hmembers, ofDocument?]
    rfl

mutual

/-- **The document of a schema is read as the schema.** -/
theorem ofDocument?_toDocument (nested : Bool) {s : Schema} (hs : s.Sorted) :
    ofDocument? nested s.toDocument = some s := by
  match s with
  | .integer format => exact ofDocument?_integer nested format
  | .number format => exact ofDocument?_number nested format
  | .string =>
    have hkeys : (([] : List (String × Document)).map (·.1)).Sublist Kind.string.members :=
      List.nil_sublist _
    rw [toDocument, ofDocument?_object nested hkeys, ofMembers?]
  | .boolean =>
    have hkeys : (([] : List (String × Document)).map (·.1)).Sublist Kind.boolean.members :=
      List.nil_sublist _
    rw [toDocument, ofDocument?_object nested hkeys, ofMembers?]
  | .array additional => exact ofDocument?_anyArray nested additional
  | .arrayOf item additional =>
    have hitem : readItems? item.toDocument = some (.each item) := by
      rw [readItems?.eq_def, ofDocument?_toDocument true (s := item) hs]
    exact ofDocument?_items nested hitem additional
  | .arrayAt items additional =>
    have hitems : readItems? (.array (toDocuments items)) = some (.positional items) := by
      rw [readItems?, ofDocument?_toDocuments]
      dsimp only
      rw [readAll?_toDocuments hs]
      rfl
    exact ofDocument?_items nested hitems additional
  | .object additional => exact ofDocument?_anyObject nested additional
  | .record properties additional =>
    have hproperties : readProperties? (.object (toMembers properties)) =
        some (some properties) := by
      rw [readProperties?, readNamed?_toMembers hs.2, Option.map_some,
        Entries.ofPairs_of_pairwise hs.1]
    exact ofDocument?_properties nested hproperties additional

theorem readAll?_toDocuments {items : List Schema} (hs : SortedAll items) :
    readAll? (toDocuments items) = some items := by
  match items with
  | [] => rw [toDocuments, readAll?]
  | s :: rest =>
    rw [toDocuments, readAll?, ofDocument?_toDocument true (s := s) hs.1,
      readAll?_toDocuments hs.2]
    rfl

theorem readNamed?_toMembers {properties : List (String × Schema)} (hs : SortedNamed properties) :
    readNamed? (toMembers properties) = some properties := by
  match properties with
  | [] => rw [toMembers, readNamed?]
  | (name, s) :: rest =>
    rw [toMembers, readNamed?, ofDocument?_toDocument true (s := s) hs.1,
      readNamed?_toMembers hs.2]
    rfl

end

/-! ### Texts -/

theorem numberlessMembers_textMember (key : String) (text : Option String) :
    Document.NumberlessMembers (textMember key text) := by
  cases text <;> trivial

theorem numberlessMembers_flagMember (key : String) (flag : Option Bool) :
    Document.NumberlessMembers (flagMember key flag) := by
  cases flag <;> trivial

mutual

/-- Documents of schemas have no numbers. -/
theorem numberless_toDocument (s : Schema) : s.toDocument.Numberless := by
  match s with
  | .integer format | .number format => exact ⟨trivial, numberlessMembers_textMember _ format⟩
  | .string | .boolean => exact ⟨trivial, trivial⟩
  | .array additional | .object additional =>
    exact ⟨trivial, numberlessMembers_flagMember _ additional⟩
  | .arrayOf item additional =>
    exact ⟨trivial, numberless_toDocument item, numberlessMembers_flagMember _ additional⟩
  | .arrayAt items additional =>
    exact ⟨trivial, numberlessAll_toDocuments items, numberlessMembers_flagMember _ additional⟩
  | .record properties additional =>
    exact ⟨trivial, numberlessMembers_toMembers properties,
      numberlessMembers_flagMember _ additional⟩

theorem numberlessAll_toDocuments (items : List Schema) :
    Document.NumberlessAll (toDocuments items) := by
  match items with
  | [] => trivial
  | s :: rest => exact ⟨numberless_toDocument s, numberlessAll_toDocuments rest⟩

theorem numberlessMembers_toMembers (properties : List (String × Schema)) :
    Document.NumberlessMembers (toMembers properties) := by
  match properties with
  | [] => trivial
  | (_, s) :: rest => exact ⟨numberless_toDocument s, numberlessMembers_toMembers rest⟩

end

/-- A schema is read from a text that stands for its document. -/
theorem parse_eq_of_readNamed? {format : Format} {text : String} {s : Schema} (hs : s.Sorted)
    (h : format.readNamed? text = some s.toDocument) : Schema.parse format text = .ok s := by
  rw [Schema.parse, h, Option.bind_some, ofDocument?_toDocument false hs]

/-- The JSON text of a schema stands for its document, unless it is nested too deeply to be read. -/
theorem readNamed?_serialize_json {s : Schema} (h : s.toDocument.depth < Json.maxNesting) :
    Format.json.readNamed? (s.serialize .json) = some s.toDocument :=
  Json.read?_pretty s.numberless_toDocument h

/-- **Schemas come back** from their documents, and from every text that stands for them: a JSON
text does, if it is not nested too deeply. So the layout is the same. -/
theorem read_back {s : Schema} (hs : s.Sorted) :
    (∀ nested, ofDocument? nested s.toDocument = some s) ∧
      (∀ format, format.readNamed? (s.serialize format) = some s.toDocument →
        Schema.parse format (s.serialize format) = .ok s) ∧
      (s.toDocument.depth < Json.maxNesting →
        Schema.parse .json (s.serialize .json) = .ok s) ∧
      (ofDocument? false s.toDocument).map Layout.ofSchema = some (Layout.ofSchema s) := by
  refine ⟨fun nested => ofDocument?_toDocument nested hs, fun format h => ?_, fun h => ?_, ?_⟩
  · exact parse_eq_of_readNamed? hs h
  · exact parse_eq_of_readNamed? hs (readNamed?_serialize_json h)
  · rw [ofDocument?_toDocument false hs, Option.map_some]

/-- Every kind of schema, with and without its members, and a list of no items. -/
def booking : Schema :=
  .record [("id", .integer (some int32Format)), ("legs", .arrayAt [] (some true)),
    ("notes", .object (some false)), ("price", .arrayOf (.number (some decimalFormat)) none),
    ("seats", .arrayAt [.arrayOf (.record [] none) (some false), .boolean, .array none] none)]
    (some true)

/-- The booking comes back, as a part of a document and from its JSON text. -/
theorem read_back_booking : (booking.Sorted ∧ booking.toDocument.depth < Json.maxNesting) ∧
    ofDocument? true booking.toDocument = some booking ∧
    Schema.parse .json (booking.serialize .json) = .ok booking := by
  have hs : booking.Sorted := by
    simp only [booking, Sorted, SortedNamed, SortedAll, and_true]
    decide +kernel
  have hdepth : booking.toDocument.depth < Json.maxNesting := by decide
  exact ⟨⟨hs, hdepth⟩, (read_back hs).1 true, (read_back hs).2.2.1 hdepth⟩

end Schema

end Formulary
