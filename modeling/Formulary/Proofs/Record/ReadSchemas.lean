import Formulary.Proofs.Record.Conforming
import Formulary.Record.Files

/-!
# Schemas that are read

The properties of an object are sorted as they are read, and of two with one name the last one
stays. So a schema that was read from a document is sorted at every depth, although the document may
not be, and has no object with two properties of one name, although the document may have.

## Main results

* `Schema.sorted_of_ofDocument?` — schemas of documents are sorted
* `Schema.sorted_of_parse`, `Schema.distinct_of_parse` — schemas of texts are sorted, and their
  names are distinct
-/

namespace Formulary.Schema

/-- The properties of every object in the items are sorted. -/
def Items.Sorted : Items → Prop
  | absent => True
  | each item => item.Sorted
  | positional items => SortedAll items

theorem Items.Sorted.ofItems {items : Items} (h : items.Sorted) (additional : Option Bool) :
    (ofItems items additional).Sorted := by
  cases items <;> exact h

/-- The properties are sorted, and so are those of every object in them. -/
def PropertiesSorted : Option (List (String × Schema)) → Prop
  | none => True
  | some properties => properties.Pairwise (·.1 < ·.1) ∧ SortedNamed properties

theorem PropertiesSorted.ofProperties {properties : Option (List (String × Schema))}
    (h : PropertiesSorted properties) (additional : Option Bool) :
    (ofProperties properties additional).Sorted := by
  cases properties <;> exact h

mutual

/-- **Schemas that are read are sorted.** -/
theorem sorted_of_ofDocument? {nested : Bool} {d : Document} {s : Schema}
    (h : ofDocument? nested d = some s) : s.Sorted := by
  match d with
  | .object members =>
    rw [ofDocument?] at h
    obtain ⟨kind, -, h⟩ := Option.bind_eq_some_iff.mp h
    split at h
    · exact sorted_of_ofMembers? h
    · cases h
  | .array (k :: fields) =>
    rw [ofDocument?] at h
    obtain ⟨kind, -, h⟩ := Option.bind_eq_some_iff.mp h
    exact sorted_of_ofFields? h
  | .array [] | .null | .boolean _ | .number _ | .string _ =>
    simp only [ofDocument?, reduceCtorEq] at h
termination_by (sizeOf d, 0)

theorem sorted_of_ofMembers? {kind : Kind} {members : List (String × Document)} {s : Schema}
    (h : ofMembers? kind members = some s) : s.Sorted := by
  cases kind with
  | integer | number =>
    rw [ofMembers?] at h
    obtain ⟨format, -, rfl⟩ := Option.map_eq_some_iff.mp h
    trivial
  | string | boolean =>
    rw [ofMembers?] at h
    obtain rfl := Option.some.inj h
    trivial
  | array =>
    rw [ofMembers?] at h
    obtain ⟨items, hitems, h⟩ := Option.bind_eq_some_iff.mp h
    obtain ⟨additional, -, h⟩ := Option.bind_eq_some_iff.mp h
    obtain rfl := Option.some.inj h
    exact (sorted_of_itemsMember? hitems).ofItems additional
  | object =>
    rw [ofMembers?] at h
    obtain ⟨properties, hproperties, h⟩ := Option.bind_eq_some_iff.mp h
    obtain ⟨additional, -, h⟩ := Option.bind_eq_some_iff.mp h
    obtain rfl := Option.some.inj h
    exact (sorted_of_propertiesMember? hproperties).ofProperties additional
termination_by (sizeOf members, 1)

theorem sorted_of_ofFields? {kind : Kind} {fields : List Document} {s : Schema}
    (h : ofFields? kind fields = some s) : s.Sorted := by
  rw [ofFields?.eq_def] at h
  split at h
  · obtain rfl := Option.some.inj h
    trivial
  · obtain ⟨format, -, rfl⟩ := Option.map_eq_some_iff.mp h
    trivial
  · obtain rfl := Option.some.inj h
    trivial
  · obtain ⟨format, -, rfl⟩ := Option.map_eq_some_iff.mp h
    trivial
  iterate 3
    obtain rfl := Option.some.inj h
    trivial
  · obtain ⟨items, hitems, h⟩ := Option.bind_eq_some_iff.mp h
    obtain rfl := Option.some.inj h
    exact (sorted_of_readItems? hitems).ofItems none
  · obtain ⟨items, hitems, h⟩ := Option.bind_eq_some_iff.mp h
    obtain ⟨additional, -, h⟩ := Option.bind_eq_some_iff.mp h
    obtain rfl := Option.some.inj h
    exact (sorted_of_readItems? hitems).ofItems additional
  · obtain rfl := Option.some.inj h
    trivial
  · obtain ⟨properties, hproperties, h⟩ := Option.bind_eq_some_iff.mp h
    obtain rfl := Option.some.inj h
    exact (sorted_of_readProperties? hproperties).ofProperties none
  · obtain ⟨properties, hproperties, h⟩ := Option.bind_eq_some_iff.mp h
    obtain ⟨additional, -, h⟩ := Option.bind_eq_some_iff.mp h
    obtain rfl := Option.some.inj h
    exact (sorted_of_readProperties? hproperties).ofProperties additional
  · cases h
termination_by (sizeOf fields, 0)

theorem sorted_of_readItems? {d : Document} {items : Items} (h : readItems? d = some items) :
    items.Sorted := by
  rw [readItems?.eq_def] at h
  split at h
  · next s hs =>
    obtain rfl := Option.some.inj h
    exact sorted_of_ofDocument? hs
  · split at h
    · obtain rfl := Option.some.inj h
      trivial
    · obtain ⟨schemas, hschemas, rfl⟩ := Option.map_eq_some_iff.mp h
      exact sortedAll_of_readAll? hschemas
    · cases h
termination_by (sizeOf d, 1)

theorem sorted_of_readProperties? {d : Document} {properties : Option (List (String × Schema))}
    (h : readProperties? d = some properties) : PropertiesSorted properties := by
  rw [readProperties?.eq_def] at h
  split at h
  · obtain rfl := Option.some.inj h
    trivial
  · obtain ⟨named, hnamed, rfl⟩ := Option.map_eq_some_iff.mp h
    refine ⟨Entries.pairwise_ofPairs named, sortedNamed_iff.mpr fun property hproperty => ?_⟩
    exact sorted_of_readNamed? hnamed property (Entries.mem_of_mem_ofPairs hproperty)
  · cases h
termination_by (sizeOf d, 1)

theorem sorted_of_itemsMember? {members : List (String × Document)} {items : Items}
    (h : itemsMember? members = some items) : items.Sorted := by
  match members with
  | [] =>
    rw [itemsMember?] at h
    obtain rfl := Option.some.inj h
    trivial
  | (k, d) :: rest =>
    rw [itemsMember?] at h
    split at h
    · exact sorted_of_readItems? h
    · exact sorted_of_itemsMember? h
termination_by (sizeOf members, 0)

theorem sorted_of_propertiesMember? {members : List (String × Document)}
    {properties : Option (List (String × Schema))}
    (h : propertiesMember? members = some properties) : PropertiesSorted properties := by
  match members with
  | [] =>
    rw [propertiesMember?] at h
    obtain rfl := Option.some.inj h
    trivial
  | (k, d) :: rest =>
    rw [propertiesMember?] at h
    split at h
    · exact sorted_of_readProperties? h
    · exact sorted_of_propertiesMember? h
termination_by (sizeOf members, 0)

theorem sortedAll_of_readAll? {ds : List Document} {schemas : List Schema}
    (h : readAll? ds = some schemas) : SortedAll schemas := by
  match ds with
  | [] =>
    rw [readAll?] at h
    obtain rfl := Option.some.inj h
    trivial
  | d :: rest =>
    rw [readAll?] at h
    obtain ⟨s, hs, h⟩ := Option.bind_eq_some_iff.mp h
    obtain ⟨others, hothers, h⟩ := Option.bind_eq_some_iff.mp h
    obtain rfl := Option.some.inj h
    exact ⟨sorted_of_ofDocument? hs, sortedAll_of_readAll? hothers⟩
termination_by (sizeOf ds, 0)

theorem sorted_of_readNamed? {members : List (String × Document)}
    {named : List (String × Schema)} (h : readNamed? members = some named) :
    ∀ property ∈ named, property.2.Sorted := by
  match members with
  | [] =>
    rw [readNamed?] at h
    obtain rfl := Option.some.inj h
    exact List.forall_mem_nil _
  | (k, d) :: rest =>
    rw [readNamed?] at h
    obtain ⟨s, hs, h⟩ := Option.bind_eq_some_iff.mp h
    obtain ⟨others, hothers, h⟩ := Option.bind_eq_some_iff.mp h
    obtain rfl := Option.some.inj h
    exact List.forall_mem_cons.mpr ⟨sorted_of_ofDocument? hs, sorted_of_readNamed? hothers⟩
termination_by (sizeOf members, 0)

end

/-- **Schemas of texts are sorted.** -/
theorem sorted_of_parse {format : Format} {text : String} {s : Schema}
    (h : Schema.parse format text = .ok s) : s.Sorted := by
  rw [Schema.parse] at h
  split at h
  · next hs =>
    obtain rfl := Except.ok.inj h
    obtain ⟨d, -, hs⟩ := Option.bind_eq_some_iff.mp hs
    exact sorted_of_ofDocument? hs
  · cases h

/-- Schemas of texts have no two properties of one name. -/
theorem distinct_of_parse {format : Format} {text : String} {s : Schema}
    (h : Schema.parse format text = .ok s) : s.Distinct :=
  (sorted_of_parse h).distinct

end Formulary.Schema
