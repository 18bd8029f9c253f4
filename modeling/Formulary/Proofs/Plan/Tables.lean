import Formulary.Proofs.Dispatch.Registrations
import Formulary.Proofs.Plan.BuiltinFaults

/-!
# The tables of the library

The library is registered in groups: arithmetic, comparisons, conversions and so on. Every group
has tables of its own and leaves all others as they are. So a table of the whole library is the one
that its group would make alone, and what is said of a group needs no other one.

## Main definitions

* `Registry.Builder.Concerns` — registrations that concern the tables of some names
* `Library.groups` — the groups of the library, each with the names of its tables

## Main results

* `Registry.Builder.tableOrNew_of_mem_groups` — a table is made by its group alone
* `Library.find?_of_mem_groups` — so is a table of the library
-/

namespace Formulary

open Calendar Library Overload Carrier

namespace Registry.Builder

/-! ### One table after a registration -/

section

variable (b : Builder)

theorem tableOrNew_registerFamily (widening : List Tag) (names : List String) (n : String) :
    (b.registerFamily widening names).tableOrNew n =
      if n ∈ names then (b.tableOrNew n).setWidening widening else b.tableOrNew n := by
  rw [tableOrNew, find?_registerFamily]
  split <;> rfl

theorem tableOrNew_registerOverload (name : String) (o : Overload) (n : String) :
    (b.registerOverload name o).tableOrNew n =
      if n = name then (b.tableOrNew n).revise none [o] else b.tableOrNew n := by
  rw [registerOverload, tableOrNew_modifyTable]
  split
  · next h =>
    rw [h]
    rfl
  · rfl

theorem tableOrNew_registerOverloads (name : String) (os : List Overload) (n : String) :
    (b.registerOverloads name os).tableOrNew n =
      if n = name then (b.tableOrNew n).revise none os else b.tableOrNew n := by
  induction os generalizing b with
  | nil => simp [registerOverloads]
  | cons o rest ih =>
    rw [registerOverloads, List.foldl_cons, ← registerOverloads, ih, tableOrNew_registerOverload]
    split
    · rw [Table.Builder.revise_revise]
      rfl
    · rfl

end

/-! ### Groups of registrations -/

/-- Registrations that concern the tables of some names: they leave the others as they are, and what
they make of a table depends on no other one. -/
structure Concerns (names : List String) (register : Builder → Builder) : Prop where
  apart : ∀ (b : Builder) {name : String}, name ∉ names →
    (register b).tableOrNew name = b.tableOrNew name
  congr : ∀ {b b' : Builder} {name : String}, b.tableOrNew name = b'.tableOrNew name →
    (register b).tableOrNew name = (register b').tableOrNew name

namespace Concerns

variable {names : List String} {register : Builder → Builder}

theorem id : Concerns names id := ⟨fun _ _ _ => rfl, fun h => h⟩

theorem registerFamily (h : Concerns names register) (widening : List Tag) {family : List String}
    (hfamily : family ⊆ names) : Concerns names fun b => (register b).registerFamily widening family
    where
  apart b name hname := by
    rw [tableOrNew_registerFamily, if_neg fun hmem => hname (hfamily hmem), h.apart b hname]
  congr heq := by rw [tableOrNew_registerFamily, tableOrNew_registerFamily, h.congr heq]

theorem registerOverloads (h : Concerns names register) {n : String} (os : List Overload)
    (hn : n ∈ names) : Concerns names fun b => (register b).registerOverloads n os where
  apart b name hname := by
    rw [tableOrNew_registerOverloads, if_neg (ne_of_mem_of_not_mem hn hname).symm,
      h.apart b hname]
  congr heq := by rw [tableOrNew_registerOverloads, tableOrNew_registerOverloads, h.congr heq]

theorem registerOverload (h : Concerns names register) {n : String} (o : Overload)
    (hn : n ∈ names) : Concerns names fun b => (register b).registerOverload n o :=
  h.registerOverloads [o] hn

theorem registerConstant (h : Concerns names register) (n : String) (value : Value) :
    Concerns names fun b => (register b).registerConstant n value :=
  ⟨fun b _ hname => h.apart b hname, fun heq => h.congr heq⟩

/-- One overload for each of some names. -/
theorem foldl {α : Type} (os : List (String × α)) (f : α → Overload)
    (h : Concerns names register) (hos : os.map Prod.fst ⊆ names) :
    Concerns names fun b => os.foldl (fun b o => b.registerOverload o.1 (f o.2)) (register b) := by
  induction os generalizing register with
  | nil => exact h
  | cons o rest ih =>
    rw [List.map_cons, List.cons_subset] at hos
    exact ih (h.registerOverload (f o.2) hos.1) hos.2

end Concerns

/-- The registrations of some groups, one after the other. -/
def registerGroups (groups : List (List String × (Builder → Builder))) (b : Builder) : Builder :=
  groups.foldl (fun b group => group.2 b) b

section

variable {groups : List (List String × (Builder → Builder))} {name : String}

theorem tableOrNew_of_forall_notMem (hgroups : ∀ group ∈ groups, Concerns group.1 group.2)
    (hname : ∀ group ∈ groups, name ∉ group.1) (b : Builder) :
    (registerGroups groups b).tableOrNew name = b.tableOrNew name := by
  induction groups generalizing b with
  | nil => rfl
  | cons group rest ih =>
    rw [List.forall_mem_cons] at hgroups hname
    exact (ih hgroups.2 hname.2 (group.2 b)).trans (hgroups.1.apart b hname.1)

/-- **A table is made by its group alone**, if no other group has one of that name. -/
theorem tableOrNew_of_mem_groups (hgroups : ∀ group ∈ groups, Concerns group.1 group.2)
    (hnodup : (groups.flatMap Prod.fst).Nodup) {names : List String}
    {register : Builder → Builder} (hmem : (names, register) ∈ groups) (hname : name ∈ names)
    (b : Builder) :
    (registerGroups groups b).tableOrNew name = (register b).tableOrNew name := by
  obtain ⟨before, after, rfl⟩ := List.append_of_mem hmem
  rw [List.flatMap_append, List.flatMap_cons, List.nodup_append', List.nodup_append'] at hnodup
  rw [List.forall_mem_append, List.forall_mem_cons] at hgroups
  obtain ⟨-, ⟨-, -, hafter⟩, hbefore⟩ := hnodup
  obtain ⟨hgroupsBefore, hregister, hgroupsAfter⟩ := hgroups
  have hnotMem : ∀ group ∈ before, name ∉ group.1 := fun group hgroup h =>
    hbefore (List.mem_flatMap.mpr ⟨group, hgroup, h⟩) (List.mem_append_left _ hname)
  have hnotMem' : ∀ group ∈ after, name ∉ group.1 := fun group hgroup h =>
    hafter hname (List.mem_flatMap.mpr ⟨group, hgroup, h⟩)
  have hrun : registerGroups (before ++ (names, register) :: after) b =
      registerGroups after (register (registerGroups before b)) := by
    rw [registerGroups, List.foldl_append]
    rfl
  rw [hrun, tableOrNew_of_forall_notMem hgroupsAfter hnotMem']
  exact hregister.congr (tableOrNew_of_forall_notMem hgroupsBefore hnotMem b)

end

end Registry.Builder

namespace Library

open Registry.Builder

/-! ### The groups of the library -/

/-- The names of the tables of arithmetic. -/
def arithmeticNames : List String := ["pos", "neg", "add", "sub", "mul", "div", "abs"]

/-- The names of the comparisons. -/
def relationNames : List String := ["lt", "le", "gt", "ge", "eq", "ne"]

/-- The names of the conversions. -/
def conversionNames : List String := ["int", "long", "double", "decimal", "string"]

/-- The groups of the library, each with the names of its tables. -/
def groups (now : DateTime) : List (List String × (Registry.Builder → Registry.Builder)) :=
  [(arithmeticNames, arithmetic), (relationNames, relations), (["not"], negation),
    (doubleFunctions.map Prod.fst, transcendentals), (stringNames, Library.strings),
    (["index"], indexing), (conversionNames, conversions), (["time"], times now)]

theorem builtins_eq_registerGroups (now : DateTime) :
    builtins now = registerGroups (groups now) .empty := rfl

theorem concerns_arithmetic : Concerns arithmeticNames arithmetic := by
  unfold arithmetic
  iterate 7 refine Concerns.registerOverloads ?_ _ (by decide)
  exact Concerns.id.registerFamily _ (by decide)

theorem concerns_relations : Concerns relationNames relations := by
  unfold relations
  iterate 6 refine Concerns.registerOverloads ?_ _ (by decide)
  exact Concerns.id.registerFamily _ (by decide)

theorem concerns_negation : Concerns ["not"] negation :=
  (Concerns.id.registerFamily _ (by decide)).registerOverload _ (by decide)

theorem concerns_transcendentals :
    Concerns (doubleFunctions.map Prod.fst) transcendentals := by
  unfold transcendentals
  refine .registerConstant (.registerConstant (.registerConstant ?_ _ _) _ _) _ _
  refine .foldl doubleFunctions (unary double double ·) ?_ (List.Subset.refl _)
  exact Concerns.id.registerFamily _ (List.Subset.refl _)

theorem concerns_strings : Concerns stringNames Library.strings := by
  unfold Library.strings
  iterate 8 refine Concerns.registerOverload ?_ _ (by decide)
  refine Concerns.registerOverloads ?_ _ (by decide)
  exact Concerns.id.registerFamily _ (List.Subset.refl _)

theorem concerns_indexing : Concerns ["index"] indexing :=
  (Concerns.id.registerFamily _ (by decide)).registerOverloads _ (by decide)

theorem concerns_conversions : Concerns conversionNames conversions := by
  unfold conversions
  iterate 5 refine Concerns.registerOverloads ?_ _ (by decide)
  exact Concerns.id.registerFamily _ (by decide)

theorem concerns_times (now : DateTime) : Concerns ["time"] (times now) :=
  (Concerns.id.registerFamily _ (by decide)).registerOverloads _ (by decide)

theorem concerns_groups (now : DateTime) : ∀ group ∈ groups now, Concerns group.1 group.2 := by
  simp only [groups, List.forall_mem_cons]
  exact ⟨concerns_arithmetic, concerns_relations, concerns_negation, concerns_transcendentals,
    concerns_strings, concerns_indexing, concerns_conversions, concerns_times now,
    List.forall_mem_nil _⟩

/-- No two groups have a table of the same name. -/
theorem nodup_groups (now : DateTime) : ((groups now).flatMap Prod.fst).Nodup := by
  simp only [groups, List.flatMap_cons, List.flatMap_nil]
  decide

/-- **A table of the library** is made by its group alone. -/
theorem find?_of_mem_groups (now : DateTime) {names : List String}
    {register : Registry.Builder → Registry.Builder} (hmem : (names, register) ∈ groups now)
    (hnamed : names ⊆ namedTables) {name : String} (hname : name ∈ names) :
    (builtins now).tables.find? name = some ((register .empty).tableOrNew name) := by
  refine find?_of_tableOrNew (hnamed hname) ?_
  rw [builtins_eq_registerGroups]
  exact tableOrNew_of_mem_groups (concerns_groups now) (nodup_groups now) hmem hname _

end Library

end Formulary
