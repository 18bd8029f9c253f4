import Formulary.Dispatch.Builder

/-!
# Registries

A registry holds what expressions are bound against: the dispatch tables of operators and built-in
functions, functions that take their arguments as they are, and named constants. It is built once
and does not change.

## Main definitions

* `Function` — a function without dispatch
* `Registry` — tables, functions and constants by name
* `Registry.Builder` — registrations
* `Registry.Builder.build` — the registry of the registrations so far

## Main results

* `Registry.Builder.tableOrNew_modifyTable` — a change is seen in its own table and in no other
* `Registry.Builder.table?_build` — the tables of a registry
-/

namespace Formulary

/-- A function that takes its arguments as they are. -/
structure Function where
  /-- The name. -/
  name : String
  /-- The tag of the result. -/
  result : Tag
  /-- The computation. -/
  body : Body

/-- How a function is shown. -/
def Function.text (f : Function) : String :=
  "DynamicFunction(" ++ f.name ++ " -> " ++ f.result.name ++ ")"

/-- What expressions are bound against. -/
structure Registry where
  /-- The dispatch tables. -/
  tables : Entries Table
  /-- The functions. -/
  functions : Entries Function
  /-- The named constants. -/
  constants : Entries Value

namespace Registry

/-- The table with a name. -/
def table? (r : Registry) (name : String) : Option Table := r.tables.find? name

/-- The function with a name. -/
def function? (r : Registry) (name : String) : Option Function := r.functions.find? name

/-- The constant with a name. -/
def constant? (r : Registry) (name : String) : Option Value := r.constants.find? name

/-- The registrations that a registry is built from. -/
structure Builder where
  /-- The tables so far. -/
  tables : Entries Table.Builder
  /-- The functions so far. -/
  functions : Entries Function
  /-- The constants so far. -/
  constants : Entries Value

namespace Builder

/-- No registrations. -/
def empty : Builder := ⟨[], [], []⟩

/-- The table with a name, a new one if there is none. -/
def tableOrNew (b : Builder) (name : String) : Table.Builder :=
  (b.tables.find? name).getD (.new name [])

/-- Change the table with a name, a new one if there is none. -/
def modifyTable (b : Builder) (name : String) (f : Table.Builder → Table.Builder) : Builder :=
  { b with tables := b.tables.insert name (f (b.tableOrNew name)) }

/-- Tables whose arguments are widened along a sequence. -/
def registerFamily (b : Builder) (widening : List Tag) (names : List String) : Builder :=
  names.foldl (fun b name => b.modifyTable name fun t => t.setWidening widening) b

/-- One more overload in a table. -/
def registerOverload (b : Builder) (name : String) (o : Overload) : Builder :=
  b.modifyTable name fun t => t.add o

/-- More overloads in a table. -/
def registerOverloads (b : Builder) (name : String) (os : List Overload) : Builder :=
  os.foldl (fun b o => b.registerOverload name o) b

/-- A function. It hides a table of the same name from calls. -/
def registerFunction (b : Builder) (name : String) (result : Tag) (body : Body) : Builder :=
  { b with functions := b.functions.insert name ⟨name, result, body⟩ }

/-- A named constant. -/
def registerConstant (b : Builder) (name : String) (value : Value) : Builder :=
  { b with constants := b.constants.insert name value }

/-- The registry of the registrations so far. -/
def build (b : Builder) : Registry where
  tables := b.tables.mapValues Table.Builder.build
  functions := b.functions
  constants := b.constants

/-! ### Tables of the registrations -/

section

variable {b : Builder}

theorem find?_modifyTable (b : Builder) (name : String) (f : Table.Builder → Table.Builder)
    (n : String) : (b.modifyTable name f).tables.find? n =
      if n = name then some (f (b.tableOrNew name)) else b.tables.find? n :=
  Entries.find?_insert b.tables name (f (b.tableOrNew name)) n

theorem tableOrNew_modifyTable (b : Builder) (name : String) (f : Table.Builder → Table.Builder)
    (n : String) : (b.modifyTable name f).tableOrNew n =
      if n = name then f (b.tableOrNew name) else b.tableOrNew n := by
  rw [tableOrNew, find?_modifyTable]
  split <;> rfl

/-- What holds of every table holds of every table after a change of one that keeps it. -/
theorem forall_modifyTable {P : String → Table.Builder → Prop} {name : String}
    {f : Table.Builder → Table.Builder} (h : ∀ n, P n (b.tableOrNew n))
    (hf : P name (f (b.tableOrNew name))) (n : String) :
    P n ((b.modifyTable name f).tableOrNew n) := by
  rw [tableOrNew_modifyTable]
  split
  · next hn => exact hn ▸ hf
  · exact h n

theorem table?_build (b : Builder) (name : String) :
    b.build.table? name = (b.tables.find? name).map Table.Builder.build :=
  Entries.find?_mapValues Table.Builder.build b.tables name

theorem tableOrNew_of_find? {name : String} {t : Table.Builder}
    (h : b.tables.find? name = some t) : b.tableOrNew name = t := by
  rw [tableOrNew, h, Option.getD_some]

end

end Builder

end Registry

end Formulary
