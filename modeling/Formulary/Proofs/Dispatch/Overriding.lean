import Formulary.Proofs.Dispatch.Content
import Formulary.Registry

/-!
# Overriding

One more overload in a table is seen where its parameters accept the arguments, and nowhere else.
This file compares the registries before and after such a registration. The other tables are the
same. In its own table the new overload takes some of the signatures that it accepts. Nothing is
reshuffled among the others, although the overloads are sorted anew and one of them may be lost:
the lost one has the parameters of the new one, and so it took nothing that the new one does not
accept.

## Main definitions

* `Overload.targetFor` — an overload as the answer to a signature
* `Registry.lookup?` — the answer of a registry to a signature
* `Registry.LocalOverride` — how registries differ by one overload

## Main results

* `Table.Builder.live_add_iff` — the overloads that are not replaced after an addition
* `Table.Builder.lookup_add_of_not_accepts` — what is not accepted is answered as before
* `Table.Builder.lookup_add_of_accepts` — the rest is answered as before or by the new overload
* `Registry.Builder.override_local` — a registration in a registry
-/

namespace Formulary

/-- The overload as the answer to a signature. -/
def Overload.targetFor (o : Overload) (key : Signature) : Target :=
  if key = o.params then .exact o else .widened o key

namespace Table

variable {table table' : Table} {key : Signature}

theorem resolve_of_lookup {target : Target} (h : table.lookup key = some target) :
    table.resolve key = .ok (.direct target) := by
  rw [resolve, h]

/-- A choice depends on what is found, and on whether and under which name the rest is refused. -/
theorem resolve_congr (hname : table'.name = table.name) (hdefers : table'.defers = table.defers)
    (h : table'.lookup key = table.lookup key) : table'.resolve key = table.resolve key := by
  rw [resolve, resolve, h, hname, hdefers]

end Table

namespace Table.Builder

variable {b : Builder} {o p : Overload} {key : Signature}

/-! ### What is live -/

/-- After an addition the new overload is live, and so are those with other parameters. -/
theorem live_add_iff : (b.add o).Live p ↔ p = o ∨ b.Live p ∧ p.params ≠ o.params := by
  constructor
  · rintro ⟨before, after, hos, hafter⟩
    change b.overloads ++ [o] = before ++ p :: after at hos
    rcases List.eq_nil_or_concat' after with rfl | ⟨after, q, rfl⟩
    · exact Or.inl (List.singleton_inj.mp (List.append_inj' hos rfl).2).symm
    · rw [← List.cons_append, ← List.append_assoc] at hos
      obtain ⟨hrest, hlast⟩ := List.append_inj' hos rfl
      obtain rfl : o = q := List.singleton_inj.mp hlast
      have hne : o.params ≠ p.params := hafter o (List.mem_append_right _ (by simp))
      refine Or.inr ⟨⟨before, after, hrest, fun q hq => ?_⟩, hne.symm⟩
      exact hafter q (List.mem_append_left _ hq)
  · rintro (rfl | ⟨⟨before, after, hos, hafter⟩, hne⟩)
    · exact ⟨b.overloads, [], rfl, nofun⟩
    · refine ⟨before, after ++ [o], by simp [add, hos], fun q hq => ?_⟩
      rcases List.mem_append.mp hq with hq | hq
      · exact hafter q hq
      · rw [List.mem_singleton.mp hq]
        exact hne.symm

theorem live_add_self : (b.add o).Live o := live_add_iff.mpr (Or.inl rfl)

theorem live_add_iff_of_ne (hne : p.params ≠ o.params) : (b.add o).Live p ↔ b.Live p := by
  rw [live_add_iff, and_iff_left hne, or_iff_right fun heq => hne (congrArg Overload.params heq)]

/-! ### What is chosen -/

/-- Where something accepts a signature, something is chosen for it. -/
theorem exists_chosen (ho : b.Live o) (haccepts : Accepts b.widening o.params key) :
    ∃ p, b.Chosen key p := by
  cases hfind : b.ordered.find? fun p => key ∈ variants b.widening p.params with
  | some p => exact ⟨p, chosen_of_find? hfind⟩
  | none =>
    have hnot := List.find?_eq_none.mp hfind o (mem_ordered_iff.mpr ho)
    exact absurd (mem_variants_iff.mpr haccepts) (by simpa using hnot)

/-- Among overloads that accept what the new one does not accept, the choice is the same. -/
theorem chosen_add_iff (h : ¬ Accepts b.widening o.params key) :
    (b.add o).Chosen key p ↔ b.Chosen key p := by
  have hlive : ∀ q : Overload, Accepts b.widening q.params key →
      ((b.add o).Live q ↔ b.Live q) := fun q hq =>
    live_add_iff_of_ne fun heq => h (heq ▸ hq)
  constructor
  · rintro ⟨hp, haccepts, hleast⟩
    exact ⟨(hlive p haccepts).mp hp, haccepts, fun q hq hqkey =>
      hleast q ((hlive q hqkey).mpr hq) hqkey⟩
  · rintro ⟨hp, haccepts, hleast⟩
    exact ⟨(hlive p haccepts).mpr hp, haccepts, fun q hq hqkey =>
      hleast q ((hlive q hqkey).mp hq) hqkey⟩

/-- The choice falls on the new overload, or on the one that was chosen before. -/
theorem Chosen.of_add (h : (b.add o).Chosen key p) (ho : Accepts b.widening o.params key) :
    p = o ∨ b.Chosen key p := by
  obtain ⟨hp, haccepts, hleast⟩ := h
  refine (live_add_iff.mp hp).imp_right fun hlive => ⟨hlive.1, haccepts, fun q hq hqkey => ?_⟩
  by_cases hne : q.params = o.params
  · -- the replaced overload stood where the new one stands
    rw [hne]
    exact hleast o live_add_self ho
  · exact hleast q ((live_add_iff_of_ne hne).mpr hq) hqkey

/-! ### What is found -/

theorem find?_params_add (hne : key ≠ o.params) :
    ((b.add o).ordered.find? fun p => p.params = key) =
      b.ordered.find? fun p => p.params = key := by
  refine Option.ext fun p => ?_
  rw [find?_params_eq_some_iff, find?_params_eq_some_iff]
  exact and_congr_left fun hp => live_add_iff_of_ne (hp ▸ hne)

/-- The new overload answers to its own parameters. -/
theorem lookup_add_self : (b.add o).build.lookup o.params = some (.exact o) :=
  live_add_self.lookup

/-- **Signatures that the new overload does not accept are answered as before.** -/
theorem lookup_add_of_not_accepts (h : ¬ Accepts b.widening o.params key) :
    (b.add o).build.lookup key = b.build.lookup key := by
  have hne : key ≠ o.params := by
    rintro rfl
    exact h (accepts_self o.params)
  rw [lookup_build, lookup_build, find?_params_add hne]
  congr 2
  refine Option.ext fun p => ?_
  rw [find?_variants_eq_some_iff, find?_variants_eq_some_iff, chosen_add_iff h]

/-- **Signatures that the new overload accepts are answered as before, or by the new overload.** -/
theorem lookup_add_of_accepts (h : Accepts b.widening o.params key) :
    (b.add o).build.lookup key = b.build.lookup key ∨
      (b.add o).build.lookup key = some (o.targetFor key) := by
  by_cases hkey : key = o.params
  · rw [Overload.targetFor, if_pos hkey, hkey]
    exact Or.inr lookup_add_self
  · rw [Overload.targetFor, if_neg hkey, lookup_build, lookup_build, find?_params_add hkey]
    obtain ⟨p, hp⟩ := exists_chosen live_add_self h
    rw [find?_variants_eq_some_iff.mpr hp]
    cases b.ordered.find? fun p => p.params = key with
    | some p => exact Or.inl rfl
    | none =>
      rcases hp.of_add h with rfl | hp
      · exact Or.inr rfl
      · rw [find?_variants_eq_some_iff.mpr hp]
        exact Or.inl rfl

end Table.Builder

/-! ### In a registry -/

namespace Registry

/-- The answer to a signature in the table with a name. -/
def lookup? (r : Registry) (name : String) (key : Signature) : Option Target :=
  (r.table? name).bind fun table => table.lookup key

/-- Registries that differ by one overload of a table, which may take some of the signatures that it
accepts and always takes its own. If the table is not a new one, the same holds of the choices that
are made before the arguments are known. -/
structure LocalOverride (r r' : Registry) (name : String) (widening : List Tag) (o : Overload) :
    Prop where
  others : ∀ other, other ≠ name → r'.table? other = r.table? other
  functions : r'.functions = r.functions
  constants : r'.constants = r.constants
  lookup_of_not_accepts : ∀ key, ¬ Table.Builder.Accepts widening o.params key →
    r'.lookup? name key = r.lookup? name key
  lookup_of_accepts : ∀ key, Table.Builder.Accepts widening o.params key →
    r'.lookup? name key = r.lookup? name key ∨ r'.lookup? name key = some (o.targetFor key)
  lookup_self : r'.lookup? name o.params = some (.exact o)
  resolve : ∀ table, r.table? name = some table → ∃ table', r'.table? name = some table' ∧
    ∀ key, (¬ Table.Builder.Accepts widening o.params key →
        table'.resolve key = table.resolve key) ∧
      (Table.Builder.Accepts widening o.params key →
        table'.resolve key = table.resolve key ∨
          table'.resolve key = .ok (.direct (o.targetFor key)))

namespace Builder

variable (b : Builder) (name : String) (o : Overload)

theorem table?_registerOverload (n : String) :
    (b.registerOverload name o).build.table? n =
      if n = name then some ((b.tableOrNew name).add o).build else b.build.table? n := by
  rw [table?_build, registerOverload, find?_modifyTable, table?_build]
  split <;> rfl

/-- A table without overloads answers nothing, as a table that is missing. -/
theorem lookup?_build (key : Signature) :
    b.build.lookup? name key = (b.tableOrNew name).build.lookup key := by
  rw [lookup?, table?_build, tableOrNew]
  cases b.tables.find? name with
  | some t => rfl
  | none => simp [Table.lookup, Table.Builder.build, Table.Builder.new, Table.Builder.ordered,
      Table.Builder.live, Table.Builder.lastOfEach]

theorem lookup?_registerOverload (key : Signature) :
    (b.registerOverload name o).build.lookup? name key =
      ((b.tableOrNew name).add o).build.lookup key := by
  rw [lookup?, table?_registerOverload, if_pos rfl, Option.bind_some]

/-- **Overrides are local.** A further overload is seen in its own table only, and there only where
its parameters accept the arguments. No third overload is ever found in the place of another. -/
theorem override_local :
    LocalOverride b.build (b.registerOverload name o).build name (b.tableOrNew name).widening
      o where
  others other hne := by rw [table?_registerOverload, if_neg hne]
  functions := rfl
  constants := rfl
  lookup_of_not_accepts key h := by
    rw [lookup?_registerOverload, lookup?_build, Table.Builder.lookup_add_of_not_accepts h]
  lookup_of_accepts key h := by
    rw [lookup?_registerOverload, lookup?_build]
    exact Table.Builder.lookup_add_of_accepts h
  lookup_self := by
    rw [lookup?_registerOverload, Table.Builder.lookup_add_self]
  resolve table htable := by
    obtain ⟨t, ht, rfl⟩ := Option.map_eq_some_iff.mp (table?_build b name ▸ htable)
    rw [tableOrNew_of_find? ht]
    refine ⟨(t.add o).build, ?_, fun key => ⟨fun h => ?_, fun h => ?_⟩⟩
    · rw [table?_registerOverload, if_pos rfl, tableOrNew_of_find? ht]
    · exact Table.resolve_congr rfl rfl (Table.Builder.lookup_add_of_not_accepts h)
    · rcases Table.Builder.lookup_add_of_accepts h with hbefore | hself
      · exact Or.inl (Table.resolve_congr rfl rfl hbefore)
      · exact Or.inr (Table.resolve_of_lookup hself)

end Builder

end Registry

end Formulary
