import Formulary.Proofs.Dispatch.Content
import Formulary.Registry
import Mathlib.Data.List.FinRange
import Mathlib.Logic.Equiv.Defs

/-!
# The order of registrations

A registry is built by a sequence of registrations. This file says which of them may change places:
all but those that write under one key. Two families conflict when they share the name of a table,
two overloads when they have one table and one parameter list, and two functions or two constants
when they have one name. Everything else commutes, families and overloads of one table included.

A builder is read through a few views: the sequence of a table, the overloads of a table with one
parameter list, a function, a constant. Of each view a registration says what it writes there, if it
writes at all, and those that write through one view conflict. So what a sequence writes through a
view is the same list in any order that is allowed, and the rest of the builder does not depend on
anything else: a table is sorted before it is built.

## Main definitions

* `Registration` — one registration
* `Registration.Conflicts` — registrations that must not change places, as they share a key
* `Reordered` — one sequence is a permutation of another that keeps the order of conflicts
* `Builder.registerAll` — a sequence of registrations

## Main results

* `Table.Builder.build_eq` — a table does not depend on the order of overloads that differ in their
  parameters
* `Reordered.filterMap_eq` — what is written through a view is the same list
* `Builder.build_registerAll_of_reordered` — registries do not depend on the order
-/

namespace Formulary

namespace Table.Builder

variable {b b' : Builder}

theorem pairwise_lastOfEach (os : List Overload) :
    (lastOfEach os).Pairwise fun o p => o.params ≠ p.params := by
  induction os with
  | nil => exact List.Pairwise.nil
  | cons o rest ih =>
    rw [lastOfEach]
    split
    · exact ih
    · next hany =>
      refine List.pairwise_cons.mpr ⟨fun p hp heq => hany ?_, ih⟩
      obtain ⟨before, after, hrest, -⟩ := mem_lastOfEach_iff.mp hp
      refine List.any_eq_true.mpr ⟨p, ?_, by simpa using heq.symm⟩
      rw [hrest]
      exact List.mem_append_right _ (List.mem_cons_self ..)

theorem nodup_ordered (b : Builder) : b.ordered.Nodup := by
  rw [ordered, (List.mergeSort_perm ..).nodup_iff]
  exact (pairwise_lastOfEach b.overloads).imp fun hne heq => hne (congrArg Overload.params heq)

/-- Whether an overload is live is decided among those with its parameters. -/
theorem live_iff_filter {o : Overload} :
    b.Live o ↔ o ∈ lastOfEach (b.overloads.filter fun p => p.params == o.params) := by
  rw [lastOfEach_filter (· == o.params), List.mem_filter, beq_self_eq_true, and_iff_left rfl,
    live_iff]

/-- Tables whose overloads differ in their order only, and not among those with one parameter list,
come out the same. -/
theorem build_eq (hname : b.name = b'.name) (hwidening : b.widening = b'.widening)
    (hdefers : b.defers = b'.defers)
    (hoverloads : ∀ params, b.overloads.filter (·.params == params) =
      b'.overloads.filter (·.params == params)) : b.build = b'.build := by
  have hlive : ∀ o, b.Live o ↔ b'.Live o := by
    intro o
    rw [live_iff_filter, live_iff_filter, hoverloads]
  have hordered : b.ordered = b'.ordered := by
    have hperm : b.ordered.Perm b'.ordered := by
      rw [List.perm_ext_iff_of_nodup b.nodup_ordered b'.nodup_ordered]
      intro o
      rw [mem_ordered_iff, mem_ordered_iff, hlive]
    refine hperm.eq_of_pairwise (fun o p ho hp hop hpo => ?_) b.pairwise_ordered
      (hwidening ▸ b'.pairwise_ordered)
    exact (mem_ordered_iff.mp ho).eq_of_params_eq ((hlive p).mpr (mem_ordered_iff.mp hp))
      (hop.antisymm hpo)
  rw [build, build, hname, hwidening, hdefers, hordered]

/-- A table with another sequence, if there is one, and more overloads. -/
def revise (b : Builder) (widening : Option (List Tag)) (overloads : List Overload) : Builder :=
  { b with widening := widening.getD b.widening, overloads := b.overloads ++ overloads }

@[simp] theorem revise_none (b : Builder) : b.revise none [] = b := by
  rw [revise, List.append_nil, Option.getD_none]

theorem revise_revise (b : Builder) (widening widening' : Option (List Tag))
    (overloads overloads' : List Overload) :
    (b.revise widening overloads).revise widening' overloads' =
      b.revise (widening'.or widening) (overloads ++ overloads') := by
  cases widening' <;> simp [revise]

end Table.Builder

namespace Registry

/-! ### Registrations -/

/-- One registration. -/
inductive Registration
  | family (widening : List Tag) (names : List String)
  | overload (name : String) (o : Overload)
  | function (name : String) (result : Tag) (body : Body)
  | constant (name : String) (value : Value)

/-- The builder after one more registration. -/
def Builder.register (b : Builder) : Registration → Builder
  | .family widening names => b.registerFamily widening names
  | .overload name o => b.registerOverload name o
  | .function name result body => b.registerFunction name result body
  | .constant name value => b.registerConstant name value

/-- The builder after more registrations. -/
def Builder.registerAll (b : Builder) (calls : List Registration) : Builder :=
  calls.foldl Builder.register b

namespace Registration

/-- What a registration is kept under. -/
inductive Key
  | family (name : String)
  | overload (name : String) (params : List Tag)
  | function (name : String)
  | constant (name : String)
  deriving DecidableEq

/-- The keys that a registration writes. -/
def keys : Registration → List Key
  | family _ names => names.map .family
  | overload name o => [.overload name o.params]
  | function name _ _ => [.function name]
  | constant name _ => [.constant name]

/-- Registrations that write under one key. -/
def Conflicts (c d : Registration) : Prop := ∃ key ∈ c.keys, key ∈ d.keys

instance : DecidableRel Conflicts := fun c d =>
  inferInstanceAs (Decidable (∃ key ∈ c.keys, key ∈ d.keys))

/-- The sequence that is declared for a table. -/
def widening? (name : String) : Registration → Option (List Tag)
  | family widening names => if name ∈ names then some widening else none
  | _ => none

/-- The overload that is added to a table. -/
def overload? (name : String) : Registration → Option Overload
  | overload n o => if name = n then some o else none
  | _ => none

/-- The function that is written under a name. -/
def function? (name : String) : Registration → Option Function
  | function n result body => if name = n then some ⟨n, result, body⟩ else none
  | _ => none

/-- The constant that is written under a name. -/
def constant? (name : String) : Registration → Option Value
  | constant n value => if name = n then some value else none
  | _ => none

/-- Whether a registration is about a table. -/
def touches (name : String) (c : Registration) : Bool :=
  (c.widening? name).isSome || (c.overload? name).isSome

section

variable {c : Registration} {name : String}

theorem widening?_eq_some_iff {widening : List Tag} :
    c.widening? name = some widening ↔ ∃ names, c = family widening names ∧ name ∈ names := by
  cases c with
  | family widening' names =>
    simp only [widening?, Option.ite_none_right_eq_some, Option.some.injEq, family.injEq]
    constructor
    · rintro ⟨hname, rfl⟩
      exact ⟨names, ⟨rfl, rfl⟩, hname⟩
    · rintro ⟨_, ⟨rfl, rfl⟩, hname⟩
      exact ⟨hname, rfl⟩
  | _ => simp [widening?]

theorem overload?_eq_some_iff {o : Overload} :
    c.overload? name = some o ↔ c = overload name o := by
  cases c with
  | overload n p =>
    simp only [overload?, Option.ite_none_right_eq_some, Option.some.injEq, overload.injEq]
    exact and_congr_left fun _ => eq_comm
  | _ => simp [overload?]

theorem function?_eq_some_iff {f : Function} :
    c.function? name = some f ↔ c = function name f.result f.body ∧ f.name = name := by
  cases c with
  | function n result body =>
    simp only [function?, Option.ite_none_right_eq_some, Option.some.injEq, function.injEq]
    constructor
    · rintro ⟨rfl, rfl⟩
      exact ⟨⟨rfl, rfl, rfl⟩, rfl⟩
    · rintro ⟨⟨rfl, rfl, rfl⟩, hname⟩
      exact ⟨rfl, by rw [← hname]⟩
  | _ => simp [function?]

theorem constant?_eq_some_iff {v : Value} :
    c.constant? name = some v ↔ c = constant name v := by
  cases c with
  | constant n w =>
    simp only [constant?, Option.ite_none_right_eq_some, Option.some.injEq, constant.injEq]
    exact and_congr_left fun _ => eq_comm
  | _ => simp [constant?]

end

end Registration

/-! ### What a sequence writes -/

namespace Builder

open Registration

variable {b : Builder} {calls : List Registration}

theorem getLast?_filterMap_cons {α : Type} (f : Registration → Option α) (c : Registration)
    (rest : List Registration) :
    ((c :: rest).filterMap f).getLast? = (rest.filterMap f).getLast?.or (f c) := by
  rw [List.filterMap_cons]
  cases f c with
  | none => rw [Option.or_none]
  | some a =>
    dsimp only
    rw [List.getLast?_cons]
    cases (rest.filterMap f).getLast? <;> rfl

/-- What is read of a builder through a view is what was written last. -/
theorem view_registerAll {α : Type} (view : Builder → Option α) {f : Registration → Option α}
    (h : ∀ b c, view (b.register c) = (f c).or (view b)) (b : Builder)
    (calls : List Registration) :
    view (b.registerAll calls) = (calls.filterMap f).getLast?.or (view b) := by
  induction calls generalizing b with
  | nil => rfl
  | cons c rest ih =>
    rw [registerAll, List.foldl_cons, ← registerAll, ih, h, getLast?_filterMap_cons,
      Option.or_assoc]

/-! #### Steps -/

theorem find?_registerFamily (b : Builder) (widening : List Tag) (names : List String)
    (n : String) : (b.registerFamily widening names).tables.find? n =
      if n ∈ names then some ((b.tableOrNew n).setWidening widening) else b.tables.find? n := by
  induction names generalizing b with
  | nil => rfl
  | cons name rest ih =>
    rw [registerFamily, List.foldl_cons, ← registerFamily, ih, find?_modifyTable,
      tableOrNew_modifyTable]
    by_cases hname : n = name
    · -- a name that is listed again is set to the same sequence
      subst hname
      simp [Table.Builder.setWidening]
    · simp [hname]

/-- A family changes tables only. -/
theorem registerFamily_eq (b : Builder) (widening : List Tag) (names : List String) :
    b.registerFamily widening names =
      { b with tables := (b.registerFamily widening names).tables } := by
  induction names generalizing b with
  | nil => rfl
  | cons name rest ih => exact ih _

theorem find?_functions_register (b : Builder) (c : Registration) (name : String) :
    (b.register c).functions.find? name = (c.function? name).or (b.functions.find? name) := by
  cases c with
  | family widening names => rw [register, registerFamily_eq]; rfl
  | overload | constant => rfl
  | function n result body =>
    refine (Entries.find?_insert b.functions n _ name).trans ?_
    rw [Registration.function?]
    split <;> rfl

theorem find?_constants_register (b : Builder) (c : Registration) (name : String) :
    (b.register c).constants.find? name = (c.constant? name).or (b.constants.find? name) := by
  cases c with
  | family widening names => rw [register, registerFamily_eq]; rfl
  | overload | function => rfl
  | constant n value =>
    refine (Entries.find?_insert b.constants n _ name).trans ?_
    rw [Registration.constant?]
    split <;> rfl

/-- What a registration does to a table. -/
theorem find?_tables_register (b : Builder) (c : Registration) (name : String) :
    (b.register c).tables.find? name =
      if c.touches name then
        some ((b.tableOrNew name).revise (c.widening? name) (c.overload? name).toList)
      else b.tables.find? name := by
  cases c with
  | family widening names =>
    simp only [register, find?_registerFamily, touches, widening?, overload?]
    by_cases hname : name ∈ names
    · simp [hname, Table.Builder.revise, Table.Builder.setWidening]
    · simp [hname]
  | overload n o =>
    simp only [register, registerOverload, find?_modifyTable, touches, widening?, overload?]
    by_cases hname : name = n
    · subst hname
      simp [Table.Builder.revise, Table.Builder.add]
    · simp [hname]
  | function | constant => rfl

theorem tableOrNew_register (b : Builder) (c : Registration) (name : String) :
    (b.register c).tableOrNew name =
      (b.tableOrNew name).revise (c.widening? name) (c.overload? name).toList := by
  rw [tableOrNew, find?_tables_register]
  split
  · rfl
  · next htouches =>
    rw [touches, Bool.or_eq_true, not_or, Option.not_isSome_iff_eq_none,
      Option.not_isSome_iff_eq_none] at htouches
    rw [htouches.1, htouches.2, Option.toList_none, Table.Builder.revise_none, tableOrNew]

/-! #### Runs -/

theorem isSome_find?_registerAll (b : Builder) (calls : List Registration) (name : String) :
    ((b.registerAll calls).tables.find? name).isSome =
      (calls.any (·.touches name) || (b.tables.find? name).isSome) := by
  induction calls generalizing b with
  | nil => rfl
  | cons c rest ih =>
    rw [registerAll, List.foldl_cons, ← registerAll, ih, find?_tables_register, List.any_cons]
    cases c.touches name
    · rfl
    · simp

/-- The sequence of a table is the one declared last, and its overloads are added in order. -/
theorem tableOrNew_registerAll (b : Builder) (calls : List Registration) (name : String) :
    (b.registerAll calls).tableOrNew name =
      (b.tableOrNew name).revise (calls.filterMap (widening? name)).getLast?
        (calls.filterMap (overload? name)) := by
  induction calls generalizing b with
  | nil =>
    rw [List.filterMap_nil, List.filterMap_nil, List.getLast?_nil, Table.Builder.revise_none]
    rfl
  | cons c rest ih =>
    rw [registerAll, List.foldl_cons, ← registerAll, ih, tableOrNew_register,
      Table.Builder.revise_revise, getLast?_filterMap_cons, List.filterMap_cons]
    cases c.overload? name <;> rfl

end Builder

/-! ### Changing the order -/

open Registration

/-- One sequence is a permutation of another: every registration goes to a place of its own, and
those that conflict keep their order. -/
def Reordered (calls calls' : List Registration) : Prop :=
  ∃ place : Fin calls.length ≃ Fin calls'.length, (∀ i, calls'.get (place i) = calls.get i) ∧
    ∀ i j, i < j → Conflicts (calls.get i) (calls.get j) → place i < place j

namespace Reordered

variable {calls calls' : List Registration}

/-- The positions of the registrations with a property. -/
def positions (P : Registration → Bool) (calls : List Registration) : List (Fin calls.length) :=
  (List.finRange calls.length).filter fun i => P (calls.get i)

theorem map_positions (P : Registration → Bool) (calls : List Registration) :
    (positions P calls).map calls.get = calls.filter P := by
  conv_rhs => rw [← List.map_get_finRange calls, List.filter_map]
  rfl

theorem mem_positions {P : Registration → Bool} {i : Fin calls.length} :
    i ∈ positions P calls ↔ P (calls.get i) = true := by
  rw [positions, List.mem_filter, and_iff_right (List.mem_finRange i)]

theorem pairwise_positions (P : Registration → Bool) (calls : List Registration) :
    (positions P calls).Pairwise (· < ·) :=
  (List.pairwise_lt_finRange calls.length).filter _

theorem perm (h : Reordered calls calls') : calls.Perm calls' := by
  obtain ⟨place, hplace, -⟩ := h
  have hall : ((List.finRange calls.length).map place).Perm (List.finRange calls'.length) := by
    rw [List.perm_ext_iff_of_nodup ((List.nodup_finRange _).map place.injective)
      (List.nodup_finRange _)]
    intro j
    rw [List.mem_map, iff_true_right (List.mem_finRange j)]
    exact ⟨place.symm j, List.mem_finRange _, place.apply_symm_apply j⟩
  have hmap := hall.map calls'.get
  have hvalues : calls'.get ∘ place = calls.get := funext hplace
  rwa [List.map_map, hvalues, List.map_get_finRange, List.map_get_finRange] at hmap

/-- Registrations that all conflict with each other stand in the same order. -/
theorem filter_eq (h : Reordered calls calls') {P : Registration → Bool}
    (hP : ∀ c d, P c = true → P d = true → Conflicts c d) : calls.filter P = calls'.filter P := by
  obtain ⟨place, hplace, horder⟩ := h
  have hsorted : ((positions P calls).map place).Pairwise (· < ·) := by
    refine List.pairwise_map.mpr ((pairwise_positions P calls).imp_of_mem fun hi hj hij => ?_)
    exact horder _ _ hij (hP _ _ (mem_positions.mp hi) (mem_positions.mp hj))
  have hmem : ∀ j, j ∈ (positions P calls).map place ↔ j ∈ positions P calls' := by
    intro j
    rw [List.mem_map, mem_positions]
    constructor
    · rintro ⟨i, hi, rfl⟩
      rw [hplace]
      exact mem_positions.mp hi
    · intro hj
      have hi := hplace (place.symm j)
      rw [Equiv.apply_symm_apply] at hi
      exact ⟨place.symm j, mem_positions.mpr (hi ▸ hj), place.apply_symm_apply j⟩
  -- both lists of positions are in strict order, so they have one arrangement
  have hpositions : (positions P calls).map place = positions P calls' := by
    refine List.Perm.eq_of_pairwise (fun i j _ _ hij hji => absurd hij hji.asymm) hsorted
      (pairwise_positions P calls') ?_
    rw [List.perm_ext_iff_of_nodup (hsorted.imp fun hij => hij.ne)
      ((pairwise_positions P calls').imp fun hij => hij.ne)]
    exact hmem
  rw [← map_positions, ← map_positions, ← hpositions, List.map_map]
  exact List.map_congr_left fun i _ => (hplace i).symm

theorem filterMap_filter_isSome {α : Type} (f : Registration → Option α)
    (calls : List Registration) :
    (calls.filter fun c => (f c).isSome).filterMap f = calls.filterMap f := by
  rw [List.filterMap_filter]
  congr 1
  funext c
  cases f c <;> rfl

/-- What is written through a view is the same list, where all that write there conflict. -/
theorem filterMap_eq {α : Type} (h : Reordered calls calls') {f : Registration → Option α}
    (hf : ∀ c d x y, f c = some x → f d = some y → Conflicts c d) :
    calls.filterMap f = calls'.filterMap f := by
  have hwriters : calls.filter (fun c => (f c).isSome) = calls'.filter fun c => (f c).isSome := by
    refine h.filter_eq fun c d hc hd => ?_
    obtain ⟨x, hx⟩ := Option.isSome_iff_exists.mp hc
    obtain ⟨y, hy⟩ := Option.isSome_iff_exists.mp hd
    exact hf c d x y hx hy
  rw [← filterMap_filter_isSome f calls, hwriters, filterMap_filter_isSome]

/-! #### Views -/

theorem touches_eq (h : Reordered calls calls') (name : String) :
    calls.any (·.touches name) = calls'.any (·.touches name) := by
  rw [Bool.eq_iff_iff, List.any_eq_true, List.any_eq_true]
  exact exists_congr fun _ => and_congr_left fun _ => h.perm.mem_iff

theorem widenings_eq (h : Reordered calls calls') (name : String) :
    calls.filterMap (widening? name) = calls'.filterMap (widening? name) := by
  refine h.filterMap_eq fun c d w w' hc hd => ?_
  obtain ⟨names, rfl, hname⟩ := widening?_eq_some_iff.mp hc
  obtain ⟨names', rfl, hname'⟩ := widening?_eq_some_iff.mp hd
  exact ⟨.family name, List.mem_map_of_mem hname, List.mem_map_of_mem hname'⟩

theorem overloads_eq (h : Reordered calls calls') (name : String) (params : List Tag) :
    (calls.filterMap (overload? name)).filter (·.params == params) =
      (calls'.filterMap (overload? name)).filter (·.params == params) := by
  rw [List.filter_filterMap, List.filter_filterMap]
  refine h.filterMap_eq fun c d o o' hc hd => ?_
  rw [Option.filter_eq_some_iff, overload?_eq_some_iff, beq_iff_eq] at hc hd
  rw [hc.1, hd.1]
  exact ⟨.overload name params, List.mem_singleton.mpr (by rw [hc.2]),
    List.mem_singleton.mpr (by rw [hd.2])⟩

theorem functions_eq (h : Reordered calls calls') (name : String) :
    calls.filterMap (Registration.function? name) =
      calls'.filterMap (Registration.function? name) := by
  refine h.filterMap_eq fun c d f f' hc hd => ?_
  rw [(function?_eq_some_iff.mp hc).1, (function?_eq_some_iff.mp hd).1]
  exact ⟨.function name, List.mem_cons_self .., List.mem_cons_self ..⟩

theorem constants_eq (h : Reordered calls calls') (name : String) :
    calls.filterMap (Registration.constant? name) =
      calls'.filterMap (Registration.constant? name) := by
  refine h.filterMap_eq fun c d v v' hc hd => ?_
  rw [constant?_eq_some_iff.mp hc, constant?_eq_some_iff.mp hd]
  exact ⟨.constant name, List.mem_cons_self .., List.mem_cons_self ..⟩

end Reordered

/-! ### The registry -/

namespace Builder

variable {calls calls' : List Registration}

theorem table?_build_registerAll (b : Builder) (calls : List Registration) (name : String) :
    (b.registerAll calls).build.table? name =
      if calls.any (·.touches name) || (b.tables.find? name).isSome then
        some ((b.tableOrNew name).revise (calls.filterMap (widening? name)).getLast?
          (calls.filterMap (overload? name))).build
      else none := by
  rw [table?_build, ← isSome_find?_registerAll, ← tableOrNew_registerAll, tableOrNew]
  cases (b.registerAll calls).tables.find? name <;> rfl

theorem function?_build_registerAll (b : Builder) (calls : List Registration) (name : String) :
    (b.registerAll calls).build.function? name =
      (calls.filterMap (Registration.function? name)).getLast?.or (b.functions.find? name) :=
  view_registerAll (fun b => b.functions.find? name)
    (fun b c => find?_functions_register b c name) b calls

theorem constant?_build_registerAll (b : Builder) (calls : List Registration) (name : String) :
    (b.registerAll calls).build.constant? name =
      (calls.filterMap (Registration.constant? name)).getLast?.or (b.constants.find? name) :=
  view_registerAll (fun b => b.constants.find? name)
    (fun b c => find?_constants_register b c name) b calls

theorem build_revise_eq (t : Table.Builder) (widening : Option (List Tag))
    {overloads overloads' : List Overload}
    (h : ∀ params, overloads.filter (·.params == params) = overloads'.filter (·.params == params)) :
    (t.revise widening overloads).build = (t.revise widening overloads').build := by
  refine Table.Builder.build_eq rfl rfl rfl fun params => ?_
  rw [Table.Builder.revise, Table.Builder.revise, List.filter_append, List.filter_append, h]

/-- **Registries do not depend on the order of registrations** that do not conflict: after two
sequences of which one only moves registrations past such as they do not conflict with, each table,
function and constant is the same, if there is one at all. -/
theorem build_registerAll_of_reordered (b : Builder) (h : Reordered calls calls') (name : String) :
    (b.registerAll calls).build.table? name = (b.registerAll calls').build.table? name ∧
      (b.registerAll calls).build.function? name = (b.registerAll calls').build.function? name ∧
      (b.registerAll calls).build.constant? name =
        (b.registerAll calls').build.constant? name := by
  refine ⟨?_, ?_, ?_⟩
  · rw [table?_build_registerAll, table?_build_registerAll, h.touches_eq, h.widenings_eq]
    rw [build_revise_eq (b.tableOrNew name) _ (h.overloads_eq name)]
  · rw [function?_build_registerAll, function?_build_registerAll, h.functions_eq]
  · rw [constant?_build_registerAll, constant?_build_registerAll, h.constants_eq]

/-- The overloads of a table come before its family. -/
def declaredLast : List Registration :=
  [.overload "scale" (.unary .integer .integer id), .overload "scale" (.unary .long .long id),
    .overload "scale" (.unary .integer .integer (- ·)), .constant "scale" (.long 10),
    .family [.double, .long, .integer] ["scale", "shift"]]

/-- The family comes first, and of the overloads one has been moved. -/
def declaredFirst : List Registration :=
  [.family [.double, .long, .integer] ["scale", "shift"], .overload "scale" (.unary .long .long id),
    .constant "scale" (.long 10), .overload "scale" (.unary .integer .integer id),
    .overload "scale" (.unary .integer .integer (- ·))]

/-- Where the registrations go. -/
def toFront : Fin 5 ≃ Fin 5 :=
  ⟨[3, 1, 4, 2, 0].get, [4, 1, 3, 0, 2].get, by unfold Function.LeftInverse; decide,
    by unfold Function.RightInverse Function.LeftInverse; decide⟩

/-- A family is declared before its overloads or after them. -/
theorem build_declaredFirst : Reordered declaredLast declaredFirst ∧
    (empty.registerAll declaredLast).build.table? "scale" =
      (empty.registerAll declaredFirst).build.table? "scale" ∧
    (empty.registerAll declaredLast).build.function? "scale" =
      (empty.registerAll declaredFirst).build.function? "scale" ∧
    (empty.registerAll declaredLast).build.constant? "scale" =
      (empty.registerAll declaredFirst).build.constant? "scale" := by
  have h : Reordered declaredLast declaredFirst := by
    refine ⟨toFront, ?_, by decide⟩
    rintro ⟨_ | _ | _ | _ | _ | i, hi⟩
    iterate 5 rfl
    exact absurd hi (by rw [declaredLast]; simp)
  exact ⟨h, build_registerAll_of_reordered empty h "scale"⟩

end Builder

end Registry

end Formulary
