import Formulary.Library.Builtins
import Formulary.Proofs.Plan.Refinement

/-!
# The built-in library

What the built-in registry has to offer for overloads to be chosen early. Its tables are strict and
honest but for the table of `string`, which is honest and prints values of all tags; it has no
functions; and its look-ups do not depend on the present moment, except the look-up of `time`
without arguments.

Each of these is an invariant of registrations, so it is shown once for a family and once for
overloads, and then holds of all tables there are.

## Main definitions

* `Registry.Builder.Regular` — the invariant of the registrations

## Main results

* `Library.regular_builtins` — the built-in registrations are regular
* `Library.matched_standard` — early choices in the built-in registry
* `Expr.compile_agrees` — binding does not change what an expression comes out as
* `Expr.tags_compile` — the tag of every node of a plan is right
-/

namespace Formulary

open Calendar Library Overload Carrier

/-! ### Registrations -/

namespace Registry.Builder

variable {b : Builder} {printed : List Overload} {constants : Entries Value}

/-- A registry of honest overloads and functions is honest. -/
theorem honest_build (htables : ∀ name, ∀ o ∈ (b.tableOrNew name).overloads, o.Honest)
    (hfunctions : ∀ name f, b.functions.find? name = some f → f.Honest) : b.build.Honest where
  tables name table h := by
    rw [table?_build] at h
    obtain ⟨t, ht, rfl⟩ := Option.map_eq_some_iff.mp h
    exact Table.Builder.honest_build (tableOrNew_of_find? ht ▸ htables name)
  functions := hfunctions

/-- Tables are strict but for that of `string`, and honest. The table of `string` widens nothing
and has the overloads `printed`. There are no functions, and the constants are `constants`. -/
structure Regular (printed : List Overload) (constants : Entries Value) (b : Builder) : Prop where
  strict : ∀ name, name ≠ "string" → (b.tableOrNew name).Strict
  honest : ∀ name, ∀ o ∈ (b.tableOrNew name).overloads, o.Honest
  widening : (b.tableOrNew "string").widening = []
  overloads : (b.tableOrNew "string").overloads = printed
  functions : b.functions = []
  constants : b.constants = constants

namespace Regular

theorem empty : Regular [] [] .empty where
  strict _ _ := ⟨nofun, nofun⟩
  honest _ := nofun
  widening := rfl
  overloads := rfl
  functions := rfl
  constants := rfl

/-- A change of a table other than that of `string`. -/
theorem modifyTable (h : b.Regular printed constants) {name : String}
    {f : Table.Builder → Table.Builder} (hname : name ≠ "string")
    (hstrict : (f (b.tableOrNew name)).Strict)
    (hhonest : ∀ o ∈ (f (b.tableOrNew name)).overloads, o.Honest) :
    (b.modifyTable name f).Regular printed constants where
  strict := forall_modifyTable (P := fun n t => n ≠ "string" → t.Strict) h.strict fun _ => hstrict
  honest := forall_modifyTable (P := fun _ t => ∀ o ∈ t.overloads, o.Honest) h.honest hhonest
  widening := by
    rw [tableOrNew_modifyTable, if_neg hname.symm]
    exact h.widening
  overloads := by
    rw [tableOrNew_modifyTable, if_neg hname.symm]
    exact h.overloads
  functions := h.functions
  constants := h.constants

theorem registerFamily (h : b.Regular printed constants) {widening : List Tag}
    {names : List String} (hwidening : ∀ t ∈ widening, t.Definite)
    (hnames : "string" ∉ names) :
    (b.registerFamily widening names).Regular printed constants := by
  induction names generalizing b with
  | nil => exact h
  | cons name rest ih =>
    rw [List.mem_cons, not_or] at hnames
    refine ih ?_ hnames.2
    exact h.modifyTable (Ne.symm hnames.1) ⟨hwidening, (h.strict name (Ne.symm hnames.1)).overloads⟩
      (h.honest name)

theorem registerOverload (h : b.Regular printed constants) {name : String} {o : Overload}
    (hname : name ≠ "string") (hstrict : o.Strict) (hhonest : o.Honest) :
    (b.registerOverload name o).Regular printed constants := by
  refine h.modifyTable hname ⟨(h.strict name hname).widening, fun p hp => ?_⟩ fun p hp => ?_
  · rcases List.mem_append.mp hp with hp | hp
    · exact (h.strict name hname).overloads p hp
    · exact List.mem_singleton.mp hp ▸ hstrict
  · rcases List.mem_append.mp hp with hp | hp
    · exact h.honest name p hp
    · exact List.mem_singleton.mp hp ▸ hhonest

theorem registerOverloads (h : b.Regular printed constants) {name : String} {os : List Overload}
    (hname : name ≠ "string") (hstrict : ∀ o ∈ os, o.Strict) (hhonest : ∀ o ∈ os, o.Honest) :
    (b.registerOverloads name os).Regular printed constants := by
  induction os generalizing b with
  | nil => exact h
  | cons o rest ih =>
    rw [List.forall_mem_cons] at hstrict hhonest
    exact ih (h.registerOverload hname hstrict.1 hhonest.1) hstrict.2 hhonest.2

/-- A change of the table of `string`. -/
theorem modifyString (h : b.Regular printed constants) (f : Table.Builder → Table.Builder)
    (hwidening : (f (b.tableOrNew "string")).widening = [])
    (hhonest : ∀ o ∈ (f (b.tableOrNew "string")).overloads, o.Honest) :
    (b.modifyTable "string" f).Regular (f (b.tableOrNew "string")).overloads constants where
  strict :=
    forall_modifyTable (P := fun n t => n ≠ "string" → t.Strict) h.strict fun hn => absurd rfl hn
  honest := forall_modifyTable (P := fun _ t => ∀ o ∈ t.overloads, o.Honest) h.honest hhonest
  widening := by
    rw [tableOrNew_modifyTable, if_pos rfl]
    exact hwidening
  overloads := by rw [tableOrNew_modifyTable, if_pos rfl]
  functions := h.functions
  constants := h.constants

theorem registerStrings (h : b.Regular printed constants) {os : List Overload}
    (hhonest : ∀ o ∈ os, o.Honest) :
    (b.registerOverloads "string" os).Regular (printed ++ os) constants := by
  induction os generalizing b printed with
  | nil => rwa [List.append_nil]
  | cons o rest ih =>
    rw [List.forall_mem_cons] at hhonest
    have hone : (b.registerOverload "string" o).Regular (printed ++ [o]) constants := by
      rw [← h.overloads]
      refine h.modifyString (fun t => t.add o) h.widening fun p hp => ?_
      rcases List.mem_append.mp hp with hp | hp
      · exact h.honest "string" p hp
      · exact List.mem_singleton.mp hp ▸ hhonest.1
    rw [show printed ++ o :: rest = printed ++ [o] ++ rest by simp]
    exact ih hone hhonest.2

theorem registerConstant (h : b.Regular printed constants) (name : String) (value : Value) :
    (b.registerConstant name value).Regular printed (constants.insert name value) :=
  ⟨h.strict, h.honest, h.widening, h.overloads, h.functions,
    congrArg (Entries.insert name value) h.constants⟩

end Regular

end Registry.Builder

namespace Library

open Registry.Builder (Regular)

variable {r : Registry.Builder} {printed : List Overload} {constants : Entries Value}

theorem regular_arithmetic (h : r.Regular printed constants) :
    (arithmetic r).Regular printed constants := by
  rw [arithmetic]
  iterate 7 refine Regular.registerOverloads ?_ (by simp) (by simp) (by simp)
  exact h.registerFamily (by decide) (by simp)

theorem regular_relations (h : r.Regular printed constants) :
    (relations r).Regular printed constants := by
  rw [relations]
  iterate 6
    refine Regular.registerOverloads ?_ (by simp)
      (by simp [Comparison.overloads]) (by simp [Comparison.overloads])
  exact h.registerFamily (by decide) (by simp)

theorem regular_negation (h : r.Regular printed constants) :
    (negation r).Regular printed constants := by
  rw [negation]
  refine Regular.registerOverload ?_ (by simp) (by simp) (by simp)
  exact h.registerFamily (by simp) (by simp)

theorem regular_transcendentals (h : r.Regular printed constants) :
    (transcendentals r).Regular printed
      (((constants.insert "E" (.double e)).insert "PI" (.double pi)).insert "TAU"
        (.double tau)) := by
  have hnames : "string" ∉ doubleFunctions.map (·.1) := by simp [doubleFunctions]
  rw [transcendentals]
  refine .registerConstant (.registerConstant (.registerConstant ?_ _ _) _ _) _ _
  refine List.foldlRecOn doubleFunctions _ (h.registerFamily (by decide) hnames) fun r hr f hf => ?_
  refine hr.registerOverload ?_ (strict_unary _) (honest_unary _)
  rintro hname
  exact hnames (hname ▸ List.mem_map_of_mem hf)

theorem regular_strings (h : r.Regular printed constants) :
    (strings r).Regular printed constants := by
  rw [strings]
  iterate 8 refine Regular.registerOverload ?_ (by simp) (by simp) (by simp)
  refine Regular.registerOverloads ?_ (by simp) (by simp) (by simp)
  exact h.registerFamily (by decide) (by simp [stringNames])

theorem regular_indexing (h : r.Regular printed constants) :
    (indexing r).Regular printed constants := by
  rw [indexing]
  refine Regular.registerOverloads ?_ (by simp) (by simp) (by simp)
  exact h.registerFamily (by decide) (by simp)

theorem honest_printing (t : Tag) : (printing t).Honest := by
  intro args v hv
  obtain rfl := Except.ok.inj hv
  exact Or.inl rfl

theorem regular_conversions (h : r.Regular [] constants) :
    (conversions r).Regular (printableTags.map printing) constants := by
  have hprinting : ∀ o ∈ printableTags.map printing, o.Honest := by
    intro o ho
    obtain ⟨t, -, rfl⟩ := List.mem_map.mp ho
    exact honest_printing t
  have hnumbers :
      (r.registerFamily [] ["int", "long", "double", "decimal"]).Regular [] constants :=
    h.registerFamily nofun (by simp)
  have hfamily :
      (r.registerFamily [] ["int", "long", "double", "decimal", "string"]).Regular [] constants :=
    hnumbers.overloads ▸
      hnumbers.modifyString (fun t => t.setWidening []) rfl (hnumbers.honest "string")
  rw [conversions]
  show Regular ([] ++ printableTags.map printing) constants _
  refine Regular.registerStrings ?_ hprinting
  iterate 4 refine Regular.registerOverloads ?_ (by simp) (by simp) (by simp)
  exact hfamily

theorem regular_times (h : r.Regular printed constants) (now : DateTime) :
    (times now r).Regular printed constants := by
  rw [times]
  refine Regular.registerOverloads ?_ (by simp) (by simp) (by simp)
  exact h.registerFamily (by decide) (by simp)

/-- The registrations of the built-in library but for those of `time`. -/
def timeless : Registry.Builder :=
  arithmetic .empty |> relations |> negation |> transcendentals |> strings |> indexing
    |> conversions

theorem builtins_eq (now : DateTime) : builtins now = times now timeless := rfl

/-- The constants `E`, `PI` and `TAU`. -/
def builtinConstants : Entries Value :=
  ((Entries.insert "E" (.double e) []).insert "PI" (.double pi)).insert "TAU" (.double tau)

/-- **The built-in registrations are regular.** -/
theorem regular_builtins (now : DateTime) :
    (builtins now).Regular (printableTags.map printing) builtinConstants := by
  rw [builtins_eq, timeless]
  refine regular_times (regular_conversions ?_) now
  refine regular_indexing (regular_strings (regular_transcendentals ?_))
  exact regular_negation (regular_relations (regular_arithmetic Regular.empty))

/-! ### Look-ups -/

theorem find?_times_of_ne (now : DateTime) (r : Registry.Builder) {name : String}
    (h : name ≠ "time") : (times now r).tables.find? name = r.tables.find? name := by
  simp [times, Registry.Builder.registerFamily, Registry.Builder.registerOverloads,
    Registry.Builder.registerOverload, Registry.Builder.find?_modifyTable, h]

/-- The overloads of `time` with parameters. -/
def timeOverloads : List Overload :=
  [tryUnary long time timeOfMillis,
    tryUnary string time fun text => readTime text DateTime.defaultFormat,
    tryBinary string string time fun text format => readTime text (Letters.toFormat format)]

theorem find?_times (now : DateTime) (r : Registry.Builder) :
    ∃ t, (times now r).tables.find? "time" = some t ∧ t.name = (r.tableOrNew "time").name ∧
      t.defers = (r.tableOrNew "time").defers ∧ t.widening = timeWidening ∧
      t.overloads = (r.tableOrNew "time").overloads ++ nullary time now :: timeOverloads := by
  simp [times, Registry.Builder.registerFamily, Registry.Builder.registerOverloads,
    Registry.Builder.registerOverload, Registry.Builder.find?_modifyTable,
    Registry.Builder.tableOrNew_modifyTable, Table.Builder.add, Table.Builder.setWidening,
    timeOverloads]

/-- Look-ups do not depend on the present moment, except the one of `time` without arguments. -/
theorem lookup_builtins (now now' : DateTime) {name : String} {t : Table.Builder}
    (h : (builtins now).tables.find? name = some t) :
    ∃ t', (builtins now').tables.find? name = some t' ∧ t'.name = t.name ∧
      t'.defers = t.defers ∧
      ∀ key, (name = "time" → key ≠ []) → t'.build.lookup key = t.build.lookup key := by
  rw [builtins_eq] at h ⊢
  by_cases hname : name = "time"
  · subst hname
    obtain ⟨t₁, ht₁, hname₁, hdefers₁, hwidening₁, hoverloads₁⟩ := find?_times now timeless
    obtain ⟨t₂, ht₂, hname₂, hdefers₂, hwidening₂, hoverloads₂⟩ := find?_times now' timeless
    obtain rfl : t₁ = t := Option.some.inj (ht₁.symm.trans h)
    refine ⟨t₂, ht₂, hname₂.trans hname₁.symm, hdefers₂.trans hdefers₁.symm, fun key hkey => ?_⟩
    refine Table.Builder.lookup_eq_of_filter (fun params => !params.isEmpty)
      (hwidening₂.trans hwidening₁.symm) ?_ fun params haccepts => ?_
    · rw [hoverloads₁, hoverloads₂, List.filter_append, List.filter_append]
      rfl
    · cases params with
      | nil => exact absurd (List.forall₂_nil_left_iff.mp haccepts) (hkey rfl)
      | cons t params => rfl
  · rw [find?_times_of_ne now timeless hname] at h
    refine ⟨t, ?_, rfl, rfl, fun _ _ => rfl⟩
    rw [find?_times_of_ne now' timeless hname, h]

/-! ### The registry -/

theorem find?_of_table?_standard {now : DateTime} {name : String} {table : Table}
    (h : (Registry.standard now).table? name = some table) :
    ∃ t, (builtins now).tables.find? name = some t ∧ t.build = table := by
  rw [Registry.standard, Registry.Builder.table?_build] at h
  exact Option.map_eq_some_iff.mp h

theorem constant?_standard (now : DateTime) (name : String) :
    (Registry.standard now).constant? name =
      if name = "TAU" then some (.double tau) else if name = "PI" then some (.double pi)
      else if name = "E" then some (.double e) else none := by
  rw [Registry.constant?, Registry.standard, Registry.Builder.build,
    (regular_builtins now).constants, builtinConstants, Entries.find?_insert,
    Entries.find?_insert, Entries.find?_insert, Entries.find?_nil]

/-- The library has tables only, and no function of a single body. -/
theorem function?_standard (now : DateTime) (name : String) :
    (Registry.standard now).function? name = none := by
  rw [Registry.function?, Registry.standard, Registry.Builder.build,
    (regular_builtins now).functions, Entries.find?_nil]

theorem honest_standard (now : DateTime) : (Registry.standard now).Honest := by
  refine Registry.Builder.honest_build (regular_builtins now).honest fun name f h => ?_
  rw [(regular_builtins now).functions] at h
  simp at h

/-- An early choice in a table of the library comes to the same as a look-up in that table. -/
theorem agrees_dispatch_builtins {now : DateTime} {name : String} {t : Table.Builder}
    (ht : (builtins now).tables.find? name = some t) {key : Signature} {resolution : Resolution}
    {args : List Value} (h : t.build.resolve key = .ok resolution)
    (hargs : List.Forall₂ Tag.Admits key args) (hnull : name = "string" → .null ∉ args) :
    Agrees (resolution.apply t.build args) (t.build.dispatch args) := by
  have hnew := Registry.Builder.tableOrNew_of_find? ht
  have hregular := regular_builtins now
  by_cases hname : name = "string"
  · subst hname
    rw [← hnew] at h ⊢
    exact Table.Builder.agrees_printing hregular.widening hregular.overloads h hargs (hnull rfl)
  · exact (hnew ▸ hregular.strict name hname).agrees h hargs

/-- **Early choices in the built-in registry.** What is chosen early in one moment is found late in
another. -/
theorem matched_standard (now now' : DateTime) :
    (Registry.standard now).Matched (Registry.standard now') := by
  have hdispatch : ∀ {name t args}, (builtins now).tables.find? name = some t →
      (name = "time" → args ≠ []) →
      Agrees (t.build.dispatch args) ((Registry.standard now').dispatch name args) := by
    intro name t args ht htime
    obtain ⟨t', ht', -, -, hlookup⟩ := lookup_builtins now now' ht
    rw [Registry.dispatch, Registry.standard, Registry.Builder.table?_build, ht', Option.map_some]
    refine Table.agrees_dispatch (hlookup (signatureOf args) fun hname hnil => ?_)
    exact htime hname (List.map_eq_nil_iff.mp hnil)
  refine ⟨fun name => ?_, fun name => ?_, ?_, ?_⟩
  · rw [constant?_standard, constant?_standard]
  · rw [function?_standard, function?_standard]
  · intro name table resolution args htable hresolution htime
    obtain ⟨t, ht, rfl⟩ := find?_of_table?_standard htable
    rw [Table.apply_of_resolve_signatureOf hresolution]
    exact hdispatch ht htime
  · intro name table key resolution args htable hresolution hargs htime hnull
    obtain ⟨t, ht, rfl⟩ := find?_of_table?_standard htable
    exact (agrees_dispatch_builtins ht hresolution hargs hnull).trans (hdispatch ht htime)

end Library

/-! ### Binding -/

/-- **Binding does not change what an expression comes out as.** An expression that is bound
against the built-in registry and the layout of a schema, and does not ask for the present moment,
gives on every record that is read with the schema the value that evaluation by the tags of values
gives, or a fault of the same stage and code, unless that evaluation prints what has no value. -/
theorem Expr.compile_agrees (now now' : DateTime) (schema : Schema) (d : Document) (e : Expr)
    (p : Plan)
    (hcompile : e.compile ⟨some (Layout.ofSchema schema), Registry.standard now⟩ = .ok p)
    (hclock : e.readsClock = false)
    (hprints : (Reference.evaluate ⟨some (Layout.ofSchema schema), Registry.standard now'⟩
      (some (schema.read d)) e).PrintsNoNull) :
    Agrees (p.eval (some (schema.read d)))
      (Reference.evaluate ⟨some (Layout.ofSchema schema), Registry.standard now'⟩
        (some (schema.read d)) e).result :=
  Reference.yields_compile
    ⟨matched_standard now now', honest_standard now, schema.conforms_read d⟩ hclock hcompile hprints

/-- Two switches. -/
def switches : Schema := .record [("armed", .boolean), ("fired", .boolean)] (some false)

/-- A document that sets the first switch only. -/
def armedOnly : Document := .object [("armed", .boolean true)]

/-- Whether both switches are on. -/
def bothOn : Expr := .binary .and (.var "armed" ⟨0, 5⟩) (.var "fired" ⟨9, 14⟩) ⟨0, 14⟩

/-- The first switch as a text. -/
def armedText : Expr := .call "string" [.var "armed" ⟨7, 12⟩] ⟨0, 13⟩

/-- The table of `string` has an overload for truth values. -/
theorem Library.exists_live_printing (now : DateTime) :
    ∃ t, (builtins now).tables.find? "string" = some t ∧ t.Live (printing .boolean) := by
  have hfind : ((builtins ⟨0, 0, 0⟩).tables.find? "string").isSome = true := by decide +kernel
  obtain ⟨first, hfirst⟩ := Option.isSome_iff_exists.mp hfind
  obtain ⟨t, ht, -⟩ := lookup_builtins ⟨0, 0, 0⟩ now hfirst
  refine ⟨t, ht, [], (printableTags.drop 1).map printing, ?_, fun p hp h => ?_⟩
  · rw [← Registry.Builder.tableOrNew_of_find? ht, (regular_builtins now).overloads]
    rfl
  · obtain ⟨tag, htag, rfl⟩ := List.mem_map.mp hp
    rw [List.head_eq_of_cons_eq h] at htag
    exact absurd htag (by decide)

/-- A call of `string` on the first switch, with a registry whose names are those of its tables. -/
theorem Expr.compile_armedText {r : Registry} {table : Table} {target : Resolution}
    (harmed : r.constant? "armed" = none) (hstring : r.function? "string" = none)
    (htable : r.table? "string" = some table) (htarget : table.resolve [.boolean] = .ok target) :
    armedText.compile ⟨some (Layout.ofSchema switches), r⟩ =
      .ok (.apply table target [.var 0 .boolean]) := by
  have hvar : Scope.bindName ⟨some (Layout.ofSchema switches), r⟩ "armed" =
      .ok (.plan (.var 0 .boolean)) := by
    rw [Scope.bindName, harmed]
    rfl
  have hresolve : table.resolve (Plan.signature [.var 0 .boolean]) = .ok target := htarget
  simp only [armedText, Expr.compile, Scope.bind, Scope.bindAll, hvar, Bound.toPlan,
    Scope.applyNamed, hstring, Scope.applyTable, htable, hresolve, ok_bind, pure_bind]
  rfl

/-- The value of the first switch is all that is printed. -/
theorem Reference.calls_armedText {r : Registry} (harmed : r.constant? "armed" = none)
    (hstring : r.function? "string" = none) :
    (Reference.evaluate ⟨some (Layout.ofSchema switches), r⟩ (some (switches.read armedOnly))
      armedText).calls = [⟨"string", [.boolean true]⟩] := by
  have hvar : Reference.named ⟨some (Layout.ofSchema switches), r⟩
      (some (switches.read armedOnly)) "armed" = .ok (.value (.boolean true)) := by
    rw [Reference.named, harmed]
    rfl
  have hargs : Reference.interpretAll ⟨some (Layout.ofSchema switches), r⟩
      (some (switches.read armedOnly)) [.var "armed" ⟨7, 12⟩] = pure [.boolean true] := by
    simp only [Reference.interpretAll, Reference.interpret, hvar]
    rfl
  rw [armedText, Reference.evaluate, Reference.interpret_call, hargs, pure_bind, Reference.called,
    hstring]
  simp only [Reference.dispatched]
  cases r.dispatch "string" [.boolean true] <;> rfl

/-- In the first run the slot of the second switch is of a known tag and holds no value. In the
second one an overload is chosen early, and what it prints has a value. -/
theorem Expr.compile_agrees_switches :
    (bothOn.compile ⟨some (Layout.ofSchema switches), Registry.standard ⟨0, 0, 0⟩⟩ =
        .ok (.and (.var 0 .boolean) (.var 1 .boolean)) ∧
      Agrees ((Plan.and (.var 0 .boolean) (.var 1 .boolean)).eval (some (switches.read armedOnly)))
        (Reference.evaluate ⟨some (Layout.ofSchema switches), Registry.standard ⟨1, 0, 0⟩⟩
          (some (switches.read armedOnly)) bothOn).result) ∧
    ∃ p table, p = .apply table (.direct (.exact (printing .boolean))) [.var 0 .boolean] ∧
      armedText.compile ⟨some (Layout.ofSchema switches), Registry.standard ⟨0, 0, 0⟩⟩ = .ok p ∧
      p.eval (some (switches.read armedOnly)) = .ok (.string "true") ∧
      Agrees (p.eval (some (switches.read armedOnly)))
        (Reference.evaluate ⟨some (Layout.ofSchema switches), Registry.standard ⟨1, 0, 0⟩⟩
          (some (switches.read armedOnly)) armedText).result := by
  have harmed : ∀ now, (Registry.standard now).constant? "armed" = none := fun now => by
    simp [constant?_standard]
  have hfired : ∀ now, (Registry.standard now).constant? "fired" = none := fun now => by
    simp [constant?_standard]
  refine ⟨?_, ?_⟩
  · have hcompile : bothOn.compile ⟨some (Layout.ofSchema switches), Registry.standard ⟨0, 0, 0⟩⟩ =
        .ok (.and (.var 0 .boolean) (.var 1 .boolean)) := by
      simp only [bothOn, Expr.compile, Scope.bind, Scope.bindName, harmed, hfired]
      rfl
    refine ⟨hcompile, Expr.compile_agrees _ _ switches armedOnly bothOn _ hcompile rfl ?_⟩
    simp only [bothOn, Reference.evaluate, Reference.interpret, Reference.named, harmed, hfired]
    -- A conjunction asks no table, so this run has no calls.
    intro call hcall
    cases hcall
  · obtain ⟨t, ht, hlive⟩ := Library.exists_live_printing ⟨0, 0, 0⟩
    have htable : (Registry.standard ⟨0, 0, 0⟩).table? "string" = some t.build := by
      rw [Registry.standard, Registry.Builder.table?_build, ht, Option.map_some]
    have hresolve : t.build.resolve [.boolean] = .ok (.direct (.exact (printing .boolean))) :=
      hlive.resolve
    generalize t.build = table at htable hresolve
    -- The plan gets a name of its own, so that no step below computes with the whole registry.
    obtain ⟨p, hp, hcompile⟩ : ∃ p,
        p = .apply table (.direct (.exact (printing .boolean))) [.var 0 .boolean] ∧
        armedText.compile ⟨some (Layout.ofSchema switches), Registry.standard ⟨0, 0, 0⟩⟩ =
          .ok p := by
      exact ⟨_, rfl, Expr.compile_armedText (harmed _) (function?_standard _ _) htable hresolve⟩
    have heval : p.eval (some (switches.read armedOnly)) = .ok (.string "true") := by
      rw [hp]
      rfl
    refine ⟨p, table, hp, hcompile, heval, ?_⟩
    refine Expr.compile_agrees _ _ switches armedOnly armedText p hcompile rfl
      fun call hcall _ => ?_
    rw [Reference.calls_armedText (harmed _) (function?_standard _ _), List.mem_singleton] at hcall
    simp [hcall]

/-! ### Tags -/

/-- **Tags are right at every node.** The built-in registry is honest. In a plan that is bound
against any honest registry and the layout of a schema, on a record that is read with the schema,
every node that has a value is of tag `object`, or has a value that carries its tag, or is a
variable whose slot holds no value. -/
theorem Expr.tags_compile :
    (∀ now, (Registry.standard now).Honest) ∧
    ∀ registry : Registry, registry.Honest →
      ∀ (schema : Schema) (d : Document) (e : Expr) (p : Plan),
      e.compile ⟨some (Layout.ofSchema schema), registry⟩ = .ok p →
      p ∈ p.nodes ∧ ∀ q ∈ p.nodes, ∀ v, q.eval (some (schema.read d)) = .ok v →
        q.tag = .object ∨ v.tag = q.tag ∨
          ∃ slot t, q = .var slot t ∧ (schema.read d).get? slot = some .null := by
  refine ⟨honest_standard, fun registry hregistry schema d e p h => ⟨p.mem_nodes_self, ?_⟩⟩
  intro q hq v hv
  exact Scope.tag_of_makes hregistry (schema.conforms_read d)
    (Scope.makes_bind (Scope.compile_eq_ok h) q hq) hv

/-- A function that prints a truth value. -/
def lampText : Function where
  name := "lamp"
  result := .string
  body
    | [.boolean b] => .ok (.string (if b then "on" else "off"))
    | _ => .ok (.string "unknown")

/-- The registry of that function. -/
def lampRegistry : Registry := ⟨[], [("lamp", lampText)], []⟩

/-- The lamp of the second switch. -/
def firedLamp : Expr := .call "lamp" [.var "fired" ⟨5, 10⟩] ⟨0, 11⟩

/-- The switch is not set, so its variable has no value, and still its lamp has a text. -/
theorem Expr.tags_compile_unset_slot :
    lampRegistry.Honest ∧
      firedLamp.compile ⟨some (Layout.ofSchema switches), lampRegistry⟩ =
        .ok (.call lampText [.var 1 .boolean]) ∧
      (Plan.call lampText [.var 1 .boolean]).eval (some (switches.read armedOnly)) =
        .ok (.string "unknown") ∧
      (Plan.var 1 .boolean).eval (some (switches.read armedOnly)) = .ok .null ∧
      ∀ q ∈ (Plan.call lampText [.var 1 .boolean]).nodes, ∀ v,
        q.eval (some (switches.read armedOnly)) = .ok v →
          q.tag = .object ∨ v.tag = q.tag ∨
            ∃ slot t, q = .var slot t ∧ (switches.read armedOnly).get? slot = some .null := by
  have hhonest : lampRegistry.Honest := by
    refine ⟨fun _ _ h => (nomatch h), fun name f h => ?_⟩
    rw [Registry.function?, lampRegistry, Entries.find?_cons] at h
    split at h
    · obtain rfl := Option.some.inj h
      intro args v hv
      simp only [lampText] at hv
      split at hv <;> exact Or.inl (Except.ok.inj hv ▸ rfl)
    · exact nomatch h
  have hcompile : firedLamp.compile ⟨some (Layout.ofSchema switches), lampRegistry⟩ =
      .ok (.call lampText [.var 1 .boolean]) := rfl
  exact ⟨hhonest, hcompile, rfl, rfl,
    (Expr.tags_compile.2 lampRegistry hhonest switches armedOnly firedLamp _ hcompile).2⟩

end Formulary
