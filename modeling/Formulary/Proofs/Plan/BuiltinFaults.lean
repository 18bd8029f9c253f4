import Formulary.Proofs.Plan.Builtins
import Formulary.Proofs.Plan.Discipline
import Formulary.Proofs.Record.Paths

/-!
# Faults of the built-in library

The built-in overloads have the faults of evaluation only, every operator has a table, and every
table leaves open what it does not list. With the slots of a schema this gives all faults that there
are from the text of an expression to its value.

## Main definitions

* `Registry.Builder.Disciplined` — the invariant of the registrations

## Main results

* `Library.disciplined_builtins` — the built-in registrations are disciplined
* `Registry.complete_standard`, `Registry.disciplined_standard` — so is the registry, and it is
  complete
* `Expr.faults_by_stage` — the faults of reading, of binding and of evaluation
-/

namespace Formulary

open Calendar Library Overload Carrier
open Fault (OfEvaluation OfBinding)

/-! ### Bodies that may fail -/

namespace Library

@[simp] theorem failsOnly_divideInteger (a b : Int32) :
    FailsOnly OfEvaluation (divideInteger a b) := by
  rw [divideInteger]
  split <;> simp [divisionByZero, OfEvaluation]

@[simp] theorem failsOnly_divideLong (a b : Int64) : FailsOnly OfEvaluation (divideLong a b) := by
  rw [divideLong]
  split <;> simp [divisionByZero, OfEvaluation]

@[simp] theorem failsOnly_divideDecimal (a b : Decimal) :
    FailsOnly OfEvaluation (divideDecimal a b) := by
  rw [divideDecimal]
  split <;> simp [divisionByZero, OfEvaluation]

@[simp] theorem failsOnly_element {α : Type} (items : List α) (i : Int32) :
    FailsOnly OfEvaluation (element items i) := by
  rw [element]
  split <;> simp [OfEvaluation]

@[simp] theorem failsOnly_substring (s : String) (start : Int32) (stop : Option Int32) :
    FailsOnly OfEvaluation (substring s start stop) := by
  rw [substring]
  split <;> simp [OfEvaluation]

@[simp] theorem failsOnly_describes (s pattern : String) :
    FailsOnly OfEvaluation (describes s pattern) := by
  rw [describes]
  split <;> simp [OfEvaluation]

@[simp] theorem failsOnly_reading {α : Type} (target : Tag) (read? : List Char → Option α)
    (s : String) : FailsOnly OfEvaluation (reading target read? s) := by
  rw [reading]
  split <;> simp [OfEvaluation]

@[simp] theorem failsOnly_decimalOfDouble (x : Float) :
    FailsOnly OfEvaluation (decimalOfDouble x) := by
  rw [decimalOfDouble]
  split <;> simp [OfEvaluation]

@[simp] theorem failsOnly_timeOfMillis (millis : Int64) :
    FailsOnly OfEvaluation (timeOfMillis millis) := by
  rw [timeOfMillis]
  split <;> simp [OfEvaluation]

@[simp] theorem failsOnly_readTime (text format : String) :
    FailsOnly OfEvaluation (readTime text format) := by
  rw [readTime]
  split <;> simp [OfEvaluation]

@[simp] theorem disciplined_printing (t : Tag) : (printing t).Disciplined := fun _ => .ok _

end Library

/-! ### Registrations -/

/-- Overloads are disciplined, and what is not listed is left open. -/
structure Table.Builder.Disciplined (b : Table.Builder) : Prop where
  defers : b.defers = true
  overloads : ∀ o ∈ b.overloads, o.Disciplined

namespace Registry.Builder

variable {b : Builder} {names : List String}

/-- Tables are disciplined, those of `names` are there, and there are no functions. -/
structure Disciplined (names : List String) (b : Builder) : Prop where
  named : ∀ name ∈ names, b.tables.find? name ≠ none
  tables : ∀ name, (b.tableOrNew name).Disciplined
  functions : b.functions = []

namespace Disciplined

theorem empty : Disciplined [] .empty where
  named := nofun
  tables _ := ⟨rfl, nofun⟩
  functions := rfl

/-- A change of one table. The table is there from then on. -/
theorem modifyTable (h : b.Disciplined names) {name : String} {f : Table.Builder → Table.Builder}
    (hf : (f (b.tableOrNew name)).Disciplined) :
    (b.modifyTable name f).Disciplined (name :: names) where
  named n hn := by
    rw [find?_modifyTable]
    split
    · exact Option.some_ne_none _
    · next hne => exact h.named n ((List.mem_cons.mp hn).resolve_left hne)
  tables := forall_modifyTable (P := fun _ t => t.Disciplined) h.tables hf
  functions := h.functions

theorem mono {names' : List String} (h : b.Disciplined names) (hsub : names' ⊆ names) :
    b.Disciplined names' :=
  ⟨fun name hname => h.named name (hsub hname), h.tables, h.functions⟩

theorem registerFamily (h : b.Disciplined names) (widening : List Tag) (more : List String) :
    (b.registerFamily widening more).Disciplined (more ++ names) := by
  induction more generalizing b names with
  | nil => exact h
  | cons name rest ih =>
    refine (ih (h.modifyTable (f := fun t => t.setWidening widening) ?_)).mono ?_
    · exact ⟨(h.tables name).defers, (h.tables name).overloads⟩
    · exact List.perm_middle.symm.subset

theorem registerOverload (h : b.Disciplined names) (name : String) {o : Overload}
    (ho : o.Disciplined) : (b.registerOverload name o).Disciplined names := by
  refine (h.modifyTable ⟨(h.tables name).defers, fun p hp => ?_⟩).mono (List.subset_cons_self _ _)
  rcases List.mem_append.mp hp with hp | hp
  · exact (h.tables name).overloads p hp
  · exact List.mem_singleton.mp hp ▸ ho

theorem registerOverloads (h : b.Disciplined names) (name : String) {os : List Overload}
    (hos : ∀ o ∈ os, o.Disciplined) : (b.registerOverloads name os).Disciplined names := by
  induction os generalizing b with
  | nil => exact h
  | cons o rest ih =>
    rw [List.forall_mem_cons] at hos
    exact ih (h.registerOverload name hos.1) hos.2

theorem registerConstant (h : b.Disciplined names) (name : String) (value : Value) :
    (b.registerConstant name value).Disciplined names :=
  ⟨h.named, h.tables, h.functions⟩

end Disciplined

end Registry.Builder

namespace Library

open Registry.Builder (Disciplined)

variable {r : Registry.Builder} {names : List String}

theorem disciplined_arithmetic (h : r.Disciplined names) : (arithmetic r).Disciplined
    (["pos", "neg", "add", "sub", "mul", "div", "abs"] ++ names) := by
  rw [arithmetic]
  iterate 7 refine Disciplined.registerOverloads ?_ _ (by simp)
  exact h.registerFamily _ _

theorem disciplined_relations (h : r.Disciplined names) :
    (relations r).Disciplined (["lt", "le", "gt", "ge", "eq", "ne"] ++ names) := by
  rw [relations]
  iterate 6 refine Disciplined.registerOverloads ?_ _ (by simp [Comparison.overloads])
  exact h.registerFamily _ _

theorem disciplined_negation (h : r.Disciplined names) :
    (negation r).Disciplined (["not"] ++ names) :=
  (h.registerFamily _ _).registerOverload _ (disciplined_unary _)

theorem disciplined_transcendentals (h : r.Disciplined names) :
    (transcendentals r).Disciplined names := by
  rw [transcendentals]
  refine .registerConstant (.registerConstant (.registerConstant ?_ _ _) _ _) _ _
  refine List.foldlRecOn doubleFunctions _ ?_ fun r hr f _ => ?_
  · exact (h.registerFamily _ _).mono (List.subset_append_right _ _)
  · exact hr.registerOverload _ (disciplined_unary _)

theorem disciplined_strings (h : r.Disciplined names) :
    (strings r).Disciplined (stringNames ++ names) := by
  rw [strings]
  iterate 8 refine Disciplined.registerOverload ?_ _ (by simp)
  refine Disciplined.registerOverloads ?_ _ (by simp)
  exact h.registerFamily _ _

theorem disciplined_indexing (h : r.Disciplined names) :
    (indexing r).Disciplined (["index"] ++ names) :=
  (h.registerFamily _ _).registerOverloads _ (by simp)

theorem disciplined_conversions (h : r.Disciplined names) :
    (conversions r).Disciplined (["int", "long", "double", "decimal", "string"] ++ names) := by
  rw [conversions]
  iterate 5 refine Disciplined.registerOverloads ?_ _ (by simp)
  exact h.registerFamily _ _

theorem disciplined_times (h : r.Disciplined names) (now : DateTime) :
    (times now r).Disciplined (["time"] ++ names) := by
  rw [times]
  exact (h.registerFamily _ _).registerOverloads _ (by simp)

/-- The tables of operators, and those that are registered with them. -/
def operatorTables : List String :=
  ["index"] ++ (stringNames ++ (["not"] ++ (["lt", "le", "gt", "ge", "eq", "ne"] ++
    (["pos", "neg", "add", "sub", "mul", "div", "abs"] ++ []))))

/-- Those tables, and the tables of conversions and of `time`. -/
def namedTables : List String :=
  ["time"] ++ (["int", "long", "double", "decimal", "string"] ++ operatorTables)

/-- **The built-in registrations are disciplined.** -/
theorem disciplined_named (now : DateTime) : (builtins now).Disciplined namedTables := by
  rw [builtins]
  refine disciplined_times (disciplined_conversions (disciplined_indexing ?_)) now
  refine disciplined_strings (disciplined_transcendentals (disciplined_negation ?_))
  exact disciplined_relations (disciplined_arithmetic Disciplined.empty)

theorem disciplined_builtins (now : DateTime) : (builtins now).Disciplined operatorTables :=
  (disciplined_named now).mono fun _ h => List.mem_append_right _ (List.mem_append_right _ h)

/-- A table that is known by its name is in the library. -/
theorem find?_of_tableOrNew {now : DateTime} {name : String} {t : Table.Builder}
    (hname : name ∈ namedTables) (h : (builtins now).tableOrNew name = t) :
    (builtins now).tables.find? name = some t := by
  obtain ⟨t', ht'⟩ := Option.ne_none_iff_exists'.mp ((disciplined_named now).named name hname)
  rw [ht', ← h, Registry.Builder.tableOrNew_of_find? ht']

end Library

/-! ### The registry -/

namespace Registry

theorem disciplined_standard (now : DateTime) : (standard now).Disciplined where
  tables name table h := by
    obtain ⟨t, ht, rfl⟩ := find?_of_table?_standard h
    have htable := (disciplined_builtins now).tables name
    rw [Builder.tableOrNew_of_find? ht] at htable
    exact fun row hrow => htable.overloads _ (Table.Builder.mem_of_mem_rows hrow)
  functions name f h := by
    rw [function?_standard] at h
    simp at h

theorem table?_standard_ne_none (now : DateTime) {name : String} (h : name ∈ operatorTables) :
    (standard now).table? name ≠ none := by
  rw [standard, Builder.table?_build, Ne, Option.map_eq_none_iff]
  exact (disciplined_builtins now).named name h

theorem complete_standard (now : DateTime) : (standard now).Complete where
  defers name table h := by
    obtain ⟨t, ht, rfl⟩ := find?_of_table?_standard h
    have htable := (disciplined_builtins now).tables name
    rw [Builder.tableOrNew_of_find? ht] at htable
    exact htable.defers
  unary op := table?_standard_ne_none now (by cases op <;> decide)
  binary op name h := by
    refine table?_standard_ne_none now ?_
    cases op <;> simp [BinaryOp.table?] at h <;> subst h <;> decide
  index := table?_standard_ne_none now (by decide)

end Registry

/-! ### From the text to the value -/

/-- The records of a schema have a slot for every leaf. -/
theorem Schema.lt_length_of_mem_leaves (s : Schema) {record : Record}
    (hrecord : record = s.emptyRecord ∨ ∃ d, record = s.read d) {leaf : Tag × Nat}
    (hleaf : leaf ∈ (Layout.ofSchema s).leaves) : leaf.2 < record.length := by
  have hlt : leaf.2 < Layout.slotCount s := (s.mem_slots_iff _).mp (List.mem_map_of_mem hleaf)
  rcases hrecord with rfl | ⟨d, rfl⟩
  · rwa [length_emptyRecord]
  · rwa [length_read]

/-- **The faults of every stage.** Reading a source fails with faults of reading. In the built-in
registry every operator has a table, and no table refuses what it does not list. So what is bound
against it and the layout of a schema fails with a name that is not there, as a variable or as a
table that is called, or with a structural part, and never with a choice of an overload. What is
bound reads only slots that the records of the schema have, and its evaluation on them fails with a
look-up, a conversion or a computation. -/
theorem Expr.faults_by_stage (now : DateTime) :
    (∀ source fault, Expr.ofSource source = .error fault → fault.stage = .parse) ∧
    (Registry.standard now).Complete ∧
    ∀ (schema : Schema) (e : Expr),
      (∀ fault, e.compile ⟨some (Layout.ofSchema schema), Registry.standard now⟩ = .error fault →
        fault.stage = .compile ∧ fault.code ∈ bindingCodes ∧
          (fault.code = .unknownFunction → ∃ name, fault = .unknownFunction name ∧
            .call name ∈ e.mentions ∧ (Registry.standard now).table? name = none)) ∧
      ∀ p, e.compile ⟨some (Layout.ofSchema schema), Registry.standard now⟩ = .ok p →
        ∀ record, (record = schema.emptyRecord ∨ ∃ d, record = schema.read d) →
          (∀ slot t, .var slot t ∈ p.nodes →
            slot < record.length ∧ ∃ v, Plan.readSlot (some record) slot = .ok v) ∧
          ∀ fault, p.eval (some record) = .error fault →
            fault.stage = .eval ∧ fault.code ∈ evaluationCodes ∧
              ∀ slot, fault ≠ .slotMissing slot := by
  refine ⟨fun source fault h => ?_, Registry.complete_standard now, fun schema e => ⟨?_, ?_⟩⟩
  · rw [ofSource] at h
    split at h
    · exact Except.error.inj h ▸ rfl
    · exact Except.error.inj h ▸ rfl
    · next tree _ =>
      cases hread : ofTree tree with
      | error located =>
        rw [hread] at h
        exact Except.error.inj h ▸ rfl
      | ok e =>
        rw [hread] at h
        cases h
  · intro fault h
    have hfails := Scope.failsOnly_compile
      (s := ⟨some (Layout.ofSchema schema), Registry.standard now⟩)
      (Registry.complete_standard now) e
    exact (hfails fault h).stage_and_code
  · intro p h record hrecord
    have hslots : ∀ leaf ∈ Scope.leaves ⟨some (Layout.ofSchema schema), Registry.standard now⟩,
        leaf.2 < record.length := fun leaf hleaf => schema.lt_length_of_mem_leaves hrecord hleaf
    have hmakes := Scope.makes_bind (Scope.compile_eq_ok h)
    have hfails := Scope.failsOnly_eval
      (s := ⟨some (Layout.ofSchema schema), Registry.standard now⟩)
      (Registry.disciplined_standard now) hslots hmakes
    exact ⟨fun slot t hvar => Scope.readSlot_of_makes hslots (hmakes _ hvar),
      fun fault hfault => (hfails fault hfault).stage_and_code⟩

/-- Whether the first switch is on, and what is no switch. -/
def armedAndOne : Expr :=
  .binary .and (.var "armed" ⟨0, 5⟩) (.const (.long 1) ⟨9, 10⟩) ⟨0, 10⟩

/-- A source without tokens, a name that no switch has, and a number in the place of a switch. -/
theorem Expr.faults_by_stage_switches :
    (Expr.ofSource "" = .error .emptyExpression ∧ Fault.emptyExpression.stage = .parse) ∧
      ((Expr.var "lit" ⟨0, 3⟩).compile
          ⟨some (Layout.ofSchema switches), Registry.standard ⟨0, 0, 0⟩⟩ =
            .error (.unknownIdentifier "lit") ∧
        (Fault.unknownIdentifier "lit").code ∈ bindingCodes) ∧
      armedAndOne.compile ⟨some (Layout.ofSchema switches), Registry.standard ⟨0, 0, 0⟩⟩ =
        .ok (.and (.var 0 .boolean) (.const (.long 1))) ∧
      0 < (switches.read armedOnly).length ∧
      (Plan.and (.var 0 .boolean) (.const (.long 1))).eval (some (switches.read armedOnly)) =
        .error (.expectedBoolean .long) ∧
      (Fault.expectedBoolean .long).code ∈ evaluationCodes := by
  obtain ⟨hparse, -, hpipeline⟩ := Expr.faults_by_stage ⟨0, 0, 0⟩
  obtain ⟨hbinding, -⟩ := hpipeline switches (.var "lit" ⟨0, 3⟩)
  obtain ⟨-, hevaluation⟩ := hpipeline switches armedAndOne
  have hlit : (Registry.standard ⟨0, 0, 0⟩).constant? "lit" = none := by simp [constant?_standard]
  have harmed : (Registry.standard ⟨0, 0, 0⟩).constant? "armed" = none := by
    simp [constant?_standard]
  have hread : Expr.ofSource "" = .error .emptyExpression := rfl
  have hunknown : (Expr.var "lit" ⟨0, 3⟩).compile
      ⟨some (Layout.ofSchema switches), Registry.standard ⟨0, 0, 0⟩⟩ =
        .error (.unknownIdentifier "lit") := by
    simp only [Expr.compile, Scope.bind, Scope.bindName, hlit]
    rfl
  have hcompile : armedAndOne.compile
      ⟨some (Layout.ofSchema switches), Registry.standard ⟨0, 0, 0⟩⟩ =
        .ok (.and (.var 0 .boolean) (.const (.long 1))) := by
    simp only [armedAndOne, Expr.compile, Scope.bind, Scope.bindName, harmed]
    rfl
  have heval : (Plan.and (.var 0 .boolean) (.const (.long 1))).eval
      (some (switches.read armedOnly)) = .error (.expectedBoolean .long) := rfl
  obtain ⟨hslots, hfaults⟩ := hevaluation _ hcompile _ (Or.inr ⟨armedOnly, rfl⟩)
  have hvar : Plan.var 0 .boolean ∈ (Plan.and (.var 0 .boolean) (.const (.long 1))).nodes := by
    simp [Plan.nodes]
  exact ⟨⟨hread, hparse _ _ hread⟩, ⟨hunknown, (hbinding _ hunknown).2.1⟩, hcompile,
    (hslots 0 .boolean hvar).1, heval, (hfaults _ heval).2.1⟩

end Formulary
