import Formulary.Proofs.Plan.NodeTags
import Formulary.Proofs.Syntax.Reprinting

/-!
# Which faults there are

Binding an expression and evaluating its plan can fail in few ways each. What they are is settled by
the registry: evaluation has no faults but those of its overloads and functions, those of the
look-up itself, and those of logical operands; and binding does not fail at an operator or at a
choice of an overload where every operator has a table and every table leaves open what it does not
list.

## Implementation notes

That an outcome has faults of one kind only is a property that steps pass on, so nothing is said
about which step fails first. What is demanded of registered bodies is demanded for all arguments,
also for arguments that no look-up would hand to them.

## Main definitions

* `FailsOnly` — outcomes whose faults are of one kind
* `Fault.OfEvaluation`, `Fault.OfBinding` — the faults of either stage
* `Overload.Disciplined`, `Registry.Disciplined` — overloads and registries with such faults
* `Registry.Complete` — registries with a table for every operator

## Main results

* `Plan.failsOnly_eval` — the faults of evaluation
* `Scope.failsOnly_bind` — the faults of binding
-/

namespace Formulary

/-! ### Outcomes -/

/-- If there is a fault, it is of this kind. -/
def FailsOnly {α : Type} (kind : Fault → Prop) (x : Except Fault α) : Prop :=
  ∀ fault, x = .error fault → kind fault

namespace FailsOnly

variable {α β : Type} {kind kind' : Fault → Prop} {x : Except Fault α}

@[simp] theorem ok (a : α) : FailsOnly kind (.ok a) := nofun

@[simp] theorem error {fault : Fault} :
    FailsOnly kind (.error fault : Except Fault α) ↔ kind fault :=
  ⟨fun h => h fault rfl, fun h _ heq => Except.error.inj heq ▸ h⟩

theorem bind {f : α → Except Fault β} (hx : FailsOnly kind x)
    (hf : ∀ a, x = .ok a → FailsOnly kind (f a)) : FailsOnly kind (x >>= f) := by
  cases x with
  | ok a => exact hf a rfl
  | error fault => exact error.mpr (error.mp hx)

theorem imp (hx : FailsOnly kind x) (h : ∀ fault, kind fault → kind' fault) : FailsOnly kind' x :=
  fun fault hfault => h fault (hx fault hfault)

end FailsOnly

/-! ### Faults -/

/-- The codes that evaluation fails with. -/
def evaluationCodes : List Code :=
  [.noMatchingEvaluator, .divisionByZero, .indexOutOfBounds, .expectedBoolean, .badConversion,
    .failParseTime, .badRegex]

/-- The codes that binding fails with. -/
def bindingCodes : List Code :=
  [.unknownIdentifier, .unknownFunction, .invalidIndex, .unindexedStructure]

namespace Fault

/-- The faults of look-ups, of conversions and of computations. Reading a variable has none. -/
def OfEvaluation : Fault → Prop
  | noOverload stage _ _ => stage = .eval
  | notConvertible .. | argumentMismatch .. | divisionByZero .. | sliceOutOfBounds ..
  | indexOutOfBounds .. | expectedBoolean _ | unreadableNumber .. | notDecimal _ | timeOutOfRange _
  | unreadableTime .. | badPattern _ => True
  | _ => False

/-- The faults of names and of structural parts. What is unknown as a function is mentioned as one,
and no table has its name. -/
def OfBinding (r : Registry) (mentions : List Mention) : Fault → Prop
  | unknownIdentifier _ | invalidIndex .. | unindexedStructure .. => True
  | unknownFunction name => .call name ∈ mentions ∧ r.table? name = none
  | _ => False

theorem OfEvaluation.stage_and_code {fault : Fault} (h : fault.OfEvaluation) :
    fault.stage = .eval ∧ fault.code ∈ evaluationCodes ∧ ∀ slot, fault ≠ .slotMissing slot := by
  cases fault <;> simp_all [OfEvaluation, stage, code, evaluationCodes]

theorem OfBinding.stage_and_code {r : Registry} {mentions : List Mention} {fault : Fault}
    (h : fault.OfBinding r mentions) : fault.stage = .compile ∧ fault.code ∈ bindingCodes ∧
      (fault.code = .unknownFunction → ∃ name, fault = .unknownFunction name ∧
        .call name ∈ mentions ∧ r.table? name = none) := by
  cases fault <;> simp_all [OfBinding, stage, code, bindingCodes]

theorem OfBinding.mono {r : Registry} {mentions more : List Mention} (hsub : mentions ⊆ more)
    (fault : Fault) (h : fault.OfBinding r mentions) : fault.OfBinding r more := by
  cases fault with
  | unknownFunction name => exact ⟨hsub h.1, h.2⟩
  | _ => exact h

end Fault

open Fault (OfEvaluation OfBinding)

/-! ### Overloads -/

/-- Whatever the arguments are, faults are those of evaluation. -/
def Overload.Disciplined (o : Overload) : Prop := ∀ args, FailsOnly OfEvaluation (o.body args)

theorem Carrier.failsOnly_argument {α : Type} (c : Carrier α) (args : List Value) (i : Nat) :
    FailsOnly OfEvaluation (c.argument args i) := by
  rw [argument]
  split
  · exact .ok _
  · exact FailsOnly.error.mpr trivial

namespace Overload

variable {α β γ ρ : Type} {a : Carrier α} {b : Carrier β} {c : Carrier γ} {r : Carrier ρ}

@[simp] theorem disciplined_tryNullary {f : Except Fault ρ} (h : FailsOnly OfEvaluation f) :
    (tryNullary r f).Disciplined := fun _ => h.bind fun _ _ => .ok _

@[simp] theorem disciplined_nullary (f : ρ) : (nullary r f).Disciplined :=
  disciplined_tryNullary (.ok f)

@[simp] theorem disciplined_tryUnary {f : α → Except Fault ρ}
    (h : ∀ x, FailsOnly OfEvaluation (f x)) : (tryUnary a r f).Disciplined := fun args =>
  (a.failsOnly_argument args 0).bind fun x _ => (h x).bind fun _ _ => .ok _

@[simp] theorem disciplined_unary (f : α → ρ) : (unary a r f).Disciplined :=
  disciplined_tryUnary fun _ => .ok _

@[simp] theorem disciplined_tryBinary {f : α → β → Except Fault ρ}
    (h : ∀ x y, FailsOnly OfEvaluation (f x y)) : (tryBinary a b r f).Disciplined := fun args =>
  (a.failsOnly_argument args 0).bind fun x _ => (b.failsOnly_argument args 1).bind fun y _ =>
    (h x y).bind fun _ _ => .ok _

@[simp] theorem disciplined_binary (f : α → β → ρ) : (binary a b r f).Disciplined :=
  disciplined_tryBinary fun _ _ => .ok _

@[simp] theorem disciplined_tryTernary {f : α → β → γ → Except Fault ρ}
    (h : ∀ x y z, FailsOnly OfEvaluation (f x y z)) : (tryTernary a b c r f).Disciplined :=
  fun args => (a.failsOnly_argument args 0).bind fun x _ =>
    (b.failsOnly_argument args 1).bind fun y _ => (c.failsOnly_argument args 2).bind fun z _ =>
      (h x y z).bind fun _ _ => .ok _

@[simp] theorem disciplined_ternary (f : α → β → γ → ρ) : (ternary a b c r f).Disciplined :=
  disciplined_tryTernary fun _ _ _ => .ok _

end Overload

/-! ### Tables -/

theorem Value.failsOnly_convert (t : Tag) (v : Value) : FailsOnly OfEvaluation (v.convert t) := by
  rw [convert]
  split
  · exact .ok _
  · split
    · exact .ok _
    · exact FailsOnly.error.mpr trivial

theorem Target.failsOnly_convertAll (args : List Value) (params : Signature) :
    FailsOnly OfEvaluation (convertAll args params) := by
  induction args generalizing params with
  | nil => exact .ok _
  | cons v rest ih =>
    cases params with
    | nil => exact .ok _
    | cons t params =>
      exact (v.failsOnly_convert t).bind fun _ _ => (ih params).bind fun _ _ => .ok _

theorem Target.failsOnly_apply {target : Target} (h : target.overload.Disciplined)
    (args : List Value) : FailsOnly OfEvaluation (target.apply args) := by
  cases target with
  | exact o => exact h args
  | widened o _ => exact (failsOnly_convertAll args o.params).bind fun vs _ => h vs

/-- Overloads are disciplined. -/
def Table.Disciplined (table : Table) : Prop := ∀ row ∈ table.rows, row.2.overload.Disciplined

/-- A choice of an overload can be carried out with faults of evaluation only, and so can a choice
that was left for later. -/
theorem Table.Disciplined.failsOnly_apply {table : Table} (h : table.Disciplined) {key : Signature}
    {resolution : Resolution} (hkey : table.resolve key = .ok resolution) (args : List Value) :
    FailsOnly OfEvaluation (resolution.apply table args) := by
  rcases resolve_cases hkey with ⟨target, htarget, rfl⟩ | rfl
  · exact Target.failsOnly_apply (h _ (mem_rows_of_lookup htarget)) args
  · rw [apply_deferred_eq_dispatch, dispatch]
    split
    · next target htarget => exact Target.failsOnly_apply (h _ (mem_rows_of_lookup htarget)) args
    · exact FailsOnly.error.mpr rfl

/-- Nothing is refused before there are arguments. -/
theorem Table.exists_resolve {table : Table} (h : table.defers = true) (key : Signature) :
    ∃ resolution, table.resolve key = .ok resolution := by
  rw [resolve]
  split
  · exact ⟨_, rfl⟩
  · rw [if_pos h]
    exact ⟨_, rfl⟩

/-! ### Registries -/

namespace Registry

/-- Tables and functions have the faults of evaluation only. -/
structure Disciplined (r : Registry) : Prop where
  tables : ∀ name table, r.table? name = some table → table.Disciplined
  functions : ∀ name f, r.function? name = some f → ∀ args, FailsOnly OfEvaluation (f.body args)

/-- Every operator has a table, and tables leave open what they do not list. -/
structure Complete (r : Registry) : Prop where
  defers : ∀ name table, r.table? name = some table → table.defers = true
  unary : ∀ op : UnaryOp, r.table? op.table ≠ none
  binary : ∀ (op : BinaryOp) name, op.table? = some name → r.table? name ≠ none
  index : r.table? "index" ≠ none

end Registry

/-! ### Evaluation -/

theorem Plan.failsOnly_expectBool (v : Value) : FailsOnly OfEvaluation (expectBool v) := by
  cases v with
  | boolean b => exact .ok b
  | _ => exact FailsOnly.error.mpr trivial

theorem Plan.failsOnly_shortCircuit {op : BinaryOp} {x y : Except Fault Value}
    (hx : FailsOnly OfEvaluation x) (hy : FailsOnly OfEvaluation y) :
    FailsOnly OfEvaluation (shortCircuit op x y) := by
  refine hx.bind fun v _ => (failsOnly_expectBool v).bind fun b _ => ?_
  split
  · exact .ok _
  · exact hy.bind fun w _ => (failsOnly_expectBool w).bind fun c _ => .ok _

namespace Scope

variable {s : Scope}

section

variable {record : Record}

/-- A variable that binding makes can be read. -/
theorem readSlot_of_makes (hrecord : ∀ leaf ∈ s.leaves, leaf.2 < record.length) {slot : Nat}
    {t : Tag} (h : s.Makes (.var slot t)) :
    slot < record.length ∧ ∃ v, Plan.readSlot (some record) slot = .ok v := by
  have hslot : slot < record.length := hrecord _ h
  refine ⟨hslot, record.slots[slot], ?_⟩
  rw [Plan.readSlot, Record.get?, List.getElem?_eq_getElem hslot]

mutual

/-- **The faults of evaluation.** A plan that binding makes has no others, on a record with a slot
for every leaf. -/
theorem failsOnly_eval (hs : s.registry.Disciplined)
    (hrecord : ∀ leaf ∈ s.leaves, leaf.2 < record.length) {p : Plan}
    (h : ∀ q ∈ p.nodes, s.Makes q) : FailsOnly OfEvaluation (p.eval (some record)) := by
  have hself : s.Makes p := h p p.mem_nodes_self
  match p with
  | .const v => exact .ok v
  | .var slot t =>
    obtain ⟨-, v, hv⟩ := readSlot_of_makes hrecord hself
    rw [Plan.eval, hv]
    exact .ok v
  | .apply table resolution args =>
    obtain ⟨⟨name, htable⟩, key, hkey⟩ := hself
    refine (failsOnly_evalAll hs hrecord fun q hq => h q (.tail _ hq)).bind fun vs _ => ?_
    exact (hs.tables name table htable).failsOnly_apply hkey vs
  | .call f args =>
    obtain ⟨name, hf⟩ := hself
    refine (failsOnly_evalAll hs hrecord fun q hq => h q (.tail _ hq)).bind fun vs _ => ?_
    exact hs.functions name f hf vs
  | .and l r =>
    have hand : (Plan.and l r).eval (some record) = _ := @Plan.eval_and_or .and rfl l r _
    rw [hand]
    refine Plan.failsOnly_shortCircuit (failsOnly_eval hs hrecord fun q hq => ?_)
      (failsOnly_eval hs hrecord fun q hq => ?_)
    · exact h q (.tail _ (List.mem_append_left _ hq))
    · exact h q (.tail _ (List.mem_append_right _ hq))
  | .or l r =>
    have hor : (Plan.or l r).eval (some record) = _ := @Plan.eval_and_or .or rfl l r _
    rw [hor]
    refine Plan.failsOnly_shortCircuit (failsOnly_eval hs hrecord fun q hq => ?_)
      (failsOnly_eval hs hrecord fun q hq => ?_)
    · exact h q (.tail _ (List.mem_append_left _ hq))
    · exact h q (.tail _ (List.mem_append_right _ hq))

theorem failsOnly_evalAll (hs : s.registry.Disciplined)
    (hrecord : ∀ leaf ∈ s.leaves, leaf.2 < record.length) {ps : List Plan}
    (h : ∀ q ∈ Plan.nodesAll ps, s.Makes q) :
    FailsOnly OfEvaluation (Plan.evalAll (some record) ps) := by
  match ps with
  | [] => exact .ok []
  | p :: rest =>
    refine (failsOnly_eval hs hrecord fun q hq =>
      h q (Plan.mem_nodesAll_cons.mpr (Or.inl hq))).bind fun v _ => ?_
    refine (failsOnly_evalAll hs hrecord fun q hq =>
      h q (Plan.mem_nodesAll_cons.mpr (Or.inr hq))).bind fun vs _ => .ok _

end

end

/-! ### Binding -/

variable {mentions : List Mention}

theorem failsOnly_toPlan (source : Expr) (b : Bound) :
    FailsOnly (OfBinding s.registry mentions) (b.toPlan source) := by
  cases b with
  | plan p => exact .ok p
  | structural node => exact FailsOnly.error.mpr trivial

theorem failsOnly_bindName (name : String) :
    FailsOnly (OfBinding s.registry mentions) (s.bindName name) := by
  rw [bindName]
  split
  · exact .ok _
  · split
    · exact .ok _
    · exact FailsOnly.error.mpr trivial

/-- A table that is not there is missed; in a table that is there a choice is made. -/
theorem failsOnly_applyTable (hs : s.registry.Complete) {name : String}
    (hname : s.registry.table? name = none → .call name ∈ mentions) (args : List Plan) :
    FailsOnly (OfBinding s.registry mentions) (s.applyTable name args) := by
  rw [applyTable]
  split
  · next hnone => exact FailsOnly.error.mpr ⟨hname hnone, hnone⟩
  · next table htable =>
    obtain ⟨resolution, hresolution⟩ :=
      Table.exists_resolve (hs.defers name table htable) (Plan.signature args)
    rw [hresolution, ok_bind]
    exact .ok _

theorem failsOnly_applyNamed (hs : s.registry.Complete) {name : String}
    (hname : .call name ∈ mentions) (args : List Plan) :
    FailsOnly (OfBinding s.registry mentions) (s.applyNamed name args) := by
  rw [applyNamed]
  split
  · exact .ok _
  · exact failsOnly_applyTable hs (fun _ => hname) args

theorem failsOnly_applyIndex (hs : s.registry.Complete) (base : Bound) (source : Expr)
    (index : Plan) :
    FailsOnly (OfBinding s.registry mentions) (s.applyIndex base source index) := by
  cases base with
  | plan p =>
    exact (failsOnly_applyTable hs (fun h => absurd h hs.index) _).bind fun _ _ => .ok _
  | structural node =>
    rw [applyIndex]
    split
    · exact .ok _
    · exact FailsOnly.error.mpr trivial

mutual

/-- **The faults of binding**, where every operator has a table and tables leave open what they do
not list. -/
theorem failsOnly_bind (hs : s.registry.Complete) (e : Expr) :
    FailsOnly (OfBinding s.registry e.mentions) (s.bind e) := by
  match e with
  | .const v _ => exact .ok _
  | .var name _ => exact failsOnly_bindName name
  | .call name args _ =>
    have hargs := (failsOnly_bindAll hs args).imp
      (OfBinding.mono (List.subset_cons_self (.call name) _))
    exact hargs.bind fun ps _ =>
      (failsOnly_applyNamed hs (List.mem_cons_self ..) ps).bind fun _ _ => .ok _
  | .index base index _ =>
    have hbase := (failsOnly_bind hs base).imp
      (OfBinding.mono (List.subset_append_left _ index.mentions))
    have hindex := (failsOnly_bind hs index).imp
      (OfBinding.mono (List.subset_append_right base.mentions _))
    refine hbase.bind fun b _ => hindex.bind fun c _ => ?_
    exact (failsOnly_toPlan index c).bind fun q _ => failsOnly_applyIndex hs b index q
  | .unary op operand _ =>
    refine (failsOnly_bind hs operand).bind fun b _ => ?_
    refine (failsOnly_toPlan operand b).bind fun p _ => ?_
    exact (failsOnly_applyTable hs (fun h => absurd h (hs.unary op)) [p]).bind fun _ _ => .ok _
  | .binary op l r _ =>
    have hl := (failsOnly_bind hs l).imp (OfBinding.mono (List.subset_append_left _ r.mentions))
    have hr := (failsOnly_bind hs r).imp (OfBinding.mono (List.subset_append_right l.mentions _))
    refine hl.bind fun b _ => (failsOnly_toPlan l b).bind fun p _ => ?_
    refine hr.bind fun c _ => (failsOnly_toPlan r c).bind fun q _ => ?_
    cases hop : op.table? with
    | some name =>
      have htable := hs.binary op name hop
      exact (failsOnly_applyTable hs (fun h => absurd h htable) [p, q]).bind fun _ _ => .ok _
    | none => exact .ok _

theorem failsOnly_bindAll (hs : s.registry.Complete) (es : List Expr) :
    FailsOnly (OfBinding s.registry (Expr.mentionsAll es)) (s.bindAll es) := by
  match es with
  | [] => exact .ok []
  | e :: rest =>
    have he := (failsOnly_bind hs e).imp
      (OfBinding.mono (List.subset_append_left _ (Expr.mentionsAll rest)))
    have hrest := (failsOnly_bindAll hs rest).imp
      (OfBinding.mono (List.subset_append_right e.mentions _))
    exact he.bind fun b _ => (failsOnly_toPlan e b).bind fun p _ => hrest.bind fun ps _ => .ok _

end

theorem failsOnly_compile (hs : s.registry.Complete) (e : Expr) :
    FailsOnly (OfBinding s.registry e.mentions) (e.compile s) :=
  (failsOnly_bind hs e).bind fun b _ => failsOnly_toPlan e b

end Scope

end Formulary
