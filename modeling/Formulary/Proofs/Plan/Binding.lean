import Formulary.Proofs.Plan.EarlyChoice
import Formulary.Proofs.Record.Conformity

/-!
# What binding does

Binding is taken apart here, once for every kind of expression: what must have been bound for the
whole to be bound, and what the whole then is. It follows that a variable is a leaf of the layout:
a path through tuples and dicts never leaves the part of the layout it started from, so this holds
however the variable was reached.

## Main definitions

* `Bound.leaves` — the leaves that a bound expression refers to
* `Scope.leaves` — the leaves of the layout

## Main results

* `Scope.bind_call`, `Scope.bind_index`, `Scope.bind_unary`, `Scope.bind_binary`,
  `Scope.bindAll_eq_ok_iff` — inversion
* `Plan.eval_fold_operands` — folding does not change values
* `Scope.leaves_bind` — variables are leaves of the layout
-/

namespace Formulary

/-! ### Folding -/

namespace Plan

variable {args : List Plan} {record : Option Record} {p : Plan}

@[simp] theorem evalAll_consts (record : Option Record) (vs : List Value) :
    evalAll record (vs.map const) = .ok vs := by
  induction vs with
  | nil => rfl
  | cons v rest ih => rw [List.map_cons, evalAll, ih]; rfl

/-- Operands have values when each of them has one. -/
theorem evalAll_cons_eq_ok {vs : List Value} : evalAll record (p :: args) = .ok vs ↔
    ∃ w ws, p.eval record = .ok w ∧ evalAll record args = .ok ws ∧ w :: ws = vs := by
  rw [evalAll, bind_eq_ok_iff]
  constructor
  · rintro ⟨w, hw, h⟩
    obtain ⟨ws, hws, h⟩ := bind_eq_ok_iff.mp h
    exact ⟨w, ws, hw, hws, Except.ok.inj h⟩
  · rintro ⟨w, ws, hw, hws, rfl⟩
    refine ⟨w, hw, ?_⟩
    rw [hws]
    rfl

theorem isConst_iff : p.isConst = true ↔ ∃ v, p = const v := by cases p <;> simp [isConst]

theorem all_isConst_iff : args.all isConst = true ↔ ∃ vs : List Value, args = vs.map const := by
  induction args with
  | nil => exact ⟨fun _ => ⟨[], rfl⟩, fun _ => rfl⟩
  | cons p rest ih =>
    rw [List.all_cons, Bool.and_eq_true, isConst_iff, ih]
    constructor
    · rintro ⟨⟨v, rfl⟩, vs, rfl⟩
      exact ⟨v :: vs, rfl⟩
    · rintro ⟨vs, hvs⟩
      cases vs with
      | nil => simp at hvs
      | cons v vs =>
        obtain ⟨rfl, rfl⟩ := List.cons.inj hvs
        exact ⟨⟨v, rfl⟩, vs, rfl⟩

/-- Folding leaves a plan as it is, or makes it the constant that it evaluates to. -/
theorem fold_cases (constant : Bool) (p : Plan) :
    fold constant p = p ∨
      ∃ v, constant = true ∧ p.eval none = .ok v ∧ fold constant p = const v := by
  rw [fold]
  split
  · next hc =>
    split
    · next v hv => exact Or.inr ⟨v, hc, hv, rfl⟩
    · exact Or.inl rfl
  · exact Or.inl rfl

/-- Folding does not change the value on a record that constants do not depend on. -/
theorem eval_fold {constant : Bool} (h : constant = true → p.eval none = p.eval record) :
    (fold constant p).eval record = p.eval record := by
  rcases fold_cases constant p with hp | ⟨v, hc, hv, hp⟩
  · rw [hp]
  · rw [hp, ← h hc, hv, eval]

variable {body : List Value → Except Fault Value}

/-- Folding does not change what a plan computes from its operands. -/
theorem eval_fold_operands (hp : ∀ record, p.eval record = evalAll record args >>= body)
    (record : Option Record) :
    (fold (args.all isConst) p).eval record = evalAll record args >>= body := by
  rw [eval_fold, hp]
  intro hconst
  obtain ⟨vs, rfl⟩ := all_isConst_iff.mp hconst
  rw [hp, hp, evalAll_consts, evalAll_consts]

/-- What is folded to a constant has constant operands, and their result is that constant. -/
theorem eq_consts_of_fold {v : Value} (hp : ∀ record, p.eval record = evalAll record args >>= body)
    (hne : ∀ w, p ≠ const w) (h : fold (args.all isConst) p = const v) :
    ∃ vs : List Value, args = vs.map const ∧ body vs = .ok v := by
  rcases fold_cases (args.all isConst) p with hfold | ⟨w, hconst, hw, hfold⟩
  · exact absurd (hfold.symm.trans h) (hne v)
  · obtain ⟨vs, rfl⟩ := all_isConst_iff.mp hconst
    obtain rfl : w = v := const.inj (hfold.symm.trans h)
    rw [hp, evalAll_consts, ok_bind] at hw
    exact ⟨vs, rfl, hw⟩

/-- The value of a logical operator: the right operand counts only if the left one does not decide,
and `and` is decided by false, `or` by true. -/
def shortCircuit (op : BinaryOp) (x y : Except Fault Value) : Except Fault Value := do
  let b ← expectBool (← x)
  if b = (op == .or) then return .boolean b else return .boolean (← expectBool (← y))

theorem boolean_of_shortCircuit {op : BinaryOp} {x y : Except Fault Value} {v : Value}
    (h : shortCircuit op x y = .ok v) : ∃ b, v = .boolean b := by
  obtain ⟨_, -, h⟩ := bind_eq_ok_iff.mp h
  obtain ⟨b, -, h⟩ := bind_eq_ok_iff.mp h
  split at h
  · exact ⟨b, (Except.ok.inj h).symm⟩
  · obtain ⟨_, -, h⟩ := bind_eq_ok_iff.mp h
    obtain ⟨c, -, h⟩ := bind_eq_ok_iff.mp h
    exact ⟨c, (Except.ok.inj h).symm⟩

variable {op : BinaryOp} {q : Plan}

theorem eval_and_or (hop : op.table? = none) (p q : Plan) (record : Option Record) :
    (if op = .and then and p q else or p q).eval record =
      shortCircuit op (p.eval record) (q.eval record) := by
  rw [shortCircuit]
  cases op <;> simp [BinaryOp.table?] at hop
  · rw [if_pos rfl, eval]
    refine bind_congr fun v => bind_congr fun b => ?_
    cases b <;> rfl
  · rw [if_neg (by decide), eval]
    refine bind_congr fun v => bind_congr fun b => ?_
    cases b <;> rfl

/-- Folding does not change the value of a logical operator. -/
theorem eval_logical (hop : op.table? = none) (p q : Plan) (record : Option Record) :
    (logical op p q).eval record = shortCircuit op (p.eval record) (q.eval record) := by
  rw [logical, eval_fold, eval_and_or hop]
  intro hconst
  rw [Bool.and_eq_true, isConst_iff, isConst_iff] at hconst
  obtain ⟨⟨a, rfl⟩, b, rfl⟩ := hconst
  rw [eval_and_or hop, eval_and_or hop, eval, eval, eval, eval]

/-- What is folded to a constant has constant operands, and they give that constant. -/
theorem eq_consts_of_logical (hop : op.table? = none) {v : Value} (h : logical op p q = const v) :
    ∃ a b, p = const a ∧ q = const b ∧ shortCircuit op (.ok a) (.ok b) = .ok v := by
  rcases fold_cases (p.isConst && q.isConst) (if op = .and then and p q else or p q) with
    hfold | ⟨w, hconst, hw, hfold⟩
  · have hnode := hfold.symm.trans h
    split at hnode <;> simp at hnode
  · rw [Bool.and_eq_true, isConst_iff, isConst_iff] at hconst
    obtain ⟨⟨a, rfl⟩, b, rfl⟩ := hconst
    obtain rfl : w = v := const.inj (hfold.symm.trans h)
    rw [eval_and_or hop, eval, eval] at hw
    exact ⟨a, b, rfl, rfl, hw⟩

end Plan

namespace Scope

variable {s : Scope}

/-! ### Inversion -/

/-- What goes on from the plan of an operand has bound it to a plan. -/
theorem operand_eq_ok {β : Type} {e : Expr} {f : Plan → Except Fault β} {b : β}
    (h : (s.bind e >>= fun bound => bound.toPlan e >>= f) = .ok b) :
    ∃ p, s.bind e = .ok (.plan p) ∧ f p = .ok b := by
  obtain ⟨bound, hbound, hplan⟩ := bind_eq_ok_iff.mp h
  cases bound with
  | plan p => exact ⟨p, hbound, hplan⟩
  | structural node => simp [Bound.toPlan] at hplan

theorem compile_eq_ok {e : Expr} {p : Plan} (h : e.compile s = .ok p) :
    s.bind e = .ok (.plan p) := by
  obtain ⟨bound, hbound, hplan⟩ := bind_eq_ok_iff.mp h
  cases bound with
  | plan q =>
    obtain rfl : q = p := Except.ok.inj hplan
    exact hbound
  | structural node => simp [Bound.toPlan] at hplan

theorem applyTable_eq_ok {name : String} {args : List Plan} {p : Plan}
    (h : s.applyTable name args = .ok p) :
    ∃ table resolution, s.registry.table? name = some table ∧
      table.resolve (Plan.signature args) = .ok resolution ∧
      p = Plan.fold (args.all Plan.isConst) (.apply table resolution args) := by
  rw [applyTable] at h
  split at h
  · simp at h
  · next table htable =>
    obtain ⟨resolution, hresolution, hp⟩ := bind_eq_ok_iff.mp h
    exact ⟨table, resolution, htable, hresolution, (Except.ok.inj hp).symm⟩

theorem applyNamed_eq_ok {name : String} {args : List Plan} {p : Plan}
    (h : s.applyNamed name args = .ok p) :
    (∃ f, s.registry.function? name = some f ∧
      p = Plan.fold (args.all Plan.isConst) (.call f args)) ∨
      s.registry.function? name = none ∧ s.applyTable name args = .ok p := by
  rw [applyNamed] at h
  split at h
  · next f hf => exact Or.inl ⟨f, hf, (Except.ok.inj h).symm⟩
  · next hf => exact Or.inr ⟨hf, h⟩

theorem applyIndex_eq_ok {base : Bound} {source : Expr} {index : Plan} {b : Bound}
    (h : s.applyIndex base source index = .ok b) :
    (∃ p q, base = .plan p ∧ s.applyTable "index" [p, index] = .ok q ∧ b = .plan q) ∨
      ∃ node part, base = .structural node ∧ node.part? index = some part ∧
        b = .ofLayout part := by
  cases base with
  | plan p =>
    obtain ⟨q, hq, hb⟩ := bind_eq_ok_iff.mp h
    exact Or.inl ⟨p, q, rfl, hq, (Except.ok.inj hb).symm⟩
  | structural node =>
    rw [applyIndex] at h
    split at h
    · next part hpart => exact Or.inr ⟨node, part, rfl, hpart, (Except.ok.inj h).symm⟩
    · simp at h

theorem bind_var {name : String} {span : Span} {b : Bound}
    (h : s.bind (.var name span) = .ok b) :
    (∃ v, s.registry.constant? name = some v ∧ b = .plan (.const v)) ∨
      s.registry.constant? name = none ∧ ∃ node,
        (s.layout.bind fun root => if name = rootName then some root else root.field? name) =
          some node ∧ b = .ofLayout node := by
  rw [bind, bindName] at h
  split at h
  · next v hv => exact Or.inl ⟨v, hv, (Except.ok.inj h).symm⟩
  · next hnone =>
    split at h
    · next node hnode => exact Or.inr ⟨hnone, node, hnode, (Except.ok.inj h).symm⟩
    · simp at h

theorem bind_call {name : String} {args : List Expr} {span : Span} {b : Bound}
    (h : s.bind (.call name args span) = .ok b) :
    ∃ ps p, s.bindAll args = .ok ps ∧ s.applyNamed name ps = .ok p ∧ b = .plan p := by
  obtain ⟨ps, hps, h⟩ := bind_eq_ok_iff.mp h
  obtain ⟨p, hp, hb⟩ := bind_eq_ok_iff.mp h
  exact ⟨ps, p, hps, hp, (Except.ok.inj hb).symm⟩

theorem bind_index {base index : Expr} {span : Span} {b : Bound}
    (h : s.bind (.index base index span) = .ok b) :
    ∃ bound q, s.bind base = .ok bound ∧ s.bind index = .ok (.plan q) ∧
      s.applyIndex bound index q = .ok b := by
  obtain ⟨bound, hbound, h⟩ := bind_eq_ok_iff.mp h
  obtain ⟨q, hq, h⟩ := operand_eq_ok h
  exact ⟨bound, q, hbound, hq, h⟩

theorem bind_unary {op : UnaryOp} {operand : Expr} {span : Span} {b : Bound}
    (h : s.bind (.unary op operand span) = .ok b) :
    ∃ q p, s.bind operand = .ok (.plan q) ∧ s.applyTable op.table [q] = .ok p ∧
      b = .plan p := by
  obtain ⟨q, hq, h⟩ := operand_eq_ok h
  obtain ⟨p, hp, hb⟩ := bind_eq_ok_iff.mp h
  exact ⟨q, p, hq, hp, (Except.ok.inj hb).symm⟩

theorem bind_binary {op : BinaryOp} {l r : Expr} {span : Span} {b : Bound}
    (h : s.bind (.binary op l r span) = .ok b) :
    ∃ p q, s.bind l = .ok (.plan p) ∧ s.bind r = .ok (.plan q) ∧
      ((∃ name p', op.table? = some name ∧ s.applyTable name [p, q] = .ok p' ∧ b = .plan p') ∨
        op.table? = none ∧ b = .plan (Plan.logical op p q)) := by
  obtain ⟨p, hp, h⟩ := operand_eq_ok h
  obtain ⟨q, hq, h⟩ := operand_eq_ok h
  refine ⟨p, q, hp, hq, ?_⟩
  cases hop : op.table? with
  | some name =>
    rw [hop] at h
    obtain ⟨p', hp', hb⟩ := bind_eq_ok_iff.mp h
    exact Or.inl ⟨name, p', rfl, hp', (Except.ok.inj hb).symm⟩
  | none =>
    rw [hop] at h
    exact Or.inr ⟨rfl, (Except.ok.inj h).symm⟩

/-- Several expressions are bound when each of them is bound to a plan. -/
theorem bindAll_eq_ok_iff {es : List Expr} {ps : List Plan} :
    s.bindAll es = .ok ps ↔ List.Forall₂ (fun e p => s.bind e = .ok (.plan p)) es ps := by
  induction es generalizing ps with
  | nil =>
    rw [List.forall₂_nil_left_iff]
    exact ⟨fun h => (Except.ok.inj h).symm, fun h => h ▸ rfl⟩
  | cons e rest ih =>
    constructor
    · intro h
      obtain ⟨p, hp, h⟩ := operand_eq_ok h
      obtain ⟨qs, hqs, h⟩ := bind_eq_ok_iff.mp h
      obtain rfl : p :: qs = ps := Except.ok.inj h
      exact .cons hp (ih.mp hqs)
    · intro h
      obtain ⟨p, qs, hp, hqs, rfl⟩ := List.forall₂_cons_left_iff.mp h
      rw [bindAll, hp, ih.mpr hqs]
      rfl

end Scope

/-! ### Leaves -/

/-- The leaves that a bound expression refers to: those of a part of the layout, or the one that a
variable stands for. -/
def Bound.leaves : Bound → List (Tag × Nat)
  | .structural node => node.leaves
  | .plan (.var slot t) => [(t, slot)]
  | .plan _ => []

theorem Bound.leaves_ofLayout (node : Layout) : (Bound.ofLayout node).leaves = node.leaves := by
  cases node <;> rfl

theorem Bound.leaves_fold {constant : Bool} {p : Plan} (h : ∀ slot t, p ≠ .var slot t) :
    (Bound.plan (Plan.fold constant p)).leaves = [] := by
  rcases Plan.fold_cases constant p with hp | ⟨v, -, -, hp⟩
  · rw [hp]
    cases p with
    | var slot t => exact absurd rfl (h slot t)
    | _ => rfl
  · rw [hp]
    rfl

/-- A part has no leaves but those of its node, and its index is a constant. -/
theorem Layout.part?_eq_some {node part : Layout} {index : Plan}
    (h : node.part? index = some part) :
    (∃ v, index = .const v) ∧ part.leaves ⊆ node.leaves := by
  rw [part?.eq_def] at h
  split at h
  · split at h
    · exact ⟨⟨_, rfl⟩, (leaves_element? h).subset⟩
    · simp at h
  · split at h
    · exact ⟨⟨_, rfl⟩, (leaves_element? h).subset⟩
    · simp at h
  · exact ⟨⟨_, rfl⟩, (leaves_field? h).subset⟩
  · simp at h

namespace Scope

variable {s : Scope}

/-- The leaves of the layout. -/
def leaves (s : Scope) : List (Tag × Nat) := (s.layout.map Layout.leaves).getD []

theorem leaves_applyTable {name : String} {args : List Plan} {p : Plan}
    (h : s.applyTable name args = .ok p) : (Bound.plan p).leaves = [] := by
  obtain ⟨table, resolution, -, -, rfl⟩ := applyTable_eq_ok h
  exact Bound.leaves_fold nofun

/-- **Variables are leaves of the layout**, and so are all leaves of a structural part. -/
theorem leaves_bind {e : Expr} {b : Bound} (h : s.bind e = .ok b) : b.leaves ⊆ s.leaves := by
  match e with
  | .const v _ =>
    obtain rfl : .plan (.const v) = b := Except.ok.inj h
    exact List.nil_subset _
  | .var name _ =>
    rcases bind_var h with ⟨v, -, rfl⟩ | ⟨-, node, hnode, rfl⟩
    · exact List.nil_subset _
    · obtain ⟨root, hroot, hnode⟩ := Option.bind_eq_some_iff.mp hnode
      rw [Bound.leaves_ofLayout, leaves, hroot, Option.map_some, Option.getD_some]
      split at hnode
      · obtain rfl := Option.some.inj hnode
        exact fun _ hleaf => hleaf
      · exact (Layout.leaves_field? hnode).subset
  | .call name args _ =>
    obtain ⟨ps, p, -, hp, rfl⟩ := bind_call h
    rcases applyNamed_eq_ok hp with ⟨f, -, rfl⟩ | ⟨-, hp⟩
    · have hcall : ∀ slot t, Plan.call f ps ≠ .var slot t := by simp
      rw [Bound.leaves_fold hcall]
      exact List.nil_subset _
    · rw [leaves_applyTable hp]
      exact List.nil_subset _
  | .index base index _ =>
    obtain ⟨bound, q, hbound, -, hb⟩ := bind_index h
    rcases applyIndex_eq_ok hb with ⟨p, p', -, hp', rfl⟩ | ⟨node, part, rfl, hpart, rfl⟩
    · rw [leaves_applyTable hp']
      exact List.nil_subset _
    · rw [Bound.leaves_ofLayout]
      exact List.Subset.trans (Layout.part?_eq_some hpart).2 (leaves_bind hbound)
  | .unary op operand _ =>
    obtain ⟨q, p, -, hp, rfl⟩ := bind_unary h
    rw [leaves_applyTable hp]
    exact List.nil_subset _
  | .binary op l r _ =>
    obtain ⟨p, q, -, -, ⟨name, p', -, hp', rfl⟩ | ⟨-, rfl⟩⟩ := bind_binary h
    · rw [leaves_applyTable hp']
      exact List.nil_subset _
    · rw [Plan.logical, Bound.leaves_fold]
      · exact List.nil_subset _
      · intro slot t
        split <;> simp

end Scope

end Formulary
