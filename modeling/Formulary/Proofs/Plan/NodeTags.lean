import Formulary.Proofs.Plan.Binding

/-!
# Tags of the nodes of a plan

The tag of a plan is right about every value of it, and so is the tag of each node below: the value
carries that tag, unless the tag is `object` or the node is a variable whose slot holds no value.

No induction on values is needed for this. A node is right by itself, as soon as it is one that
binding makes: a variable that is a leaf of the layout, an overload that a table of the registry
chose, or a function of the registry. The induction is on the expression, and says only that
binding makes no other nodes.

## Main definitions

* `Scope.Makes` — the nodes that binding makes

## Main results

* `Scope.makes_bind` — every node of a plan is made by binding
* `Scope.tag_of_makes` — the tag of such a node is right
* `Scope.admits_of_bind`, `Scope.forall₂_admits` — tags of plans and of operands
-/

namespace Formulary

namespace Plan

theorem mem_nodes_self (p : Plan) : p ∈ p.nodes := by
  cases p <;> simp [nodes]

theorem mem_nodesAll_cons {q p : Plan} {rest : List Plan} :
    q ∈ nodesAll (p :: rest) ↔ q ∈ p.nodes ∨ q ∈ nodesAll rest := by
  rw [nodesAll, List.mem_append]

@[simp] theorem nodesAll_singleton (p : Plan) : nodesAll [p] = p.nodes := by
  rw [nodesAll, nodesAll, List.append_nil]

/-- A logical operator has a truth value. -/
theorem tag_eval_and_or (op : BinaryOp) (hop : op.table? = none) {p q : Plan}
    {record : Option Record} {v : Value}
    (h : (if op = .and then and p q else or p q).eval record = .ok v) : v.tag = .boolean := by
  obtain ⟨b, rfl⟩ := boolean_of_shortCircuit ((eval_and_or hop p q record).symm.trans h)
  rfl

end Plan

namespace Scope

variable {s : Scope}

/-! ### Nodes -/

/-- The nodes that binding makes: variables are leaves of the layout, overloads are chosen from
tables of the registry, and functions are functions of the registry. -/
def Makes (s : Scope) : Plan → Prop
  | .const _ | .and .. | .or .. => True
  | .var slot t => (t, slot) ∈ s.leaves
  | .apply table resolution _ =>
    (∃ name, s.registry.table? name = some table) ∧ ∃ key, table.resolve key = .ok resolution
  | .call f _ => ∃ name, s.registry.function? name = some f

/-- What is folded was made, or is a constant. -/
theorem makes_fold {constant : Bool} {p : Plan} (h : ∀ q ∈ p.nodes, s.Makes q) :
    ∀ q ∈ (Plan.fold constant p).nodes, s.Makes q := by
  rcases Plan.fold_cases constant p with hp | ⟨v, -, -, hp⟩
  · rwa [hp]
  · intro q hq
    rw [hp, Plan.nodes] at hq
    · obtain rfl := List.mem_singleton.mp hq
      exact trivial
    all_goals exact nofun

theorem makes_applyTable {name : String} {args : List Plan} {p : Plan}
    (h : s.applyTable name args = .ok p) (hargs : ∀ q ∈ Plan.nodesAll args, s.Makes q) :
    ∀ q ∈ p.nodes, s.Makes q := by
  obtain ⟨table, resolution, htable, hresolution, rfl⟩ := applyTable_eq_ok h
  refine makes_fold fun q hq => ?_
  rw [Plan.nodes] at hq
  rcases List.mem_cons.mp hq with rfl | hq
  · exact ⟨⟨name, htable⟩, _, hresolution⟩
  · exact hargs q hq

theorem makes_applyNamed {name : String} {args : List Plan} {p : Plan}
    (h : s.applyNamed name args = .ok p) (hargs : ∀ q ∈ Plan.nodesAll args, s.Makes q) :
    ∀ q ∈ p.nodes, s.Makes q := by
  rcases applyNamed_eq_ok h with ⟨f, hf, rfl⟩ | ⟨-, hp⟩
  · refine makes_fold fun q hq => ?_
    rw [Plan.nodes] at hq
    rcases List.mem_cons.mp hq with rfl | hq
    · exact ⟨name, hf⟩
    · exact hargs q hq
  · exact makes_applyTable hp hargs

theorem makes_logical {op : BinaryOp} {l r : Plan} (hl : ∀ q ∈ l.nodes, s.Makes q)
    (hr : ∀ q ∈ r.nodes, s.Makes q) : ∀ q ∈ (Plan.logical op l r).nodes, s.Makes q := by
  refine makes_fold fun q hq => ?_
  split at hq <;>
  · rw [Plan.nodes, List.mem_cons, List.mem_append] at hq
    rcases hq with rfl | hq | hq
    · exact trivial
    · exact hl q hq
    · exact hr q hq

/-- A node of the layout that is a plan is a variable. -/
theorem makes_ofLayout {node : Layout} (hleaves : node.leaves ⊆ s.leaves) {p : Plan}
    (hp : Bound.ofLayout node = .plan p) : ∀ q ∈ p.nodes, s.Makes q := by
  cases node with
  | leaf t slot =>
    obtain rfl : Plan.var slot t = p := Bound.plan.inj hp
    intro q hq
    obtain rfl : q = .var slot t := List.mem_singleton.mp hq
    exact hleaves (List.mem_singleton_self _)
  | tuple elements => simp [Bound.ofLayout] at hp
  | dict fields => simp [Bound.ofLayout] at hp

mutual

/-- **Every node of a plan is made by binding.** -/
theorem makes_bind {e : Expr} {p : Plan} (h : s.bind e = .ok (.plan p)) :
    ∀ q ∈ p.nodes, s.Makes q := by
  have hleaves : (Bound.plan p).leaves ⊆ s.leaves := leaves_bind h
  match e with
  | .const v _ =>
    obtain rfl : Plan.const v = p := Bound.plan.inj (Except.ok.inj h)
    intro q hq
    obtain rfl : q = .const v := List.mem_singleton.mp hq
    exact trivial
  | .var name _ =>
    rcases bind_var h with ⟨v, -, hp⟩ | ⟨-, node, -, hp⟩
    · obtain rfl := Bound.plan.inj hp
      intro q hq
      obtain rfl : q = .const v := List.mem_singleton.mp hq
      exact trivial
    · rw [hp, Bound.leaves_ofLayout] at hleaves
      exact makes_ofLayout hleaves hp.symm
  | .call name args _ =>
    obtain ⟨ps, p', hps, hp', hp⟩ := bind_call h
    obtain rfl := Bound.plan.inj hp
    exact makes_applyNamed hp' (makes_bindAll hps)
  | .index base index _ =>
    obtain ⟨bound, q, hbound, hq, hb⟩ := bind_index h
    rcases applyIndex_eq_ok hb with ⟨p', q', rfl, hq', hp⟩ | ⟨node, part, -, -, hp⟩
    · obtain rfl := Bound.plan.inj hp
      refine makes_applyTable hq' fun q'' hq'' => ?_
      rw [Plan.mem_nodesAll_cons, Plan.nodesAll_singleton] at hq''
      exact hq''.elim (makes_bind hbound q'') (makes_bind hq q'')
    · rw [hp, Bound.leaves_ofLayout] at hleaves
      exact makes_ofLayout hleaves hp.symm
  | .unary op operand _ =>
    obtain ⟨q, p', hq, hp', hp⟩ := bind_unary h
    obtain rfl := Bound.plan.inj hp
    refine makes_applyTable hp' ?_
    rw [Plan.nodesAll_singleton]
    exact makes_bind hq
  | .binary op l r _ =>
    obtain ⟨p', q', hp', hq', ⟨name, p'', -, hp'', hp⟩ | ⟨-, hp⟩⟩ := bind_binary h
    · obtain rfl := Bound.plan.inj hp
      refine makes_applyTable hp'' fun q hq => ?_
      rw [Plan.mem_nodesAll_cons, Plan.nodesAll_singleton] at hq
      exact hq.elim (makes_bind hp' q) (makes_bind hq' q)
    · obtain rfl := Bound.plan.inj hp
      exact makes_logical (makes_bind hp') (makes_bind hq')

theorem makes_bindAll {es : List Expr} {ps : List Plan} (h : s.bindAll es = .ok ps) :
    ∀ q ∈ Plan.nodesAll ps, s.Makes q := by
  match es with
  | [] =>
    obtain rfl : [] = ps := Except.ok.inj h
    exact nofun
  | e :: rest =>
    obtain ⟨p, qs, hp, hqs, rfl⟩ := List.forall₂_cons_left_iff.mp (bindAll_eq_ok_iff.mp h)
    intro q hq
    exact (Plan.mem_nodesAll_cons.mp hq).elim (makes_bind hp q)
      (makes_bindAll (bindAll_eq_ok_iff.mpr hqs) q)

end

/-! ### Tags -/

variable {record : Record} {v : Value}

/-- **The tag of a node is right.** -/
theorem tag_of_makes (hs : s.registry.Honest) (hrecord : record.Conforms s.leaves) {q : Plan}
    (hq : s.Makes q) (hv : q.eval (some record) = .ok v) :
    q.tag = .object ∨ v.tag = q.tag ∨
      ∃ slot t, q = .var slot t ∧ record.get? slot = some .null := by
  cases q with
  | const w =>
    obtain rfl : w = v := Except.ok.inj hv
    exact Or.inr (Or.inl rfl)
  | var slot t =>
    rw [Plan.eval, Plan.readSlot] at hv
    split at hv
    · next w hw =>
      obtain rfl : w = v := Except.ok.inj hv
      rcases hrecord t slot w hq hw with rfl | htag | htag
      · exact Or.inr (Or.inr ⟨slot, t, rfl, hw⟩)
      · exact Or.inr (Or.inl htag)
      · exact Or.inl htag
    · simp at hv
  | apply table resolution args =>
    obtain ⟨⟨name, htable⟩, key, hresolution⟩ := hq
    obtain ⟨vs, -, hv⟩ := bind_eq_ok_iff.mp hv
    rcases (hs.tables name table htable).tag_apply hresolution hv with htag | htag
    · exact Or.inr (Or.inl htag)
    · exact Or.inl htag
  | and l r => exact Or.inr (Or.inl (Plan.tag_eval_and_or .and rfl hv))
  | or l r => exact Or.inr (Or.inl (Plan.tag_eval_and_or .or rfl hv))
  | call f args =>
    obtain ⟨name, hf⟩ := hq
    obtain ⟨vs, -, hv⟩ := bind_eq_ok_iff.mp hv
    rcases hs.functions name f hf vs v hv with htag | htag
    · exact Or.inr (Or.inl htag)
    · exact Or.inl htag

/-- The tag of a node admits its value. -/
theorem admits_of_makes (hs : s.registry.Honest) (hrecord : record.Conforms s.leaves) {q : Plan}
    (hq : s.Makes q) (hv : q.eval (some record) = .ok v) : q.tag.Admits v := by
  rcases tag_of_makes hs hrecord hq hv with htag | htag | ⟨slot, t, rfl, hslot⟩
  · exact Or.inr (Or.inr htag)
  · exact Or.inr (Or.inl htag)
  · rw [Plan.eval, Plan.readSlot, hslot] at hv
    exact Or.inl (Except.ok.inj hv).symm

/-- **Tags of plans are right.** On a record that conforms to the layout a plan has no value, or
one that carries the tag of the plan, or the tag is `object`. -/
theorem admits_of_bind (hs : s.registry.Honest) (hrecord : record.Conforms s.leaves) {e : Expr}
    {p : Plan} (h : s.bind e = .ok (.plan p)) (hv : p.eval (some record) = .ok v) :
    p.tag.Admits v :=
  admits_of_makes hs hrecord (makes_bind h p p.mem_nodes_self) hv

/-- Tags of operands are right. -/
theorem forall₂_admits (hs : s.registry.Honest) (hrecord : record.Conforms s.leaves)
    {es : List Expr} {ps : List Plan}
    (h : List.Forall₂ (fun e p => s.bind e = .ok (.plan p)) es ps) {vs : List Value}
    (hvs : Plan.evalAll (some record) ps = .ok vs) :
    List.Forall₂ Tag.Admits (Plan.signature ps) vs := by
  induction h generalizing vs with
  | nil =>
    obtain rfl : [] = vs := Except.ok.inj hvs
    exact .nil
  | cons hp _ ih =>
    obtain ⟨v, ws, hv, hws, rfl⟩ := Plan.evalAll_cons_eq_ok.mp hvs
    exact .cons (admits_of_bind hs hrecord hp hv) (ih hws)

end Scope

end Formulary
