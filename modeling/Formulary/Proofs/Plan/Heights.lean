import Formulary.Proofs.Plan.Binding

/-!
# The height of plans

A plan is no higher than the expression it was bound from. Every node of an expression becomes one
node of the plan, or gives way to something lower: an operator on constants to its value, and an
index into a structural part to the variable that it leads to.

## Implementation notes

Binding asks little of the record, and this is all that the bound depends on. So it is shown for
every way of answering: a `View` says which parts there are, which of them have a slot, and where
fields and elements lead. Layouts are one kind of view, `View.bind_ofLayout`.

## Main definitions

* `View` — what binding asks of the record
* `View.compile` — the plan of an expression against a view

## Main results

* `View.compile_ofLayout` — binding against a layout is binding against its view
* `View.height_compile` — plans are no higher than their expressions
-/

namespace Formulary

/-! ### Heights of operators -/

namespace Plan

theorem height_pos (p : Plan) : 0 < p.height := by
  cases p <;> simp only [height] <;> omega

/-- Folding leaves a plan as it is or puts a leaf in its place. -/
theorem height_fold (constant : Bool) (p : Plan) : (fold constant p).height ≤ p.height := by
  rcases fold_cases constant p with hp | ⟨v, -, -, hp⟩
  · exact Nat.le_of_eq (congrArg height hp)
  · rw [hp, height]
    exact p.height_pos

theorem height_logical (op : BinaryOp) (p q : Plan) :
    (logical op p q).height ≤ 1 + max p.height q.height := by
  refine Nat.le_trans (height_fold _ _) ?_
  split <;> exact Nat.le_refl _

end Plan

namespace Scope

variable {s : Scope} {name : String} {args : List Plan} {p : Plan}

theorem height_applyTable (h : s.applyTable name args = .ok p) :
    p.height ≤ 1 + Plan.heights args := by
  obtain ⟨table, resolution, -, -, rfl⟩ := applyTable_eq_ok h
  exact Plan.height_fold _ (.apply table resolution args)

theorem height_applyNamed (h : s.applyNamed name args = .ok p) :
    p.height ≤ 1 + Plan.heights args := by
  rcases applyNamed_eq_ok h with ⟨f, -, rfl⟩ | ⟨-, h⟩
  · exact Plan.height_fold _ (.call f args)
  · exact height_applyTable h

end Scope

/-! ### Views -/

/-- What binding asks of a record with such parts. -/
structure View (Part : Type) where
  /-- The record as a whole, if there is one. -/
  whole : Option Part
  /-- The slot of a part that has a value of its own. -/
  slot? : Part → Option Nat
  /-- The tag of a part. -/
  tag : Part → Tag
  /-- The part under a name. -/
  field? : Part → String → Option Part
  /-- The part at a position. -/
  element? : Part → Nat → Option Part

namespace View

/-- A bound expression, or a part of the record that has no value of its own. -/
inductive Bound (Part : Type)
  | plan (p : Plan)
  | structural (part : Part)

section

variable {Part : Type} (view : View Part) (registry : Registry)

/-- A part of the record: where it has a slot, it is a variable. -/
def ofPart (part : Part) : Bound Part :=
  match view.slot? part with
  | some slot => .plan (.var slot (view.tag part))
  | none => .structural part

/-- The plan; a structural part has none. -/
def toPlan (source : Expr) : Bound Part → Except Fault Plan
  | .plan p => .ok p
  | .structural part => .error (.unindexedStructure source.print (view.tag part))

/-- The part of a structural part under a constant index. -/
def part? (part : Part) : Plan → Option Part
  | .const (.long i) => if 0 ≤ i.toInt then view.element? part i.toInt.toNat else none
  | .const (.integer i) => if 0 ≤ i.toInt then view.element? part i.toInt.toNat else none
  | .const (.string name) => view.field? part name
  | _ => none

/-- The binding of a name. -/
def bindName (name : String) : Except Fault (Bound Part) :=
  match registry.constant? name with
  | some v => .ok (.plan (.const v))
  | none =>
    match view.whole.bind fun part =>
      if name = Scope.rootName then some part else view.field? part name with
    | some part => .ok (view.ofPart part)
    | none => .error (.unknownIdentifier name)

/-- What operators and calls are bound against. They do not depend on the record. -/
def operators : Scope := ⟨none, registry⟩

/-- An index into a bound expression. -/
def applyIndex (base : Bound Part) (indexSource : Expr) (index : Plan) :
    Except Fault (Bound Part) :=
  match base with
  | .plan p => do return .plan (← (operators registry).applyTable "index" [p, index])
  | .structural part =>
    match view.part? part index with
    | some part => .ok (view.ofPart part)
    | none => .error (.invalidIndex indexSource.print (view.tag part))

mutual

/-- The binding of an expression. -/
def bind : Expr → Except Fault (Bound Part)
  | .const v _ => .ok (.plan (.const v))
  | .var name _ => view.bindName registry name
  | .call name args _ => do
    return .plan (← (operators registry).applyNamed name (← bindAll args))
  | .index base index _ => do
    let base ← bind base
    let position ← view.toPlan index (← bind index)
    view.applyIndex registry base index position
  | .unary op operand _ => do
    let p ← view.toPlan operand (← bind operand)
    return .plan (← (operators registry).applyTable op.table [p])
  | .binary op l r _ => do
    let p ← view.toPlan l (← bind l)
    let q ← view.toPlan r (← bind r)
    match op.table? with
    | some name => return .plan (← (operators registry).applyTable name [p, q])
    | none => return .plan (Plan.logical op p q)

/-- The plans of several expressions. -/
def bindAll : List Expr → Except Fault (List Plan)
  | [] => .ok []
  | e :: rest => do
    let p ← view.toPlan e (← bind e)
    let ps ← bindAll rest
    return p :: ps

end

/-- The plan of an expression. -/
def compile (e : Expr) : Except Fault Plan := do view.toPlan e (← view.bind registry e)

end

/-! ### Layouts are views -/

/-- The view of a layout. -/
def ofLayout (layout : Option Layout) : View Layout :=
  ⟨layout, Layout.slot?, Layout.tag, Layout.field?, Layout.element?⟩

/-- What is bound against the view of a layout, as it is against the layout. -/
def Bound.toBound : Bound Layout → Formulary.Bound
  | .plan p => .plan p
  | .structural node => .structural node

section

variable {layout : Option Layout}

theorem toBound_ofPart (node : Layout) :
    ((ofLayout layout).ofPart node).toBound = .ofLayout node := by
  cases node <;> rfl

theorem part?_ofLayout (node : Layout) (index : Plan) :
    (ofLayout layout).part? node index = node.part? index := by
  rw [part?.eq_def, Layout.part?.eq_def]
  rfl

theorem map_bind {α : Type} (x : Except Fault α) (next : α → Except Fault (Bound Layout)) :
    (x >>= next).map Bound.toBound = x >>= fun a => (next a).map Bound.toBound := by
  cases x <;> rfl

/-- An operand is bound, and what goes on from its plan does so alike. -/
theorem map_operand {e : Expr} {x : Except Fault (Bound Layout)}
    {x' : Except Fault Formulary.Bound} {next : Plan → Except Fault (Bound Layout)}
    {next' : Plan → Except Fault Formulary.Bound} (hx : x.map Bound.toBound = x')
    (hnext : ∀ p, (next p).map Bound.toBound = next' p) :
    (x >>= fun b => (ofLayout layout).toPlan e b >>= next).map Bound.toBound =
      x' >>= fun b => b.toPlan e >>= next' := by
  subst hx
  cases x with
  | error fault => rfl
  | ok b =>
    cases b with
    | plan p => exact hnext p
    | structural node => rfl

theorem map_bindName (s : Scope) (name : String) :
    ((ofLayout s.layout).bindName s.registry name).map Bound.toBound = s.bindName name := by
  have hnode : (ofLayout s.layout).whole.bind (fun node =>
      if name = Scope.rootName then some node else (ofLayout s.layout).field? node name) =
      s.layout.bind fun node =>
        if name = Scope.rootName then some node else node.field? name := rfl
  rw [bindName, hnode, Scope.bindName]
  cases s.registry.constant? name with
  | some v => rfl
  | none =>
    cases s.layout.bind fun node =>
        if name = Scope.rootName then some node else node.field? name with
    | none => rfl
    | some node => exact congrArg Except.ok (toBound_ofPart node)

theorem map_applyIndex (s : Scope) (base : Bound Layout) (e : Expr) (index : Plan) :
    ((ofLayout s.layout).applyIndex s.registry base e index).map Bound.toBound =
      s.applyIndex base.toBound e index := by
  cases base with
  | plan p => exact map_bind _ _
  | structural node =>
    rw [applyIndex, part?_ofLayout, Bound.toBound]
    cases hpart : node.part? index with
    | none =>
      rw [Scope.applyIndex, hpart]
      rfl
    | some part =>
      rw [Scope.applyIndex, hpart]
      exact congrArg Except.ok (toBound_ofPart part)

end

variable (s : Scope)

mutual

/-- **Layouts are views**: binding against a layout is binding against its view. -/
theorem bind_ofLayout (e : Expr) :
    ((ofLayout s.layout).bind s.registry e).map Bound.toBound = s.bind e := by
  match e with
  | .const v _ => rfl
  | .var name _ => exact map_bindName s name
  | .call name args _ =>
    rw [bind, bindAll_ofLayout args, map_bind]
    exact bind_congr fun ps => map_bind _ _
  | .index base index _ =>
    rw [bind, map_bind, Scope.bind, ← bind_ofLayout base]
    cases (ofLayout s.layout).bind s.registry base with
    | error fault => rfl
    | ok b => exact map_operand (bind_ofLayout index) fun p => map_applyIndex s b index p
  | .unary op operand _ => exact map_operand (bind_ofLayout operand) fun p => map_bind _ _
  | .binary op l r _ =>
    refine map_operand (bind_ofLayout l) fun p => map_operand (bind_ofLayout r) fun q => ?_
    cases op.table? with
    | none => rfl
    | some name => exact map_bind _ _

theorem bindAll_ofLayout (es : List Expr) :
    (ofLayout s.layout).bindAll s.registry es = s.bindAll es := by
  match es with
  | [] => rfl
  | e :: rest =>
    rw [bindAll, bindAll_ofLayout rest, Scope.bindAll, ← bind_ofLayout e]
    cases (ofLayout s.layout).bind s.registry e with
    | error fault => rfl
    | ok b => cases b <;> rfl

end

/-- The plan against a layout is the one against its view. -/
theorem compile_ofLayout (e : Expr) :
    (ofLayout s.layout).compile s.registry e = e.compile s := by
  rw [compile, Expr.compile, ← bind_ofLayout]
  cases (ofLayout s.layout).bind s.registry e with
  | error fault => rfl
  | ok b => cases b <;> rfl

/-! ### Heights -/

section

variable {Part : Type} {view : View Part} {registry : Registry}

/-- What goes on from the plan of an operand has bound it to a plan. -/
theorem operand_eq_ok {β : Type} {e : Expr} {next : Plan → Except Fault β} {b : β}
    (h : (view.bind registry e >>= fun bound => view.toPlan e bound >>= next) = .ok b) :
    ∃ p, view.bind registry e = .ok (.plan p) ∧ next p = .ok b := by
  obtain ⟨bound, hbound, hplan⟩ := bind_eq_ok_iff.mp h
  cases bound with
  | plan p => exact ⟨p, hbound, hplan⟩
  | structural part => exact nomatch hplan

/-- A part of the record is a variable at most. -/
theorem height_ofPart {part : Part} {p : Plan} (h : view.ofPart part = .plan p) : p.height = 1 := by
  rw [ofPart] at h
  split at h
  · cases h
    rfl
  · exact nomatch h

/-- An index is an operator on two plans, or leads to a variable. -/
theorem height_applyIndex {base : Bound Part} {e : Expr} {index p : Plan} {n : Nat}
    (hbase : ∀ q, base = .plan q → q.height ≤ n)
    (h : view.applyIndex registry base e index = .ok (.plan p)) :
    p.height ≤ 1 + max n index.height := by
  cases base with
  | plan q =>
    obtain ⟨p', hp', h⟩ := bind_eq_ok_iff.mp h
    cases h
    have hq := hbase q rfl
    have hheight := Scope.height_applyTable hp'
    simp only [Plan.heights] at hheight
    omega
  | structural part =>
    rw [applyIndex] at h
    split at h
    · rw [height_ofPart (Except.ok.inj h)]
      omega
    · exact nomatch h

mutual

theorem height_bind {e : Expr} {p : Plan} (h : view.bind registry e = .ok (.plan p)) :
    p.height ≤ e.height := by
  match e with
  | .const v _ =>
    cases h
    exact Nat.le_refl 1
  | .var name _ =>
    rw [bind, bindName] at h
    split at h
    · cases h
      exact Nat.le_refl 1
    · split at h
      · exact Nat.le_of_eq (height_ofPart (Except.ok.inj h))
      · exact nomatch h
  | .call name args _ =>
    obtain ⟨ps, hps, h⟩ := bind_eq_ok_iff.mp h
    obtain ⟨p', hp', h⟩ := bind_eq_ok_iff.mp h
    cases h
    calc
      p.height ≤ 1 + Plan.heights ps := Scope.height_applyNamed hp'
      _ ≤ 1 + Expr.heights args := Nat.add_le_add_left (heights_bindAll hps) 1
  | .index base index _ =>
    obtain ⟨b, hb, h⟩ := bind_eq_ok_iff.mp h
    obtain ⟨q, hq, h⟩ := operand_eq_ok h
    have hbase : ∀ q', b = .plan q' → q'.height ≤ base.height := by
      rintro q' rfl
      exact height_bind hb
    calc
      p.height ≤ 1 + max base.height q.height := height_applyIndex hbase h
      _ ≤ 1 + max base.height index.height := by
        have := height_bind hq
        omega
  | .unary op operand _ =>
    obtain ⟨q, hq, h⟩ := operand_eq_ok h
    obtain ⟨p', hp', h⟩ := bind_eq_ok_iff.mp h
    cases h
    have hheight := Scope.height_applyTable hp'
    have := height_bind hq
    simp only [Plan.heights] at hheight
    rw [Expr.height]
    omega
  | .binary op l r _ =>
    obtain ⟨p₁, hp₁, h⟩ := operand_eq_ok h
    obtain ⟨p₂, hp₂, h⟩ := operand_eq_ok h
    have hnode : p.height ≤ 1 + max p₁.height p₂.height := by
      cases hop : op.table? with
      | none =>
        rw [hop] at h
        cases h
        exact Plan.height_logical op p₁ p₂
      | some name =>
        rw [hop] at h
        obtain ⟨p', hp', h⟩ := bind_eq_ok_iff.mp h
        cases h
        have hheight := Scope.height_applyTable hp'
        simp only [Plan.heights] at hheight
        omega
    have := height_bind hp₁
    have := height_bind hp₂
    rw [Expr.height]
    omega

theorem heights_bindAll {es : List Expr} {ps : List Plan}
    (h : view.bindAll registry es = .ok ps) : Plan.heights ps ≤ Expr.heights es := by
  match es with
  | [] =>
    cases h
    exact Nat.le_refl 0
  | e :: rest =>
    obtain ⟨p, hp, h⟩ := operand_eq_ok h
    obtain ⟨ps', hps', h⟩ := bind_eq_ok_iff.mp h
    cases h
    have := height_bind hp
    have := heights_bindAll hps'
    rw [Plan.heights, Expr.heights]
    omega

end

/-- **A plan is no higher than its expression**, whatever it is bound against. -/
theorem height_compile {e : Expr} {p : Plan} (h : view.compile registry e = .ok p) :
    p.height ≤ e.height := by
  obtain ⟨b, hb, h⟩ := bind_eq_ok_iff.mp h
  cases b with
  | plan q =>
    cases h
    exact height_bind hb
  | structural part => exact nomatch h

end

end View

end Formulary
