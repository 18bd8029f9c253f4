import Formulary.Proofs.Plan.NodeTags

/-!
# Folding as a pass over plans

Binding folds operators on constants while it goes. This file gives binding without folding, and
shows that folding can as well be done afterwards, in one pass over the plan.

## Scope

Nothing is said of expressions that are bound in one way only. There are such expressions, since an
index into a structural part has to be a constant, and some are constants only by folding.

## Implementation notes

Binding is given once more with what is made of operators left open. Folding them gives binding as
it is, and keeping them gives binding without folding. Both are followed through one expression at a
time, as far as both succeed.

The pass asks every table once more, by the tags that operands have once they are folded, since that
is what binding with folding asks them by.

## Main definitions

* `Scope.bindWith`, `Expr.compileWith` — binding with another treatment of operators on constants
* `Plan.refold` — folding as a pass
* `Scope.Keeps` — the plans that binding makes without folding

## Main results

* `Scope.bindWith_fold` — binding is one of these treatments
* `Expr.refold_compileWith_keep` — and comes from binding without folding by the pass
* `Scope.makes_refold` — the pass gives plans that binding makes
-/

namespace Formulary

/-! ### Binding with folding left open -/

/-- What is made of an operator, given whether its operands are constants. -/
abbrev Plan.Treatment := Bool → Plan → Plan

/-- Operators are kept. -/
def Plan.keep : Plan.Treatment := fun _ p => p

namespace Scope

variable (treat : Plan.Treatment) (s : Scope)

/-- An operator or a function of a table, on bound operands. -/
def applyTableWith (name : String) (args : List Plan) : Except Fault Plan :=
  match s.registry.table? name with
  | none => .error (.unknownFunction name)
  | some table => do
    let resolution ← table.resolve (Plan.signature args)
    return treat (args.all Plan.isConst) (.apply table resolution args)

/-- A call by name, on bound arguments. -/
def applyNamedWith (name : String) (args : List Plan) : Except Fault Plan :=
  match s.registry.function? name with
  | some f => .ok (treat (args.all Plan.isConst) (.call f args))
  | none => applyTableWith treat s name args

/-- An index into a bound expression. -/
def applyIndexWith (base : Bound) (indexSource : Expr) (index : Plan) : Except Fault Bound :=
  match base with
  | .plan p => do return .plan (← applyTableWith treat s "index" [p, index])
  | .structural node =>
    match node.part? index with
    | some part => .ok (.ofLayout part)
    | none => .error (.invalidIndex indexSource.print node.tag)

/-- A logical operator. -/
def logicalWith (op : BinaryOp) (l r : Plan) : Plan :=
  treat (l.isConst && r.isConst) (if op = .and then .and l r else .or l r)

mutual

/-- The binding of an expression. -/
def bindWith : Expr → Except Fault Bound
  | .const v _ => .ok (.plan (.const v))
  | .var name _ => s.bindName name
  | .call name args _ => do return .plan (← applyNamedWith treat s name (← bindAllWith args))
  | .index base index _ => do
    let base ← bindWith base
    let position ← (← bindWith index).toPlan index
    applyIndexWith treat s base index position
  | .unary op operand _ => do
    let p ← (← bindWith operand).toPlan operand
    return .plan (← applyTableWith treat s op.table [p])
  | .binary op l r _ => do
    let p ← (← bindWith l).toPlan l
    let q ← (← bindWith r).toPlan r
    match op.table? with
    | some name => return .plan (← applyTableWith treat s name [p, q])
    | none => return .plan (logicalWith treat op p q)

/-- The plans of several expressions. -/
def bindAllWith : List Expr → Except Fault (List Plan)
  | [] => .ok []
  | e :: rest => do
    let p ← (← bindWith e).toPlan e
    let ps ← bindAllWith rest
    return p :: ps

end

mutual

/-- **Binding folds operators on constants**, and does nothing else with them. -/
theorem bindWith_fold (e : Expr) : bindWith Plan.fold s e = s.bind e := by
  match e with
  | .const _ _ | .var _ _ => rfl
  | .call name args _ =>
    rw [bindWith, bindAllWith_fold args]
    rfl
  | .index base index _ =>
    rw [bindWith, bindWith_fold base, bindWith_fold index]
    rfl
  | .unary op operand _ =>
    rw [bindWith, bindWith_fold operand]
    rfl
  | .binary op l r _ =>
    rw [bindWith, bindWith_fold l, bindWith_fold r]
    rfl

theorem bindAllWith_fold (es : List Expr) : bindAllWith Plan.fold s es = s.bindAll es := by
  match es with
  | [] => rfl
  | e :: rest =>
    rw [bindAllWith, bindWith_fold e, bindAllWith_fold rest]
    rfl

end

end Scope

/-- The plan of an expression. -/
def Expr.compileWith (treat : Plan.Treatment) (e : Expr) (s : Scope) : Except Fault Plan := do
  (← s.bindWith treat e).toPlan e

theorem Expr.compileWith_fold (e : Expr) (s : Scope) :
    e.compileWith Plan.fold s = e.compile s := by
  rw [compileWith, Scope.bindWith_fold]
  rfl

/-! ### Folding as a pass -/

namespace Plan

mutual

/-- Folding, from the operands up. Tables are asked once more, by the tags of folded operands. -/
def refold : Plan → Except Fault Plan
  | const v => .ok (const v)
  | var slot t => .ok (var slot t)
  | apply table _ args => do
    let args ← refoldAll args
    let resolution ← table.resolve (signature args)
    return fold (args.all isConst) (.apply table resolution args)
  | and l r => do
    let l ← refold l
    let r ← refold r
    return logical .and l r
  | or l r => do
    let l ← refold l
    let r ← refold r
    return logical .or l r
  | call f args => do
    let args ← refoldAll args
    return fold (args.all isConst) (.call f args)

/-- Folding of several plans. -/
def refoldAll : List Plan → Except Fault (List Plan)
  | [] => .ok []
  | q :: rest => do
    let p ← refold q
    let ps ← refoldAll rest
    return p :: ps

end

section

variable {p q l r : Plan} {ps qs args : List Plan} {table : Table} {resolution : Resolution}

theorem refoldAll_cons_eq_ok :
    refoldAll (q :: qs) = .ok ps ↔
      ∃ p' ps', q.refold = .ok p' ∧ refoldAll qs = .ok ps' ∧ p' :: ps' = ps := by
  rw [refoldAll, bind_eq_ok_iff]
  constructor
  · rintro ⟨p', hp', h⟩
    obtain ⟨ps', hps', h⟩ := bind_eq_ok_iff.mp h
    exact ⟨p', ps', hp', hps', Except.ok.inj h⟩
  · rintro ⟨p', ps', hp', hps', rfl⟩
    refine ⟨p', hp', ?_⟩
    rw [hps']
    rfl

theorem refold_apply_eq_ok (h : (apply table resolution args).refold = .ok p) :
    ∃ ps early, refoldAll args = .ok ps ∧ table.resolve (signature ps) = .ok early ∧
      fold (ps.all isConst) (.apply table early ps) = p := by
  rw [refold] at h
  obtain ⟨ps, hps, h⟩ := bind_eq_ok_iff.mp h
  obtain ⟨early, hearly, h⟩ := bind_eq_ok_iff.mp h
  exact ⟨ps, early, hps, hearly, Except.ok.inj h⟩

theorem refold_call_eq_ok {f : Function} (h : (call f args).refold = .ok p) :
    ∃ ps, refoldAll args = .ok ps ∧ fold (ps.all isConst) (.call f ps) = p := by
  rw [refold] at h
  obtain ⟨ps, hps, h⟩ := bind_eq_ok_iff.mp h
  exact ⟨ps, hps, Except.ok.inj h⟩

theorem refold_and_eq_ok (h : (and l r).refold = .ok p) :
    ∃ l' r', l.refold = .ok l' ∧ r.refold = .ok r' ∧ logical .and l' r' = p := by
  rw [refold] at h
  obtain ⟨l', hl, h⟩ := bind_eq_ok_iff.mp h
  obtain ⟨r', hr, h⟩ := bind_eq_ok_iff.mp h
  exact ⟨l', r', hl, hr, Except.ok.inj h⟩

theorem refold_or_eq_ok (h : (or l r).refold = .ok p) :
    ∃ l' r', l.refold = .ok l' ∧ r.refold = .ok r' ∧ logical .or l' r' = p := by
  rw [refold] at h
  obtain ⟨l', hl, h⟩ := bind_eq_ok_iff.mp h
  obtain ⟨r', hr, h⟩ := bind_eq_ok_iff.mp h
  exact ⟨l', r', hl, hr, Except.ok.inj h⟩

end

end Plan

namespace Scope

mutual

/-- The plans that binding makes when it keeps operators: as `Makes` at every node, and every table
has been asked by the tags of the operands. -/
def Keeps (s : Scope) : Plan → Prop
  | .const _ => True
  | .var slot t => (t, slot) ∈ s.leaves
  | .apply table resolution args => (∃ name, s.registry.table? name = some table) ∧
      table.resolve (Plan.signature args) = .ok resolution ∧ KeepsAll s args
  | .and l r | .or l r => Keeps s l ∧ Keeps s r
  | .call f args => (∃ name, s.registry.function? name = some f) ∧ KeepsAll s args

/-- So are several plans. -/
def KeepsAll (s : Scope) : List Plan → Prop
  | [] => True
  | q :: rest => Keeps s q ∧ KeepsAll s rest

end

end Scope

/-- The plan comes from folding one that is bound without. -/
structure Plan.Mirrors (s : Scope) (p q : Plan) : Prop where
  /-- The pass gives it. -/
  refold : q.refold = .ok p
  /-- The other one is bound without folding. -/
  keeps : s.Keeps q

namespace Plan.Mirrors

variable {s : Scope} {p q : Plan} {ps qs : List Plan}

theorem const (s : Scope) (v : Value) : Mirrors s (const v) (const v) := ⟨rfl, trivial⟩

theorem var {slot : Nat} {t : Tag} (h : (t, slot) ∈ s.leaves) :
    Mirrors s (var slot t) (var slot t) :=
  ⟨rfl, h⟩

theorem refoldAll (h : List.Forall₂ (Mirrors s) ps qs) : Plan.refoldAll qs = .ok ps := by
  induction h with
  | nil => rfl
  | cons hhead _ ih => exact refoldAll_cons_eq_ok.mpr ⟨_, _, hhead.refold, ih, rfl⟩

theorem keepsAll (h : List.Forall₂ (Mirrors s) ps qs) : s.KeepsAll qs := by
  induction h with
  | nil => exact trivial
  | cons hhead _ ih => exact ⟨hhead.keeps, ih⟩

/-- A table that is asked on both sides. -/
theorem apply {name : String} {table : Table} (htable : s.registry.table? name = some table)
    {early early' : Resolution} (hearly : table.resolve (signature ps) = .ok early)
    (hearly' : table.resolve (signature qs) = .ok early') (h : List.Forall₂ (Mirrors s) ps qs) :
    Mirrors s (fold (ps.all isConst) (.apply table early ps)) (.apply table early' qs) := by
  refine ⟨?_, ⟨name, htable⟩, hearly', keepsAll h⟩
  rw [Plan.refold, refoldAll h, ok_bind, hearly]
  rfl

/-- A function that is called on both sides. -/
theorem call {name : String} {f : Function} (hf : s.registry.function? name = some f)
    (h : List.Forall₂ (Mirrors s) ps qs) :
    Mirrors s (fold (ps.all isConst) (.call f ps)) (.call f qs) := by
  refine ⟨?_, ⟨name, hf⟩, keepsAll h⟩
  rw [Plan.refold, refoldAll h]
  rfl

/-- A logical operator on both sides. -/
theorem logical {op : BinaryOp} (hop : op.table? = none) {p' q' : Plan}
    (hleft : Mirrors s p q) (hright : Mirrors s p' q') :
    Mirrors s (logical op p p') (if op = .and then .and q q' else .or q q') := by
  cases op <;> simp only [BinaryOp.table?, reduceCtorEq] at hop
  · refine ⟨?_, hleft.keeps, hright.keeps⟩
    rw [if_pos rfl, Plan.refold, hleft.refold, hright.refold]
    rfl
  · refine ⟨?_, hleft.keeps, hright.keeps⟩
    rw [if_neg (by decide), Plan.refold, hleft.refold, hright.refold]
    rfl

end Plan.Mirrors

/-! ### Binding both ways -/

/-- Results are related where there are both. -/
def Related {α β : Type} (r : α → β → Prop) (x : Except Fault α) (y : Except Fault β) : Prop :=
  ∀ a b, x = .ok a → y = .ok b → r a b

namespace Related

variable {α β γ δ : Type} {r : α → β → Prop} {t : γ → δ → Prop}

theorem ok {a : α} {b : β} (h : r a b) : Related r (.ok a) (.ok b) := by
  rintro _ _ ⟨⟩ ⟨⟩
  exact h

theorem bind {x : Except Fault α} {y : Except Fault β} {f : α → Except Fault γ}
    {g : β → Except Fault δ} (h : Related r x y) (hfg : ∀ a b, r a b → Related t (f a) (g b)) :
    Related t (x >>= f) (y >>= g) := by
  intro c d hc hd
  obtain ⟨a, ha, hc⟩ := bind_eq_ok_iff.mp hc
  obtain ⟨b, hb, hd⟩ := bind_eq_ok_iff.mp hd
  exact hfg a b (h a b ha hb) c d hc hd

end Related

/-- What is bound with folding, and what is bound without: plans, or one part of the layout. -/
inductive Bound.Mirrors (s : Scope) : Bound → Bound → Prop
  | plan {p q : Plan} (h : p.Mirrors s q) : Mirrors s (.plan p) (.plan q)
  | structural {node : Layout} (h : node.leaves ⊆ s.leaves) :
      Mirrors s (.structural node) (.structural node)

theorem Bound.Mirrors.ofLayout {s : Scope} {node : Layout} (h : node.leaves ⊆ s.leaves) :
    Mirrors s (ofLayout node) (ofLayout node) := by
  cases node with
  | leaf t slot => exact .plan (.var (h (List.mem_singleton_self _)))
  | tuple elements => exact .structural h
  | dict fields => exact .structural h

theorem Bound.Mirrors.toPlan {s : Scope} {b c : Bound} (source : Expr) (h : Mirrors s b c) :
    Related (Plan.Mirrors s) (b.toPlan source) (c.toPlan source) := by
  cases h with
  | plan h => exact .ok h
  | structural h => exact nofun

namespace Scope

open Plan (keep)

variable (s : Scope)

theorem mirrors_bindName (name : String) :
    Related (Bound.Mirrors s) (s.bindName name) (s.bindName name) := by
  intro b c hb hc
  obtain rfl : b = c := Except.ok.inj (hb.symm.trans hc)
  have hvar : s.bind (.var name ⟨0, 0⟩) = .ok b := hb
  have hleaves : b.leaves ⊆ s.leaves := leaves_bind hvar
  rcases bind_var hvar with ⟨v, -, rfl⟩ | ⟨-, node, -, rfl⟩
  · exact .plan (.const s v)
  · rw [Bound.leaves_ofLayout] at hleaves
    exact .ofLayout hleaves

theorem mirrors_applyTable (name : String) {ps qs : List Plan}
    (h : List.Forall₂ (Plan.Mirrors s) ps qs) :
    Related (Plan.Mirrors s) (applyTableWith Plan.fold s name ps)
      (applyTableWith keep s name qs) := by
  rw [applyTableWith, applyTableWith]
  split
  · exact nofun
  · next table htable =>
    intro p q hp hq
    obtain ⟨early, hearly, hp⟩ := bind_eq_ok_iff.mp hp
    obtain ⟨early', hearly', hq⟩ := bind_eq_ok_iff.mp hq
    obtain rfl := Except.ok.inj hp
    obtain rfl := Except.ok.inj hq
    exact .apply htable hearly hearly' h

theorem mirrors_applyNamed (name : String) {ps qs : List Plan}
    (h : List.Forall₂ (Plan.Mirrors s) ps qs) :
    Related (Plan.Mirrors s) (applyNamedWith Plan.fold s name ps)
      (applyNamedWith keep s name qs) := by
  rw [applyNamedWith, applyNamedWith]
  split
  · next f hf => exact .ok (.call hf h)
  · exact mirrors_applyTable s name h

/-- An index into a structural part is a constant on both sides, and the same one. -/
theorem mirrors_applyIndex {b c : Bound} (source : Expr) {p q : Plan}
    (hbase : Bound.Mirrors s b c) (hindex : Plan.Mirrors s p q) :
    Related (Bound.Mirrors s) (applyIndexWith Plan.fold s b source p)
      (applyIndexWith keep s c source q) := by
  cases hbase with
  | plan hplan =>
    exact (mirrors_applyTable s "index" (.cons hplan (.cons hindex .nil))).bind
      fun _ _ h => .ok (.plan h)
  | @structural node hleaves =>
    rw [applyIndexWith, applyIndexWith]
    cases hpart : node.part? q with
    | none => exact nofun
    | some part =>
      obtain ⟨⟨v, rfl⟩, hsub⟩ := Layout.part?_eq_some hpart
      obtain rfl : Plan.const v = p := Except.ok.inj hindex.refold
      rw [hpart]
      exact .ok (.ofLayout (List.Subset.trans hsub hleaves))

mutual

/-- What is bound with folding comes from folding what is bound without. -/
theorem mirrors_bind (e : Expr) :
    Related (Bound.Mirrors s) (bindWith Plan.fold s e) (bindWith keep s e) := by
  match e with
  | .const v _ => exact .ok (.plan (.const s v))
  | .var name _ => exact mirrors_bindName s name
  | .call name args _ =>
    refine (mirrors_bindAll args).bind fun ps qs h => ?_
    exact (mirrors_applyNamed s name h).bind fun _ _ h => .ok (.plan h)
  | .index base index _ =>
    refine (mirrors_bind base).bind fun b c hbase => ?_
    refine (mirrors_bind index).bind fun b' c' h => ?_
    exact (h.toPlan index).bind fun p q hindex => mirrors_applyIndex s index hbase hindex
  | .unary op operand _ =>
    refine (mirrors_bind operand).bind fun b c h => ?_
    refine (h.toPlan operand).bind fun p q h => ?_
    exact (mirrors_applyTable s op.table (.cons h .nil)).bind fun _ _ h => .ok (.plan h)
  | .binary op l r _ =>
    refine (mirrors_bind l).bind fun b c h => (h.toPlan l).bind fun p q hleft => ?_
    refine (mirrors_bind r).bind fun b c h => (h.toPlan r).bind fun p' q' hright => ?_
    cases hop : op.table? with
    | some name =>
      exact (mirrors_applyTable s name (.cons hleft (.cons hright .nil))).bind
        fun _ _ h => .ok (.plan h)
    | none => exact .ok (.plan (.logical hop hleft hright))

theorem mirrors_bindAll (es : List Expr) :
    Related (List.Forall₂ (Plan.Mirrors s)) (bindAllWith Plan.fold s es)
      (bindAllWith keep s es) := by
  match es with
  | [] => exact .ok .nil
  | e :: rest =>
    refine (mirrors_bind e).bind fun b c h => (h.toPlan e).bind fun p q hhead => ?_
    exact (mirrors_bindAll rest).bind fun ps qs htail => .ok (.cons hhead htail)

end

variable {s}

theorem mirrors_compile {e : Expr} {p q : Plan} (hp : e.compile s = .ok p)
    (hq : e.compileWith keep s = .ok q) : Plan.Mirrors s p q := by
  rw [← Expr.compileWith_fold] at hp
  exact (mirrors_bind s e).bind (fun b c h => h.toPlan e) p q hp hq

end Scope

/-- **Folding is a pass over the plan without.** -/
theorem Expr.refold_compileWith_keep {e : Expr} {s : Scope} {p q : Plan} (hp : e.compile s = .ok p)
    (hq : e.compileWith Plan.keep s = .ok q) : q.refold = .ok p :=
  (Scope.mirrors_compile hp hq).refold

/-! ### What the pass keeps -/

namespace Scope

open Plan

variable {s : Scope} {p q : Plan} {ps qs : List Plan}

theorem makes_of_keeps (hq : s.Keeps q) : s.Makes q := by
  cases q with
  | const v => exact trivial
  | var slot t => exact hq
  | apply table resolution args => exact ⟨hq.1, _, hq.2.1⟩
  | and l r => exact trivial
  | or l r => exact trivial
  | call f args => exact hq.1

theorem makes_fold_self {constant : Bool} (h : s.Makes p) : s.Makes (fold constant p) := by
  rcases fold_cases constant p with hp | ⟨v, -, -, hp⟩
  · rwa [hp]
  · rw [hp]
    exact trivial

/-- The pass gives plans that binding makes. -/
theorem makes_refold (hq : s.Keeps q) (h : q.refold = .ok p) : s.Makes p := by
  cases q with
  | const v =>
    obtain rfl := Except.ok.inj h
    exact trivial
  | var slot t =>
    obtain rfl := Except.ok.inj h
    exact hq
  | apply table resolution args =>
    obtain ⟨ps, early, -, hearly, rfl⟩ := refold_apply_eq_ok h
    exact makes_fold_self ⟨hq.1, _, hearly⟩
  | and l r =>
    obtain ⟨l', r', -, -, rfl⟩ := refold_and_eq_ok h
    exact makes_fold_self trivial
  | or l r =>
    obtain ⟨l', r', -, -, rfl⟩ := refold_or_eq_ok h
    exact makes_fold_self trivial
  | call f args =>
    obtain ⟨ps, -, rfl⟩ := refold_call_eq_ok h
    exact makes_fold_self hq.1

theorem makes_of_keepsAll (hqs : s.KeepsAll qs) : ∀ q ∈ qs, s.Makes q := by
  induction qs with
  | nil => exact nofun
  | cons q rest ih => exact List.forall_mem_cons.mpr ⟨makes_of_keeps hqs.1, ih hqs.2⟩

theorem makes_refoldAll (hqs : s.KeepsAll qs) (h : refoldAll qs = .ok ps) :
    ∀ p ∈ ps, s.Makes p := by
  induction qs generalizing ps with
  | nil =>
    obtain rfl := Except.ok.inj h
    exact nofun
  | cons q rest ih =>
    obtain ⟨p', ps', hp', hps', rfl⟩ := refoldAll_cons_eq_ok.mp h
    exact List.forall_mem_cons.mpr ⟨makes_refold hqs.1 hp', ih hqs.2 hps'⟩

/-- The tags of plans that binding makes admit their values. -/
theorem admits_signature (hs : s.registry.Honest) {record : Record}
    (hrecord : record.Conforms s.leaves) (hps : ∀ p ∈ ps, s.Makes p) {vs : List Value}
    (hvs : evalAll (some record) ps = .ok vs) :
    List.Forall₂ Tag.Admits (signature ps) vs := by
  induction ps generalizing vs with
  | nil =>
    obtain rfl : [] = vs := Except.ok.inj hvs
    exact .nil
  | cons p rest ih =>
    rw [List.forall_mem_cons] at hps
    obtain ⟨v, ws, hv, hws, rfl⟩ := evalAll_cons_eq_ok.mp hvs
    exact .cons (admits_of_makes hs hrecord hps.1 hv) (ih hps.2 hws)

end Scope

end Formulary
