import Formulary.Proofs.Dispatch.Overriding
import Formulary.Proofs.Plan.Builtins

/-!
# Expressions at different moments

The built-in registry is given the present moment. An expression that does not ask for it is bound
to the same at all moments, and this file says what the same is: the plans cannot be told apart, by
what they show or by what they evaluate to on any record, and where one of them is not to be had,
neither is the other, for the same reason.

## Scope

An expression asks for the moment by a call of `time` without arguments, wherever it stands. What an
expression that asks makes of the moment is not looked into.

## Implementation notes

The plans are not equal, since operators keep the tables that they were looked up in, and the table
of `time` has the moment in it. So plans are compared by all that can be seen of them.

## Main definitions

* `Plan.Twin`, `Registry.Twin` — plans and registries that cannot be told apart
* `Paired` — results that are related, or faults that are the same
* `Expr.Timeless` — sources that do not ask for the moment

## Main results

* `Library.twin_standard` — the built-in registries of two moments
* `Scope.paired_bind` — what is bound at two moments
* `Plan.paired_ofSource` — and what a source is compiled to
-/

namespace Formulary

/-! ### Plans that cannot be told apart -/

/-- Plans that show the same and evaluate to the same. -/
structure Plan.Twin (p q : Plan) : Prop where
  /-- They are known by one tag. -/
  tag : p.tag = q.tag
  /-- One is a constant if the other is, and then both are one constant. -/
  const : ∀ v, p = .const v ↔ q = .const v
  /-- They are printed alike. -/
  text : p.text = q.text
  /-- They have the same values, or the same faults. -/
  eval : ∀ record, p.eval record = q.eval record

namespace Plan

variable {p q l r l' r' : Plan} {ps qs : List Plan}

namespace Twin

theorem refl (p : Plan) : Twin p p := ⟨rfl, fun _ => Iff.rfl, rfl, fun _ => rfl⟩

theorem isConst (h : Twin p q) : p.isConst = q.isConst := by
  rw [Bool.eq_iff_iff, isConst_iff, isConst_iff]
  exact exists_congr h.const

end Twin

theorem signature_twin (h : List.Forall₂ Twin ps qs) : signature ps = signature qs := by
  induction h with
  | nil => rfl
  | cons hhead _ ih => exact congrArg₂ List.cons hhead.tag ih

theorem all_isConst_twin (h : List.Forall₂ Twin ps qs) : ps.all isConst = qs.all isConst := by
  induction h with
  | nil => rfl
  | cons hhead _ ih => rw [List.all_cons, List.all_cons, hhead.isConst, ih]

theorem texts_twin (h : List.Forall₂ Twin ps qs) : texts ps = texts qs := by
  induction h with
  | nil => rfl
  | cons hhead _ ih => rw [texts, texts, hhead.text, ih]

theorem evalAll_twin (h : List.Forall₂ Twin ps qs) (record : Option Record) :
    evalAll record ps = evalAll record qs := by
  induction h with
  | nil => rfl
  | cons hhead _ ih => rw [evalAll, evalAll, hhead.eval, ih]

/-- Operands have one value each. -/
theorem ne_nil_of_evalAll {record : Option Record} {vs : List Value} (hps : ps ≠ [])
    (h : evalAll record ps = .ok vs) : vs ≠ [] := by
  cases ps with
  | nil => exact absurd rfl hps
  | cons p rest =>
    obtain ⟨v, ws, -, -, rfl⟩ := evalAll_cons_eq_ok.mp h
    exact List.cons_ne_nil v ws

/-- Folding does not tell them apart. -/
theorem Twin.fold (h : Twin p q) (constant : Bool) : Twin (fold constant p) (fold constant q) := by
  cases constant with
  | false => exact h
  | true =>
    rw [Plan.fold, Plan.fold, if_pos rfl, if_pos rfl, h.eval]
    split
    · exact .refl _
    · exact h

/-- Neither of two plans that are no constants is any. -/
theorem eq_const_iff (hp : p.isConst = false) (hq : q.isConst = false) (v : Value) :
    p = .const v ↔ q = .const v := by
  constructor
  · rintro rfl
    cases hp
  · rintro rfl
    cases hq

/-- A function called on either. -/
theorem Twin.call (f : Function) (h : List.Forall₂ Twin ps qs) :
    Twin (.call f ps) (.call f qs) where
  tag := rfl
  const := eq_const_iff rfl rfl
  text := by rw [Plan.text, Plan.text, texts_twin h]
  eval record := by rw [Plan.eval, Plan.eval, evalAll_twin h]

/-- A logical operator on either. -/
theorem Twin.logical (op : BinaryOp) (hleft : Twin l l') (hright : Twin r r') :
    Twin (logical op l r) (logical op l' r') := by
  rw [Plan.logical, Plan.logical, hleft.isConst, hright.isConst]
  refine Twin.fold ?_ _
  split
  · exact ⟨rfl, eq_const_iff rfl rfl, by rw [Plan.text, Plan.text, hleft.text, hright.text],
      fun record => by rw [Plan.eval, Plan.eval, hleft.eval, hright.eval]⟩
  · exact ⟨rfl, eq_const_iff rfl rfl, by rw [Plan.text, Plan.text, hleft.text, hright.text],
      fun record => by rw [Plan.eval, Plan.eval, hleft.eval, hright.eval]⟩

end Plan

/-- Tables that differ in nothing but what they have for the signatures that are not `asked`. -/
structure Table.Twin (asked : Signature → Prop) (t t' : Table) : Prop where
  /-- They have one name. -/
  name : t.name = t'.name
  /-- They refuse, or put off, what they do not list. -/
  defers : t.defers = t'.defers
  /-- They find the same targets. -/
  lookup : ∀ key, asked key → t.lookup key = t'.lookup key

/-- A choice applied in either table. -/
theorem Table.Twin.apply {asked : Signature → Prop} {t t' : Table} (h : Twin asked t t')
    (resolution : Resolution) {args : List Value} (hargs : asked (signatureOf args)) :
    resolution.apply t args = resolution.apply t' args := by
  cases resolution with
  | direct target => rfl
  | deferred => rw [Resolution.apply, Resolution.apply, h.lookup _ hargs, h.name]

/-- An operator of either table, where it has operands or they are not asked for the moment. -/
theorem Plan.Twin.apply {asked : Signature → Prop} {t t' : Table} (ht : t.Twin asked t')
    (resolution : Resolution) {ps qs : List Plan} (h : List.Forall₂ Plan.Twin ps qs)
    (hasked : ∀ record vs, evalAll record ps = .ok vs → asked (signatureOf vs)) :
    Plan.Twin (.apply t resolution ps) (.apply t' resolution qs) where
  tag := rfl
  const := eq_const_iff rfl rfl
  text := by rw [Plan.text, Plan.text, texts_twin h, ht.name]
  eval record := by
    rw [Plan.eval, Plan.eval, ← evalAll_twin h]
    cases hvs : evalAll record ps with
    | error fault => rfl
    | ok vs => exact ht.apply resolution (hasked record vs hvs)

/-! ### Registries that cannot be told apart -/

/-- What the table of a name can be asked for without asking for the moment. -/
def Registry.Timeless (name : String) (key : Signature) : Prop := name = "time" → key ≠ []

/-- Registries that differ in nothing but the moment. -/
structure Registry.Twin (r r' : Registry) : Prop where
  /-- They have the same constants. -/
  constants : ∀ name, r.constant? name = r'.constant? name
  /-- They have the same functions. -/
  functions : ∀ name, r.function? name = r'.function? name
  /-- They have no table of a name, or tables that differ in the moment. -/
  tables : ∀ name, r.table? name = none ∧ r'.table? name = none ∨
    ∃ t t', r.table? name = some t ∧ r'.table? name = some t' ∧ t.Twin (Timeless name) t'

/-- **The built-in registries of two moments differ in nothing else.** -/
theorem Library.twin_standard (now now' : Calendar.DateTime) :
    (Registry.standard now).Twin (Registry.standard now') where
  constants name := by rw [constant?_standard, constant?_standard]
  functions name := by rw [function?_standard, function?_standard]
  tables name := by
    rw [Registry.standard, Registry.standard, Registry.Builder.table?_build,
      Registry.Builder.table?_build]
    cases h : (builtins now).tables.find? name with
    | some t =>
      obtain ⟨t', ht', hname, hdefers, hlookup⟩ := lookup_builtins now now' h
      rw [ht']
      exact .inr ⟨t.build, t'.build, rfl, rfl, hname.symm, hdefers.symm,
        fun key hkey => (hlookup key hkey).symm⟩
    | none =>
      cases h' : (builtins now').tables.find? name with
      | none => exact .inl ⟨rfl, rfl⟩
      | some t' =>
        obtain ⟨t, ht, -⟩ := lookup_builtins now' now h'
        cases h.symm.trans ht

/-! ### Binding against either -/

/-- Results that are related, or faults that are the same. -/
def Paired {α β : Type} (related : α → β → Prop) : Except Fault α → Except Fault β → Prop
  | .ok a, .ok b => related a b
  | .error f, .error g => f = g
  | _, _ => False

namespace Paired

variable {α β γ δ : Type} {related : α → β → Prop} {related' : γ → δ → Prop}

/-- There is a fault on both sides, or none on either. -/
theorem cases_ok {x : Except Fault α} {y : Except Fault β} (h : Paired related x y) :
    (∃ e, x = .error e ∧ y = .error e) ∨ ∃ a b, x = .ok a ∧ y = .ok b ∧ related a b := by
  cases x with
  | error e =>
    cases y with
    | error e' => exact .inl ⟨e, rfl, congrArg Except.error (Eq.symm h)⟩
    | ok b => exact h.elim
  | ok a =>
    cases y with
    | error e' => exact h.elim
    | ok b => exact .inr ⟨a, b, rfl, rfl, h⟩

/-- Steps that are paired one after the other are paired as a whole. -/
theorem bind {x : Except Fault α} {y : Except Fault β} {f : α → Except Fault γ}
    {g : β → Except Fault δ} (h : Paired related x y)
    (hfg : ∀ a b, related a b → Paired related' (f a) (g b)) :
    Paired related' (x >>= f) (y >>= g) := by
  rcases h.cases_ok with ⟨e, rfl, rfl⟩ | ⟨a, b, rfl, rfl, hab⟩
  · exact rfl
  · exact hfg a b hab

/-- What is the same on both sides. -/
theorem of_self {related : α → α → Prop} (hrefl : ∀ a, related a a) (x : Except Fault α) :
    Paired related x x := by
  cases x with
  | error e => exact rfl
  | ok a => exact hrefl a

end Paired

/-- Bound expressions that cannot be told apart: plans, or one part of the layout. -/
inductive Bound.Twin : Bound → Bound → Prop
  | plan {p q : Plan} (h : p.Twin q) : Twin (.plan p) (.plan q)
  | structural (node : Layout) : Twin (.structural node) (.structural node)

namespace Bound.Twin

variable {b c : Bound}

theorem refl (b : Bound) : Twin b b := by
  cases b with
  | plan p => exact .plan (.refl p)
  | structural node => exact .structural node

theorem toPlan (h : Twin b c) (source : Expr) :
    Paired Plan.Twin (b.toPlan source) (c.toPlan source) := by
  cases h with
  | plan h => exact h
  | structural node => exact rfl

end Bound.Twin

/-- A constant index picks the same part, and no other index picks one. -/
theorem Layout.part?_twin (node : Layout) {p q : Plan} (h : p.Twin q) :
    node.part? p = node.part? q := by
  by_cases hconst : ∃ v, p = .const v
  · obtain ⟨v, rfl⟩ := hconst
    rw [(h.const v).mp rfl]
  · have hnone : ∀ p : Plan, (¬ ∃ v, p = .const v) → node.part? p = none := by
      intro p hp
      cases p with
      | const v => exact absurd ⟨v, rfl⟩ hp
      | _ => rfl
    rw [hnone p hconst, hnone q fun ⟨v, hv⟩ => hconst ⟨v, (h.const v).mpr hv⟩]

namespace Scope

variable {layout : Option Layout} {r r' : Registry}

/-- An operator or a function of a table, unless it is the one that asks for the moment. -/
theorem paired_applyTable (hr : r.Twin r') {name : String} {ps qs : List Plan}
    (h : List.Forall₂ Plan.Twin ps qs) (hname : name = "time" → ps ≠ []) :
    Paired Plan.Twin (applyTable ⟨layout, r⟩ name ps) (applyTable ⟨layout, r'⟩ name qs) := by
  rcases hr.tables name with ⟨ht, ht'⟩ | ⟨t, t', ht, ht', htwin⟩
  · rw [applyTable, applyTable, ht, ht']
    exact rfl
  · have hkey : Registry.Timeless name (Plan.signature ps) := fun htime hnil =>
      hname htime (List.map_eq_nil_iff.mp hnil)
    have hresolve : t.resolve (Plan.signature ps) = t'.resolve (Plan.signature qs) := by
      rw [← Plan.signature_twin h]
      exact Table.resolve_congr htwin.name htwin.defers (htwin.lookup _ hkey)
    rw [applyTable, applyTable, ht, ht']
    dsimp only
    rw [hresolve, Plan.all_isConst_twin h]
    refine (Paired.of_self (fun _ => rfl) _).bind fun resolution resolution' hsame => ?_
    obtain rfl : resolution = resolution' := hsame
    refine (Plan.Twin.apply htwin resolution h fun record vs hvs htime hnil => ?_).fold _
    exact Plan.ne_nil_of_evalAll (hname htime) hvs (List.map_eq_nil_iff.mp hnil)

/-- A call by name. -/
theorem paired_applyNamed (hr : r.Twin r') {name : String} {ps qs : List Plan}
    (h : List.Forall₂ Plan.Twin ps qs) (hname : name = "time" → ps ≠ []) :
    Paired Plan.Twin (applyNamed ⟨layout, r⟩ name ps) (applyNamed ⟨layout, r'⟩ name qs) := by
  rw [applyNamed, applyNamed, hr.functions name]
  cases r'.function? name with
  | none => exact paired_applyTable hr h hname
  | some f =>
    dsimp only
    rw [Plan.all_isConst_twin h]
    exact (Plan.Twin.call f h).fold _

theorem paired_bindName (hr : r.Twin r') (name : String) :
    Paired Bound.Twin (bindName ⟨layout, r⟩ name) (bindName ⟨layout, r'⟩ name) := by
  rw [bindName, bindName, hr.constants name]
  exact .of_self .refl _

theorem paired_applyIndex (hr : r.Twin r') {b c : Bound} (hbase : b.Twin c) (source : Expr)
    {p q : Plan} (hindex : p.Twin q) :
    Paired Bound.Twin (applyIndex ⟨layout, r⟩ b source p)
      (applyIndex ⟨layout, r'⟩ c source q) := by
  cases hbase with
  | plan h =>
    refine (paired_applyTable hr (.cons h (.cons hindex .nil)) ?_).bind fun _ _ h => .plan h
    exact fun _ => List.cons_ne_nil _ _
  | structural node =>
    rw [applyIndex, applyIndex, node.part?_twin hindex]
    exact .of_self .refl _

mutual

/-- **What is bound at two moments cannot be told apart**, in expressions that do not ask for the
moment. -/
theorem paired_bind (hr : r.Twin r') {e : Expr} (hclock : e.readsClock = false) :
    Paired Bound.Twin (bind ⟨layout, r⟩ e) (bind ⟨layout, r'⟩ e) := by
  match e with
  | .const v _ => exact .plan (.refl _)
  | .var name _ => exact paired_bindName hr name
  | .call name args _ =>
    rw [Expr.readsClock, Bool.or_eq_false_iff] at hclock
    refine (paired_bindAll hr hclock.2).bind fun ps qs ⟨h, hnil⟩ => ?_
    refine (paired_applyNamed hr h fun htime hps => ?_).bind fun _ _ h => .plan h
    rw [htime, hnil hps] at hclock
    cases hclock.1
  | .index base index _ =>
    rw [Expr.readsClock, Bool.or_eq_false_iff] at hclock
    refine (paired_bind hr hclock.1).bind fun b c hbase => ?_
    refine (paired_bind hr hclock.2).bind fun b' c' h => ?_
    exact (h.toPlan index).bind fun p q hindex => paired_applyIndex hr hbase index hindex
  | .unary op operand _ =>
    rw [Expr.readsClock] at hclock
    refine (paired_bind hr hclock).bind fun b c h => (h.toPlan operand).bind fun p q h => ?_
    refine (paired_applyTable hr (.cons h .nil) ?_).bind fun _ _ h => .plan h
    exact fun _ => List.cons_ne_nil _ _
  | .binary op l r _ =>
    rw [Expr.readsClock, Bool.or_eq_false_iff] at hclock
    refine (paired_bind hr hclock.1).bind fun b c h => (h.toPlan l).bind fun p q hleft => ?_
    refine (paired_bind hr hclock.2).bind fun b c h => (h.toPlan r).bind fun p' q' hright => ?_
    cases op.table? with
    | some name =>
      refine (paired_applyTable hr (.cons hleft (.cons hright .nil)) ?_).bind fun _ _ h => .plan h
      exact fun _ => List.cons_ne_nil _ _
    | none => exact .plan (.logical op hleft hright)

theorem paired_bindAll (hr : r.Twin r') {es : List Expr} (hclock : Expr.anyReadsClock es = false) :
    Paired (fun ps qs => List.Forall₂ Plan.Twin ps qs ∧ (ps = [] → es = []))
      (bindAll ⟨layout, r⟩ es) (bindAll ⟨layout, r'⟩ es) := by
  match es with
  | [] => exact ⟨.nil, fun _ => rfl⟩
  | e :: rest =>
    rw [Expr.anyReadsClock, Bool.or_eq_false_iff] at hclock
    refine (paired_bind hr hclock.1).bind fun b c h => (h.toPlan e).bind fun p q hhead => ?_
    exact (paired_bindAll hr hclock.2).bind fun ps qs ⟨htail, _⟩ =>
      ⟨.cons hhead htail, fun hnil => absurd hnil (List.cons_ne_nil _ _)⟩

end

end Scope

/-- The expression of a source does not ask for the moment. A source without one asks nothing. -/
def Expr.Timeless (source : String) : Prop :=
  ∀ e, Expr.ofSource source = .ok e → e.readsClock = false

/-- **A source that does not ask for the moment is compiled to the same at all moments.** -/
theorem Plan.paired_ofSource (layout : Option Layout) (now now' : Calendar.DateTime)
    {source : String} (hclock : Expr.Timeless source) :
    Paired Plan.Twin (Plan.ofSource ⟨layout, .standard now⟩ source)
      (Plan.ofSource ⟨layout, .standard now'⟩ source) := by
  rw [ofSource, ofSource]
  cases h : Expr.ofSource source with
  | error fault => exact rfl
  | ok e =>
    have htwin := Library.twin_standard now now'
    exact (Scope.paired_bind htwin (hclock e h)).bind fun b c hb => hb.toPlan e

end Formulary
