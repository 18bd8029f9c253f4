import Formulary.Proofs.Plan.Builtins
import Formulary.Proofs.Plan.Refolding

/-!
# Folding and what it changes

Folding puts a constant in the place of an operator on constants. Parents see the tag of the
constant then, where they would have seen the tag that the operator declares, and may choose another
overload. This file says when that makes no difference, and shows that it can make one.

It can only where an operator or a function on constants alone is of unknown tag, since any other
one declares the tag of its value. Even there it makes a difference only to a table that tells the
tag of the value from the unknown one.

## Scope

Tables are to be steady only where they are asked, for the arguments that they get there, and for
the two ways in which these are known. That is less than being steady for all that is right about
arguments, which the table of `string` is not: it prints what is not known to be without value, and
refuses what is.

## Implementation notes

Folding is taken as a pass over the plan that is bound without it, so all of this is about plans and
nothing about expressions.

## Main definitions

* `Table.Steady` — tables that do the same whatever is known of the arguments
* `Plan.Steady` — plans that ask steady tables only
* `Plan.Definite` — plans where every part without variables declares what it gives

## Main results

* `Table.Builder.Strict.steady`, `Library.steady_builtins` — strict tables and the built-in ones are
  steady
* `Plan.agrees_refold` — the pass over a steady plan is not seen
* `Plan.tag_refold`, `Plan.steady_of_definite` — in a definite plan folding changes no tag, and so
  it is steady
* `Expr.compile_agrees_keep` — in definite plans, and where tables are steady, folding is not seen
* `Expr.not_agrees_keep_kind` — elsewhere it may be
-/

namespace Formulary

/-! ### Steady tables -/

/-- The table does the same for the arguments, whatever is known of them. -/
def Table.Steady (table : Table) (known : Signature → Prop) (args : List Value) : Prop :=
  ∀ key key' early early', known key → known key' →
    table.resolve key = .ok early → table.resolve key' = .ok early' →
      Agrees (early.apply table args) (early'.apply table args)

theorem Table.Steady.mono {table : Table} {known known' : Signature → Prop} {args : List Value}
    (h : table.Steady known args) (hknown : ∀ key, known' key → known key) :
    table.Steady known' args :=
  fun key key' early early' hkey hkey' => h key key' early early' (hknown key hkey)
    (hknown key' hkey')

/-- Tables are steady where every early choice comes to the same as a look-up by the tags of the
values. -/
theorem Table.steady_of_agrees_dispatch {table : Table} {known : Signature → Prop}
    {args : List Value}
    (h : ∀ key early, table.resolve key = .ok early → known key →
      Agrees (early.apply table args) (table.dispatch args)) : table.Steady known args := by
  intro key key' early early' hkey hkey' hearly hearly'
  exact (h key early hearly hkey).trans (h key' early' hearly' hkey').symm

/-- **Tables of strict overloads are steady**, as long as what is known of arguments is right. -/
theorem Table.Builder.Strict.steady {b : Table.Builder} (hb : b.Strict) (args : List Value) :
    b.build.Steady (List.Forall₂ Tag.Admits · args) args :=
  steady_of_agrees_dispatch fun _ _ hearly hadmits => hb.agrees hearly hadmits

/-- **The built-in tables are steady**, but for what `string` makes of arguments without value. -/
theorem Library.steady_builtins {now : Calendar.DateTime} {name : String} {table : Table}
    (h : (Registry.standard now).table? name = some table) {args : List Value}
    (hnull : name = "string" → .null ∉ args) :
    table.Steady (List.Forall₂ Tag.Admits · args) args := by
  obtain ⟨t, ht, rfl⟩ := find?_of_table?_standard h
  exact Table.steady_of_agrees_dispatch fun _ _ hearly hadmits =>
    agrees_dispatch_builtins ht hearly hadmits hnull

namespace Plan

variable {s : Scope} {record : Option Record}

/-! ### Steady plans -/

/-- What operands are known by: their tags, as they are or once they are folded. -/
def Shown (args : List Plan) (key : Signature) : Prop :=
  key = signature args ∨ ∃ ps, refoldAll args = .ok ps ∧ key = signature ps

mutual

/-- Every table that is asked on the record does the same for the arguments that it gets, whether
they are known as they are or as they are once folded. -/
def Steady (record : Option Record) : Plan → Prop
  | const _ | var .. => True
  | apply table _ args => SteadyAll record args ∧
    ∀ vs, evalAll record args = .ok vs → table.Steady (Shown args) vs
  | and l r => Steady record l ∧ (eval record l = .ok (.boolean true) → Steady record r)
  | or l r => Steady record l ∧ (eval record l = .ok (.boolean false) → Steady record r)
  | call _ args => SteadyAll record args

/-- So does every table that is asked for the values of several plans, up to the first fault. -/
def SteadyAll (record : Option Record) : List Plan → Prop
  | [] => True
  | p :: rest => Steady record p ∧ ∀ v, eval record p = .ok v → SteadyAll record rest

end

/-- The right operand of a logical operator matters only where the left one does not decide. -/
theorem agrees_shortCircuit {op : BinaryOp} {x x' y y' : Except Fault Value} (hx : Agrees x x')
    (hy : x = .ok (.boolean (op != .or)) → Agrees y y') :
    Agrees (shortCircuit op x y) (shortCircuit op x' y') := by
  refine hx.bind fun v hv => (Agrees.refl (expectBool v)).bind fun b hb => ?_
  split
  · exact Agrees.refl _
  · next hne =>
    obtain rfl : v = .boolean b := by
      cases v <;> simp [expectBool] at hb
      rw [hb]
    refine (hy ?_).bind fun w _ => Agrees.refl _
    rw [hv, bne, Bool.eq_not_of_ne hne]

/-- The pass keeps what a logical operator makes of its operands. -/
theorem agrees_logical {op : BinaryOp} (hop : op.table? = none) {l l' r r' : Plan}
    (hleft : Agrees (l'.eval record) (l.eval record))
    (hright : l.eval record = .ok (.boolean (op != .or)) →
      Agrees (r'.eval record) (r.eval record)) :
    Agrees ((logical op l' r').eval record)
      ((if op = .and then and l r else or l r).eval record) := by
  rw [eval_logical hop, eval_and_or hop]
  exact agrees_shortCircuit hleft fun hl => hright ((hleft.ok_iff _).mp hl)

mutual

/-- **The pass over a steady plan is not seen.** -/
theorem agrees_refold {p q : Plan} (hq : s.Keeps q) (h : q.refold = .ok p)
    (hsteady : q.Steady record) : Agrees (p.eval record) (q.eval record) := by
  match q with
  | .const v | .var slot t =>
    obtain rfl := Except.ok.inj h
    exact Agrees.refl _
  | .apply table resolution args =>
    obtain ⟨ps, early, hps, hearly, rfl⟩ := refold_apply_eq_ok h
    have hall := agrees_refoldAll hq.2.2 hps hsteady.1
    rw [eval_fold_operands fun _ => rfl, eval]
    refine hall.bind fun vs hvs => ?_
    exact hsteady.2 vs ((hall.ok_iff vs).mp hvs) _ _ early resolution (Or.inr ⟨ps, hps, rfl⟩)
      (Or.inl rfl) hearly hq.2.1
  | .and l r =>
    obtain ⟨l', r', hl, hr, rfl⟩ := refold_and_eq_ok h
    exact agrees_logical rfl (agrees_refold hq.1 hl hsteady.1) fun hleft =>
      agrees_refold hq.2 hr (hsteady.2 hleft)
  | .or l r =>
    obtain ⟨l', r', hl, hr, rfl⟩ := refold_or_eq_ok h
    exact agrees_logical rfl (agrees_refold hq.1 hl hsteady.1) fun hleft =>
      agrees_refold hq.2 hr (hsteady.2 hleft)
  | .call f args =>
    obtain ⟨ps, hps, rfl⟩ := refold_call_eq_ok h
    rw [eval_fold_operands fun _ => rfl, eval]
    exact (agrees_refoldAll hq.2 hps hsteady).bind fun _ _ => Agrees.refl _

theorem agrees_refoldAll {ps qs : List Plan} (hqs : s.KeepsAll qs) (h : refoldAll qs = .ok ps)
    (hsteady : SteadyAll record qs) : Agrees (evalAll record ps) (evalAll record qs) := by
  match qs with
  | [] =>
    obtain rfl := Except.ok.inj h
    exact Agrees.refl _
  | q :: rest =>
    obtain ⟨p', ps', hp', hps', rfl⟩ := refoldAll_cons_eq_ok.mp h
    have hfirst := agrees_refold hqs.1 hp' hsteady.1
    refine hfirst.bind fun v hv => ?_
    exact (agrees_refoldAll hqs.2 hps' (hsteady.2 v ((hfirst.ok_iff v).mp hv))).bind
      fun vs _ => Agrees.refl _

end

/-! ### Definite plans -/

mutual

/-- Whether there is no variable in the plan. -/
def closed : Plan → Bool
  | const _ => true
  | var .. => false
  | apply _ _ args | call _ args => closedAll args
  | and l r | or l r => closed l && closed r

/-- Whether there is none in several plans. -/
def closedAll : List Plan → Bool
  | [] => true
  | q :: rest => closed q && closedAll rest

end

/-- Every part without variables declares the tag of what it gives. -/
def Definite (q : Plan) : Prop := ∀ node ∈ q.nodes, node.closed = true → node.tag ≠ .object

/-- What is folded has constant operands. -/
theorem constant_of_isConst_fold {constant : Bool} {p : Plan} (hp : p.isConst = false)
    (h : (fold constant p).isConst = true) : constant = true := by
  rcases fold_cases constant p with hfold | ⟨v, hconst, -, -⟩
  · rw [hfold, hp] at h
    cases h
  · exact hconst

mutual

/-- Only what is without variables becomes a constant. -/
theorem closed_of_refold {p q : Plan} (h : q.refold = .ok p) (hp : p.isConst = true) :
    q.closed = true := by
  match q with
  | .const v => rfl
  | .var slot t =>
    obtain rfl := Except.ok.inj h
    cases hp
  | .apply table resolution args =>
    obtain ⟨ps, early, hps, -, rfl⟩ := refold_apply_eq_ok h
    exact closedAll_of_refoldAll hps (constant_of_isConst_fold rfl hp)
  | .and l r =>
    obtain ⟨l', r', hl, hr, rfl⟩ := refold_and_eq_ok h
    obtain ⟨hl', hr'⟩ := Bool.and_eq_true_iff.mp (constant_of_isConst_fold rfl hp)
    exact Bool.and_eq_true_iff.mpr ⟨closed_of_refold hl hl', closed_of_refold hr hr'⟩
  | .or l r =>
    obtain ⟨l', r', hl, hr, rfl⟩ := refold_or_eq_ok h
    obtain ⟨hl', hr'⟩ := Bool.and_eq_true_iff.mp (constant_of_isConst_fold rfl hp)
    exact Bool.and_eq_true_iff.mpr ⟨closed_of_refold hl hl', closed_of_refold hr hr'⟩
  | .call f args =>
    obtain ⟨ps, hps, rfl⟩ := refold_call_eq_ok h
    exact closedAll_of_refoldAll hps (constant_of_isConst_fold rfl hp)

theorem closedAll_of_refoldAll {ps qs : List Plan} (h : refoldAll qs = .ok ps)
    (hps : ps.all isConst = true) : closedAll qs = true := by
  match qs with
  | [] => rfl
  | q :: rest =>
    obtain ⟨p', ps', hp', hps', rfl⟩ := refoldAll_cons_eq_ok.mp h
    rw [List.all_cons, Bool.and_eq_true] at hps
    exact Bool.and_eq_true_iff.mpr
      ⟨closed_of_refold hp' hps.1, closedAll_of_refoldAll hps' hps.2⟩

end

/-- What is folded keeps its tag, when its value carries the tag. -/
theorem tag_fold {constant : Bool} {p : Plan} (h : constant = true → ∀ v, p.eval none = .ok v →
    v.tag = p.tag) : (fold constant p).tag = p.tag := by
  rcases fold_cases constant p with hp | ⟨v, hconst, hv, hp⟩
  · rw [hp]
  · rw [hp]
    exact h hconst v hv

mutual

/-- **In a definite plan, folding changes no tag.** -/
theorem tag_refold (hs : s.registry.Honest) {p q : Plan} (hq : s.Keeps q) (h : q.refold = .ok p)
    (hdefinite : q.Definite) : p.tag = q.tag := by
  have hself := hdefinite q q.mem_nodes_self
  match q with
  | .const v | .var slot t =>
    obtain rfl := Except.ok.inj h
    rfl
  | .apply table resolution args =>
    obtain ⟨ps, early, hps, hearly, rfl⟩ := refold_apply_eq_ok h
    have hsignature := signature_refoldAll hs hq.2.2 hps fun node hnode =>
      hdefinite node (.tail _ hnode)
    obtain ⟨name, htable⟩ := hq.1
    obtain rfl : early = resolution :=
      Except.ok.inj (hearly.symm.trans (hsignature.symm ▸ hq.2.1))
    refine tag_fold fun hconst v hv => ?_
    obtain ⟨vs, -, hv⟩ := bind_eq_ok_iff.mp hv
    rcases (hs.tables name table htable).tag_apply hearly hv with htag | htag
    · exact htag
    · exact absurd htag (hself (closedAll_of_refoldAll hps hconst))
  | .and l r =>
    obtain ⟨l', r', -, -, rfl⟩ := refold_and_eq_ok h
    exact tag_fold fun _ v hv => tag_eval_and_or .and rfl hv
  | .or l r =>
    obtain ⟨l', r', -, -, rfl⟩ := refold_or_eq_ok h
    exact tag_fold fun _ v hv => tag_eval_and_or .or rfl hv
  | .call f args =>
    obtain ⟨ps, hps, rfl⟩ := refold_call_eq_ok h
    obtain ⟨name, hf⟩ := hq.1
    refine tag_fold fun hconst v hv => ?_
    obtain ⟨vs, -, hv⟩ := bind_eq_ok_iff.mp hv
    rcases hs.functions name f hf vs v hv with htag | htag
    · exact htag
    · exact absurd htag (hself (closedAll_of_refoldAll hps hconst))

theorem signature_refoldAll (hs : s.registry.Honest) {ps qs : List Plan} (hqs : s.KeepsAll qs)
    (h : refoldAll qs = .ok ps)
    (hdefinite : ∀ node ∈ nodesAll qs, node.closed = true → node.tag ≠ .object) :
    signature ps = signature qs := by
  match qs with
  | [] =>
    obtain rfl := Except.ok.inj h
    rfl
  | q :: rest =>
    obtain ⟨p', ps', hp', hps', rfl⟩ := refoldAll_cons_eq_ok.mp h
    have hhead := tag_refold hs hqs.1 hp' fun node hnode =>
      hdefinite node (mem_nodesAll_cons.mpr (Or.inl hnode))
    have htail := signature_refoldAll hs hqs.2 hps' fun node hnode =>
      hdefinite node (mem_nodesAll_cons.mpr (Or.inr hnode))
    show p'.tag :: signature ps' = q.tag :: signature rest
    rw [hhead, htail]

end

mutual

/-- **Definite plans are steady**, whatever tables they ask. -/
theorem steady_of_definite (hs : s.registry.Honest) {q : Plan} (hq : s.Keeps q)
    (hdefinite : q.Definite) : q.Steady record := by
  match q with
  | .const _ | .var .. => exact trivial
  | .apply table resolution args =>
    have hall : ∀ node ∈ nodesAll args, node.closed = true → node.tag ≠ .object :=
      fun node hnode => hdefinite node (.tail _ hnode)
    have hkey : ∀ key, Shown args key → key = signature args := by
      rintro key (hkey | ⟨ps, hps, hkey⟩)
      · exact hkey
      · rw [hkey, signature_refoldAll hs hq.2.2 hps hall]
    refine ⟨steadyAll_of_definite hs hq.2.2 hall, fun vs _ key key' early early' h h' => ?_⟩
    obtain rfl := hkey key h
    obtain rfl := hkey key' h'
    intro hearly hearly'
    obtain rfl := Except.ok.inj (hearly.symm.trans hearly')
    exact Agrees.refl _
  | .and l r | .or l r =>
    exact ⟨steady_of_definite hs hq.1 fun node hnode =>
        hdefinite node (.tail _ (List.mem_append_left _ hnode)),
      fun _ => steady_of_definite hs hq.2 fun node hnode =>
        hdefinite node (.tail _ (List.mem_append_right _ hnode))⟩
  | .call f args =>
    exact steadyAll_of_definite hs hq.2 fun node hnode => hdefinite node (.tail _ hnode)

theorem steadyAll_of_definite (hs : s.registry.Honest) {qs : List Plan} (hqs : s.KeepsAll qs)
    (hdefinite : ∀ node ∈ nodesAll qs, node.closed = true → node.tag ≠ .object) :
    SteadyAll record qs := by
  match qs with
  | [] => exact trivial
  | q :: rest =>
    exact ⟨steady_of_definite hs hqs.1 fun node hnode =>
        hdefinite node (mem_nodesAll_cons.mpr (Or.inl hnode)),
      fun _ _ => steadyAll_of_definite hs hqs.2 fun node hnode =>
        hdefinite node (mem_nodesAll_cons.mpr (Or.inr hnode))⟩

end

/-! ### Plans of steady tables -/

section

variable {record : Record}

/-- What the operands of a steady plan are known by is right. -/
theorem Shown.admits (hs : s.registry.Honest) (hrecord : record.Conforms s.leaves)
    {args : List Plan} {key : Signature} (h : Shown args key) (hargs : s.KeepsAll args)
    (hsteady : SteadyAll (some record) args) {vs : List Value}
    (hvs : evalAll (some record) args = .ok vs) : List.Forall₂ Tag.Admits key vs := by
  rcases h with rfl | ⟨ps, hps, rfl⟩
  · exact Scope.admits_signature hs hrecord (Scope.makes_of_keepsAll hargs) hvs
  · have hfolded := ((agrees_refoldAll hargs hps hsteady).ok_iff vs).mpr hvs
    exact Scope.admits_signature hs hrecord (Scope.makes_refoldAll hargs hps) hfolded

/-- The tables of the nodes are steady for all that is right about what they get. -/
def AsksSteady (record : Record) (nodes : List Plan) : Prop :=
  ∀ table early args, apply table early args ∈ nodes →
    ∀ vs, evalAll (some record) args = .ok vs → table.Steady (List.Forall₂ Tag.Admits · vs) vs

theorem AsksSteady.mono {nodes nodes' : List Plan} (h : AsksSteady record nodes)
    (hsub : nodes' ⊆ nodes) : AsksSteady record nodes' :=
  fun table early args hnode => h table early args (hsub hnode)

mutual

/-- **Plans of steady tables are steady.** -/
theorem steady_of_asks (hs : s.registry.Honest) (hrecord : record.Conforms s.leaves) {q : Plan}
    (hq : s.Keeps q) (h : AsksSteady record q.nodes) : q.Steady (some record) := by
  match q with
  | .const _ | .var .. => exact trivial
  | .apply table resolution args =>
    have hall := steadyAll_of_asks hs hrecord hq.2.2 (h.mono (List.subset_cons_self _ _))
    refine ⟨hall, fun vs hvs => ?_⟩
    exact (h table resolution args (.head _) vs hvs).mono fun _ hkey =>
      hkey.admits hs hrecord hq.2.2 hall hvs
  | .and l r | .or l r =>
    exact ⟨steady_of_asks hs hrecord hq.1 (h.mono fun _ hnode =>
        .tail _ (List.mem_append_left _ hnode)),
      fun _ => steady_of_asks hs hrecord hq.2 (h.mono fun _ hnode =>
        .tail _ (List.mem_append_right _ hnode))⟩
  | .call f args => exact steadyAll_of_asks hs hrecord hq.2 (h.mono (List.subset_cons_self _ _))

theorem steadyAll_of_asks (hs : s.registry.Honest) (hrecord : record.Conforms s.leaves)
    {qs : List Plan} (hqs : s.KeepsAll qs) (h : AsksSteady record (nodesAll qs)) :
    SteadyAll (some record) qs := by
  match qs with
  | [] => exact trivial
  | q :: rest =>
    exact ⟨steady_of_asks hs hrecord hqs.1 (h.mono (List.subset_append_left _ _)),
      fun _ _ => steadyAll_of_asks hs hrecord hqs.2 (h.mono (List.subset_append_right _ _))⟩

end

end

end Plan

/-- **Where tables are steady, folding is not seen.** The built-in tables are steady for all that is
right about arguments, but for what `string` makes of arguments without value, and so are tables of
strict overloads. In any honest registry and any layout, where an expression is bound both with
folding and without, and on any record that conforms to the layout, both plans come out alike

* when the unfolded one is definite, whatever tables there are,
* when the tables that it asks are steady for all that is right about what they get there, and
* in general, when these tables do the same for operands known as they are and once folded. -/
theorem Expr.compile_agrees_keep :
    (∀ now name table, (Registry.standard now).table? name = some table →
      ∀ args, (name = "string" → .null ∉ args) →
        table.Steady (List.Forall₂ Tag.Admits · args) args) ∧
    (∀ b : Table.Builder, b.Strict → ∀ args,
      b.build.Steady (List.Forall₂ Tag.Admits · args) args) ∧
    ∀ registry : Registry, registry.Honest →
      ∀ (layout : Option Layout) (e : Expr) (p q : Plan),
      e.compile ⟨layout, registry⟩ = .ok p →
      e.compileWith Plan.keep ⟨layout, registry⟩ = .ok q →
      ∀ record : Record, record.Conforms (Scope.leaves ⟨layout, registry⟩) →
        (q.Definite → Agrees (p.eval (some record)) (q.eval (some record))) ∧
        (Plan.AsksSteady record q.nodes →
          Agrees (p.eval (some record)) (q.eval (some record))) ∧
        (q.Steady (some record) → Agrees (p.eval (some record)) (q.eval (some record))) := by
  refine ⟨fun now name table h args hnull => Library.steady_builtins h hnull,
    fun b hb args => hb.steady args, ?_⟩
  intro registry hregistry layout e p q hp hq record hrecord
  have hmirrors := Scope.mirrors_compile hp hq
  have hagrees : q.Steady (some record) → Agrees (p.eval (some record)) (q.eval (some record)) :=
    Plan.agrees_refold hmirrors.keeps hmirrors.refold
  refine ⟨fun h => hagrees ?_, fun h => hagrees ?_, hagrees⟩
  · exact Plan.steady_of_definite hregistry hmirrors.keeps h
  · exact Plan.steady_of_asks hregistry hrecord hmirrors.keeps h

/-! ### Results of unknown tag -/

/-- A function that gives back its first argument, which may be anything. -/
def anything : Function where
  name := "any"
  result := .object
  body args := .ok (args.headD .null)

theorem honest_anything : anything.Honest := fun _ _ _ => Or.inr rfl

/-- The call of one name on the result of another. -/
def nested (outer inner : String) (n : Int64) : Expr :=
  .call outer [.call inner [.const (.long n) ⟨9, 10⟩] ⟨5, 11⟩] ⟨0, 12⟩

section

variable {r : Registry} {outer : String} {table : Table} (n : Int64)
  (hany : r.function? "any" = some anything) (houter : r.function? outer = none)
  (htable : r.table? outer = some table)

include hany houter htable

/-- With folding, the result is known to be long before the table is asked. -/
theorem compile_nested_any {early : Resolution} {v : Value}
    (hearly : table.resolve [.long] = .ok early) (hv : early.apply table [.long n] = .ok v) :
    (nested outer "any" n).compile ⟨none, r⟩ = .ok (.const v) := by
  have hcall : Plan.fold true (.call anything [.const (.long n)]) = .const (.long n) := rfl
  have hsignature : Plan.signature [.const (.long n)] = [.long] := rfl
  have heval : Plan.eval none (.apply table early [.const (.long n)]) = .ok v := hv
  simp only [nested, Expr.compile, Scope.bind, Scope.bindAll, Scope.applyNamed,
    Scope.applyTable, hany, houter, htable, Bound.toPlan, ok_bind, pure_bind, List.all_cons,
    List.all_nil, Plan.isConst, Bool.and_self, hcall, hsignature, hearly]
  simp only [Plan.fold, heval]
  rfl

/-- Without folding, nothing is known of it. -/
theorem compileWith_keep_nested_any {early : Resolution}
    (hearly : table.resolve [.object] = .ok early) :
    (nested outer "any" n).compileWith Plan.keep ⟨none, r⟩ =
      .ok (.apply table early [.call anything [.const (.long n)]]) := by
  have hsignature : Plan.signature [.call anything [.const (.long n)]] = [.object] := rfl
  simp only [nested, Expr.compileWith, Scope.bindWith, Scope.bindAllWith,
    Scope.applyNamedWith, Scope.applyTableWith, hany, houter, htable, Bound.toPlan, ok_bind,
    pure_bind, Plan.keep, hsignature, hearly]

end

section

variable {r : Registry} {outer inner : String} {table operand : Table} {n : Int64}
  {early first : Resolution} (houter : r.function? outer = none)
  (htable : r.table? outer = some table) (hearly : table.resolve [.long] = .ok early)
  (hinner : r.function? inner = none) (hoperand : r.table? inner = some operand)
  (hfirst : operand.resolve [.long] = .ok first)

include houter htable hearly hinner hoperand hfirst

/-- With folding, the result of a table is known by its value. -/
theorem compile_nested_table {m : Int64} {v : Value}
    (hm : first.apply operand [.long n] = .ok (.long m))
    (hv : early.apply table [.long m] = .ok v) :
    (nested outer inner n).compile ⟨none, r⟩ = .ok (.const v) := by
  have hsignature (n : Int64) : Plan.signature [.const (.long n)] = [.long] := rfl
  have heval : Plan.eval none (.apply operand first [.const (.long n)]) = .ok (.long m) := hm
  have hresult : Plan.eval none (.apply table early [.const (.long m)]) = .ok v := hv
  simp only [nested, Expr.compile, Scope.bind, Scope.bindAll, Scope.applyNamed,
    Scope.applyTable, hinner, houter, hoperand, htable, Bound.toPlan, ok_bind, pure_bind,
    List.all_cons, List.all_nil, Plan.isConst, Bool.and_self, hsignature, hfirst, Plan.fold,
    if_true, heval, hearly, hresult]

/-- Without folding, it is known by what the overload declares. -/
theorem compileWith_keep_nested_table (hresult : first.result = .long) :
    (nested outer inner n).compileWith Plan.keep ⟨none, r⟩ =
      .ok (.apply table early [.apply operand first [.const (.long n)]]) := by
  have hsignature : Plan.signature [.const (.long n)] = [.long] := rfl
  have hsignature' : Plan.signature [.apply operand first [.const (.long n)]] = [.long] :=
    congrArg (· :: []) hresult
  simp only [nested, Expr.compileWith, Scope.bindWith, Scope.bindAllWith,
    Scope.applyNamedWith, Scope.applyTableWith, hinner, houter, hoperand, htable, Bound.toPlan,
    ok_bind, pure_bind, Plan.keep, hsignature, hfirst, hsignature', hearly]

end

/-- The word for numbers. -/
def kindOfNumber : Overload := ⟨[.long], .string, fun _ => .ok (.string "number")⟩

/-- The word for what nothing is known of. -/
def kindOfAnything : Overload := ⟨[.object], .string, fun _ => .ok (.string "anything")⟩

theorem honest_kindOfNumber : kindOfNumber.Honest := fun _ _ hv => Or.inl (Except.ok.inj hv ▸ rfl)

theorem honest_kindOfAnything : kindOfAnything.Honest :=
  fun _ _ hv => Or.inl (Except.ok.inj hv ▸ rfl)

/-- Doubling. -/
def doubling : Table.Builder :=
  (Table.Builder.new "twice" []).add (.unary .long .long fun n => n + n)

theorem strict_doubling : doubling.Strict :=
  ⟨nofun, fun _ ho => List.mem_singleton.mp ho ▸ Overload.strict_unary _⟩

/-- The words for kinds. -/
def kinds : Table.Builder := ((Table.Builder.new "kind" []).add kindOfNumber).add kindOfAnything

/-- The registry of doubling, of those words, and of the function that gives back its argument. -/
def doublingRegistry : Registry :=
  ⟨[("twice", doubling.build), ("kind", kinds.build)], [("any", anything)], []⟩

theorem honest_doublingRegistry : doublingRegistry.Honest := by
  constructor
  · intro name table h
    rw [Registry.table?, doublingRegistry, Entries.find?_cons, Entries.find?_cons] at h
    split at h
    · obtain rfl := Option.some.inj h
      refine Table.Builder.honest_build fun o ho => ?_
      exact List.mem_singleton.mp ho ▸ Overload.honest_unary _
    · split at h
      · obtain rfl := Option.some.inj h
        refine Table.Builder.honest_build fun o ho => ?_
        rcases List.mem_pair.mp ho with rfl | rfl
        · exact honest_kindOfNumber
        · exact honest_kindOfAnything
      · simp at h
  · intro name f h
    rw [Registry.function?, doublingRegistry, Entries.find?_cons] at h
    split at h
    · exact Option.some.inj h ▸ honest_anything
    · simp at h

/-- Doubling is not found for what nothing is known of. -/
theorem resolve_doubling_object : doubling.build.resolve [.object] = .ok .deferred := by
  rw [Table.resolve]
  split
  · next target htarget =>
    exact absurd rfl (strict_doubling.definite htarget (List.mem_singleton_self _)).2
  · rfl

/-- Doubling of a constant that nothing is known of asks no table but that of doubling. -/
theorem asksSteady_doubling (record : Record) (n : Int64) :
    Plan.AsksSteady record (Plan.nodes
      (.apply doubling.build .deferred [.call anything [.const (.long n)]])) := by
  intro table early args hnode vs hvs
  simp only [Plan.nodes, Plan.nodesAll, List.append_nil, List.mem_cons, List.not_mem_nil,
    Plan.apply.injEq, reduceCtorEq, or_false] at hnode
  rw [hnode.1]
  exact strict_doubling.steady vs

/-- The word for a doubled constant declares what it gives, and so does doubling. -/
theorem definite_kinds_doubling (n : Int64) :
    Plan.Definite (.apply kinds.build (.direct (.exact kindOfNumber))
      [.apply doubling.build (.direct (.exact (.unary .long .long fun n => n + n)))
        [.const (.long n)]]) := by
  intro node hnode _
  simp only [Plan.nodes, Plan.nodesAll, List.append_nil, List.mem_cons, List.not_mem_nil,
    or_false] at hnode
  rcases hnode with rfl | rfl | rfl <;> intro hobject <;> cases hobject

/-- Where there is no layout, the record without slots conforms. -/
theorem conforms_nil (registry : Registry) :
    Record.Conforms ⟨[]⟩ (Scope.leaves ⟨none, registry⟩) := by
  intro t slot v hleaf
  cases hleaf

/-- In `twice(any(21))`, doubling is found while binding with folding, and only after that without.
In `kind(twice(21))` there is nothing to find out, as doubling declares what it gives. -/
theorem Expr.compile_agrees_keep_doubling :
    doublingRegistry.Honest ∧ Record.Conforms ⟨[]⟩ (Scope.leaves ⟨none, doublingRegistry⟩) ∧
      (∃ q, (nested "twice" "any" 21).compile ⟨none, doublingRegistry⟩ = .ok (.const (.long 42)) ∧
        (nested "twice" "any" 21).compileWith Plan.keep ⟨none, doublingRegistry⟩ = .ok q ∧
        ¬ q.Definite ∧ Plan.AsksSteady ⟨[]⟩ q.nodes ∧
        Agrees ((Plan.const (.long 42)).eval (some ⟨[]⟩)) (q.eval (some ⟨[]⟩))) ∧
      ∃ q, (nested "kind" "twice" 21).compile ⟨none, doublingRegistry⟩ =
          .ok (.const (.string "number")) ∧
        (nested "kind" "twice" 21).compileWith Plan.keep ⟨none, doublingRegistry⟩ = .ok q ∧
        q.Definite ∧
        Agrees ((Plan.const (.string "number")).eval (some ⟨[]⟩)) (q.eval (some ⟨[]⟩)) := by
  have hdoubling : doubling.Live (.unary .long .long fun n => n + n) := ⟨[], [], rfl, by simp⟩
  have hnumber : kinds.Live kindOfNumber :=
    ⟨[], [kindOfAnything], rfl, by simp [kindOfNumber, kindOfAnything]⟩
  have hrecord := conforms_nil doublingRegistry
  refine ⟨honest_doublingRegistry, hrecord, ?_, ?_⟩
  · have hp : (nested "twice" "any" 21).compile ⟨none, doublingRegistry⟩ =
        .ok (.const (.long 42)) :=
      compile_nested_any 21 rfl rfl rfl hdoubling.resolve rfl
    have hq : (nested "twice" "any" 21).compileWith Plan.keep ⟨none, doublingRegistry⟩ =
        .ok (.apply doubling.build .deferred [.call anything [.const (.long 21)]]) :=
      compileWith_keep_nested_any 21 rfl rfl rfl resolve_doubling_object
    have hasks := asksSteady_doubling ⟨[]⟩ 21
    refine ⟨_, hp, hq, fun h => h _ (.head _) rfl rfl, hasks, ?_⟩
    exact (Expr.compile_agrees_keep.2.2 _ honest_doublingRegistry none _ _ _ hp hq _ hrecord).2.1
      hasks
  · have hp : (nested "kind" "twice" 21).compile ⟨none, doublingRegistry⟩ =
        .ok (.const (.string "number")) :=
      compile_nested_table rfl rfl hnumber.resolve rfl rfl hdoubling.resolve rfl rfl
    have hq : (nested "kind" "twice" 21).compileWith Plan.keep ⟨none, doublingRegistry⟩ =
        .ok (.apply kinds.build (.direct (.exact kindOfNumber))
          [.apply doubling.build (.direct (.exact (.unary .long .long fun n => n + n)))
            [.const (.long 21)]]) :=
      compileWith_keep_nested_table rfl rfl hnumber.resolve rfl rfl hdoubling.resolve rfl
    have hdefinite := definite_kinds_doubling 21
    refine ⟨_, hp, hq, hdefinite, ?_⟩
    exact (Expr.compile_agrees_keep.2.2 _ honest_doublingRegistry none _ _ _ hp hq _ hrecord).1
      hdefinite

/-- The built-in registrations, those words, and the function that gives back its argument. -/
def kindRegistrations (now : Calendar.DateTime) : Registry.Builder :=
  ((Library.builtins now).registerOverloads "kind" [kindOfNumber, kindOfAnything]).registerFunction
    "any" .object anything.body

/-- The table of those words, after what the library may have under that name. -/
def kindTable (now : Calendar.DateTime) : Table.Builder :=
  (((Library.builtins now).tableOrNew "kind").add kindOfNumber).add kindOfAnything

theorem overloads_kindTable (now : Calendar.DateTime) : (kindTable now).overloads =
    ((Library.builtins now).tableOrNew "kind").overloads ++ [kindOfNumber, kindOfAnything] :=
  List.append_assoc ..

theorem table?_kindRegistrations (now : Calendar.DateTime) (name : String) :
    (kindRegistrations now).build.table? name =
      if name = "kind" then some (kindTable now).build
      else (Library.builtins now).build.table? name := by
  rw [Registry.Builder.table?_build, Registry.Builder.table?_build]
  simp only [kindRegistrations, Registry.Builder.registerFunction,
    Registry.Builder.registerOverloads, Registry.Builder.registerOverload,
    List.foldl_cons, List.foldl_nil, Registry.Builder.find?_modifyTable,
    Registry.Builder.tableOrNew_modifyTable, if_true]
  split <;> rfl

theorem function?_kindRegistrations (now : Calendar.DateTime) (name : String) :
    (kindRegistrations now).build.function? name =
      if name = "any" then some anything else none := by
  have hkeep : ∀ b : Registry.Builder,
      (b.registerOverloads "kind" [kindOfNumber, kindOfAnything]).functions = b.functions :=
    fun _ => rfl
  rw [Registry.function?, Registry.Builder.build, kindRegistrations,
    Registry.Builder.registerFunction, Entries.find?_insert, hkeep,
    (Library.regular_builtins now).functions, Entries.find?_nil]
  rfl

theorem honest_kindRegistrations (now : Calendar.DateTime) :
    (kindRegistrations now).build.Honest := by
  constructor
  · intro name table h
    rw [table?_kindRegistrations] at h
    split at h
    · obtain rfl := Option.some.inj h
      refine Table.Builder.honest_build fun o ho => ?_
      rw [overloads_kindTable, List.mem_append, List.mem_pair] at ho
      rcases ho with ho | rfl | rfl
      · exact (Library.regular_builtins now).honest "kind" o ho
      · exact honest_kindOfNumber
      · exact honest_kindOfAnything
    · exact (Library.honest_standard now).tables name table h
  · intro name f h
    rw [function?_kindRegistrations] at h
    split at h
    · exact Option.some.inj h ▸ honest_anything
    · cases h

/-- The registry of the built-in library, those words and that function. -/
def kindRegistry : Registry := (kindRegistrations ⟨0, 0, 0⟩).build

/-- **Where tables are not steady, folding is seen.** The word for the kind of a value is chosen by
what is known of the value, and folding makes more known. -/
theorem Expr.not_agrees_keep_kind :
    kindRegistry.Honest ∧
      (nested "kind" "any" 1).compile ⟨none, kindRegistry⟩ = .ok (.const (.string "number")) ∧
      (nested "kind" "any" 1).compileWith Plan.keep ⟨none, kindRegistry⟩ =
        .ok (.apply (kindTable ⟨0, 0, 0⟩).build (.direct (.exact kindOfAnything))
          [.call anything [.const (.long 1)]]) ∧
      Record.Conforms ⟨[]⟩ (Scope.leaves ⟨none, kindRegistry⟩) ∧
      ¬ Agrees ((Plan.const (.string "number")).eval (some ⟨[]⟩))
        ((Plan.apply (kindTable ⟨0, 0, 0⟩).build (.direct (.exact kindOfAnything))
          [.call anything [.const (.long 1)]]).eval (some ⟨[]⟩)) := by
  have htable : kindRegistry.table? "kind" = some (kindTable ⟨0, 0, 0⟩).build := by
    rw [kindRegistry, table?_kindRegistrations, if_pos rfl]
  have hany : kindRegistry.function? "any" = some anything := by
    rw [kindRegistry, function?_kindRegistrations, if_pos rfl]
  have hname : kindRegistry.function? "kind" = none := by
    rw [kindRegistry, function?_kindRegistrations, if_neg (by decide)]
  have hnumber : (kindTable ⟨0, 0, 0⟩).Live kindOfNumber :=
    ⟨_, [kindOfAnything], overloads_kindTable _, by simp [kindOfNumber, kindOfAnything]⟩
  have hanything : (kindTable ⟨0, 0, 0⟩).Live kindOfAnything := ⟨_, [], rfl, nofun⟩
  refine ⟨honest_kindRegistrations _, compile_nested_any 1 hany hname htable hnumber.resolve rfl,
    compileWith_keep_nested_any 1 hany hname htable hanything.resolve, conforms_nil _,
    fun hagrees => ?_⟩
  exact absurd (show "number" = "anything" from Value.string.inj hagrees) (by decide)

end Formulary
