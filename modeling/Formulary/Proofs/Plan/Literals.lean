import Formulary.Proofs.Plan.ExactArithmetic
import Formulary.Proofs.Plan.Folding
import Formulary.Proofs.Syntax.Reprinting
import Formulary.Proofs.Syntax.Substitution

/-!
# Literals in the place of variables

A template can be bound to a layout and evaluated on a record, or the numbers in the record can be
written into the source and the layout and the record be left out. Here it is shown that both come
out alike, with the same value or with a fault of the same stage and code.

## Scope

The least long is no literal. A sign is an operator on what comes after it, and the digits of the
least long go beyond the longs, so its text stands for a decimal. A variable whose value it is has
to be a leaf for decimals then; on a leaf for longs the two do not come out alike.

## Implementation notes

The two sides meet in no intermediate form. Each of the two plans is known by tags that are right
about its values, so what is chosen early in either comes to the same as a look-up by the tags of
values, and these are the same on both sides. The induction on the template carries both: right tags
and equal outcomes. Folding needs nothing of its own, as it changes neither.

## Main definitions

* `Plan.Tagged` — a plan that is known by a right tag
* `Plan.Alike`, `Scope.Alike` — plans and expressions that come out alike
* `Expr.spelled`, `Value.spelled` — what the text of a long is read as, and the value of that
* `Scope.HoldsAt` — a variable that is known to be of the tag of its value
* `Expr.replaceByLongs` — a source with the texts of longs in the place of its names

## Main results

* `Scope.bind_bare` — places play no part in binding
* `Expr.alike_substitute` — constants in the place of variables
* `Expr.ofSource_replaceByLongs_agrees` — literals and variables agree
* `Expr.not_agrees_replaceByLongs_least` — but for the least long
-/

namespace Formulary

open Calendar Library

/-! ### Places -/

theorem Bound.toPlan_bare (b : Bound) (e : Expr) : b.toPlan e.bare = b.toPlan e := by
  cases b with
  | plan p => rfl
  | structural node => rw [toPlan, toPlan, Expr.print_bare]

namespace Scope

variable (s : Scope)

theorem applyIndex_bare (base : Bound) (source : Expr) (index : Plan) :
    s.applyIndex base source.bare index = s.applyIndex base source index := by
  cases base with
  | plan p => rfl
  | structural node => rw [applyIndex, applyIndex, Expr.print_bare]

mutual

/-- **Places play no part in binding.** -/
theorem bind_bare : (e : Expr) → s.bind e.bare = s.bind e
  | .const .. | .var .. => rfl
  | .call name args _ => by
    change s.bind (.call name (Expr.bareAll args) default) = _
    rw [bind, bind, bindAll_bare args]
  | .index base index _ => by
    change s.bind (.index base.bare index.bare default) = _
    rw [bind, bind, bind_bare base, bind_bare index]
    simp only [Bound.toPlan_bare, applyIndex_bare]
  | .unary op operand _ => by
    change s.bind (.unary op operand.bare default) = _
    rw [bind, bind, bind_bare operand]
    simp only [Bound.toPlan_bare]
  | .binary op l r _ => by
    change s.bind (.binary op l.bare r.bare default) = _
    rw [bind, bind, bind_bare l, bind_bare r]
    simp only [Bound.toPlan_bare]

theorem bindAll_bare : (es : List Expr) → s.bindAll (Expr.bareAll es) = s.bindAll es
  | [] => rfl
  | e :: rest => by
    change s.bindAll (e.bare :: Expr.bareAll rest) = _
    rw [bindAll, bindAll, bind_bare e, bindAll_bare rest]
    simp only [Bound.toPlan_bare]

end

end Scope

/-! ### Plans that come out alike -/

/-- The registry chooses early what is found late in `r₀`, tells the tags of results, and has a
table for every operator, which refuses no signature. -/
structure Registry.Faithful (r r₀ : Registry) : Prop where
  matched : r.Matched r₀
  honest : r.Honest
  complete : r.Complete

theorem Library.faithful_standard (now now' : DateTime) :
    (Registry.standard now).Faithful (.standard now') :=
  ⟨matched_standard now now', honest_standard now, Registry.complete_standard now⟩

/-- The tag of the plan is right about its value. -/
def Plan.Tagged (record : Option Record) (p : Plan) : Prop :=
  ∀ v, p.eval record = .ok v → p.tag.Admits v

/-- Plans that are evaluated on records of their own: both are known by right tags, and they come
out alike. -/
structure Plan.Alike (record record' : Option Record) (p q : Plan) : Prop where
  left : p.Tagged record
  right : q.Tagged record'
  agrees : Agrees (p.eval record) (q.eval record')

/-- Expressions that are bound, each in its own scope, to plans that come out alike. -/
def Scope.Alike (s s' : Scope) (record record' : Option Record) (e e' : Expr) : Prop :=
  ∃ p q, s.bind e = .ok (.plan p) ∧ s'.bind e' = .ok (.plan q) ∧ p.Alike record record' q

section

variable {layout layout' : Option Layout} {r r' r₀ : Registry} {record record' : Option Record}

theorem Plan.tagged_const (v : Value) : (const v).Tagged record := by
  intro w hw
  obtain rfl : v = w := Except.ok.inj hw
  exact Tag.admits_tag v

/-- What is folded is known by a right tag, when that is so before. -/
theorem Plan.Tagged.fold {p : Plan} (h : p.Tagged record) (constant : Bool) :
    (Plan.fold constant p).Tagged record := by
  rcases fold_cases constant p with hfold | ⟨v, -, -, hfold⟩
  · rwa [hfold]
  · rw [hfold]
    exact tagged_const v

/-- So is what a table is bound to, whatever its operands are. -/
theorem Scope.tagged_applyTable {s : Scope} (hs : s.registry.Honest) {name : String}
    {ps : List Plan} {p : Plan} (h : s.applyTable name ps = .ok p) : p.Tagged record := by
  obtain ⟨table, resolution, htable, hresolution, rfl⟩ := applyTable_eq_ok h
  refine Plan.Tagged.fold (fun v hv => ?_) _
  obtain ⟨vs, -, hv⟩ := bind_eq_ok_iff.mp hv
  exact .inr ((hs.tables name table htable).tag_apply hresolution hv)

/-- So is a logical operator. -/
theorem Plan.tagged_logical {op : BinaryOp} (hop : op.table? = none) (p q : Plan) :
    (logical op p q).Tagged record := by
  refine Tagged.fold (fun v hv => ?_) _
  rw [Tag.Admits, tag_eval_and_or op hop hv]
  split <;> exact .inr (.inl rfl)

/-- Operands that are known by right tags. -/
theorem Plan.Tagged.forall₂_admits {ps : List Plan} (h : ∀ p ∈ ps, p.Tagged record)
    {vs : List Value} (hvs : evalAll record ps = .ok vs) :
    List.Forall₂ Tag.Admits (signature ps) vs := by
  induction ps generalizing vs with
  | nil =>
    obtain rfl : [] = vs := Except.ok.inj hvs
    exact .nil
  | cons p rest ih =>
    rw [List.forall_mem_cons] at h
    obtain ⟨v, ws, hv, hws, rfl⟩ := evalAll_cons_eq_ok.mp hvs
    exact .cons (h.1 v hv) (ih h.2 hws)

/-- The table of an operator is bound to any operands, and comes to what is found by the tags of
their values. -/
theorem Scope.exists_applyTable (hr : r.Faithful r₀) {name : String} (hname : r.table? name ≠ none)
    (htime : name ≠ "time") (hstring : name ≠ "string") (ps : List Plan) :
    ∃ p, (Scope.mk layout r).applyTable name ps = .ok p ∧ ∀ record, p.Tagged record ∧
      ((∀ q ∈ ps, q.Tagged record) →
        Agrees (p.eval record) (Plan.evalAll record ps >>= r₀.dispatch name)) := by
  obtain ⟨table, htable⟩ := Option.ne_none_iff_exists'.mp hname
  obtain ⟨resolution, hresolution⟩ :=
    Table.exists_resolve (hr.complete.defers name table htable) (Plan.signature ps)
  have happly : (Scope.mk layout r).applyTable name ps =
      .ok (Plan.fold (ps.all Plan.isConst) (.apply table resolution ps)) := by
    simp only [applyTable, htable, hresolution, ok_bind]
    rfl
  have heval : ∀ record, (Plan.apply table resolution ps).eval record =
      Plan.evalAll record ps >>= resolution.apply table := fun _ => by rw [Plan.eval]
  refine ⟨_, happly, fun record => ⟨tagged_applyTable hr.honest happly, fun hps => ?_⟩⟩
  -- folding is out of sight from here on: only the operands are evaluated
  rw [Plan.eval_fold_operands heval]
  refine (Agrees.refl _).bind fun vs hvs => ?_
  exact hr.matched.early name table _ resolution vs htable hresolution
    (Plan.Tagged.forall₂_admits hps hvs) (fun h => absurd h htime) fun h => absurd h hstring

namespace Plan.Alike

variable {p q p' q' : Plan} {ps qs : List Plan}

theorem symm (h : Alike record record' p q) : Alike record' record q p :=
  ⟨h.right, h.left, h.agrees.symm⟩

/-- A constant in the place of what has its value. -/
theorem const {v : Value} (hp : p.eval record = .ok v) (hadmits : p.tag.Admits v) :
    Alike record record' p (.const v) where
  left w hw := by
    obtain rfl : v = w := Except.ok.inj (hp.symm.trans hw)
    exact hadmits
  right := tagged_const v
  agrees := Agrees.of_eq hp

/-- Operands come out alike. -/
theorem evalAll (h : List.Forall₂ (Alike record record') ps qs) :
    Agrees (evalAll record ps) (evalAll record' qs) := by
  induction h with
  | nil => exact Agrees.refl _
  | cons hhead _ ih => exact hhead.agrees.bind fun v _ => ih.bind fun vs _ => Agrees.refl _

theorem forall_left (h : List.Forall₂ (Alike record record') ps qs) :
    ∀ p ∈ ps, p.Tagged record :=
  ((List.forall₂_and_left ps qs).mp (h.imp fun _ _ hpq => ⟨hpq.left, hpq⟩)).1

theorem forall_right (h : List.Forall₂ (Alike record record') ps qs) :
    ∀ q ∈ qs, q.Tagged record' :=
  forall_left (List.Forall₂.flip (h.imp fun _ _ => symm))

/-- The table of an operator on both sides. -/
theorem exists_applyTable (layout layout' : Option Layout) (hr : r.Faithful r₀)
    (hr' : r'.Faithful r₀) {name : String} (hname : r.table? name ≠ none)
    (hname' : r'.table? name ≠ none) (htime : name ≠ "time") (hstring : name ≠ "string")
    (h : List.Forall₂ (Alike record record') ps qs) :
    ∃ p q, (Scope.mk layout r).applyTable name ps = .ok p ∧
      (Scope.mk layout' r').applyTable name qs = .ok q ∧ Alike record record' p q := by
  obtain ⟨p, hp, happly⟩ := Scope.exists_applyTable hr hname htime hstring ps
  obtain ⟨q, hq, happly'⟩ := Scope.exists_applyTable hr' hname' htime hstring qs
  obtain ⟨hleft, hagrees⟩ := happly record
  obtain ⟨hright, hagrees'⟩ := happly' record'
  have hdispatch := (evalAll h).bind fun vs _ => Agrees.refl (r₀.dispatch name vs)
  refine ⟨p, q, hp, hq, hleft, hright, ?_⟩
  exact (hagrees (forall_left h)).trans (hdispatch.trans (hagrees' (forall_right h)).symm)

/-- A logical operator on both sides. -/
theorem logical {op : BinaryOp} (hop : op.table? = none) (hleft : Alike record record' p q)
    (hright : Alike record record' p' q') :
    Alike record record' (Plan.logical op p p') (Plan.logical op q q') where
  left := tagged_logical hop p p'
  right := tagged_logical hop q q'
  agrees := by
    rw [eval_logical hop, eval_logical hop]
    exact agrees_shortCircuit hleft.agrees fun _ => hright.agrees

end Plan.Alike

/-! ### Operators -/

/-- No operator asks for the present moment, and none prints. -/
theorem UnaryOp.table_ne (op : UnaryOp) : op.table ≠ "time" ∧ op.table ≠ "string" := by
  cases op <;> decide

theorem BinaryOp.table?_ne (op : BinaryOp) :
    op.table? ≠ some "time" ∧ op.table? ≠ some "string" := by
  cases op <;> decide

namespace Scope.Alike

variable {e e' l l' m m' : Expr} {span span' : Span}

theorem unary (hr : r.Faithful r₀) (hr' : r'.Faithful r₀) (op : UnaryOp)
    (h : Scope.Alike ⟨layout, r⟩ ⟨layout', r'⟩ record record' e e') :
    Scope.Alike ⟨layout, r⟩ ⟨layout', r'⟩ record record' (.unary op e span)
      (.unary op e' span') := by
  obtain ⟨p, q, hp, hq, hpq⟩ := h
  obtain ⟨p', q', hp', hq', hresult⟩ := Plan.Alike.exists_applyTable layout layout' hr hr'
    (hr.complete.unary op) (hr'.complete.unary op) op.table_ne.1 op.table_ne.2 (.cons hpq .nil)
  refine ⟨p', q', ?_, ?_, hresult⟩
  · simp only [Scope.bind, hp, ok_bind, Bound.toPlan, hp']
    rfl
  · simp only [Scope.bind, hq, ok_bind, Bound.toPlan, hq']
    rfl

theorem binary (hr : r.Faithful r₀) (hr' : r'.Faithful r₀) (op : BinaryOp)
    (hleft : Scope.Alike ⟨layout, r⟩ ⟨layout', r'⟩ record record' l l')
    (hright : Scope.Alike ⟨layout, r⟩ ⟨layout', r'⟩ record record' m m') :
    Scope.Alike ⟨layout, r⟩ ⟨layout', r'⟩ record record' (.binary op l m span)
      (.binary op l' m' span') := by
  obtain ⟨p, q, hp, hq, hl⟩ := hleft
  obtain ⟨p', q', hp', hq', hm⟩ := hright
  cases hop : op.table? with
  | none =>
    refine ⟨_, _, ?_, ?_, hl.logical hop hm⟩
    · simp only [Scope.bind, hp, hp', ok_bind, Bound.toPlan, hop]
      rfl
    · simp only [Scope.bind, hq, hq', ok_bind, Bound.toPlan, hop]
      rfl
  | some name =>
    have htime : name ≠ "time" := fun h => op.table?_ne.1 (h ▸ hop)
    have hstring : name ≠ "string" := fun h => op.table?_ne.2 (h ▸ hop)
    obtain ⟨t, u, ht, hu, hresult⟩ := Plan.Alike.exists_applyTable layout layout' hr hr'
      (hr.complete.binary op name hop) (hr'.complete.binary op name hop) htime hstring
      (.cons hl (.cons hm .nil))
    refine ⟨t, u, ?_, ?_, hresult⟩
    · simp only [Scope.bind, hp, hp', ok_bind, Bound.toPlan, hop, ht]
      rfl
    · simp only [Scope.bind, hq, hq', ok_bind, Bound.toPlan, hop, hu]
      rfl

end Scope.Alike

end

/-- The name is that of a leaf of the tag of a value, and its slot holds the value. -/
def Scope.HoldsAt (s : Scope) (record : Option Record) (name : String) (v : Value) : Prop :=
  ∃ slot, s.bindName name = .ok (.plan (.var slot v.tag)) ∧ Plan.readSlot record slot = .ok v

/-- **Constants in the place of variables.** A template and the expression with constants in the
place of its variables come out alike, when every variable holds what its constant is. -/
theorem Expr.alike_substitute {layout layout' : Option Layout} {r r' r₀ : Registry}
    (hr : r.Faithful r₀) (hr' : r'.Faithful r₀) {record record' : Option Record}
    {leaf : String → Expr} {value : String → Value}
    (hleaf : ∀ name, (Scope.mk layout' r').bind (leaf name) = .ok (.plan (.const (value name)))) :
    (e : Expr) → e.IsTemplate →
      (∀ name ∈ e.names, Scope.HoldsAt ⟨layout, r⟩ record name (value name)) →
        Scope.Alike ⟨layout, r⟩ ⟨layout', r'⟩ record record' e (e.substitute leaf)
  | .var name _, _, h => by
    obtain ⟨slot, hname, hslot⟩ := h name (List.mem_singleton_self name)
    exact ⟨_, _, hname, hleaf name, .const hslot (Tag.admits_tag (value name))⟩
  | .unary op operand _, he, h => .unary hr hr' op (alike_substitute hr hr' hleaf operand he h)
  | .binary op l m _, he, h => by
    obtain ⟨hl, hm⟩ := List.forall_mem_append.mp h
    exact .binary hr hr' op (alike_substitute hr hr' hleaf l he.1 hl)
      (alike_substitute hr hr' hleaf m he.2 hm)

/-! ### The texts of longs -/

/-- The value of the digits of a negative long. Those of the least one go beyond the longs. -/
def Value.magnitude (n : Int64) : Value :=
  if n = Int64.minValue then .decimal ⟨2 ^ 63, 0⟩ else .long (-n)

/-- The value that the text of a long stands for. A sign is not part of a literal, so the least long
has none, and its text stands for a decimal. -/
def Value.spelled (n : Int64) : Value :=
  if n = Int64.minValue then .decimal ⟨-2 ^ 63, 0⟩ else .long n

/-- What the text of a long is read as: its digits, under a sign if it is negative. -/
def Expr.spelled (n : Int64) : Expr :=
  if n < 0 then .unary .negative (.const (.magnitude n) default) default
  else .const (.long n) default

section

variable {n : Int64}

theorem toInt_neg_of_ne_minValue (h : n < 0) (hmin : n ≠ Int64.minValue) :
    (-n).toInt = -n.toInt := by
  have hlt : n.toInt < 0 := Int64.lt_iff_toInt_lt.mp h
  have hle : n.toInt ≠ -2 ^ 63 := fun heq =>
    hmin (Int64.toInt_inj.mp (heq.trans Int64.toInt_minValue.symm))
  have := n.le_toInt
  rw [Int64.toInt_neg, Int.bmod_eq_of_le_mul_two] <;> omega

theorem Value.constText_magnitude (h : n < 0) :
    Expr.constText (magnitude n) = toString (-n.toInt) := by
  unfold magnitude
  split
  · next hmin =>
    subst hmin
    decide
  · next hmin =>
    change (Value.long (-n)).text = _
    rw [Value.text, toInt_neg_of_ne_minValue h hmin]

theorem Value.legible_magnitude (h : n < 0) : (magnitude n).Legible := by
  unfold magnitude
  split
  · exact ⟨rfl, by decide⟩
  · next hmin =>
    have hlt : n.toInt < 0 := Int64.lt_iff_toInt_lt.mp h
    rw [Legible, toInt_neg_of_ne_minValue h hmin]
    omega

namespace Expr

/-- The text of a long is that of the expression. -/
theorem print_spelled (n : Int64) : (spelled n).print = (Value.long n).text := by
  unfold spelled
  split
  · next h =>
    have hlt : n.toInt < 0 := Int64.lt_iff_toInt_lt.mp h
    change "-" ++ constText (.magnitude n) = _
    rw [Value.constText_magnitude h, Value.text, Int.toString_eq_repr, Int.toString_eq_repr,
      Int.repr_eq_if, Int.repr_eq_if, if_pos (by omega), if_neg (by omega)]
  · rfl

theorem names_spelled (n : Int64) : (spelled n).names = [] := by
  unfold spelled
  split <;> rfl

theorem legible_spelled {v : Value} (hv : v ∈ (spelled n).consts) :
    v.Legible ∧ ∀ x, v ≠ .double x := by
  unfold spelled at hv
  split at hv
  · next h =>
    obtain rfl := List.mem_singleton.mp hv
    refine ⟨Value.legible_magnitude h, fun x => ?_⟩
    unfold Value.magnitude
    split <;> exact nofun
  · next h =>
    obtain rfl := List.mem_singleton.mp hv
    refine ⟨?_, nofun⟩
    rw [Int64.lt_iff_toInt_lt] at h
    exact Int.not_lt.mp h

theorem printableLeaves_spelled (n : Int64) :
    PrintableLeaves (spelled n).consts (spelled n).names where
  consts v hv := (legible_spelled hv).1.printable fun hx => (legible_spelled hv).2 _ hx
  names name hname := by
    rw [names_spelled] at hname
    exact nomatch hname

theorem isRestored_spelled {v : Value} (hv : v ∈ (spelled n).consts) : Literal.IsRestored v :=
  Literal.isRestored_of_printable ((printableLeaves_spelled n).consts v hv) fun x hx =>
    absurd hx ((legible_spelled hv).2 x)

end Expr

end

/-! ### Binding the texts of longs -/

/-- A table on constants is folded to what it gives for them. -/
theorem Registry.Gives.applyTable {r : Registry} {name : String} {vs : List Value} {v : Value}
    (h : r.Gives name vs (.ok v)) (layout : Option Layout) :
    (Scope.mk layout r).applyTable name (vs.map .const) = .ok (.const v) := by
  obtain ⟨-, table, htable, hresolve⟩ := h
  obtain ⟨resolution, hresolution, hagrees⟩ := hresolve _ (forall₂_admits_signatureOf vs)
  have hv : resolution.apply table vs = .ok v := (hagrees.ok_iff v).mpr rfl
  have heval : (Plan.apply table resolution (vs.map .const)).eval none = .ok v := by
    rw [Plan.eval, Plan.evalAll_consts, ok_bind, hv]
  simp only [Scope.applyTable, htable, Reference.signature_consts, hresolution, ok_bind]
  rw [Plan.all_isConst_iff.mpr ⟨vs, rfl⟩, Plan.fold, if_pos rfl, heval]
  rfl

/-- A sign before the digits of a negative long gives what its text stands for. -/
theorem Library.gives_neg_magnitude (now : DateTime) (n : Int64) :
    (Registry.standard now).Gives "neg" [.magnitude n] (.ok (.spelled n)) := by
  obtain ⟨-, hneg, -⟩ := homogeneous_arithmetic
  have hgives : ∀ a : Exact, (Registry.standard now).Gives "neg" [a.value] _ := fun a =>
    gives_builtins (by decide) (List.cons_ne_nil a []) hneg
  unfold Value.magnitude Value.spelled
  split
  -- the digits of the least long are a decimal before the sign is looked at
  · exact hgives (.decimal ⟨2 ^ 63, 0⟩)
  · have hlong : (Registry.standard now).Gives "neg" [.long (-n)] (.ok (.long (- -n))) :=
      hgives (.long (-n))
    rwa [Int64.neg_neg] at hlong

/-- **What the text of a long is bound to**: the constant that it stands for. -/
theorem Scope.bind_spelled (now : DateTime) (layout : Option Layout) (n : Int64) :
    (Scope.mk layout (.standard now)).bind (.spelled n) = .ok (.plan (.const (.spelled n))) := by
  unfold Expr.spelled
  split
  · have happly := (gives_neg_magnitude now n).applyTable layout
    rw [List.map_singleton] at happly
    simp only [bind, ok_bind, Bound.toPlan, UnaryOp.table, happly]
    rfl
  · next h =>
    have hmin : n ≠ Int64.minValue := by
      rintro rfl
      exact h (by decide)
    rw [Value.spelled, if_neg hmin]
    rfl

/-! ### Sources -/

namespace Expr

open Lexeme (replaceNames)

/-- A source with the texts of longs, in parentheses, in the place of its names. -/
def replaceByLongs (σ : String → Int64) (source : String) : String :=
  replaceNames (fun name => "(" ++ (Value.long (σ name)).text ++ ")") source

/-- A template with the texts of longs in the place of its names is refused as too deep, or bound
like the expression that these texts stand for. -/
theorem bind_ofSource_replaceByLongs (σ : String → Int64) {source : String} {e : Expr}
    (h : ofSource source = .ok e) (he : e.IsTemplate) :
    (∃ fault, ofSource (replaceByLongs σ source) = .error (.located fault) ∧
        fault.code = .expressionTooDeep) ∨
      ∃ e', ofSource (replaceByLongs σ source) = .ok e' ∧
        ∀ s : Scope, s.bind e' = s.bind (e.substitute fun name => .spelled (σ name)) := by
  have htexts : replaceByLongs σ source =
      replaceNames (fun name => (spelled (σ name)).parenthesized) source := by
    simp only [replaceByLongs, parenthesized, print_spelled]
  rw [htexts]
  rcases ofSource_replaceNames (fun name => printableLeaves_spelled (σ name))
    (fun name _ hv => isRestored_spelled hv) h he with hdeep | ⟨e', he', hequal⟩
  · exact .inl hdeep
  · have hlegible : ∀ v ∈ (e.substitute fun name => .spelled (σ name)).consts, v.Legible := by
      intro v hv
      obtain ⟨name, hv⟩ := mem_consts_substitute e he hv
      exact (legible_spelled hv).1
    have hbare := bare_of_equal hlegible (legibleLeaves_of_ofSource he').1.consts hequal
    refine .inr ⟨e', he', fun s => ?_⟩
    rw [← s.bind_bare e', hbare, s.bind_bare]

/-- **Literals and variables agree.** A template is bound to the leaves of a layout and evaluated on
a record that holds a long for each variable, or the decimal of the same number in the place of the
least long. With the texts of these longs, in parentheses, in the place of the variables it is
refused as too deep, or it is bound without a layout, evaluated without a record, and comes out
alike: with the same value, or with a fault of the same stage and code. -/
theorem ofSource_replaceByLongs_agrees (now now' : DateTime) (layout : Layout) (record : Record)
    (σ : String → Int64) {source : String} {e : Expr} (h : ofSource source = .ok e)
    (he : e.IsTemplate)
    (hvars : ∀ name ∈ e.names,
      Scope.HoldsAt ⟨some layout, .standard now⟩ (some record) name (.spelled (σ name)))
    (hdepth : ∀ fault, ofSource (replaceByLongs σ source) = .error (.located fault) →
      fault.code ≠ .expressionTooDeep) :
    ∃ p q, Plan.ofSource ⟨some layout, .standard now⟩ source = .ok p ∧
      Plan.ofSource ⟨none, .standard now'⟩ (replaceByLongs σ source) = .ok q ∧
        Agrees (p.eval (some record)) (q.eval none) := by
  rcases bind_ofSource_replaceByLongs σ h he with ⟨fault, hfault, hcode⟩ | ⟨e', he', hbind⟩
  · exact absurd hcode (hdepth fault hfault)
  · obtain ⟨p, q, hp, hq, hpq⟩ := alike_substitute (faithful_standard now now)
      (faithful_standard now' now) (fun name => Scope.bind_spelled now' none (σ name)) e he hvars
    refine ⟨p, q, ?_, ?_, hpq.agrees⟩
    · rw [Plan.ofSource, h, ok_bind, compile, hp]
      rfl
    · rw [Plan.ofSource, he', ok_bind, compile, hbind, hq]
      rfl

/-- Leaves for a long and a decimal. -/
def longAndDecimal : Layout := .dict [("a", .leaf .long 0), ("b", .leaf .decimal 1)]

/-- Two, and the decimal of the least long. -/
def twoAndLeast : Record := ⟨[.long 2, .decimal ⟨-2 ^ 63, 0⟩]⟩

/-- Two for the first name, and the least long for others. -/
def twoOrLeast (name : String) : Int64 := if name = "a" then 2 else Int64.minValue

/-- A comparison with the least long. -/
theorem ofSource_replaceByLongs_agrees_comparison :
    replaceByLongs twoOrLeast "-a < b" = "-(2) < (-9223372036854775808)" ∧
      ∃ p q, Plan.ofSource ⟨some longAndDecimal, .standard ⟨0, 0, 0⟩⟩ "-a < b" = .ok p ∧
        Plan.ofSource ⟨none, .standard ⟨1, 0, 0⟩⟩ "-(2) < (-9223372036854775808)" = .ok q ∧
          Agrees (p.eval (some twoAndLeast)) (q.eval none) := by
  have htext : replaceByLongs twoOrLeast "-a < b" = "-(2) < (-9223372036854775808)" := by decide
  have hread : ofSource "-a < b" = .ok (.binary .lt (.unary .negative (.var "a" ⟨1, 2⟩) ⟨0, 2⟩)
      (.var "b" ⟨5, 6⟩) ⟨0, 6⟩) := rfl
  have hshallow : ∃ e, ofSource "-(2) < (-9223372036854775808)" = .ok e := ⟨_, rfl⟩
  have ha : (Registry.standard ⟨0, 0, 0⟩).constant? "a" = none := by simp [constant?_standard]
  have hb : (Registry.standard ⟨0, 0, 0⟩).constant? "b" = none := by simp [constant?_standard]
  refine ⟨htext, ?_⟩
  rw [← htext]
  refine ofSource_replaceByLongs_agrees _ _ _ twoAndLeast twoOrLeast hread ⟨trivial, trivial⟩ ?_ ?_
  · intro name hname
    simp only [names, List.mem_append, List.mem_singleton] at hname
    rcases hname with rfl | rfl
    · exact ⟨0, by rw [Scope.bindName, ha]; rfl, rfl⟩
    · exact ⟨1, by rw [Scope.bindName, hb]; rfl, rfl⟩
  · intro fault hfault
    obtain ⟨e, he⟩ := hshallow
    rw [htext, he] at hfault
    cases hfault

/-- One long. -/
def oneLong : Schema := .record [("x", .integer none)] (some false)

/-- The least long. -/
def leastLong : Document := .object [("x", .number (.whole (-2 ^ 63)))]

/-- **The least long has no literal.** A variable on a leaf for longs has the least long for its
value, and the text of that stands for a decimal. -/
theorem not_agrees_replaceByLongs_least :
    ofSource "x" = .ok (.var "x" ⟨0, 1⟩) ∧
      Scope.HoldsAt ⟨some (Layout.ofSchema oneLong), .standard ⟨0, 0, 0⟩⟩
        (some (oneLong.read leastLong)) "x" (.long Int64.minValue) ∧
      replaceByLongs (fun _ => Int64.minValue) "x" = "(-9223372036854775808)" ∧
      Plan.ofSource ⟨some (Layout.ofSchema oneLong), .standard ⟨0, 0, 0⟩⟩ "x" =
        .ok (.var 0 .long) ∧
      Plan.ofSource ⟨none, .standard ⟨0, 0, 0⟩⟩ "(-9223372036854775808)" =
        .ok (.const (.decimal ⟨-2 ^ 63, 0⟩)) ∧
      ¬Agrees ((Plan.var 0 .long).eval (some (oneLong.read leastLong)))
        ((Plan.const (.decimal ⟨-2 ^ 63, 0⟩)).eval none) := by
  have hread : ofSource "x" = .ok (.var "x" ⟨0, 1⟩) := rfl
  have hx : (Registry.standard ⟨0, 0, 0⟩).constant? "x" = none := by simp [constant?_standard]
  have hname : Scope.bindName ⟨some (Layout.ofSchema oneLong), .standard ⟨0, 0, 0⟩⟩ "x" =
      .ok (.plan (.var 0 .long)) := by
    rw [Scope.bindName, hx]
    rfl
  have hslot : Plan.readSlot (some (oneLong.read leastLong)) 0 = .ok (.long Int64.minValue) := rfl
  refine ⟨hread, ⟨0, hname, hslot⟩, by decide, ?_, ?_, ?_⟩
  · rw [Plan.ofSource, hread, ok_bind, compile, Scope.bind, hname]
    rfl
  · obtain ⟨span, span', hleast⟩ : ∃ span span', ofSource "(-9223372036854775808)" =
        .ok (.unary .negative (.const (.magnitude Int64.minValue) span) span') := ⟨_, _, rfl⟩
    have happly := (gives_neg_magnitude ⟨0, 0, 0⟩ Int64.minValue).applyTable none
    rw [List.map_singleton] at happly
    simp only [Plan.ofSource, hleast, ok_bind, compile, Scope.bind, Bound.toPlan, UnaryOp.table,
      happly]
    rfl
  · have heval : (Plan.var 0 .long).eval (some (oneLong.read leastLong)) =
        .ok (.long Int64.minValue) := hslot
    rw [heval]
    intro h
    change Value.long Int64.minValue = _ at h
    cases h

end Expr

end Formulary
