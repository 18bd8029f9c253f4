import Formulary.Proofs.Plan.NodeTags

/-!
# Plans and evaluation by the tags of values

A plan that an expression is bound to comes out as the expression does when everything is looked up
by the tags of values. Three things differ on the way and must not be seen: overloads are chosen by
the tags that are known while binding, operators on constants are evaluated there and then, and a
slot may hold no value although its tag is known.

## Implementation notes

The induction carries two facts about a plan at once. A plan that is a constant is the meaning of
its expression on *every* record, and on none: that is what folding needs, since it evaluates
without a record. And on the record at hand, plan and expression agree in any run that prints
nothing without a value. The first fact has no such condition, because a constant operand carries
the tag that it is known by.

Two registries take part: the one that is bound against, and the one that values are looked up in.
They may differ, as long as what is chosen early in the first is found late in the second.

## Main definitions

* `Registry.Matched` — what is chosen early in one registry is found late in another
* `Reference.Follows` — a bound expression and the meaning of its expression
* `Reference.Computes` — a plan and what is computed from the values of its operands

## Main results

* `Reference.follows_bind` — every bound expression follows its meaning
* `Reference.yields_compile` — a plan comes out as its expression does
-/

namespace Formulary

/-- What is chosen early in `r` is found late in `r'`: always if the tags that are known are those
of the values, and also for tags that merely admit the values unless something without value is
printed. The present moment is left out. -/
structure Registry.Matched (r r' : Registry) : Prop where
  constants : ∀ name, r'.constant? name = r.constant? name
  functions : ∀ name, r'.function? name = r.function? name
  exact : ∀ name table resolution args, r.table? name = some table →
    table.resolve (signatureOf args) = .ok resolution → (name = "time" → args ≠ []) →
    Agrees (resolution.apply table args) (r'.dispatch name args)
  early : ∀ name table key resolution args, r.table? name = some table →
    table.resolve key = .ok resolution → List.Forall₂ Tag.Admits key args →
    (name = "time" → args ≠ []) → (name = "string" → .null ∉ args) →
    Agrees (resolution.apply table args) (r'.dispatch name args)

namespace Reference

open Plan (evalAll signature shortCircuit)

variable {layout : Option Layout} {r r' : Registry} {record : Option Record}

/-! ### Meanings of plans -/

/-- The value of a plan as the meaning of an expression. -/
def meant (x : Except Fault Value) : Except Fault Meaning := x >>= fun v => .ok (.value v)

/-- A bound expression follows the meaning of the expression. A structural part is the meaning on
every record. The value of a constant plan is the meaning on every record, and any plan comes out
as its expression does on the record at hand. -/
def Follows (s : Scope) (record : Option Record) (e : Expr) : Bound → Prop
  | .structural node => ∀ record', (interpret s record' e).result = .ok (.structural node)
  | .plan p =>
    (∀ v, p = .const v → ∀ record', (interpret s record' e).result = .ok (.value v)) ∧
      (interpret s record e).Yields (meant (p.eval record))

namespace Run

variable {α β : Type}

/-- A run that needs a value goes on from the value of a plan. -/
theorem Yields.bind_value {m : Run Meaning} {x : Except Fault Value} {k : Meaning → Run β}
    {g : Value → Except Fault β} (h : m.Yields (meant x))
    (hk : ∀ v, x = .ok v → (k (.value v)).Yields (g v)) : (m >>= k).Yields (x >>= g) := by
  cases x with
  | error f =>
    refine h.bind (g := fun _ => .error f) fun a ha => ?_
    rw [meant, error_bind] at ha
    cases ha
  | ok v =>
    refine h.bind (g := fun _ => g v) fun a ha => ?_
    obtain rfl : Meaning.value v = a := Except.ok.inj ha
    exact hk v rfl

/-- A value as a meaning. -/
theorem Yields.value {m : Run Value} {x : Except Fault Value} (h : m.Yields x) :
    (m >>= fun v => pure (Meaning.value v)).Yields (meant x) :=
  h.bind fun v _ => Yields.lift (.ok (Meaning.value v))

theorem result_shortCircuited (op : BinaryOp) (x y : Run Value) :
    (shortCircuited op x y).result = shortCircuit op x.result y.result := by
  rw [shortCircuited, shortCircuit, result_bind]
  refine bind_congr fun v => ?_
  rw [result_bind]
  refine bind_congr fun b => ?_
  split
  · rfl
  · rw [result_bind]
    refine bind_congr fun w => ?_
    rw [result_bind]
    rfl

/-- Logical operators come out alike when their operands do. -/
theorem Yields.shortCircuited {op : BinaryOp} {m n : Run Value} {x y : Except Fault Value}
    (hm : m.Yields x) (hn : n.Yields y) :
    (shortCircuited op m n).Yields (shortCircuit op x y) := by
  refine hm.bind fun v _ => ?_
  refine (Yields.lift _).bind fun b _ => ?_
  split
  · exact Yields.lift _
  · exact hn.bind fun w _ => (Yields.lift _).bind fun c _ => Yields.lift _

end Run

section

variable {s : Scope} {e : Expr} {v : Value}

theorem follows_const (h : ∀ record', (interpret s record' e).result = .ok (.value v)) :
    Follows s record e (.plan (.const v)) := by
  refine ⟨fun w hw record' => ?_, fun _ => Agrees.of_eq (h record).symm⟩
  obtain rfl := Plan.const.inj hw
  exact h record'

/-- A node of the layout follows what it stands for. -/
theorem follows_ofLayout {node : Layout}
    (h : ∀ record', (interpret s record' e).result = ofLayout record' node) :
    Follows s record e (.ofLayout node) := by
  cases node with
  | leaf t slot => exact ⟨nofun, fun _ => Agrees.of_eq (h record).symm⟩
  | tuple elements => exact h
  | dict fields => exact h

theorem Follows.yields_evaluate {p : Plan} (h : Follows s record e (.plan p)) :
    (evaluate s record e).Yields (p.eval record) := by
  have hvalue : (evaluate s record e).Yields (p.eval record >>= .ok) :=
    h.2.bind_value fun v _ => Run.Yields.lift (.ok v)
  rwa [show p.eval record >>= .ok = p.eval record by cases p.eval record <;> rfl] at hvalue

/-- An operand that is bound to a constant evaluates to it on every record. -/
theorem Follows.result_evaluate (h : Follows s record e (.plan (.const v)))
    (record' : Option Record) : (evaluate s record' e).result = .ok v := by
  rw [evaluate, Run.result_bind, h.1 v rfl record']
  rfl

end

/-! ### Operators and functions -/

/-- A plan computes from the values of its operands what a run does, and it is a constant only if
its operands are constants from which the run computes that constant. -/
def Computes (run : List Value → Run Value) (operands : List Plan) (p : Plan) : Prop :=
  (∀ v, p = .const v → ∃ vs : List Value, operands = vs.map .const ∧ (run vs).result = .ok v) ∧
    ∃ body, (∀ record, p.eval record = evalAll record operands >>= body) ∧
      ∀ vs, List.Forall₂ Tag.Admits (signature operands) vs → (run vs).Yields (body vs)

/-- The tags of constants are those of their values. -/
theorem signature_consts (vs : List Value) : signature (vs.map .const) = signatureOf vs := by
  rw [signature, List.map_map]
  rfl

/-- The present moment is asked for by a look-up of `time` without operands. -/
theorem ne_nil_of_admits {name : String} {operands : List Plan} {vs : List Value}
    (htime : name = "time" → operands ≠ []) (h : List.Forall₂ Tag.Admits (signature operands) vs) :
    name = "time" → vs ≠ [] := by
  rintro hname rfl
  exact htime hname (List.map_eq_nil_iff.mp (List.forall₂_nil_right_iff.mp h))

theorem computes_applyTable (hr : r.Matched r') {name : String} {operands : List Plan} {p : Plan}
    (htime : name = "time" → operands ≠ [])
    (h : (Scope.mk layout r).applyTable name operands = .ok p) :
    Computes (dispatched ⟨layout, r'⟩ name) operands p := by
  obtain ⟨table, resolution, htable, hresolution, rfl⟩ := Scope.applyTable_eq_ok h
  have heval : ∀ record, (Plan.apply table resolution operands).eval record =
      evalAll record operands >>= resolution.apply table := fun _ => by rw [Plan.eval]
  refine ⟨fun v hv => ?_, resolution.apply table, Plan.eval_fold_operands heval, ?_⟩
  · obtain ⟨vs, rfl, hvs⟩ := Plan.eq_consts_of_fold heval (by simp) hv
    rw [signature_consts] at hresolution
    refine ⟨vs, rfl, ?_⟩
    refine ((hr.exact name table resolution vs htable hresolution fun hname hnil => ?_).ok_iff v).mp
      hvs
    exact htime hname (by rw [hnil]; rfl)
  · intro vs hvs hprints
    exact hr.early name table _ resolution vs htable hresolution hvs (ne_nil_of_admits htime hvs)
      (hprints ⟨name, vs⟩ (List.mem_singleton_self _))

theorem computes_applyNamed (hr : r.Matched r') {name : String} {operands : List Plan} {p : Plan}
    (htime : name = "time" → operands ≠ [])
    (h : (Scope.mk layout r).applyNamed name operands = .ok p) :
    Computes (called ⟨layout, r'⟩ name) operands p := by
  rcases Scope.applyNamed_eq_ok h with ⟨f, hf, rfl⟩ | ⟨hf, h⟩
  · have hcalled : called ⟨layout, r'⟩ name = fun vs => ⟨[⟨name, vs⟩], f.body vs⟩ := by
      funext vs
      rw [called, hr.functions, hf]
    have heval : ∀ record, (Plan.call f operands).eval record =
        evalAll record operands >>= f.body := fun _ => by rw [Plan.eval]
    rw [hcalled]
    refine ⟨fun v hv => ?_, f.body, Plan.eval_fold_operands heval, fun vs _ _ => Agrees.refl _⟩
    exact Plan.eq_consts_of_fold heval (by simp) hv
  · have hcalled : called ⟨layout, r'⟩ name = dispatched ⟨layout, r'⟩ name := by
      funext vs
      rw [called, hr.functions, hf]
    rw [hcalled]
    exact computes_applyTable hr htime h

/-! ### Expressions -/

theorem follows_var (hr : r.Matched r') {name : String} {span : Span} {b : Bound}
    (h : (Scope.mk layout r).bind (.var name span) = .ok b) :
    Follows ⟨layout, r'⟩ record (.var name span) b := by
  rcases Scope.bind_var h with ⟨v, hv, rfl⟩ | ⟨hnone, node, hnode, rfl⟩
  · refine follows_const fun record' => ?_
    rw [interpret, named, hr.constants, hv]
    rfl
  · refine follows_ofLayout fun record' => ?_
    rw [interpret, named, hr.constants, hnone]
    simp only [hnode]
    rfl

/-- Several bound expressions follow the meanings of the expressions. -/
def FollowsAll (s : Scope) (record : Option Record) (es : List Expr) (ps : List Plan) : Prop :=
  (∀ vs : List Value, ps = vs.map .const → ∀ record', (interpretAll s record' es).result = .ok vs) ∧
    (interpretAll s record es).Yields (evalAll record ps)

theorem followsAll_nil (s : Scope) (record : Option Record) : FollowsAll s record [] [] := by
  refine ⟨fun vs hvs record' => ?_, Run.Yields.lift (.ok [])⟩
  rw [List.map_eq_nil_iff.mp hvs.symm]
  rfl

theorem FollowsAll.cons {s : Scope} {e : Expr} {es : List Expr} {p : Plan} {ps : List Plan}
    (he : Follows s record e (.plan p)) (hes : FollowsAll s record es ps) :
    FollowsAll s record (e :: es) (p :: ps) := by
  refine ⟨fun vs hvs record' => ?_, ?_⟩
  · cases vs with
    | nil => simp at hvs
    | cons v vs =>
      obtain ⟨rfl, rfl⟩ := List.cons.inj hvs
      rw [interpretAll_cons, Run.result_bind, he.result_evaluate, ok_bind, Run.result_bind,
        hes.1 vs rfl]
      rfl
  · rw [interpretAll_cons, evalAll]
    refine he.yields_evaluate.bind fun v _ => ?_
    exact hes.2.bind fun vs _ => Run.Yields.lift (.ok (v :: vs))

/-- A plan that computes what an operator or a function does follows the operator or function. -/
theorem follows_operation {s : Scope} {e : Expr} {es : List Expr} {p : Plan} {ps : List Plan}
    {run : List Value → Run Value}
    (hconst : ∀ vs : List Value, ps = vs.map .const → ∀ record',
      interpret s record' e = do return .value (← run (← interpretAll s record' es)))
    (hrecord : (interpret s record e).PrintsNoNull →
      interpret s record e = do return .value (← run (← interpretAll s record es)))
    (hes : FollowsAll s record es ps) (hp : Computes run ps p)
    (hadmits : ∀ vs, evalAll record ps = .ok vs →
      List.Forall₂ Tag.Admits (signature ps) vs) :
    Follows s record e (.plan p) := by
  obtain ⟨hvalue, body, heval, hbody⟩ := hp
  refine ⟨fun v hv record' => ?_, fun hsafe => ?_⟩
  · obtain ⟨vs, hvs, hv⟩ := hvalue v hv
    rw [hconst vs hvs, Run.result_bind, hes.1 vs hvs, ok_bind, Run.result_bind, hv]
    rfl
  · have hyields : (do return Meaning.value (← run (← interpretAll s record es))).Yields
        (meant (p.eval record)) := by
      rw [heval, meant, bind_assoc]
      exact hes.2.bind fun vs hvs => (hbody vs (hadmits vs hvs)).value
    have he := hrecord hsafe
    rw [he] at hsafe ⊢
    exact hyields hsafe

theorem not_structural_of_agrees {x : Except Fault Value} {y : Except Fault Meaning}
    (h : Agrees (meant x) y) (node : Layout) : y ≠ .ok (.structural node) := by
  intro hy
  obtain ⟨v, -, hv⟩ := bind_eq_ok_iff.mp ((h.ok_iff _).mpr hy)
  simp at hv

theorem follows_logical {s : Scope} {op : BinaryOp} (hop : op.table? = none) {l r : Expr}
    {span : Span} {p q : Plan} (hp : Follows s record l (.plan p))
    (hq : Follows s record r (.plan q)) :
    Follows s record (.binary op l r span) (.plan (Plan.logical op p q)) := by
  refine ⟨fun v hv record' => ?_, ?_⟩
  · obtain ⟨a, b, rfl, rfl, hresult⟩ := Plan.eq_consts_of_logical hop hv
    rw [interpret_logical _ _ hop, Run.result_bind, Run.result_shortCircuited, hp.result_evaluate,
      hq.result_evaluate, hresult]
    rfl
  · rw [interpret_logical _ _ hop, Plan.eval_logical hop]
    exact (hp.yields_evaluate.shortCircuited hq.yields_evaluate).value

/-- A path goes on through a structural part when its index is bound to a constant. -/
theorem follows_part {s : Scope} {base index : Expr} {span : Span} {node part : Layout} {q : Plan}
    (hbase : Follows s record base (.structural node)) (hq : Follows s record index (.plan q))
    (hpart : node.part? q = some part) :
    Follows s record (.index base index span) (.ofLayout part) := by
  obtain ⟨⟨v, rfl⟩, -⟩ := Layout.part?_eq_some hpart
  refine follows_ofLayout fun record' => ?_
  rw [interpret, Run.result_bind, hbase record', ok_bind, hq.1 v rfl none]
  show partUnder record' node index (.ok (.value v)) = ofLayout record' part
  simp only [partUnder, hpart]

/-! ### All expressions -/

/-- An index into what is bound to a plan is an operator on two operands. -/
theorem follows_index {s : Scope} {base index : Expr} {span : Span} {p q p' : Plan}
    (hbase : Follows s record base (.plan p)) (hindex : Follows s record index (.plan q))
    (hp' : Computes (dispatched s "index") [p, q] p')
    (hadmits : ∀ vs, evalAll record [p, q] = .ok vs →
      List.Forall₂ Tag.Admits (signature [p, q]) vs) :
    Follows s record (.index base index span) (.plan p') := by
  refine follows_operation (fun vs hvs record' => interpret_index _ _ (fun node => ?_) index span)
    (fun hsafe => interpret_index _ _ (fun node => ?_) index span)
    ((followsAll_nil s record).cons hindex |>.cons hbase) hp' hadmits
  · cases vs with
    | nil => simp at hvs
    | cons a vs =>
      obtain ⟨rfl, -⟩ := List.cons.inj hvs
      rw [hbase.1 a rfl record']
      exact nofun
  · rw [interpret] at hsafe
    exact not_structural_of_agrees (hbase.2 hsafe.of_bind) node

/-- What binding relies on: matched registries, overloads that tell the tags of their results, and
a record that conforms to the layout. -/
structure Setting (layout : Option Layout) (r r' : Registry) (known : Record) : Prop where
  matched : r.Matched r'
  honest : r.Honest
  conforms : known.Conforms (Scope.mk layout r).leaves

variable {known : Record}

mutual

/-- **Bound expressions follow their meanings.** -/
theorem follows_bind (hs : Setting layout r r' known) : ∀ {e : Expr} {b : Bound},
    e.readsClock = false → (Scope.mk layout r).bind e = .ok b →
      Follows ⟨layout, r'⟩ (some known) e b
  | .const v span, b, _, h => by
    obtain rfl : .plan (.const v) = b := Except.ok.inj h
    exact follows_const fun record' => rfl
  | .var name span, b, _, h => follows_var hs.matched h
  | .call name args span, b, hclock, h => by
    obtain ⟨ps, p, hps, hp, rfl⟩ := Scope.bind_call h
    rw [Expr.readsClock, Bool.or_eq_false_iff] at hclock
    have hbound := Scope.bindAll_eq_ok_iff.mp hps
    have htime : name = "time" → ps ≠ [] := by
      rintro rfl rfl
      rw [List.forall₂_nil_right_iff.mp hbound] at hclock
      exact absurd hclock.1 (by simp)
    exact follows_operation (fun _ _ record' => interpret_call _ _ name args span)
      (fun _ => interpret_call _ _ name args span) (follows_bindAll hs hclock.2 hps)
      (computes_applyNamed hs.matched htime hp)
      fun _ => Scope.forall₂_admits hs.honest hs.conforms hbound
  | .index base index span, b, hclock, h => by
    rw [Expr.readsClock, Bool.or_eq_false_iff] at hclock
    obtain ⟨bound, q, hbound, hq, hb⟩ := Scope.bind_index h
    have hbase := follows_bind hs hclock.1 hbound
    have hindex := follows_bind hs hclock.2 hq
    rcases Scope.applyIndex_eq_ok hb with ⟨p, p', rfl, hp', rfl⟩ | ⟨node, part, rfl, hpart, rfl⟩
    · exact follows_index hbase hindex
        (computes_applyTable hs.matched (fun _ => List.cons_ne_nil _ _) hp')
        fun _ => Scope.forall₂_admits hs.honest hs.conforms (.cons hbound (.cons hq .nil))
    · exact follows_part hbase hindex hpart
  | .unary op operand span, b, hclock, h => by
    rw [Expr.readsClock] at hclock
    obtain ⟨q, p, hq, hp, rfl⟩ := Scope.bind_unary h
    exact follows_operation (fun _ _ record' => interpret_unary _ _ op operand span)
      (fun _ => interpret_unary _ _ op operand span)
      (.cons (follows_bind hs hclock hq) (followsAll_nil _ _))
      (computes_applyTable hs.matched (fun _ => List.cons_ne_nil _ _) hp)
      fun _ => Scope.forall₂_admits hs.honest hs.conforms (.cons hq .nil)
  | .binary op l r span, b, hclock, h => by
    rw [Expr.readsClock, Bool.or_eq_false_iff] at hclock
    obtain ⟨p, q, hp, hq, hb⟩ := Scope.bind_binary h
    have hleft := follows_bind hs hclock.1 hp
    have hright := follows_bind hs hclock.2 hq
    rcases hb with ⟨name, p', hop, hp', rfl⟩ | ⟨hop, rfl⟩
    · exact follows_operation (fun _ _ record' => interpret_binary _ _ hop l r span)
        (fun _ => interpret_binary _ _ hop l r span)
        (.cons hleft (.cons hright (followsAll_nil _ _)))
        (computes_applyTable hs.matched (fun _ => List.cons_ne_nil _ _) hp')
        fun _ => Scope.forall₂_admits hs.honest hs.conforms (.cons hp (.cons hq .nil))
    · exact follows_logical hop hleft hright

theorem follows_bindAll (hs : Setting layout r r' known) : ∀ {es : List Expr} {ps : List Plan},
    Expr.anyReadsClock es = false → (Scope.mk layout r).bindAll es = .ok ps →
      FollowsAll ⟨layout, r'⟩ (some known) es ps
  | [], ps, _, h => by
    obtain rfl : [] = ps := Except.ok.inj h
    exact followsAll_nil _ _
  | e :: rest, ps, hclock, h => by
    rw [Expr.anyReadsClock, Bool.or_eq_false_iff] at hclock
    obtain ⟨p, qs, hp, hqs, rfl⟩ :=
      List.forall₂_cons_left_iff.mp (Scope.bindAll_eq_ok_iff.mp h)
    exact .cons (follows_bind hs hclock.1 hp)
      (follows_bindAll hs hclock.2 (Scope.bindAll_eq_ok_iff.mpr hqs))

end

/-- A plan comes out as its expression does, in any run that prints nothing without a value. -/
theorem yields_compile (hs : Setting layout r r' known) {e : Expr} {p : Plan}
    (hclock : e.readsClock = false) (h : e.compile ⟨layout, r⟩ = .ok p) :
    (evaluate ⟨layout, r'⟩ (some known) e).Yields (p.eval (some known)) :=
  (follows_bind hs hclock (Scope.compile_eq_ok h)).yields_evaluate

end Reference

end Formulary
