import Formulary.Plan.Compile

/-!
# Evaluation by the tags of values

A second meaning of expressions, which never binds anything in advance. Names and structural paths
are resolved as binding resolves them; operands are evaluated from left to right; and every
operator and function is looked up by the tags that its evaluated operands carry.

A run also lists the look-ups that it made, with the values they were made for. The list says
nothing about the outcome. It is there so that a property of the whole run, such as "nothing
without a value was printed", can be stated about the run and not about the expression.

## Main definitions

* `Agrees` — one value, or faults of one stage and one code
* `Table.dispatch`, `Registry.dispatch` — a look-up by the tags of values
* `Reference.Run` — an outcome with the look-ups made on the way
* `Reference.interpret`, `Reference.evaluate` — the meaning of an expression
* `Reference.Run.PrintsNoNull` — the runs that print nothing without a value
* `Expr.readsClock` — the expressions that ask for the present moment

## Main results

* `Reference.Run.Yields.bind` — outcomes are matched step by step
-/

namespace Formulary

/-! ### Agreement -/

/-- Two outcomes agree: the values are the same, or the faults have one stage and one code. -/
def Agrees {α : Type} : Except Fault α → Except Fault α → Prop
  | .ok a, .ok b => a = b
  | .error f, .error g => f.stage = g.stage ∧ f.code = g.code
  | _, _ => False

namespace Agrees

variable {α β : Type} {x y z : Except Fault α}

theorem refl (x : Except Fault α) : Agrees x x := by
  cases x with
  | error f => exact ⟨rfl, rfl⟩
  | ok a => exact rfl

theorem of_eq (h : x = y) : Agrees x y := h ▸ refl x

theorem symm (h : Agrees x y) : Agrees y x := by
  cases x with
  | error f =>
    cases y with
    | error g => exact ⟨h.1.symm, h.2.symm⟩
    | ok b => exact h
  | ok a =>
    cases y with
    | error g => exact h
    | ok b => exact Eq.symm h

theorem trans (hxy : Agrees x y) (hyz : Agrees y z) : Agrees x z := by
  cases x with
  | error f =>
    cases y with
    | error g =>
      cases z with
      | error h => exact ⟨hxy.1.trans hyz.1, hxy.2.trans hyz.2⟩
      | ok c => exact hyz
    | ok b => exact absurd hxy id
  | ok a =>
    cases y with
    | error g => exact absurd hxy id
    | ok b =>
      obtain rfl : a = b := hxy
      exact hyz

/-- Outcomes that agree have the same values. -/
theorem ok_iff (h : Agrees x y) (a : α) : x = .ok a ↔ y = .ok a := by
  cases x with
  | error f =>
    cases y with
    | error g => simp
    | ok b => exact absurd h id
  | ok a' =>
    cases y with
    | error g => exact absurd h id
    | ok b =>
      obtain rfl : a' = b := h
      exact Iff.rfl

/-- Steps that agree one after the other agree as a whole. -/
theorem bind {f g : α → Except Fault β} (h : Agrees x y)
    (hfg : ∀ a, x = .ok a → Agrees (f a) (g a)) : Agrees (x >>= f) (y >>= g) := by
  cases x with
  | error e =>
    cases y with
    | error e' => exact h
    | ok b => exact absurd h id
  | ok a =>
    cases y with
    | error e' => exact absurd h id
    | ok b =>
      obtain rfl : a = b := h
      exact hfg a rfl

end Agrees

/-! ### Look-ups by value -/

/-- The result for arguments, chosen by the tags that they carry. -/
def Table.dispatch (table : Table) (args : List Value) : Except Fault Value :=
  match table.lookup (signatureOf args) with
  | some target => target.apply args
  | none => .error (.noOverload .eval table.name (signatureOf args))

/-- The result of a table of the registry. -/
def Registry.dispatch (r : Registry) (name : String) (args : List Value) : Except Fault Value :=
  match r.table? name with
  | some table => table.dispatch args
  | none => .error (.unknownFunction name)

namespace Reference

/-- A look-up: what was looked up, and for which values. -/
structure Call where
  /-- The name of the table or function. -/
  name : String
  /-- The values of the operands. -/
  args : List Value

/-- An outcome, with the look-ups that were made on the way. -/
structure Run (α : Type) where
  /-- The look-ups, in order. -/
  calls : List Call
  /-- The outcome. -/
  result : Except Fault α

namespace Run

variable {α β : Type}

/-- An outcome that took no look-up. -/
def lift (x : Except Fault α) : Run α := ⟨[], x⟩

/-- A run that goes on from the value of another. -/
def andThen (r : Run α) (f : α → Run β) : Run β :=
  match r.result with
  | .ok a => ⟨r.calls ++ (f a).calls, (f a).result⟩
  | .error fault => ⟨r.calls, .error fault⟩

instance : Monad Run where
  pure a := lift (.ok a)
  bind := andThen

theorem bind_of_ok {r : Run α} {a : α} (h : r.result = .ok a) (f : α → Run β) :
    r >>= f = ⟨r.calls ++ (f a).calls, (f a).result⟩ := by
  change andThen r f = _
  rw [andThen, h]

theorem bind_of_error {r : Run α} {fault : Fault} (h : r.result = .error fault) (f : α → Run β) :
    r >>= f = ⟨r.calls, .error fault⟩ := by
  change andThen r f = _
  rw [andThen, h]

instance : LawfulMonad Run := by
  refine LawfulMonad.mk' Run (fun r => ?_) (fun a f => rfl) (fun r f g => ?_)
  · change r >>= (fun a => pure (id a)) = r
    cases h : r.result with
    | ok a =>
      rw [bind_of_ok h]
      exact congr (congrArg mk (List.append_nil r.calls)) h.symm
    | error fault =>
      rw [bind_of_error h, ← h]
  · cases h : r.result with
    | ok a =>
      rw [bind_of_ok h, bind_of_ok h]
      cases hf : (f a).result with
      | ok b =>
        rw [bind_of_ok (r := ⟨r.calls ++ (f a).calls, .ok b⟩) rfl, bind_of_ok hf,
          List.append_assoc]
      | error fault =>
        rw [bind_of_error (r := ⟨r.calls ++ (f a).calls, .error fault⟩) rfl, bind_of_error hf]
    | error fault =>
      rw [bind_of_error h, bind_of_error h]
      rfl

/-- Nothing without a value is handed to `string`. -/
def PrintsNoNull (r : Run α) : Prop :=
  ∀ call ∈ r.calls, call.name = "string" → .null ∉ call.args

end Run

/-! ### The interpreter -/

/-- What an expression stands for: a value, or a part of the layout that has none. -/
inductive Meaning
  | value (v : Value)
  | structural (node : Layout)

/-- The value of an operand. -/
def Meaning.operand (source : Expr) : Meaning → Run Value
  | value v => pure v
  | structural node => .lift (.error (.unindexedStructure source.print node.tag))

/-- A node of the layout: a leaf stands for the value in its slot. -/
def ofLayout (record : Option Record) : Layout → Except Fault Meaning
  | .leaf _ slot => do return .value (← Plan.readSlot record slot)
  | node => .ok (.structural node)

/-- A name: a constant first, and else the layout or one of its fields. -/
def named (s : Scope) (record : Option Record) (name : String) : Except Fault Meaning :=
  match s.registry.constant? name with
  | some v => .ok (.value v)
  | none =>
    match s.layout.bind fun node =>
      if name = Scope.rootName then some node else node.field? name with
    | some node => ofLayout record node
    | none => .error (.unknownIdentifier name)

/-- The part of a structural node under an index, when that index is known without a record. -/
def partUnder (record : Option Record) (node : Layout) (source : Expr)
    (position : Except Fault Meaning) : Except Fault Meaning :=
  match position with
  | .ok (.value v) =>
    match node.part? (.const v) with
    | some part => ofLayout record part
    | none => .error (.invalidIndex source.print node.tag)
  | _ => .error (.invalidIndex source.print node.tag)

/-- An operator or a function of a table, looked up by the tags of its operands. -/
def dispatched (s : Scope) (name : String) (args : List Value) : Run Value :=
  ⟨[⟨name, args⟩], s.registry.dispatch name args⟩

/-- A call by name. -/
def called (s : Scope) (name : String) (args : List Value) : Run Value :=
  match s.registry.function? name with
  | some f => ⟨[⟨name, args⟩], f.body args⟩
  | none => dispatched s name args

/-- A logical operator: `and` is decided by a false left operand, `or` by a true one, and the right
operand is evaluated only where the left one does not decide. -/
def shortCircuited (op : BinaryOp) (left right : Run Value) : Run Value := do
  let b ← .lift (Plan.expectBool (← left))
  if b = (op == .or) then return .boolean b
  else return .boolean (← .lift (Plan.expectBool (← right)))

mutual

/-- The meaning of an expression on a record. -/
def interpret (s : Scope) (record : Option Record) : Expr → Run Meaning
  | .const v _ => pure (.value v)
  | .var name _ => .lift (named s record name)
  | .call name args _ => do return .value (← called s name (← interpretAll s record args))
  | .index base i _ => do
    match ← interpret s record base with
    | .value v =>
      let j ← (← interpret s record i).operand i
      return .value (← dispatched s "index" [v, j])
    | .structural node => .lift (partUnder record node i (interpret s none i).result)
  | .unary op operand _ => do
    let v ← (← interpret s record operand).operand operand
    return .value (← dispatched s op.table [v])
  | .binary op l r _ => do
    let left : Run Value := do (← interpret s record l).operand l
    let right : Run Value := do (← interpret s record r).operand r
    match op.table? with
    | some name => return .value (← dispatched s name [← left, ← right])
    | none => return .value (← shortCircuited op left right)

/-- The values of several expressions, from left to right. -/
def interpretAll (s : Scope) (record : Option Record) : List Expr → Run (List Value)
  | [] => pure []
  | e :: rest => do
    let v ← (← interpret s record e).operand e
    let vs ← interpretAll s record rest
    return v :: vs

end

/-- The value of an expression on a record. -/
def evaluate (s : Scope) (record : Option Record) (e : Expr) : Run Value := do
  (← interpret s record e).operand e

/-! ### Equations -/

section

variable (s : Scope) (record : Option Record)

theorem interpretAll_cons (e : Expr) (rest : List Expr) :
    interpretAll s record (e :: rest) = do
      let v ← evaluate s record e
      let vs ← interpretAll s record rest
      return v :: vs := by
  simp only [interpretAll, evaluate, bind_assoc]

theorem interpret_call (name : String) (args : List Expr) (span : Span) :
    interpret s record (.call name args span) = do
      return .value (← called s name (← interpretAll s record args)) := by
  simp only [interpret]

theorem interpret_unary (op : UnaryOp) (operand : Expr) (span : Span) :
    interpret s record (.unary op operand span) = do
      return .value (← dispatched s op.table (← interpretAll s record [operand])) := by
  simp only [interpret, interpretAll, bind_assoc, pure_bind]

theorem interpret_binary {op : BinaryOp} {name : String} (hop : op.table? = some name)
    (l r : Expr) (span : Span) :
    interpret s record (.binary op l r span) = do
      return .value (← dispatched s name (← interpretAll s record [l, r])) := by
  simp only [interpret, interpretAll, bind_assoc, pure_bind, hop]

theorem interpret_logical {op : BinaryOp} (hop : op.table? = none) (l r : Expr) (span : Span) :
    interpret s record (.binary op l r span) = do
      return .value (← shortCircuited op (evaluate s record l) (evaluate s record r)) := by
  simp only [interpret, evaluate, hop]

/-- An index into what is no part of the layout is an operator on two operands. -/
theorem interpret_index {base : Expr}
    (h : ∀ node, (interpret s record base).result ≠ .ok (.structural node)) (index : Expr)
    (span : Span) :
    interpret s record (.index base index span) = do
      return .value (← dispatched s "index" (← interpretAll s record [base, index])) := by
  simp only [interpret, interpretAll, bind_assoc, pure_bind]
  cases hbase : (interpret s record base).result with
  | error fault => rw [Run.bind_of_error hbase, Run.bind_of_error hbase]
  | ok m =>
    cases m with
    | value v => rw [Run.bind_of_ok hbase, Run.bind_of_ok hbase]; rfl
    | structural node => exact absurd hbase (h node)

end

end Reference

/-! ### The clock -/

mutual

/-- Whether an expression asks for the present moment: a call of `time` without arguments. -/
def Expr.readsClock : Expr → Bool
  | .const .. | .var .. => false
  | .call name args _ => (name == "time" && args.isEmpty) || anyReadsClock args
  | .index base i _ => readsClock base || readsClock i
  | .unary _ operand _ => readsClock operand
  | .binary _ l r _ => readsClock l || readsClock r

/-- Whether one of several expressions asks for the present moment. -/
def Expr.anyReadsClock : List Expr → Bool
  | [] => false
  | e :: rest => readsClock e || anyReadsClock rest

end

/-! ### Matching runs -/

namespace Reference.Run

variable {α β : Type} {r : Run α} {f : α → Run β}

@[simp] theorem result_pure (a : α) : (pure a : Run α).result = .ok a := rfl

@[simp] theorem result_bind (r : Run α) (f : α → Run β) :
    (r >>= f).result = r.result >>= fun a => (f a).result := by
  cases h : r.result with
  | ok a => rw [bind_of_ok h, ok_bind]
  | error fault => rw [bind_of_error h, error_bind]

theorem PrintsNoNull.of_bind (h : (r >>= f).PrintsNoNull) : r.PrintsNoNull := by
  intro call hcall
  refine h call ?_
  cases hr : r.result with
  | ok a =>
    rw [bind_of_ok hr]
    exact List.mem_append_left _ hcall
  | error fault =>
    rw [bind_of_error hr]
    exact hcall

theorem PrintsNoNull.of_bind_ok {a : α} (h : (r >>= f).PrintsNoNull) (ha : r.result = .ok a) :
    (f a).PrintsNoNull := by
  intro call hcall
  refine h call ?_
  rw [bind_of_ok ha]
  exact List.mem_append_right _ hcall

/-- A run comes out as `x` unless it prints what has no value. -/
def Yields (r : Run α) (x : Except Fault α) : Prop := r.PrintsNoNull → Agrees x r.result

namespace Yields

theorem lift (x : Except Fault α) : (Run.lift x).Yields x := fun _ => Agrees.refl x

/-- Outcomes are matched step by step, as far as both runs go. -/
theorem bind {x : Except Fault α} {g : α → Except Fault β} (h : r.Yields x)
    (hfg : ∀ a, x = .ok a → (f a).Yields (g a)) : (r >>= f).Yields (x >>= g) := by
  intro hsafe
  have hr : Agrees x r.result := h hsafe.of_bind
  rw [result_bind]
  refine hr.bind fun a ha => ?_
  exact hfg a ha (hsafe.of_bind_ok ((hr.ok_iff a).mp ha))

end Yields

end Reference.Run

end Formulary
