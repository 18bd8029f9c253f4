import Formulary.Record.Basic
import Formulary.Registry

/-!
# Plans

A plan is an expression that is bound: variables name slots, and operators and functions have their
overloads chosen. It is evaluated on a record, operand by operand from left to right.

## Main definitions

* `Plan` — a bound expression
* `Plan.tag` — the tag of the result, as far as it is known
* `Plan.eval` — the value on a record
* `Plan.assign` — a write into the slot of a variable
* `Plan.text` — the printed form

## Main results

* `Plan.evalAll_eq_mapM` — operands are evaluated from left to right, up to the first fault
* `Plan.assign_ok_iff` — assignments reach the slots of variables and nothing else
-/

namespace Formulary

/-- A bound expression. -/
inductive Plan
  | const (value : Value)
  | var (slot : Nat) (tag : Tag)
  | apply (table : Table) (resolution : Resolution) (args : List Plan)
  | and (left right : Plan)
  | or (left right : Plan)
  | call (function : Function) (args : List Plan)
  deriving Inhabited

namespace Plan

/-- The tag of the result, `object` where only the value can tell. -/
def tag : Plan → Tag
  | const v => v.tag
  | var _ t => t
  | apply _ resolution _ => resolution.result
  | and .. | or .. => .boolean
  | call f _ => f.result

/-- Whether a plan is a constant. -/
def isConst : Plan → Bool
  | const _ => true
  | _ => false

/-- The tags of the results of several plans. -/
def signature (args : List Plan) : Signature := args.map tag

/-! ### Evaluation -/

/-- The truth value of a logical operand. -/
def expectBool : Value → Except Fault Bool
  | .boolean b => .ok b
  | v => .error (.expectedBoolean v.tag)

/-- The value in a slot of the record, if there is one. -/
def readSlot (record : Option Record) (slot : Nat) : Except Fault Value :=
  match record with
  | none => .error (.missingRecord slot)
  | some r =>
    match r.get? slot with
    | some v => .ok v
    | none => .error (.slotMissing slot)

mutual

/-- The value of a plan. Plans without variables need no record. -/
def eval (record : Option Record) : Plan → Except Fault Value
  | const v => .ok v
  | var slot _ => readSlot record slot
  | apply table resolution args => do resolution.apply table (← evalAll record args)
  | and l r => do
    if ← expectBool (← eval record l) then
      return .boolean (← expectBool (← eval record r))
    else return .boolean false
  | or l r => do
    if ← expectBool (← eval record l) then return .boolean true
    else return .boolean (← expectBool (← eval record r))
  | call f args => do f.body (← evalAll record args)

/-- The values of several plans. -/
def evalAll (record : Option Record) : List Plan → Except Fault (List Value)
  | [] => .ok []
  | p :: rest => do
    let v ← eval record p
    let vs ← evalAll record rest
    return v :: vs

end

/-! ### Printed form -/

mutual

/-- The printed form. -/
def text : Plan → String
  | const v => v.text
  | var slot t => "$" ++ toString slot ++ ":" ++ t.name
  | apply table _ args => table.name ++ "(" ++ ", ".intercalate (texts args) ++ ")"
  | and l r => "(" ++ text l ++ " && " ++ text r ++ ")"
  | or l r => "(" ++ text l ++ " || " ++ text r ++ ")"
  | call f args => f.name ++ "(" ++ ", ".intercalate (texts args) ++ ")"

/-- The printed forms of several plans. -/
def texts : List Plan → List String
  | [] => []
  | p :: rest => text p :: texts rest

end

/-- Write a value into the slot of a variable. -/
def assign (p : Plan) (r : Record) (value : Value) : Except Fault Record :=
  match p with
  | var slot _ => r.set slot value
  | p => .error (.notAssignable p.text)

/-! ### Nodes -/

/-- How a node is shown, without the nodes below it. -/
def nodeText : Plan → String
  | const v => "Const " ++ v.tag.name ++ " " ++ v.text
  | var slot t => "Var " ++ toString slot ++ " " ++ t.name
  | apply table resolution _ => "Op " ++ table.name ++ " " ++ resolution.text
  | and .. => "And"
  | or .. => "Or"
  | call f args => "Fun " ++ f.result.name ++ " " ++ toString args.length

mutual

/-- The nodes, parents first. -/
def nodes : Plan → List Plan
  | apply table resolution args => apply table resolution args :: nodesAll args
  | and l r => and l r :: (nodes l ++ nodes r)
  | or l r => or l r :: (nodes l ++ nodes r)
  | call f args => call f args :: nodesAll args
  | p => [p]

/-- The nodes of several plans. -/
def nodesAll : List Plan → List Plan
  | [] => []
  | p :: rest => nodes p ++ nodesAll rest

end

mutual

/-- The number of nodes on the longest way down. -/
def height : Plan → Nat
  | const _ | var .. => 1
  | apply _ _ args | call _ args => 1 + heights args
  | and l r | or l r => 1 + max (height l) (height r)

/-- The greatest height among plans. -/
def heights : List Plan → Nat
  | [] => 0
  | p :: rest => max (height p) (heights rest)

end

/-! ### First consequences -/

/-- Operands are evaluated from left to right, up to the first fault. -/
theorem evalAll_eq_mapM (record : Option Record) (args : List Plan) :
    evalAll record args = args.mapM (eval record) := by
  induction args with
  | nil => rfl
  | cons p rest ih => rw [evalAll, ih, List.mapM_cons]

/-- Assignments reach the slots of variables and nothing else. -/
theorem assign_ok_iff {p : Plan} {r r' : Record} {value : Value} :
    p.assign r value = .ok r' ↔ ∃ slot t, p = var slot t ∧ r.set slot value = .ok r' := by
  cases p <;> simp [assign]

end Plan

end Formulary
