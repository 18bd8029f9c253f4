import Formulary.Fault
import Formulary.Value.Convert

/-!
# Overloads

An overload declares the tags of its parameters and of its result, and has a body that works on
values. Bodies of known types are wrapped so that every argument is unpacked by its declared tag.

## Main definitions

* `Signature` — the tags of parameters or arguments
* `Overload` — a declared body
* `Carrier` — a type that stands for one tag
* `Overload.unary`, `Overload.binary`, `Overload.ternary` — wrapped bodies
-/

namespace Formulary

/-- The tags of parameters, or of arguments. -/
abbrev Signature := List Tag

/-- What a body computes from its arguments. -/
abbrev Body := List Value → Except Fault Value

/-- A declared body. -/
structure Overload where
  /-- The tags of the parameters. -/
  params : Signature
  /-- The tag of the result. -/
  result : Tag
  /-- The computation. -/
  body : Body

/-- How an overload is shown. -/
def Overload.text (o : Overload) : String :=
  "Implementation" ++ signatureText o.params ++ " -> " ++ o.result.name

/-- The tags that values carry. -/
def signatureOf (args : List Value) : Signature := args.map Value.tag

/-! ### Carriers -/

/-- A type that stands for one tag. -/
structure Carrier (α : Type) where
  /-- The tag. -/
  tag : Tag
  /-- The content of a value that carries the tag. -/
  unpack? : Value → Option α
  /-- The value with a given content. -/
  pack : α → Value

namespace Carrier

/-- Truth values. -/
def boolean : Carrier Bool := ⟨.boolean, Value.toBool?, .boolean⟩

/-- Integers of thirty-two bits. -/
def integer : Carrier Int32 := ⟨.integer, fun | .integer n => some n | _ => none, .integer⟩

/-- Integers of sixty-four bits. -/
def long : Carrier Int64 := ⟨.long, fun | .long n => some n | _ => none, .long⟩

/-- Doubles. -/
def double : Carrier Float := ⟨.double, fun | .double x => some x | _ => none, .double⟩

/-- Decimals. -/
def decimal : Carrier Decimal := ⟨.decimal, fun | .decimal d => some d | _ => none, .decimal⟩

/-- Texts. -/
def string : Carrier String := ⟨.string, Value.toText?, .string⟩

/-- Times. -/
def time : Carrier Calendar.DateTime := ⟨.time, fun | .time t => some t | _ => none, .time⟩

/-- Arrays of truth values. -/
def booleans : Carrier (List Bool) :=
  ⟨.booleanArray, fun | .booleanArray xs => some xs | _ => none, .booleanArray⟩

/-- Arrays of integers. -/
def integers : Carrier (List Int32) :=
  ⟨.integerArray, fun | .integerArray xs => some xs | _ => none, .integerArray⟩

/-- Arrays of longs. -/
def longs : Carrier (List Int64) :=
  ⟨.longArray, fun | .longArray xs => some xs | _ => none, .longArray⟩

/-- Arrays of doubles. -/
def doubles : Carrier (List Float) :=
  ⟨.doubleArray, fun | .doubleArray xs => some xs | _ => none, .doubleArray⟩

/-- Arrays of decimals. -/
def decimals : Carrier (List Decimal) :=
  ⟨.decimalArray, fun | .decimalArray xs => some xs | _ => none, .decimalArray⟩

/-- Arrays of texts. -/
def strings : Carrier (List String) :=
  ⟨.stringArray, fun | .stringArray xs => some xs | _ => none, .stringArray⟩

/-- Arrays of any values. -/
def objects : Carrier (List Value) :=
  ⟨.objectArray, fun | .objectArray xs => some xs | _ => none, .objectArray⟩

/-- Lists. -/
def list : Carrier (List Value) := ⟨.list, fun | .list xs => some xs | _ => none, .list⟩

/-- Maps. -/
def map : Carrier (Entries Value) := ⟨.map, fun | .map m => some m | _ => none, .map⟩

/-- Any value. -/
def object : Carrier Value := ⟨.object, some, id⟩

/-- The content of the argument at a position. -/
def argument {α : Type} (c : Carrier α) (args : List Value) (i : Nat) : Except Fault α :=
  match (args[i]?).bind c.unpack? with
  | some a => .ok a
  | none => .error (.argumentMismatch i c.tag)

end Carrier

namespace Overload

variable {α β γ ρ : Type}

/-! ### Wrapped bodies -/

/-- A body without parameters that may fail. -/
def tryNullary (r : Carrier ρ) (f : Except Fault ρ) : Overload :=
  ⟨[], r.tag, fun _ => do return r.pack (← f)⟩

/-- A body without parameters. -/
def nullary (r : Carrier ρ) (f : ρ) : Overload := tryNullary r (.ok f)

/-- A body of one parameter that may fail. -/
def tryUnary (a : Carrier α) (r : Carrier ρ) (f : α → Except Fault ρ) : Overload :=
  ⟨[a.tag], r.tag, fun args => do return r.pack (← f (← a.argument args 0))⟩

/-- A body of one parameter. -/
def unary (a : Carrier α) (r : Carrier ρ) (f : α → ρ) : Overload := tryUnary a r (.ok ∘ f)

/-- A body of two parameters that may fail. -/
def tryBinary (a : Carrier α) (b : Carrier β) (r : Carrier ρ) (f : α → β → Except Fault ρ) :
    Overload :=
  ⟨[a.tag, b.tag], r.tag, fun args => do
    let x ← a.argument args 0
    let y ← b.argument args 1
    return r.pack (← f x y)⟩

/-- A body of two parameters. -/
def binary (a : Carrier α) (b : Carrier β) (r : Carrier ρ) (f : α → β → ρ) : Overload :=
  tryBinary a b r fun x y => .ok (f x y)

/-- A body of three parameters that may fail. -/
def tryTernary (a : Carrier α) (b : Carrier β) (c : Carrier γ) (r : Carrier ρ)
    (f : α → β → γ → Except Fault ρ) : Overload :=
  ⟨[a.tag, b.tag, c.tag], r.tag, fun args => do
    let x ← a.argument args 0
    let y ← b.argument args 1
    let z ← c.argument args 2
    return r.pack (← f x y z)⟩

/-- A body of three parameters. -/
def ternary (a : Carrier α) (b : Carrier β) (c : Carrier γ) (r : Carrier ρ)
    (f : α → β → γ → ρ) : Overload :=
  tryTernary a b c r fun x y z => .ok (f x y z)

end Overload

end Formulary
