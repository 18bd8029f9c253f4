import Formulary.Document.Json.Token

/-!
# Reading JSON

A machine takes the tokens of a text one by one. Its stack holds the containers that are open, and
its state says what may follow. A text is a document when the machine ends with one value and
nothing open.

## Main definitions

* `Json.State` — what may follow, and what is open
* `Json.step` — the machine
* `Json.read?` — the document written by a text
-/

namespace Formulary.Json

/-- A container that is open. Its parts are in reverse order. -/
inductive Frame
  | array (done : List Document)
  | object (done : List (String × Document)) (key : String)

/-- What may follow. -/
inductive State
  /-- A value. -/
  | value (stack : List Frame)
  /-- The first item of an array, or its end. -/
  | firstItem (stack : List Frame)
  /-- The name of a member. -/
  | key (done : List (String × Document)) (stack : List Frame)
  /-- The name of the first member of an object, or its end. -/
  | firstKey (stack : List Frame)
  /-- A colon. -/
  | colon (done : List (String × Document)) (key : String) (stack : List Frame)
  /-- A separator, the end of the innermost container, or the end of the text. -/
  | separator (d : Document) (stack : List Frame)

/-- One more than the number of containers that may be open at once. -/
def maxNesting : Nat := 128

/-- A value begins, with these containers open around it. -/
def startValue (stack : List Frame) : Token → Option State
  | .scalar d => some (.separator d stack)
  | .openArray => if stack.length + 1 < maxNesting then some (.firstItem stack) else none
  | .openObject => if stack.length + 1 < maxNesting then some (.firstKey stack) else none
  | _ => none

/-- The name of a member begins. -/
def startKey (done : List (String × Document)) (stack : List Frame) : Token → Option State
  | .scalar (.string key) => some (.colon done key stack)
  | _ => none

/-- The machine takes a token. -/
def step (state : State) (token : Token) : Option State :=
  match state, token with
  | .value stack, _ => startValue stack token
  | .firstItem stack, .closeArray => some (.separator (.array []) stack)
  | .firstItem stack, _ => startValue (.array [] :: stack) token
  | .key done stack, _ => startKey done stack token
  | .firstKey stack, .closeObject => some (.separator (.object []) stack)
  | .firstKey stack, _ => startKey [] stack token
  | .colon done key stack, .colon => some (.value (.object done key :: stack))
  | .separator d (.array done :: stack), .comma => some (.value (.array (d :: done) :: stack))
  | .separator d (.array done :: stack), .closeArray =>
    some (.separator (.array (d :: done).reverse) stack)
  | .separator d (.object done key :: stack), .comma => some (.key ((key, d) :: done) stack)
  | .separator d (.object done key :: stack), .closeObject =>
    some (.separator (.object ((key, d) :: done).reverse) stack)
  | _, _ => none

/-- The document that the machine ends with. -/
def State.finish? : State → Option Document
  | .separator d [] => some d
  | _ => none

/-- The document written by a text, its members as they stand. -/
def read? (cs : List Char) : Option Document := do
  let tokens ← tokens? cs
  let state ← tokens.foldlM step (.value [])
  state.finish?

end Formulary.Json
