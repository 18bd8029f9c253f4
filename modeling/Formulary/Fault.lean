import Formulary.Span
import Formulary.Tag

/-!
# Faults

A fault says what went wrong, with the data that its message needs. Three functions read it: the
stage it belongs to, its code, and the details of its message.

## Main definitions

* `Stage`, `Code` — the five stages and the catalogue of codes
* `SyntaxFault` — a code at a place in the source
* `Fault` — every cause of failure
* `Fault.message` — the text of a fault

## Main results

* `bind_eq_ok_iff` — when two steps that may fail both succeed
-/

namespace Formulary

/-- The stage of the work that failed. -/
inductive Stage
  | parse
  | compile
  | eval
  | schema
  | data
  deriving DecidableEq, Repr, Inhabited

/-- The name of a stage in messages. -/
def Stage.name : Stage → String
  | .parse => "ParseError"
  | .compile => "CompileError"
  | .eval => "EvalError"
  | .schema => "SchemaError"
  | .data => "DataError"

/-- The catalogue of codes. -/
inductive Code
  | unrecognizedEof
  | unrecognizedToken
  | extraToken
  | unclosedString
  | badEscape
  | expectedNumber
  | emptyExpression
  | unknownIdentifier
  | unknownFunction
  | invalidIndex
  | unindexedStructure
  | noMatchingEvaluator
  | divisionByZero
  | indexOutOfBounds
  | expectedBoolean
  | badConversion
  | failParseTime
  | badRegex
  | missingContext
  | notAssignable
  | badSchema
  | badData
  | unsupportedFormat
  | expressionTooDeep
  deriving DecidableEq, Repr, Inhabited

/-- The name of a code in messages. -/
def Code.name : Code → String
  | .unrecognizedEof => "unrecognized_eof"
  | .unrecognizedToken => "unrecognized_token"
  | .extraToken => "extra_token"
  | .unclosedString => "unclosed_string"
  | .badEscape => "bad_escape"
  | .expectedNumber => "expected_number"
  | .emptyExpression => "empty_expression"
  | .unknownIdentifier => "unknown_identifier"
  | .unknownFunction => "unknown_function"
  | .invalidIndex => "invalid_index"
  | .unindexedStructure => "unindexed_structure"
  | .noMatchingEvaluator => "no_matching_evaluator"
  | .divisionByZero => "division_by_zero"
  | .indexOutOfBounds => "index_out_of_bounds"
  | .expectedBoolean => "expected_boolean"
  | .badConversion => "bad_conversion"
  | .failParseTime => "fail_parse_time"
  | .badRegex => "bad_regex"
  | .missingContext => "missing_context"
  | .notAssignable => "not_assignable"
  | .badSchema => "bad_schema"
  | .badData => "bad_data"
  | .unsupportedFormat => "unsupported_format"
  | .expressionTooDeep => "expression_too_deep"

/-- A fault at a place in the source. -/
structure SyntaxFault where
  /-- Where it is. -/
  span : Span
  /-- What it is. -/
  code : Code
  deriving DecidableEq, Repr, Inhabited

namespace SyntaxFault

/-- A fault between two offsets. -/
def of (start stop : Nat) (code : Code) : SyntaxFault := ⟨Span.of start stop, code⟩

/-- The short text of a located fault. -/
def text (f : SyntaxFault) : String := s!"{f.span.start}:{f.span.stop}:{f.code.name}"

end SyntaxFault

/-- The text of a parameter list. -/
def signatureText (key : List Tag) : String :=
  "(" ++ ", ".intercalate (key.map Tag.name) ++ ")"

/-- What went wrong. -/
inductive Fault
  /-- The source is not an expression. -/
  | located (fault : SyntaxFault)
  /-- The source holds no token. -/
  | emptyExpression
  /-- A name that is neither a constant nor in the layout. -/
  | unknownIdentifier (name : String)
  /-- A function or operator without a table. -/
  | unknownFunction (name : String)
  /-- A structural node has no part under this index. -/
  | invalidIndex (index : String) (node : Tag)
  /-- A structural node used as a value. -/
  | unindexedStructure (expr : String) (node : Tag)
  /-- No overload takes these arguments. -/
  | noOverload (stage : Stage) (name : String) (key : List Tag)
  /-- A value that does not convert to the tag an overload declares. -/
  | notConvertible (source target : Tag)
  /-- A body was handed an argument of another type. -/
  | argumentMismatch (position : Nat) (expected : Tag)
  /-- A division by zero. -/
  | divisionByZero (dividend divisor : String)
  /-- A slice that is not inside its text. -/
  | sliceOutOfBounds (start stop : Int) (length : Nat)
  /-- An index that is not inside its array. -/
  | indexOutOfBounds (index : Int) (length : Nat)
  /-- A variable whose slot the record does not have. -/
  | slotMissing (slot : Nat)
  /-- A write past the end of a record. -/
  | slotPastEnd (slot length : Nat)
  /-- A logical operand that is no boolean. -/
  | expectedBoolean (got : Tag)
  /-- A text that does not read as the target. -/
  | unreadableNumber (text : String) (target : Tag)
  /-- A number that has no decimal. -/
  | notDecimal (number : String)
  /-- A millisecond count outside the calendar. -/
  | timeOutOfRange (millis : Int)
  /-- A text that does not read as a time. -/
  | unreadableTime (text format : String)
  /-- A pattern that is none. -/
  | badPattern (reason : String)
  /-- A variable read with no record. -/
  | missingRecord (slot : Nat)
  /-- An assignment to something other than a variable. -/
  | notAssignable (target : String)
  /-- A document that is no schema. -/
  | badSchema (reason : String)
  /-- A text that is no document. -/
  | badDocument (reason : String)
  /-- A file name whose extension names no format. -/
  | unsupportedFormat (path : String)
  /-- A failure that a registered body reports itself. -/
  | reported (code : Code) (details : Option String)
  deriving DecidableEq, Repr, Inhabited

namespace Fault

/-- The stage a fault belongs to. -/
def stage : Fault → Stage
  | located _ | emptyExpression => .parse
  | unknownIdentifier _ | unknownFunction _ | invalidIndex .. | unindexedStructure .. => .compile
  | noOverload stage _ _ => stage
  | badSchema _ => .schema
  | badDocument _ | unsupportedFormat _ => .data
  | _ => .eval

/-- The code of a fault. -/
def code : Fault → Code
  | located fault => fault.code
  | emptyExpression => .emptyExpression
  | unknownIdentifier _ => .unknownIdentifier
  | unknownFunction _ => .unknownFunction
  | invalidIndex .. => .invalidIndex
  | unindexedStructure .. => .unindexedStructure
  | noOverload .. | notConvertible .. | argumentMismatch .. => .noMatchingEvaluator
  | divisionByZero .. => .divisionByZero
  | sliceOutOfBounds .. | indexOutOfBounds .. | slotMissing _ | slotPastEnd .. => .indexOutOfBounds
  | expectedBoolean _ => .expectedBoolean
  | unreadableNumber .. | notDecimal _ | timeOutOfRange _ => .badConversion
  | unreadableTime .. => .failParseTime
  | badPattern _ => .badRegex
  | missingRecord _ => .missingContext
  | notAssignable _ => .notAssignable
  | badSchema _ => .badSchema
  | badDocument _ => .badData
  | unsupportedFormat _ => .unsupportedFormat
  | reported code _ => code

/-- What the message says beside the code. -/
def details : Fault → Option String
  | located fault => some s!"at {fault.span.start}..{fault.span.stop}"
  | emptyExpression => none
  | unknownIdentifier name | unknownFunction name => some name
  | invalidIndex index node => some s!"{index} of {node}"
  | unindexedStructure expr node => some s!"'{expr}' is a {node}"
  | noOverload _ name key => some (name ++ signatureText key)
  | notConvertible source target => some s!"cannot convert {source} to {target}"
  | argumentMismatch position expected => some s!"argument {position} is not {expected}"
  | divisionByZero dividend divisor => some s!"{dividend} / {divisor}"
  | sliceOutOfBounds start stop length => some s!"substring [{start}, {stop}) of length {length}"
  | indexOutOfBounds index length => some s!"index {index} of length {length}"
  | slotMissing slot => some s!"slot {slot}"
  | slotPastEnd slot length => some s!"slot {slot} of {length}"
  | expectedBoolean got => some s!"got {got}"
  | unreadableNumber text target => some s!"'{text}' to {target}"
  | notDecimal number => some s!"{number} to {Tag.decimal}"
  | timeOutOfRange millis => some s!"{millis} ms is out of range"
  | unreadableTime text format => some s!"'{text}' with format '{format}'"
  | badPattern reason | badSchema reason | badDocument reason => some reason
  | missingRecord slot => some s!"reading slot {slot}"
  | notAssignable target => some target
  | unsupportedFormat path => some path
  | reported _ details => details

/-- The text of a fault: its stage, its code and its details. -/
def message (f : Fault) : String :=
  match f.details with
  | some details => f.stage.name ++ "\x7b" ++ f.code.name ++ ": " ++ details ++ "\x7d"
  | none => f.stage.name ++ "\x7b" ++ f.code.name ++ "\x7d"

end Fault

/-! ### Steps that may fail -/

section

variable {ε α β : Type}

@[simp] theorem ok_bind (a : α) (f : α → Except ε β) : (Except.ok a >>= f) = f a := rfl

@[simp] theorem error_bind (e : ε) (f : α → Except ε β) : (Except.error e >>= f) = .error e := rfl

theorem toOption_eq_some_iff {x : Except ε α} {a : α} : x.toOption = some a ↔ x = .ok a := by
  cases x with
  | error e => exact ⟨nofun, nofun⟩
  | ok b => exact ⟨fun h => congrArg _ (Option.some.inj h), fun h => congrArg _ (Except.ok.inj h)⟩

/-- Two steps succeed when the first succeeds and the second does so on its result. -/
theorem bind_eq_ok_iff {x : Except ε α} {f : α → Except ε β} {b : β} :
    (x >>= f) = .ok b ↔ ∃ a, x = .ok a ∧ f a = .ok b := by
  cases x with
  | error e => exact ⟨nofun, nofun⟩
  | ok a =>
    rw [ok_bind]
    constructor
    · intro h
      exact ⟨a, rfl, h⟩
    · rintro ⟨_, ⟨⟩, h⟩
      exact h

end

end Formulary
