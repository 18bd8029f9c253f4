import Formulary.Library.Arithmetic
import Formulary.Proofs.Dispatch.Widest
import Formulary.Proofs.Plan.Discipline

/-!
# Arguments as bodies receive them

A wrapped body unpacks its arguments by the tags that it declares, and would report an argument of
another type. It never has to. A look-up by the tags of values finds an overload that accepts them;
where a value does not carry the declared tag, both tags are numeric, and the value is converted.
Between kinds of numbers one conversion only can fail: a double need not be a decimal.

## Scope

Wrapped bodies are those made for types that unpack all values of their tag. What the wrapped
function reports itself is left open, and is carried through as a kind of faults. Bodies that work
on values as they are, without a wrapper, are not covered.

## Main definitions

* `Carrier.Faithful` — the types that unpack just the values of their tag
* `Overload.Wrapped` — wrapped bodies of functions with faults of one kind
* `Received`, `Target.Hands` — an argument as it is received, and all of them
* `Target.Outcome` — what applying an overload can come to

## Main results

* `Overload.Wrapped.failsOnly_body` — no fault comes from unpacking
* `Value.received_or_notDecimal` — which conversion can fail
* `Table.Builder.arguments_are_received` — look-ups by the tags of values
-/

namespace Formulary

/-! ### Unpacking -/

/-- Just the values that carry the tag have a content; all have one where the tag asks for any
value. -/
class Carrier.Faithful {α : Type} (c : Carrier α) : Prop where
  isSome_unpack? : ∀ v : Value, (c.unpack? v).isSome = (v.tag == c.tag || c.tag == .object)

namespace Carrier

instance : boolean.Faithful := ⟨fun v => by cases v <;> rfl⟩
instance : integer.Faithful := ⟨fun v => by cases v <;> rfl⟩
instance : long.Faithful := ⟨fun v => by cases v <;> rfl⟩
instance : double.Faithful := ⟨fun v => by cases v <;> rfl⟩
instance : decimal.Faithful := ⟨fun v => by cases v <;> rfl⟩
instance : string.Faithful := ⟨fun v => by cases v <;> rfl⟩
instance : time.Faithful := ⟨fun v => by cases v <;> rfl⟩
instance : booleans.Faithful := ⟨fun v => by cases v <;> rfl⟩
instance : integers.Faithful := ⟨fun v => by cases v <;> rfl⟩
instance : longs.Faithful := ⟨fun v => by cases v <;> rfl⟩
instance : doubles.Faithful := ⟨fun v => by cases v <;> rfl⟩
instance : decimals.Faithful := ⟨fun v => by cases v <;> rfl⟩
instance : strings.Faithful := ⟨fun v => by cases v <;> rfl⟩
instance : objects.Faithful := ⟨fun v => by cases v <;> rfl⟩
instance : list.Faithful := ⟨fun v => by cases v <;> rfl⟩
instance : map.Faithful := ⟨fun v => by cases v <;> rfl⟩
instance : object.Faithful := ⟨fun v => by cases v <;> rfl⟩

end Carrier

/-- How a value arrives where a tag is declared: it carries the tag, or it is any value and that is
what is asked for. A value that carries the tag already is left as it is. -/
structure Received (declared : Tag) (given received : Value) : Prop where
  tag : received.tag = declared ∨ declared = .object ∧ received = given
  unchanged : given.tag = declared → received = given

/-- An argument that is received has a content. -/
theorem Carrier.exists_argument {α : Type} (c : Carrier α) [c.Faithful] {args : List Value}
    {i : Nat} {v w : Value} (hw : args[i]? = some w) (h : Received c.tag v w) :
    ∃ a, c.argument args i = .ok a := by
  have hsome : (c.unpack? w).isSome = true := by
    rw [Carrier.Faithful.isSome_unpack?, Bool.or_eq_true, beq_iff_eq, beq_iff_eq]
    exact h.tag.imp_right And.left
  obtain ⟨a, ha⟩ := Option.isSome_iff_exists.mp hsome
  refine ⟨a, ?_⟩
  rw [Carrier.argument, hw, Option.bind_some, ha]

/-- All arguments of a call: as many are received as are declared. -/
inductive Target.Hands : Signature → List Value → List Value → Prop
  | nil : Hands [] [] []
  | cons {declared : Tag} {params : Signature} {given received : Value} {args rest : List Value} :
    Received declared given received → Hands params args rest →
    Hands (declared :: params) (given :: args) (received :: rest)

namespace Overload

open Target (Hands)

/-- The wrapped bodies, of up to three parameters, whose functions have faults of one kind. -/
inductive Wrapped (own : Fault → Prop) : Overload → Prop
  | nullary {ρ : Type} {r : Carrier ρ} {f : Except Fault ρ} :
    FailsOnly own f → Wrapped own (tryNullary r f)
  | unary {α ρ : Type} {a : Carrier α} {r : Carrier ρ} [a.Faithful] {f : α → Except Fault ρ} :
    (∀ x, FailsOnly own (f x)) → Wrapped own (tryUnary a r f)
  | binary {α β ρ : Type} {a : Carrier α} {b : Carrier β} {r : Carrier ρ} [a.Faithful] [b.Faithful]
    {f : α → β → Except Fault ρ} :
    (∀ x y, FailsOnly own (f x y)) → Wrapped own (tryBinary a b r f)
  | ternary {α β γ ρ : Type} {a : Carrier α} {b : Carrier β} {c : Carrier γ} {r : Carrier ρ}
    [a.Faithful] [b.Faithful] [c.Faithful] {f : α → β → γ → Except Fault ρ} :
    (∀ x y z, FailsOnly own (f x y z)) → Wrapped own (tryTernary a b c r f)

variable {own : Fault → Prop} {o : Overload}

/-- **No fault comes from unpacking** arguments that are received. -/
theorem Wrapped.failsOnly_body (h : o.Wrapped own) {args received : List Value}
    (hargs : Hands o.params args received) : FailsOnly own (o.body received) := by
  cases h with
  | nullary hf => exact hf.bind fun _ _ => .ok _
  | @unary _ _ a _ _ _ hf =>
    obtain _ | @⟨_, _, _, v, _, vs, hv, -⟩ := hargs
    obtain ⟨x, hx⟩ : ∃ x, a.argument (v :: vs) 0 = .ok x := a.exists_argument rfl hv
    dsimp only [tryUnary]
    rw [hx]
    exact (hf x).bind fun _ _ => .ok _
  | @binary _ _ _ a b _ _ _ _ hf =>
    obtain _ | @⟨_, _, _, v, _, _, hv, hargs⟩ := hargs
    obtain _ | @⟨_, _, _, w, _, vs, hw, -⟩ := hargs
    obtain ⟨x, hx⟩ : ∃ x, a.argument (v :: w :: vs) 0 = .ok x := a.exists_argument rfl hv
    obtain ⟨y, hy⟩ : ∃ y, b.argument (v :: w :: vs) 1 = .ok y := b.exists_argument rfl hw
    dsimp only [tryBinary]
    rw [hx, ok_bind, hy]
    exact (hf x y).bind fun _ _ => .ok _
  | @ternary _ _ _ _ a b c _ _ _ _ _ hf =>
    obtain _ | @⟨_, _, _, u, _, _, hu, hargs⟩ := hargs
    obtain _ | @⟨_, _, _, v, _, _, hv, hargs⟩ := hargs
    obtain _ | @⟨_, _, _, w, _, vs, hw, -⟩ := hargs
    obtain ⟨x, hx⟩ : ∃ x, a.argument (u :: v :: w :: vs) 0 = .ok x := a.exists_argument rfl hu
    obtain ⟨y, hy⟩ : ∃ y, b.argument (u :: v :: w :: vs) 1 = .ok y := b.exists_argument rfl hv
    obtain ⟨z, hz⟩ : ∃ z, c.argument (u :: v :: w :: vs) 2 = .ok z := c.exists_argument rfl hw
    dsimp only [tryTernary]
    rw [hx, ok_bind, hy, ok_bind, hz]
    exact (hf x y z).bind fun _ _ => .ok _

end Overload

/-! ### Conversion -/

/-- The tags of numbers. -/
def Tag.numeric : List Tag := [.integer, .long, .double, .decimal]

/-- Between kinds of numbers only a double may not convert, to a decimal. -/
theorem Value.convert?_numeric {declared : Tag} {v : Value} (hdeclared : declared ∈ Tag.numeric)
    (hv : v.tag ∈ Tag.numeric) (hne : v.tag ≠ declared) :
    (∃ w, v.convert? declared = some w) ∨
      declared = .decimal ∧ ∃ x, v = .double x ∧ Double.toDecimal? x = none ∧
        v.convert? declared = none := by
  simp only [Tag.numeric, List.mem_cons, List.not_mem_nil, or_false] at hdeclared
  rcases hdeclared with rfl | rfl | rfl | rfl
  all_goals cases v <;> simp_all [Tag.numeric, Value.tag, Value.convert?]
  cases Double.toDecimal? _ with
  | none => exact Or.inr rfl
  | some d => exact Or.inl ⟨d, rfl⟩

/-- An argument that fits a declared tag is received, unless it is a double that has no decimal. -/
theorem Value.received_or_notDecimal {widening : List Tag} {declared : Tag} {v : Value}
    (hnumeric : ∀ t ∈ widening, t ∈ Tag.numeric)
    (hfits : Table.Builder.Fits widening declared v.tag) :
    (∃ w, v.convert declared = .ok w ∧ Received declared v w) ∨
      declared = .decimal ∧ ∃ x, v = .double x ∧ Double.toDecimal? x = none ∧
        v.convert declared = .error (.notConvertible .double .decimal) := by
  by_cases hsame : v.tag = declared ∨ declared = .object
  · have hconvert : v.convert declared = .ok v := if_pos hsame
    exact Or.inl ⟨v, hconvert, hsame.imp_right fun h => ⟨h, rfl⟩, fun _ => rfl⟩
  · have hne : v.tag ≠ declared := fun h => hsame (Or.inl h)
    -- what is no declared tag is one of the sequence, and so is the declared one
    obtain ⟨before, after, rfl, -, hafter⟩ := hfits.resolve_left hne
    have hdeclared : declared ∈ Tag.numeric :=
      hnumeric declared (List.mem_append_right _ (List.mem_cons_self ..))
    have hv : v.tag ∈ Tag.numeric :=
      hnumeric v.tag (List.mem_append_right _ (List.mem_cons_of_mem _ hafter))
    rcases convert?_numeric hdeclared hv hne with ⟨w, hw⟩ | ⟨rfl, x, rfl, hx, hw⟩
    · refine Or.inl ⟨w, ?_, Or.inl (convert?_tag hw), fun h => absurd h hne⟩
      rw [convert, if_neg hsame, hw]
    · refine Or.inr ⟨rfl, x, rfl, hx, ?_⟩
      rw [convert, if_neg hsame, hw]
      rfl

namespace Target

/-- What applying an overload can come to. The body computes from all arguments as they are
received; or one of them is a double without a decimal where a decimal is declared, and nothing is
computed. -/
inductive Outcome (own : Fault → Prop) (target : Target) (args : List Value) : Prop
  | computed {received : List Value} (hands : Hands target.overload.params args received)
    (apply : target.apply args = target.overload.body received)
    (faults : FailsOnly own (target.overload.body received))
  | notDecimal {x : Float} (declared : (.decimal, .double x) ∈ target.overload.params.zip args)
    (none : Double.toDecimal? x = none)
    (apply : target.apply args = .error (.notConvertible .double .decimal))

/-- The arguments of a signature that is accepted are received, or one of them has no decimal. -/
theorem convertAll_of_accepts {widening : List Tag} (hnumeric : ∀ t ∈ widening, t ∈ Tag.numeric)
    {params : Signature} {args : List Value}
    (h : Table.Builder.Accepts widening params (signatureOf args)) :
    (∃ received, convertAll args params = .ok received ∧ Hands params args received) ∨
      ∃ x, (Tag.decimal, Value.double x) ∈ params.zip args ∧ Double.toDecimal? x = none ∧
        convertAll args params = .error (.notConvertible .double .decimal) := by
  induction args generalizing params with
  | nil =>
    cases h
    exact Or.inl ⟨[], rfl, .nil⟩
  | cons v rest ih =>
    cases h with
    | cons hfits hrest =>
      rw [convertAll]
      rcases v.received_or_notDecimal hnumeric hfits with
        ⟨w, hw, hreceived⟩ | ⟨rfl, x, rfl, hx, hw⟩
      · rw [hw, ok_bind]
        rcases ih hrest with ⟨received, hconvert, hhands⟩ | ⟨x, hmem, hx, hconvert⟩
        · rw [hconvert]
          exact Or.inl ⟨w :: received, rfl, .cons hreceived hhands⟩
        · rw [hconvert]
          exact Or.inr ⟨x, List.mem_cons_of_mem _ hmem, hx, rfl⟩
      · rw [hw]
        exact Or.inr ⟨x, List.mem_cons_self .., hx, rfl⟩

variable {own : Fault → Prop} {target : Target} {args : List Value}

/-- The faults of an application are those of the wrapped function and that of the conversion. -/
theorem Outcome.failsOnly (h : target.Outcome own args) :
    FailsOnly (fun fault => own fault ∨ fault = .notConvertible .double .decimal)
      (target.apply args) := by
  cases h with
  | computed _ happly hfaults => exact happly ▸ hfaults.imp fun _ => Or.inl
  | notDecimal _ _ happly => exact happly ▸ FailsOnly.error.mpr (Or.inr rfl)

end Target

/-! ### Look-ups by the tags of values -/

namespace Table.Builder

variable {own : Fault → Prop} {b : Builder}

/-- What is found by the tags of values takes as many arguments as it declares, and receives
them. -/
theorem outcome_of_lookup (hwrapped : ∀ o ∈ b.overloads, o.Wrapped own)
    (hnumeric : ∀ t ∈ b.widening, t ∈ Tag.numeric) {args : List Value} {target : Target}
    (h : b.build.lookup (signatureOf args) = some target) :
    args.length = target.overload.params.length ∧ target.Outcome own args := by
  obtain ⟨hmem, haccepts⟩ := accepts_of_lookup h
  have hlength := haccepts.length_eq
  rw [signatureOf, List.length_map] at hlength
  refine ⟨hlength.symm, ?_⟩
  have happly := apply_of_lookup h
  rcases Target.convertAll_of_accepts hnumeric haccepts with
    ⟨received, hconvert, hhands⟩ | ⟨x, hdeclared, hx, hconvert⟩
  · rw [hconvert, ok_bind] at happly
    exact .computed hhands happly ((hwrapped _ hmem).failsOnly_body hhands)
  · rw [hconvert, error_bind] at happly
    exact .notDecimal hdeclared hx happly

/-- **Bodies receive their arguments as they declare them.** In a table of wrapped bodies whose
arguments are widened along kinds of numbers, let arguments be given.

* What is found by their tags declares as many parameters as there are arguments. Its body computes
  from arguments that carry the declared tags, except where a double had to become a decimal and has
  none.
* A choice that was left open is made by one look-up: it comes to what is found, which asks no table
  again, or to the fault of a look-up that finds nothing.
* So neither of the two reports an argument of another type, unless a wrapped function does that by
  itself. -/
theorem arguments_are_received (hwrapped : ∀ o ∈ b.overloads, o.Wrapped own)
    (hnumeric : ∀ t ∈ b.widening, t ∈ Tag.numeric) (args : List Value) :
    (∀ target, b.build.lookup (signatureOf args) = some target →
      args.length = target.overload.params.length ∧ target.Outcome own args) ∧
    ((∃ target, b.build.lookup (signatureOf args) = some target ∧ ∀ table,
        Resolution.deferred.apply b.build args = (Resolution.direct target).apply table args) ∨
      b.build.lookup (signatureOf args) = none ∧ Resolution.deferred.apply b.build args =
        .error (.noOverload .eval b.name (signatureOf args))) ∧
    ∀ position expected, ¬ own (.argumentMismatch position expected) →
      Resolution.deferred.apply b.build args ≠ .error (.argumentMismatch position expected) ∧
        ∀ target, b.build.lookup (signatureOf args) = some target →
          target.apply args ≠ .error (.argumentMismatch position expected) := by
  have hfound : ∀ target, b.build.lookup (signatureOf args) = some target →
      args.length = target.overload.params.length ∧ target.Outcome own args :=
    fun target => outcome_of_lookup hwrapped hnumeric
  have hdirect : ∀ position expected, ¬ own (.argumentMismatch position expected) →
      ∀ target, b.build.lookup (signatureOf args) = some target →
        target.apply args ≠ .error (.argumentMismatch position expected) := by
    intro position expected hown target htarget hfault
    rcases (hfound target htarget).2.failsOnly _ hfault with h | h
    · exact hown h
    · cases h
  refine ⟨hfound, ?_, fun position expected hown =>
    ⟨?_, hdirect position expected hown⟩⟩
  · cases hlookup : b.build.lookup (signatureOf args) with
    | some target => exact Or.inl ⟨target, rfl, fun _ => Resolution.apply_deferred hlookup⟩
    | none =>
      refine Or.inr ⟨rfl, ?_⟩
      rw [apply_deferred_eq_dispatch, dispatch, hlookup]
      rfl
  · rw [apply_deferred_eq_dispatch]
    cases hlookup : b.build.lookup (signatureOf args) with
    | some target =>
      rw [dispatch_of_lookup hlookup]
      exact hdirect position expected hown target hlookup
    | none =>
      rw [dispatch, hlookup]
      intro hfault
      cases hfault

open Overload Carrier Library in
/-- A table of ratios. They are computed with decimals, and those of other values are texts. -/
def ratios : Builder :=
  ⟨"ratio", numericWidening,
    [unary object string Value.text, tryBinary decimal decimal decimal divideDecimal], true⟩

/-- The ratio of an integer and a long is computed with two decimals. -/
theorem arguments_are_received_ratio :
    ((∀ o ∈ ratios.overloads, o.Wrapped fun fault => fault.code = .divisionByZero) ∧
        ∀ t ∈ ratios.widening, t ∈ Tag.numeric) ∧
      (∀ target, ratios.build.lookup (signatureOf [.integer 7, .long 2]) = some target →
        2 = target.overload.params.length ∧
          target.Outcome (fun fault => fault.code = .divisionByZero) [.integer 7, .long 2]) ∧
      Resolution.deferred.apply ratios.build [.integer 7, .long 2] = .ok (.decimal ⟨4, 0⟩) := by
  have hwrapped : ∀ o ∈ ratios.overloads, o.Wrapped fun fault => fault.code = .divisionByZero := by
    refine List.forall_mem_cons.mpr ⟨.unary fun _ => .ok _, List.forall_mem_singleton.mpr ?_⟩
    refine .binary fun a b => ?_
    rw [Library.divideDecimal]
    split
    · exact .ok _
    · exact FailsOnly.error.mpr rfl
  have hnumeric : ∀ t ∈ ratios.widening, t ∈ Tag.numeric := by decide
  -- The overload for decimals is the more specific one, and the only one for two arguments.
  have hordered : ratios.ordered =
      [.tryBinary .decimal .decimal .decimal Library.divideDecimal,
        .unary .object .string Value.text] := by
    have hlive : ratios.live = ratios.overloads := rfl
    have hpair (le : Overload → Overload → Bool) (o p : Overload) :
        [o, p].mergeSort le = if le o p then [o, p] else [p, o] := by
      simp [List.mergeSort, List.merge, List.MergeSort.Internal.splitInTwo]
    rw [ordered, hlive, ratios, hpair]
    rfl
  have hlookup : ratios.build.lookup [.integer, .long] =
      some (.widened (.tryBinary .decimal .decimal .decimal Library.divideDecimal)
        [.integer, .long]) := by
    rw [lookup_build, hordered]
    rfl
  have happly : Resolution.deferred.apply ratios.build [.integer 7, .long 2] =
      .ok (.decimal ⟨4, 0⟩) := by
    rw [apply_deferred_eq_dispatch, dispatch_of_lookup hlookup]
    rfl
  exact ⟨⟨hwrapped, hnumeric⟩, (arguments_are_received hwrapped hnumeric _).1, happly⟩

end Table.Builder

end Formulary
