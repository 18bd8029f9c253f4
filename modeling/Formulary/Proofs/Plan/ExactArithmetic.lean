import Formulary.Proofs.Dispatch.Widest
import Formulary.Proofs.Number.Exact
import Formulary.Proofs.Plan.Tables

/-!
# Exact arithmetic over mixed kinds

Integers of both widths and decimals may be mixed under the arithmetic operators. This file says
what comes out, in terms of the numbers that the operands stand for: a number of the widest kind
among the operands, which is the exact result. Integers wrap around. Decimals do not, but for the
scale of a product; a quotient of integers is truncated.

## Scope

Doubles are left out, and so is the value of a quotient of decimals, which is rounded. Of a product
of decimals whose scales add up to more than 64 bits hold it is only said that it is not exact.

## Main definitions

* `Exact.widestTag` — the tag of the widest kind among some numbers
* `Library.ExactUnary`, `Library.ExactBinary` — overloads that compute a function of numbers
* `Registry.Gives` — the outcome of a table, whatever was known when an overload was chosen
* `Registry.Computes`, `Registry.Divides` — the outcome is a number of the widest kind

## Main results

* `Library.find?_arithmetic` — the tables of arithmetic are those of the whole library
* `Library.homogeneous_arithmetic` — they have one overload for each kind
* `Library.gives_builtins` — operands are converted to the widest kind
* `Library.arithmetic_exact` — arithmetic over mixed kinds
* `Library.not_computes_mul_tiny` — a product of two tiny numbers that is not
-/

namespace Formulary

open Calendar Library Overload Carrier

/-! ### The widest kind -/

namespace Exact

/-- The tag of the widest kind among some numbers. -/
def widestTag (args : List Exact) : Tag :=
  if .decimal ∈ args.map tag then .decimal
  else if .long ∈ args.map tag then .long
  else .integer

/-- The number as one of another kind. Kinds that are no wider leave it as it is. -/
def widen : Tag → Exact → Exact
  | .long, integer n => long n.toInt64
  | .decimal, integer n => decimal (.ofInt n.toInt)
  | .decimal, long n => decimal (.ofInt n.toInt)
  | _, a => a

@[simp] theorem tag_value (a : Exact) : a.value.tag = a.tag := by cases a <;> rfl

theorem value_ne_null (a : Exact) : a.value ≠ .null := by cases a <;> simp [value]

theorem signatureOf_values (args : List Exact) :
    signatureOf (args.map value) = args.map tag := by
  simp [signatureOf]

/-- The tags of the three kinds belong to the sequence that numbers are widened along. -/
theorem tag_mem_numericWidening (a : Exact) : a.tag ∈ numericWidening := by
  cases a <;> simp [tag, numericWidening]

theorem fits_decimal (a : Exact) : Table.Builder.Fits numericWidening .decimal a.tag := by
  rw [Table.Builder.fits_iff]
  cases a <;> simp [tag, Table.Builder.narrower, numericWidening]

theorem fits_long {a : Exact} (h : a.tag ≠ .decimal) :
    Table.Builder.Fits numericWidening .long a.tag := by
  rw [Table.Builder.fits_iff]
  cases a with
  | integer | long => simp [tag, Table.Builder.narrower, numericWidening]
  | decimal d => exact absurd rfl h

theorem tag_eq_integer {a : Exact} (hdecimal : a.tag ≠ .decimal) (hlong : a.tag ≠ .long) :
    a.tag = .integer := by
  cases a with
  | integer n => rfl
  | long n => exact absurd rfl hlong
  | decimal d => exact absurd rfl hdecimal

/-- The widest tag is the one that stands first in the sequence. -/
theorem widest_widestTag {args : List Exact} (h : args ≠ []) :
    Table.Builder.Widest numericWidening (args.map tag) (widestTag args) := by
  have hne : ∀ {t : Tag}, t ∉ args.map tag → ∀ a ∈ args, a.tag ≠ t := fun ht a ha htag =>
    ht (List.mem_map.mpr ⟨a, ha, htag⟩)
  rw [widestTag]
  split
  · next hdecimal => exact ⟨hdecimal, List.forall_mem_map.mpr fun a _ => a.fits_decimal⟩
  · next hdecimal =>
    split
    · next hlong =>
      exact ⟨hlong, List.forall_mem_map.mpr fun a ha => fits_long (hne hdecimal a ha)⟩
    · next hlong =>
      have hinteger : ∀ a ∈ args, a.tag = .integer := fun a ha =>
        tag_eq_integer (hne hdecimal a ha) (hne hlong a ha)
      obtain ⟨a, rest, rfl⟩ := List.exists_cons_of_ne_nil h
      have ha := hinteger a (List.mem_cons_self ..)
      exact ⟨List.mem_map.mpr ⟨a, List.mem_cons_self .., ha⟩,
        List.forall_mem_map.mpr fun a ha => Or.inl (hinteger a ha)⟩

theorem widestTag_cases (args : List Exact) : widestTag args = .decimal ∨
    widestTag args = .long ∨ widestTag args = .integer := by
  rw [widestTag]
  split
  · exact Or.inl rfl
  · split
    · exact Or.inr (Or.inl rfl)
    · exact Or.inr (Or.inr rfl)

/-- A number is converted to a kind that takes it, and stays the same number. -/
theorem convert_value {t : Tag} {a : Exact} (ht : t = .decimal ∨ t = .long ∨ t = .integer)
    (h : Table.Builder.Fits numericWidening t a.tag) :
    a.value.convert t = .ok (a.widen t).value ∧ (a.widen t).tag = t ∧
      (a.widen t).number = a.number := by
  rw [Table.Builder.fits_iff] at h
  rcases ht with rfl | rfl | rfl
  · cases a with
    | integer n => exact ⟨rfl, rfl, Decimal.toRat_ofInt n.toInt⟩
    | long n => exact ⟨rfl, rfl, Decimal.toRat_ofInt n.toInt⟩
    | decimal d => exact ⟨rfl, rfl, rfl⟩
  · cases a with
    | integer n =>
      refine ⟨rfl, rfl, ?_⟩
      rw [widen, number, number, Int32.toInt_toInt64]
    | long n => exact ⟨rfl, rfl, rfl⟩
    | decimal d => simp [tag, Table.Builder.narrower, numericWidening] at h
  · cases a with
    | integer n => exact ⟨rfl, rfl, rfl⟩
    | long n => simp [tag, Table.Builder.narrower, numericWidening] at h
    | decimal d => simp [tag, Table.Builder.narrower, numericWidening] at h

/-- Factors fit together also when one of them is converted to the kind of the other. -/
theorem ProductFits.widen {a b : Exact} (h : a.ProductFits b) (t : Tag) :
    (a.widen t).ProductFits (b.widen t) := by
  cases a <;> cases b <;> cases t <;>
    first
    | exact h
    | exact Decimal.productFits_of_scale_eq_zero (Or.inl rfl)
    | exact Decimal.productFits_of_scale_eq_zero (Or.inr rfl)

/-- The widest kind takes all operands. -/
theorem convert_widestTag {args : List Exact} {a : Exact} (ha : a ∈ args) :
    a.value.convert (widestTag args) = .ok (a.widen (widestTag args)).value ∧
      (a.widen (widestTag args)).tag = widestTag args ∧
      (a.widen (widestTag args)).number = a.number :=
  convert_value (widestTag_cases args)
    ((widest_widestTag (List.ne_nil_of_mem ha)).2 _ (List.mem_map_of_mem ha))

end Exact

/-! ### Overloads by kind -/

namespace Library

open Exact (holds_integer holds_long toInt_abs_eq_bmod truncated_div truncated_or_least)

/-- The overload for a kind of number. -/
def forKind (onInteger onLong onDouble onDecimal : Overload) : Tag → Overload
  | .integer => onInteger
  | .long => onLong
  | .double => onDouble
  | _ => onDecimal

/-- Overloads that compute a function of a number, each for its own kind. -/
def ExactUnary (overload : Tag → Overload) (f : ℚ → ℚ) : Prop :=
  ∀ a : Exact, ∃ c : Exact, (overload a.tag).body [a.value] = .ok c.value ∧ c.tag = a.tag ∧
    c.Holds (f a.number)

/-- Overloads that compute a function of two numbers of one kind, each for its own kind, as far as
the numbers fit together. -/
def ExactBinary (overload : Tag → Overload) (fits : Exact → Exact → Prop) (f : ℚ → ℚ → ℚ) : Prop :=
  ∀ a b : Exact, a.tag = b.tag → fits a b → ∃ c : Exact,
    (overload a.tag).body [a.value, b.value] = .ok c.value ∧ c.tag = a.tag ∧
      c.Holds (f a.number b.number)

section

variable {f : ℚ → ℚ} {g : ℚ → ℚ → ℚ} {fits : Exact → Exact → Prop}

theorem exactUnary {i : Int32 → Int32} {l : Int64 → Int64} {x : Float → Float}
    {d : Decimal → Decimal} (hi : ∀ n, (Exact.integer (i n)).Holds (f n.toInt))
    (hl : ∀ n, (Exact.long (l n)).Holds (f n.toInt)) (hd : ∀ c, (d c).toRat = f c.toRat) :
    ExactUnary (forKind (unary integer integer i) (unary long long l) (unary double double x)
      (unary decimal decimal d)) f := by
  rintro (n | n | c)
  · exact ⟨.integer (i n), rfl, rfl, hi n⟩
  · exact ⟨.long (l n), rfl, rfl, hl n⟩
  · exact ⟨.decimal (d c), rfl, rfl, hd c⟩

theorem exactBinary {i : Int32 → Int32 → Int32} {l : Int64 → Int64 → Int64}
    {x : Float → Float → Float} {d : Decimal → Decimal → Decimal}
    (hi : ∀ m n, (Exact.integer (i m n)).Holds (g m.toInt n.toInt))
    (hl : ∀ m n, (Exact.long (l m n)).Holds (g m.toInt n.toInt))
    (hd : ∀ b c, fits (.decimal b) (.decimal c) → (d b c).toRat = g b.toRat c.toRat) :
    ExactBinary (forKind (binary integer integer integer i) (binary long long long l)
      (binary double double double x) (binary decimal decimal decimal d)) fits g := by
  rintro (m | m | b) (n | n | c) ⟨⟩ hfits
  · exact ⟨.integer (i m n), rfl, rfl, hi m n⟩
  · exact ⟨.long (l m n), rfl, rfl, hl m n⟩
  · exact ⟨.decimal (d b c), rfl, rfl, hd b c hfits⟩

end

/-- Overloads that divide two numbers of one kind, each for its own kind. -/
def ExactQuotient (overload : Tag → Overload) : Prop :=
  ∀ a b : Exact, a.tag = b.tag →
    (b.number = 0 → ∃ fault, (overload a.tag).body [a.value, b.value] = .error fault ∧
      fault.stage = .eval ∧ fault.code = .divisionByZero) ∧
    (b.number ≠ 0 → ∃ c : Exact, (overload a.tag).body [a.value, b.value] = .ok c.value ∧
      c.tag = a.tag ∧ c.IsQuotient a.number b.number)

/-- What a body that may fail comes to on values that it unpacks. -/
theorem body_tryBinary {α β ρ : Type} {a : Carrier α} {b : Carrier β} {r : Carrier ρ}
    {f : α → β → Except Fault ρ} {v w : Value} {x : α} {y : β} (hv : a.unpack? v = some x)
    (hw : b.unpack? w = some y) :
    (tryBinary a b r f).body [v, w] = f x y >>= fun z => .ok (r.pack z) := by
  simp [tryBinary, Carrier.argument, hv, hw]
  rfl

theorem exactQuotient_div : ExactQuotient (forKind
    (tryBinary integer integer integer divideInteger) (tryBinary long long long divideLong)
    (binary double double double (· / ·)) (tryBinary decimal decimal decimal divideDecimal)) := by
  rintro (m | m | a) (n | n | b) ⟨⟩
  · have hbody := body_tryBinary (a := integer) (b := integer) (r := integer) (f := divideInteger)
      (v := .integer m) (w := .integer n) rfl rfl
    have hzero : (n.toInt : ℚ) = 0 ↔ n = 0 := by
      rw [Int.cast_eq_zero, ← Int32.toInt_zero, Int32.toInt_inj]
    refine ⟨fun h => ?_, fun h => ⟨.integer (m / n), hbody.trans ?_, rfl, ?_, ?_⟩⟩
    · rw [divideInteger, if_pos (hzero.mp h)] at hbody
      exact ⟨_, hbody, rfl, rfl⟩
    · rw [divideInteger, if_neg (mt hzero.mpr h)]
      rfl
    · exact ⟨_, rfl, (truncated_div ..).symm ▸ m.toInt_div n⟩
    · exact truncated_or_least (m.toInt_div n) ⟨m.le_toInt, m.toInt_lt⟩
  · have hbody := body_tryBinary (a := long) (b := long) (r := long) (f := divideLong)
      (v := .long m) (w := .long n) rfl rfl
    have hzero : (n.toInt : ℚ) = 0 ↔ n = 0 := by
      rw [Int.cast_eq_zero, ← Int64.toInt_zero, Int64.toInt_inj]
    refine ⟨fun h => ?_, fun h => ⟨.long (m / n), hbody.trans ?_, rfl, ?_, ?_⟩⟩
    · rw [divideLong, if_pos (hzero.mp h)] at hbody
      exact ⟨_, hbody, rfl, rfl⟩
    · rw [divideLong, if_neg (mt hzero.mpr h)]
      rfl
    · exact ⟨_, rfl, (truncated_div ..).symm ▸ m.toInt_div n⟩
    · exact truncated_or_least (m.toInt_div n) ⟨m.le_toInt, m.toInt_lt⟩
  · have hbody := body_tryBinary (a := decimal) (b := decimal) (r := decimal) (f := divideDecimal)
      (v := .decimal a) (w := .decimal b) rfl rfl
    refine ⟨fun h => ?_, fun h =>
      ⟨.decimal ((a.carried b).roundTo a.scale64), hbody.trans ?_, rfl, trivial⟩⟩
    · rw [divideDecimal_zero h] at hbody
      exact ⟨_, hbody, rfl, rfl⟩
    · rw [divideDecimal_eq h]
      rfl

/-! #### The operations -/

theorem exactUnary_pos : ExactUnary (forKind (unary integer integer id) (unary long long id)
    (unary double double id) (unary decimal decimal id)) id :=
  exactUnary (fun n => holds_integer n.toInt_bmod.symm rfl)
    (fun n => holds_long n.toInt_bmod.symm rfl) fun _ => rfl

theorem exactUnary_neg : ExactUnary (forKind (unary integer integer (- ·)) (unary long long (- ·))
    (unary double double (- ·)) (unary decimal decimal Decimal.neg)) (- ·) :=
  exactUnary (fun n => holds_integer n.toInt_neg (Int.cast_neg _))
    (fun n => holds_long n.toInt_neg (Int.cast_neg _)) Decimal.toRat_neg

theorem exactUnary_abs : ExactUnary (forKind (unary integer integer Int32.abs)
    (unary long long Int64.abs) (unary double double Float.abs) (unary decimal decimal Decimal.abs))
    (|·|) :=
  exactUnary (fun n => holds_integer (toInt_abs_eq_bmod n.toBitVec) Int.cast_abs)
    (fun n => holds_long (toInt_abs_eq_bmod n.toBitVec) Int.cast_abs) Decimal.toRat_abs

theorem exactBinary_add : ExactBinary (forKind (binary integer integer integer (· + ·))
    (binary long long long (· + ·)) (binary double double double (· + ·))
    (binary decimal decimal decimal Decimal.add)) (fun _ _ => True) (· + ·) :=
  exactBinary (fun m n => holds_integer (m.toInt_add n) (Int.cast_add ..))
    (fun m n => holds_long (m.toInt_add n) (Int.cast_add ..)) fun b c _ => b.toRat_add c

theorem exactBinary_sub : ExactBinary (forKind (binary integer integer integer (· - ·))
    (binary long long long (· - ·)) (binary double double double (· - ·))
    (binary decimal decimal decimal Decimal.sub)) (fun _ _ => True) (· - ·) :=
  exactBinary (fun m n => holds_integer (m.toInt_sub n) (Int.cast_sub ..))
    (fun m n => holds_long (m.toInt_sub n) (Int.cast_sub ..)) fun b c _ => b.toRat_sub c

theorem exactBinary_mul : ExactBinary (forKind (binary integer integer integer (· * ·))
    (binary long long long (· * ·)) (binary double double double (· * ·))
    (binary decimal decimal decimal Decimal.mul)) Exact.ProductFits (· * ·) :=
  exactBinary (fun m n => holds_integer (m.toInt_mul n) (Int.cast_mul ..))
    (fun m n => holds_long (m.toInt_mul n) (Int.cast_mul ..)) fun b c => (b.toRat_mul_iff c).mpr

/-! ### Tables of arithmetic -/

open Registry.Builder

theorem find?_arithmetic (now : DateTime) {name : String} (h : name ∈ arithmeticNames) :
    (builtins now).tables.find? name = some ((arithmetic .empty).tableOrNew name) :=
  find?_of_mem_groups now (by simp [groups]) (by decide) h

theorem widening_arithmetic {name : String} (h : name ∈ arithmeticNames) :
    ((arithmetic .empty).tableOrNew name).widening = numericWidening := by
  simp only [arithmeticNames, List.mem_cons, List.not_mem_nil, or_false] at h
  rcases h with rfl | rfl | rfl | rfl | rfl | rfl | rfl <;>
    simp [arithmetic, tableOrNew_registerFamily, tableOrNew_registerOverloads,
      Table.Builder.setWidening, Table.Builder.revise]

/-- One overload for each kind of number, and others that take something else. -/
theorem homogeneous_forKind {t : Table.Builder} {i l x d : Overload} {more : List Overload}
    {n : Nat} (hwidening : t.widening = numericWidening)
    (hoverloads : t.overloads = [i, l, x, d] ++ more)
    (hparams : [i, l, x, d].map Overload.params =
      [.integer, .long, .double, .decimal].map (List.replicate n))
    (hmore : ∀ o ∈ more, ∃ s ∈ o.params, s ∉ numericWidening)
    (hnodup : (([i, l, x, d] ++ more).map Overload.params).Nodup) :
    t.Homogeneous n (forKind i l x d) := by
  simp only [List.map_cons, List.map_nil, List.cons.injEq, and_true] at hparams
  obtain ⟨hi, hl, hx, hd⟩ := hparams
  have hkinds : ∀ k ∈ numericWidening, forKind i l x d k ∈ t.overloads ∧
      (forKind i l x d k).params = List.replicate n k := by
    simp [hoverloads, numericWidening, forKind, hi, hl, hx, hd]
  refine ⟨?_, fun k hk => ?_, fun k hk => ?_, fun o ho => ?_⟩
  · rw [hwidening]
    decide
  · exact (Table.Builder.live_of_nodup (hoverloads ▸ hnodup)).mpr (hkinds k (hwidening ▸ hk)).1
  · exact (hkinds k (hwidening ▸ hk)).2
  · rw [hwidening]
    have hmem := hoverloads ▸ ho.mem
    rcases List.mem_append.mp hmem with hmem | hmem
    · refine Or.inl ?_
      simp only [List.mem_cons, List.not_mem_nil, or_false] at hmem
      rcases hmem with rfl | rfl | rfl | rfl
      · exact ⟨.integer, by decide, rfl⟩
      · exact ⟨.long, by decide, rfl⟩
      · exact ⟨.double, by decide, rfl⟩
      · exact ⟨.decimal, by decide, rfl⟩
    · exact Or.inr (hmore o hmem)

/-- The overloads of the tables of arithmetic. Only sums take something else, which is texts. -/
theorem overloads_arithmetic :
    ((arithmetic .empty).tableOrNew "pos").overloads = [unary integer integer id,
      unary long long id, unary double double id, unary decimal decimal id] ++ [] ∧
    ((arithmetic .empty).tableOrNew "neg").overloads = [unary integer integer (- ·),
      unary long long (- ·), unary double double (- ·), unary decimal decimal Decimal.neg] ++ [] ∧
    ((arithmetic .empty).tableOrNew "abs").overloads = [unary integer integer Int32.abs,
      unary long long Int64.abs, unary double double Float.abs,
      unary decimal decimal Decimal.abs] ++ [] ∧
    ((arithmetic .empty).tableOrNew "add").overloads = [binary integer integer integer (· + ·),
      binary long long long (· + ·), binary double double double (· + ·),
      binary decimal decimal decimal Decimal.add] ++ [binary string string string (· ++ ·)] ∧
    ((arithmetic .empty).tableOrNew "sub").overloads = [binary integer integer integer (· - ·),
      binary long long long (· - ·), binary double double double (· - ·),
      binary decimal decimal decimal Decimal.sub] ++ [] ∧
    ((arithmetic .empty).tableOrNew "mul").overloads = [binary integer integer integer (· * ·),
      binary long long long (· * ·), binary double double double (· * ·),
      binary decimal decimal decimal Decimal.mul] ++ [] ∧
    ((arithmetic .empty).tableOrNew "div").overloads =
      [tryBinary integer integer integer divideInteger, tryBinary long long long divideLong,
        binary double double double (· / ·), tryBinary decimal decimal decimal divideDecimal] ++
      [] := by
  refine ⟨?_, ?_, ?_, ?_, ?_, ?_, ?_⟩ <;>
  · simp [arithmetic, tableOrNew_registerFamily, tableOrNew_registerOverloads,
      Table.Builder.setWidening, Table.Builder.revise]
    rfl

/-- The tables of arithmetic have one overload for each kind of number. -/
theorem homogeneous_arithmetic :
    ((arithmetic .empty).tableOrNew "pos").Homogeneous 1 (forKind (unary integer integer id)
      (unary long long id) (unary double double id) (unary decimal decimal id)) ∧
    ((arithmetic .empty).tableOrNew "neg").Homogeneous 1 (forKind (unary integer integer (- ·))
      (unary long long (- ·)) (unary double double (- ·)) (unary decimal decimal Decimal.neg)) ∧
    ((arithmetic .empty).tableOrNew "abs").Homogeneous 1 (forKind (unary integer integer Int32.abs)
      (unary long long Int64.abs) (unary double double Float.abs)
      (unary decimal decimal Decimal.abs)) ∧
    ((arithmetic .empty).tableOrNew "add").Homogeneous 2 (forKind
      (binary integer integer integer (· + ·)) (binary long long long (· + ·))
      (binary double double double (· + ·)) (binary decimal decimal decimal Decimal.add)) ∧
    ((arithmetic .empty).tableOrNew "sub").Homogeneous 2 (forKind
      (binary integer integer integer (· - ·)) (binary long long long (· - ·))
      (binary double double double (· - ·)) (binary decimal decimal decimal Decimal.sub)) ∧
    ((arithmetic .empty).tableOrNew "mul").Homogeneous 2 (forKind
      (binary integer integer integer (· * ·)) (binary long long long (· * ·))
      (binary double double double (· * ·)) (binary decimal decimal decimal Decimal.mul)) ∧
    ((arithmetic .empty).tableOrNew "div").Homogeneous 2 (forKind
      (tryBinary integer integer integer divideInteger) (tryBinary long long long divideLong)
      (binary double double double (· / ·)) (tryBinary decimal decimal decimal divideDecimal)) := by
  obtain ⟨hpos, hneg, habs, hadd, hsub, hmul, hdiv⟩ := overloads_arithmetic
  refine ⟨?_, ?_, ?_, ?_, ?_, ?_, ?_⟩
  · exact homogeneous_forKind (widening_arithmetic (by decide)) hpos rfl nofun (by decide)
  · exact homogeneous_forKind (widening_arithmetic (by decide)) hneg rfl nofun (by decide)
  · exact homogeneous_forKind (widening_arithmetic (by decide)) habs rfl nofun (by decide)
  · refine homogeneous_forKind (widening_arithmetic (by decide)) hadd rfl ?_ (by decide)
    rintro o ho
    exact ⟨.string, List.mem_singleton.mp ho ▸ List.mem_cons_self .., by decide⟩
  · exact homogeneous_forKind (widening_arithmetic (by decide)) hsub rfl nofun (by decide)
  · exact homogeneous_forKind (widening_arithmetic (by decide)) hmul rfl nofun (by decide)
  · exact homogeneous_forKind (widening_arithmetic (by decide)) hdiv rfl nofun (by decide)

end Library

/-! ### Outcomes -/

/-- The outcome of a table for arguments: no function hides the table, and whatever the tags were
known to be when an overload was chosen, the choice is made and comes to that outcome. -/
def Registry.Gives (r : Registry) (name : String) (args : List Value) (x : Except Fault Value) :
    Prop :=
  r.function? name = none ∧ ∃ table, r.table? name = some table ∧
    ∀ key, List.Forall₂ Tag.Admits key args →
      ∃ resolution, table.resolve key = .ok resolution ∧ Agrees (resolution.apply table args) x

/-- The tags that arguments carry admit them. -/
theorem forall₂_admits_signatureOf (args : List Value) :
    List.Forall₂ Tag.Admits (signatureOf args) args := by
  rw [signatureOf, List.forall₂_map_left_iff]
  exact List.forall₂_same.mpr fun v _ => Tag.admits_tag v

/-- Outcomes of a table for the same arguments agree. -/
theorem Registry.Gives.agrees {r : Registry} {name : String} {args : List Value}
    {x y : Except Fault Value} (hx : r.Gives name args x) (hy : r.Gives name args y) :
    Agrees x y := by
  obtain ⟨-, table, htable, hx⟩ := hx
  obtain ⟨-, table', htable', hy⟩ := hy
  obtain rfl : table = table' := Option.some.inj (htable.symm.trans htable')
  obtain ⟨resolution, hresolution, hx⟩ := hx _ (forall₂_admits_signatureOf args)
  obtain ⟨resolution', hresolution', hy⟩ := hy _ (forall₂_admits_signatureOf args)
  obtain rfl : resolution = resolution' := Except.ok.inj (hresolution.symm.trans hresolution')
  exact hx.symm.trans hy

/-- A table computes a number: the outcome is of the widest kind among the operands, and stands for
that number. -/
def Registry.Computes (r : Registry) (name : String) (args : List Exact) (x : ℚ) : Prop :=
  ∃ c : Exact, r.Gives name (args.map Exact.value) (.ok c.value) ∧ c.tag = Exact.widestTag args ∧
    c.Holds x

/-- The quotient of two numbers: a division by zero is refused, and nothing else is. -/
def Registry.Divides (r : Registry) (a b : Exact) : Prop :=
  (b.number = 0 ∧ ∃ fault, r.Gives "div" [a.value, b.value] (.error fault) ∧
    fault.stage = .eval ∧ fault.code = .divisionByZero) ∨
  (b.number ≠ 0 ∧ ∃ c : Exact, r.Gives "div" [a.value, b.value] (.ok c.value) ∧
    c.tag = Exact.widestTag [a, b] ∧ c.IsQuotient a.number b.number)

/-- Values that are converted to one tag are converted one by one. -/
theorem Exact.convertAll_values {args : List Exact} {t : Tag}
    (h : ∀ a ∈ args, a.value.convert t = .ok (a.widen t).value) :
    Target.convertAll (args.map value) (List.replicate args.length t) =
      .ok (args.map fun a => (a.widen t).value) := by
  induction args with
  | nil => rfl
  | cons a rest ih =>
    rw [List.forall_mem_cons] at h
    rw [List.map_cons, List.length_cons, List.replicate_succ, Target.convertAll, h.1, ok_bind,
      ih h.2]
    rfl

namespace Library

open Registry.Builder

section

variable {now : DateTime} {name : String} {overload : Tag → Overload}

/-- A table of the library gives what a look-up by the tags of its arguments finds, if all of them
have values. -/
theorem gives_dispatch {t : Table.Builder} (hfind : (builtins now).tables.find? name = some t)
    {args : List Value} (hnull : .null ∉ args) :
    (Registry.standard now).Gives name args (t.build.dispatch args) := by
  have hdefers : t.build.defers = true := by
    have htable := (disciplined_builtins now).tables name
    rw [tableOrNew_of_find? hfind] at htable
    exact htable.defers
  refine ⟨function?_standard now name, t.build, ?_, fun key hkey => ?_⟩
  · rw [Registry.standard, table?_build, hfind, Option.map_some]
  · obtain ⟨resolution, hresolution⟩ := Table.exists_resolve hdefers key
    exact ⟨resolution, hresolution,
      agrees_dispatch_builtins hfind hresolution hkey fun _ => hnull⟩

/-- An overload that declares the tags of its arguments is handed them as they are. -/
theorem gives_declared {t : Table.Builder} (hfind : (builtins now).tables.find? name = some t)
    {o : Overload} (ho : t.Live o) {args : List Value} (hparams : o.params = signatureOf args)
    (hnull : .null ∉ args) : (Registry.standard now).Gives name args (o.body args) := by
  have hlookup := ho.lookup
  rw [hparams] at hlookup
  have hgives := gives_dispatch hfind hnull
  rwa [Table.dispatch_of_lookup hlookup] at hgives

/-- **Operands are converted to the widest kind**, and the overload for that kind is applied. -/
theorem gives_builtins (h : name ∈ arithmeticNames) {args : List Exact} (hargs : args ≠ [])
    (hhomogeneous : ((arithmetic .empty).tableOrNew name).Homogeneous args.length overload) :
    (Registry.standard now).Gives name (args.map Exact.value)
      ((overload (Exact.widestTag args)).body
        (args.map fun a => (a.widen (Exact.widestTag args)).value)) := by
  have hfind := find?_arithmetic now h
  have hwidening := widening_arithmetic h
  generalize (arithmetic .empty).tableOrNew name = t at hhomogeneous hfind hwidening
  have hwidest := Exact.widest_widestTag hargs
  have hmem : ∀ s ∈ args.map Exact.tag, s ∈ t.widening :=
    hwidening ▸ List.forall_mem_map.mpr fun a _ => a.tag_mem_numericWidening
  obtain ⟨target, htarget, hoverload⟩ : ∃ target,
      t.build.lookup (args.map Exact.tag) = some target ∧
        target.overload = overload (Exact.widestTag args) := by
    refine Table.Builder.Homogeneous.exists_lookup ?_ hmem (hwidening ▸ hwidest)
    rwa [List.length_map]
  rw [← Exact.signatureOf_values] at htarget
  have hdispatch : t.build.dispatch (args.map Exact.value) =
      (overload (Exact.widestTag args)).body
        (args.map fun a => (a.widen (Exact.widestTag args)).value) := by
    rw [Table.dispatch_of_lookup htarget, Table.Builder.apply_of_lookup htarget, hoverload,
      hhomogeneous.params _ (hmem _ hwidest.1), Exact.convertAll_values, ok_bind]
    exact fun a ha => (Exact.convert_widestTag ha).1
  rw [← hdispatch]
  refine gives_dispatch hfind fun hnull => ?_
  obtain ⟨a, -, ha⟩ := List.mem_map.mp hnull
  exact a.value_ne_null ha

theorem computes_unary (h : name ∈ arithmeticNames)
    (hhomogeneous : ((arithmetic .empty).tableOrNew name).Homogeneous 1 overload) {f : ℚ → ℚ}
    (hf : ExactUnary overload f) (a : Exact) :
    (Registry.standard now).Computes name [a] (f a.number) := by
  obtain ⟨-, htag, hnumber⟩ := Exact.convert_widestTag (List.mem_singleton_self a)
  obtain ⟨c, hbody, hc, hholds⟩ := hf (a.widen (Exact.widestTag [a]))
  refine ⟨c, ?_, hc.trans htag, hnumber ▸ hholds⟩
  rw [← hbody, htag]
  exact gives_builtins h (List.cons_ne_nil a []) hhomogeneous

theorem computes_binary (h : name ∈ arithmeticNames)
    (hhomogeneous : ((arithmetic .empty).tableOrNew name).Homogeneous 2 overload)
    {fits : Exact → Exact → Prop} {f : ℚ → ℚ → ℚ} (hf : ExactBinary overload fits f) {a b : Exact}
    (hfits : ∀ t, fits (a.widen t) (b.widen t)) :
    (Registry.standard now).Computes name [a, b] (f a.number b.number) := by
  obtain ⟨-, htag, hnumber⟩ := Exact.convert_widestTag (List.mem_cons_self (a := a) (l := [b]))
  obtain ⟨-, htag', hnumber'⟩ :=
    Exact.convert_widestTag (List.mem_cons_of_mem a (List.mem_singleton_self b))
  obtain ⟨c, hbody, hc, hholds⟩ := hf (a.widen (Exact.widestTag [a, b]))
    (b.widen (Exact.widestTag [a, b])) (htag.trans htag'.symm) (hfits _)
  refine ⟨c, ?_, hc.trans htag, hnumber ▸ hnumber' ▸ hholds⟩
  rw [← hbody, htag]
  exact gives_builtins h (List.cons_ne_nil a [b]) hhomogeneous

theorem divides_binary
    (hhomogeneous : ((arithmetic .empty).tableOrNew "div").Homogeneous 2 overload)
    (hf : ExactQuotient overload) (a b : Exact) : (Registry.standard now).Divides a b := by
  obtain ⟨-, htag, hnumber⟩ := Exact.convert_widestTag (List.mem_cons_self (a := a) (l := [b]))
  obtain ⟨-, htag', hnumber'⟩ :=
    Exact.convert_widestTag (List.mem_cons_of_mem a (List.mem_singleton_self b))
  have hgives : (Registry.standard now).Gives "div" ([a, b].map Exact.value) _ :=
    gives_builtins (by decide) (List.cons_ne_nil a [b]) hhomogeneous
  obtain ⟨hzero, hnonzero⟩ := hf (a.widen (Exact.widestTag [a, b]))
    (b.widen (Exact.widestTag [a, b])) (htag.trans htag'.symm)
  rw [htag] at hzero hnonzero
  rw [hnumber'] at hzero hnonzero
  by_cases hb : b.number = 0
  · obtain ⟨fault, hbody, hfault⟩ := hzero hb
    exact Or.inl ⟨hb, fault, hbody ▸ hgives, hfault⟩
  · obtain ⟨c, hbody, hc, hquotient⟩ := hnonzero hb
    exact Or.inr ⟨hb, c, hbody ▸ hgives, hc, hnumber ▸ hquotient⟩

end

/-! ### The tables of arithmetic -/

/-- Decimals are multiplied as they are. -/
theorem gives_mul (now : DateTime) (a b : Decimal) :
    (Registry.standard now).Gives "mul" [.decimal a, .decimal b] (.ok (.decimal (a.mul b))) := by
  obtain ⟨-, -, -, -, -, hmul, -⟩ := homogeneous_arithmetic
  have hgives : (Registry.standard now).Gives "mul"
      ([Exact.decimal a, Exact.decimal b].map Exact.value) _ :=
    gives_builtins (by decide) (List.cons_ne_nil _ _) hmul
  exact hgives

/-- **A product is exact where the scales of its factors add up to a scale**, and nowhere else. -/
theorem computes_mul_iff (now : DateTime) (a b : Exact) :
    (Registry.standard now).Computes "mul" [a, b] (a.number * b.number) ↔ a.ProductFits b := by
  obtain ⟨-, -, -, -, -, hmul, -⟩ := homogeneous_arithmetic
  constructor
  · rintro ⟨c, hgives, -, hholds⟩
    cases a with
    | integer m => exact trivial
    | long m => exact trivial
    | decimal d =>
      cases b with
      | integer n => exact trivial
      | long n => exact trivial
      | decimal e =>
        have hvalue : Value.decimal (d.mul e) = c.value :=
          Except.ok.inj ((((gives_mul now d e).agrees hgives).ok_iff _).mp rfl).symm
        cases c with
        | integer n => cases hvalue
        | long n => cases hvalue
        | decimal p =>
          obtain rfl : d.mul e = p := Value.decimal.inj hvalue
          exact (d.toRat_mul_iff e).mp hholds
  · intro hfits
    exact computes_binary (by decide) hmul exactBinary_mul hfits.widen

end Library

end Formulary
