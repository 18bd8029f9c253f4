import Formulary.Proofs.Dispatch.Paired
import Formulary.Proofs.Plan.ExactArithmetic

/-!
# The six comparisons

The tables of `lt`, `le`, `gt`, `ge`, `eq` and `ne` are registered one by one. This file says how
they fit together, for any two values: which comparisons are the same with their sides exchanged,
which are negations of each other, and that on exact numbers of mixed kinds they are the order of
the numbers.

All of it follows from two facts. Each table brings its arguments to their common kind, which is
the same for all six tables and from both sides. And each comparison is read off the outcome of one
three-way comparison.

## Scope

Doubles are the exception to the second fact: some of them are not numbers, and are in no order. So
`le` is not said to be `lt` or `eq` for them.

## Main definitions

* `Value.order` — the three-way comparison of two values of one kind
* `Library.Comparison.relates` — what a comparison says of two values of one kind
* `Library.aligned?` — two values brought to their common kind
* `Library.ConsistentComparisons` — how the six comparisons fit together

## Main results

* `Library.registered_relations` — which comparison is registered for which kinds
* `Library.Comparison.Registered.says_dispatch` — what a comparison comes to
* `Library.Comparison.Registered.dispatch_exact` — exact numbers are compared as numbers
* `Library.comparisons_consistent` — the six comparisons together
-/

namespace Formulary

open Calendar Library Overload Carrier
open Table.Builder (commonTag? commonTag?_comm)

/-! ### The order of values -/

/-- The order of two values of one kind; kinds without an order are left out, and so are doubles. -/
def Value.order : Value → Value → Ordering
  | boolean p, boolean q => compare p q
  | integer m, integer n => compare m.toInt n.toInt
  | long m, long n => compare m.toInt n.toInt
  | decimal a, decimal b => a.compare b
  | string s, string t => compare s t
  | time t, time u => t.compare u
  | _, _ => .eq

theorem Decimal.compare_eq_cmp (a b : Decimal) : a.compare b = cmp a.toRat b.toRat := by
  have hpos : (0 : ℚ) < 10 ^ max a.scale b.scale := zpow_pos (by norm_num) _
  rw [compare_eq, compareAligned, ← cmp_mul_pos_right hpos,
    ← unscaledAt_eq_toRat (le_max_left ..), ← unscaledAt_eq_toRat (le_max_right ..),
    Int.cast_strictMono.cmp_map_eq, cmp_eq_compare]

theorem Decimal.compare_swap (a b : Decimal) : (a.compare b).swap = b.compare a := by
  rw [compare_eq_cmp, compare_eq_cmp, cmp_swap]

theorem Calendar.DateTime.compare_swap (t u : DateTime) : (t.compare u).swap = u.compare t := by
  rw [compare, compare, Ordering.swap_then, Ordering.swap_then, ← Std.OrientedOrd.eq_swap,
    ← Std.OrientedOrd.eq_swap, ← Std.OrientedOrd.eq_swap]

/-- The order from the other side. -/
theorem Value.order_swap (v w : Value) : (v.order w).swap = w.order v := by
  cases v with
  | boolean | integer | long | string =>
    cases w <;> first | exact Std.OrientedOrd.eq_swap.symm | rfl
  | decimal => cases w <;> first | exact Decimal.compare_swap _ _ | rfl
  | time => cases w <;> first | exact DateTime.compare_swap _ _ | rfl
  | _ => cases w <;> rfl

theorem Registry.dispatch_of_table? {r : Registry} {name : String} {table : Table}
    (h : r.table? name = some table) (args : List Value) :
    r.dispatch name args = table.dispatch args := by
  rw [Registry.dispatch, h]

/-! ### Comparisons -/

namespace Library

namespace Comparison

/-- The comparisons, as they are registered. -/
def lt : Comparison := ⟨(· < ·), (· < ·), (· < ·), Ordering.isLT⟩

@[inherit_doc lt] def le : Comparison := ⟨(· ≤ ·), (· ≤ ·), (· ≤ ·), Ordering.isLE⟩

@[inherit_doc lt] def gt : Comparison := ⟨(· > ·), (· > ·), (· > ·), Ordering.isGT⟩

@[inherit_doc lt] def ge : Comparison := ⟨(· ≥ ·), (· ≥ ·), (· ≥ ·), Ordering.isGE⟩

@[inherit_doc lt] def eq : Comparison := ⟨(· == ·), (· == ·), (· == ·), Ordering.isEq⟩

@[inherit_doc lt] def ne : Comparison := ⟨(· != ·), (· != ·), (· != ·), Ordering.isNe⟩

variable {c c' : Comparison} {v w : Value}

/-- What a comparison says of two values of one kind. -/
def relates (c : Comparison) : Value → Value → Bool
  | .double x, .double y => c.onDouble x y
  | v, w => c.onOrdering (v.order w)

theorem relates_of_ne_double (h : v.tag ≠ .double) : c.relates v w = c.onOrdering (v.order w) := by
  cases v with
  | double x => exact absurd rfl h
  | _ => rfl

/-- Comparisons that correspond on doubles and on outcomes correspond from both sides. -/
theorem relates_swap {f : Bool → Bool} (hdouble : ∀ x y, c'.onDouble y x = f (c.onDouble x y))
    (hordering : ∀ o, c'.onOrdering o.swap = f (c.onOrdering o)) (v w : Value) :
    c'.relates w v = f (c.relates v w) := by
  have hrest : c'.onOrdering (w.order v) = f (c.onOrdering (v.order w)) := by
    rw [← Value.order_swap, hordering]
  cases v with
  | double x =>
    cases w with
    | double y => exact hdouble x y
    | _ => exact hrest
  | _ => cases w <;> exact hrest

theorem relates_eq {f : Bool → Bool} (hdouble : ∀ x y, c'.onDouble x y = f (c.onDouble x y))
    (hordering : ∀ o, c'.onOrdering o = f (c.onOrdering o)) (v w : Value) :
    c'.relates v w = f (c.relates v w) := by
  cases v with
  | double x =>
    cases w with
    | double y => exact hdouble x y
    | _ => exact hordering _
  | _ => exact hordering _

/-- The comparison of integers goes by the outcome of a three-way comparison as well. -/
structure OfOrdering (c : Comparison) : Prop where
  onInteger : ∀ m n, c.onInteger m n = c.onOrdering (compare m.toInt n.toInt)
  onLong : ∀ m n, c.onLong m n = c.onOrdering (compare m.toInt n.toInt)

/-! ### What the outcomes say -/

section

variable {α : Type} [LinearOrder α] (x y : α)

theorem onOrdering_lt : lt.onOrdering (compare x y) = decide (x < y) := by
  rw [lt, Bool.eq_iff_iff, Ordering.isLT_iff_eq_lt, compare_lt_iff_lt, decide_eq_true_iff]

theorem onOrdering_le : le.onOrdering (compare x y) = decide (x ≤ y) := by
  rw [le, Bool.eq_iff_iff, Ordering.isLE_iff_ne_gt, ← Ne, compare_le_iff_le, decide_eq_true_iff]

theorem onOrdering_gt : gt.onOrdering (compare x y) = decide (y < x) := by
  rw [gt, Bool.eq_iff_iff, Ordering.isGT_iff_eq_gt, compare_gt_iff_gt, decide_eq_true_iff]

theorem onOrdering_ge : ge.onOrdering (compare x y) = decide (y ≤ x) := by
  rw [ge, Bool.eq_iff_iff, Ordering.isGE_iff_ne_lt, ← Ne, compare_ge_iff_ge, decide_eq_true_iff]

theorem onOrdering_eq : eq.onOrdering (compare x y) = decide (x = y) := by
  rw [eq, Bool.eq_iff_iff, Ordering.isEq_iff_eq_eq, compare_eq_iff_eq, decide_eq_true_iff]

theorem onOrdering_ne : ne.onOrdering (compare x y) = !decide (x = y) := by
  rw [← onOrdering_eq]
  cases compare x y <;> rfl

end

theorem ofOrdering_lt : lt.OfOrdering where
  onInteger _ _ := (decide_eq_decide.mpr Int32.lt_iff_toInt_lt).trans (onOrdering_lt ..).symm
  onLong _ _ := (decide_eq_decide.mpr Int64.lt_iff_toInt_lt).trans (onOrdering_lt ..).symm

theorem ofOrdering_le : le.OfOrdering where
  onInteger _ _ := (decide_eq_decide.mpr Int32.le_iff_toInt_le).trans (onOrdering_le ..).symm
  onLong _ _ := (decide_eq_decide.mpr Int64.le_iff_toInt_le).trans (onOrdering_le ..).symm

theorem ofOrdering_gt : gt.OfOrdering where
  onInteger _ _ := (decide_eq_decide.mpr Int32.lt_iff_toInt_lt).trans (onOrdering_gt ..).symm
  onLong _ _ := (decide_eq_decide.mpr Int64.lt_iff_toInt_lt).trans (onOrdering_gt ..).symm

theorem ofOrdering_ge : ge.OfOrdering where
  onInteger _ _ := (decide_eq_decide.mpr Int32.le_iff_toInt_le).trans (onOrdering_ge ..).symm
  onLong _ _ := (decide_eq_decide.mpr Int64.le_iff_toInt_le).trans (onOrdering_ge ..).symm

theorem ofOrdering_eq : eq.OfOrdering where
  onInteger _ _ := (beq_eq_decide ..).trans
    ((decide_eq_decide.mpr Int32.toInt_inj.symm).trans (onOrdering_eq ..).symm)
  onLong _ _ := (beq_eq_decide ..).trans
    ((decide_eq_decide.mpr Int64.toInt_inj.symm).trans (onOrdering_eq ..).symm)

theorem isNe_eq_not_isEq (o : Ordering) : o.isNe = !o.isEq := by cases o <;> rfl

theorem ofOrdering_ne : ne.OfOrdering where
  onInteger m n := (congrArg not (ofOrdering_eq.onInteger m n)).trans (isNe_eq_not_isEq _).symm
  onLong m n := (congrArg not (ofOrdering_eq.onLong m n)).trans (isNe_eq_not_isEq _).symm

end Comparison

/-! ### The tables of the comparisons -/

/-- The kinds of values that are ordered, and those that are only told apart beside them. -/
def orderedKinds : List Tag := [.integer, .long, .double, .decimal, .string, .time]

@[inherit_doc orderedKinds] def equalKinds : List Tag := .boolean :: orderedKinds

/-- The overload of a comparison for a kind. -/
def Comparison.forKind (c : Comparison) : Tag → Overload
  | .boolean => binary boolean boolean boolean fun p q => c.onOrdering (compare p q)
  | .integer => binary integer integer boolean c.onInteger
  | .long => binary long long boolean c.onLong
  | .double => binary double double boolean c.onDouble
  | .decimal => binary decimal decimal boolean fun a b => c.onOrdering (a.compare b)
  | .string => binary string string boolean fun s t => c.onOrdering (compare s t)
  | _ => binary time time boolean fun t u => c.onOrdering (t.compare u)

/-- The overload for a kind says of two values of that kind what the comparison says of them. -/
theorem Comparison.OfOrdering.body_forKind {c : Comparison} (h : c.OfOrdering) {v w : Value}
    (hkind : v.tag ∈ equalKinds) (hsame : w.tag = v.tag) :
    (c.forKind v.tag).body [v, w] = .ok (.boolean (c.relates v w)) := by
  cases v <;> simp [equalKinds, orderedKinds, Value.tag] at hkind <;>
    cases w <;> simp [Value.tag] at hsame
  case integer.integer m n => exact congrArg (Except.ok ∘ Value.boolean) (h.onInteger m n)
  case long.long m n => exact congrArg (Except.ok ∘ Value.boolean) (h.onLong m n)
  all_goals rfl

@[simp] theorem Comparison.params_forKind {c : Comparison} {t : Tag} (h : t ∈ equalKinds) :
    (c.forKind t).params = [t, t] := by
  simp only [equalKinds, orderedKinds, List.mem_cons, List.not_mem_nil, or_false] at h
  rcases h with rfl | rfl | rfl | rfl | rfl | rfl | rfl <;> rfl

section

variable {name : String}

open Registry.Builder

theorem find?_relations (now : DateTime) (h : name ∈ relationNames) :
    (builtins now).tables.find? name = some ((relations .empty).tableOrNew name) :=
  find?_of_mem_groups now (by simp [groups]) (by decide) h

theorem widening_relations (h : name ∈ relationNames) :
    ((relations .empty).tableOrNew name).widening = numericWidening := by
  simp only [relationNames, List.mem_cons, List.not_mem_nil, or_false] at h
  rcases h with rfl | rfl | rfl | rfl | rfl | rfl <;>
    simp [relations, tableOrNew_registerFamily, tableOrNew_registerOverloads,
      Table.Builder.setWidening, Table.Builder.revise]

end

/-- The tables of the comparisons have one overload for each kind. Truth values are told apart, and
not ordered. -/
theorem overloads_relations :
    ((relations .empty).tableOrNew "lt").overloads = orderedKinds.map Comparison.lt.forKind ∧
    ((relations .empty).tableOrNew "le").overloads = orderedKinds.map Comparison.le.forKind ∧
    ((relations .empty).tableOrNew "gt").overloads = orderedKinds.map Comparison.gt.forKind ∧
    ((relations .empty).tableOrNew "ge").overloads = orderedKinds.map Comparison.ge.forKind ∧
    ((relations .empty).tableOrNew "eq").overloads = equalKinds.map Comparison.eq.forKind ∧
    ((relations .empty).tableOrNew "ne").overloads = equalKinds.map Comparison.ne.forKind := by
  have heq : (fun p q : Bool => p == q) = fun p q => (compare p q).isEq := by decide
  have hne : (fun p q : Bool => p != q) = fun p q => (compare p q).isNe := by decide
  refine ⟨?_, ?_, ?_, ?_, ?_, ?_⟩ <;>
  · simp [relations, Registry.Builder.tableOrNew_registerFamily,
      Registry.Builder.tableOrNew_registerOverloads, Table.Builder.setWidening,
      Table.Builder.revise, heq, hne]
    rfl

/-- A comparison is registered for some kinds, under a name. -/
structure Comparison.Registered (c : Comparison) (name : String) (kinds : List Tag) : Prop where
  mem_names : name ∈ relationNames
  kinds_cases : kinds = orderedKinds ∨ kinds = equalKinds
  overloads : ((relations .empty).tableOrNew name).overloads = kinds.map c.forKind
  ofOrdering : c.OfOrdering

/-- **The six comparisons**: four of them for ordered kinds, and two for truth values as well. -/
theorem registered_relations :
    Comparison.lt.Registered "lt" orderedKinds ∧ Comparison.le.Registered "le" orderedKinds ∧
    Comparison.gt.Registered "gt" orderedKinds ∧ Comparison.ge.Registered "ge" orderedKinds ∧
    Comparison.eq.Registered "eq" equalKinds ∧ Comparison.ne.Registered "ne" equalKinds := by
  obtain ⟨hlt, hle, hgt, hge, heq, hne⟩ := overloads_relations
  exact ⟨⟨by decide, Or.inl rfl, hlt, Comparison.ofOrdering_lt⟩,
    ⟨by decide, Or.inl rfl, hle, Comparison.ofOrdering_le⟩,
    ⟨by decide, Or.inl rfl, hgt, Comparison.ofOrdering_gt⟩,
    ⟨by decide, Or.inl rfl, hge, Comparison.ofOrdering_ge⟩,
    ⟨by decide, Or.inr rfl, heq, Comparison.ofOrdering_eq⟩,
    ⟨by decide, Or.inr rfl, hne, Comparison.ofOrdering_ne⟩⟩

/-! ### Values of one kind -/

theorem signatureOf_pair (v w : Value) : signatureOf [v, w] = [v.tag, w.tag] := rfl

/-- Two values brought to their common kind, where there is one and it is one of some kinds. -/
def aligned? (kinds : List Tag) (v w : Value) : Option (Value × Value) := do
  let u ← (commonTag? numericWidening v.tag w.tag).filter fun u => u ∈ kinds
  let v' ← (v.convert u).toOption
  let w' ← (w.convert u).toOption
  return (v', w')

section

variable {kinds kinds' : List Tag} {v w v' w' : Value}

theorem aligned?_eq_some_iff : aligned? kinds v w = some (v', w') ↔
    ∃ u ∈ kinds, commonTag? numericWidening v.tag w.tag = some u ∧
      v.convert u = .ok v' ∧ w.convert u = .ok w' := by
  simp [aligned?, Option.bind_eq_some_iff, toOption_eq_some_iff, and_assoc, and_left_comm]

/-- Exchanged values are brought to the same kind. -/
theorem aligned?_swap (kinds : List Tag) (v w : Value) :
    aligned? kinds w v = (aligned? kinds v w).map Prod.swap := by
  have hnodup : numericWidening.Nodup := by decide
  have hcomm := commonTag?_comm hnodup v.tag w.tag
  rw [aligned?, aligned?, ← hcomm]
  cases (commonTag? numericWidening v.tag w.tag).filter fun u => u ∈ kinds with
  | none => rfl
  | some u => cases hv : v.convert u <;> cases hw : w.convert u <;> simp [hv, hw, Except.toOption]

/-- More kinds leave the values that are brought to a kind as they are. -/
theorem aligned?_mono (hkinds : kinds ⊆ kinds') (h : aligned? kinds v w = some (v', w')) :
    aligned? kinds' v w = some (v', w') := by
  rw [aligned?_eq_some_iff] at h ⊢
  obtain ⟨u, hu, h⟩ := h
  exact ⟨u, hkinds hu, h⟩

/-- Values are brought to the common kind. -/
theorem tag_of_aligned? (hkinds : kinds ⊆ equalKinds) (h : aligned? kinds v w = some (v', w')) :
    ∃ u ∈ kinds, commonTag? numericWidening v.tag w.tag = some u ∧ v'.tag = u ∧ w'.tag = u := by
  obtain ⟨u, hu, hcommon, hv, hw⟩ := aligned?_eq_some_iff.mp h
  have hne : u ≠ .object := fun heq => absurd (hkinds (heq ▸ hu)) (by decide)
  have htag : ∀ {x y : Value}, x.convert u = .ok y → y.tag = u := fun hx =>
    (Value.convert_tag hx).resolve_right fun hobject => hne hobject.1
  exact ⟨u, hu, hcommon, htag hv, htag hw⟩

end

/-- An outcome is what a relation says of two values, or a refusal if there are none. -/
def Says (relates : Value → Value → Bool) (pair? : Option (Value × Value))
    (x : Except Fault Value) : Prop :=
  pair?.elim (Refused x) fun pair => x = .ok (.boolean (relates pair.1 pair.2))

namespace Comparison.Registered

variable {c : Comparison} {name : String} {kinds : List Tag} (h : c.Registered name kinds)

include h

theorem subset_equalKinds : kinds ⊆ equalKinds := by
  rcases h.kinds_cases with rfl | rfl <;> decide

theorem numericWidening_subset : numericWidening ⊆ kinds := by
  rcases h.kinds_cases with rfl | rfl <;> decide

/-- The table pairs arguments of one kind. -/
theorem paired : ((relations .empty).tableOrNew name).Paired kinds c.forKind where
  nodup := by
    rw [widening_relations h.mem_names]
    decide
  widening t ht := by
    rw [widening_relations h.mem_names] at ht
    exact h.numericWidening_subset ht
  live o := by
    have hnodup : (kinds.map fun t => [t, t]).Nodup := by
      rcases h.kinds_cases with rfl | rfl <;> decide
    have hparams : kinds.map (Overload.params ∘ c.forKind) = kinds.map fun t => [t, t] :=
      List.map_congr_left fun t ht => params_forKind (h.subset_equalKinds ht)
    rw [Table.Builder.live_of_nodup, h.overloads, List.mem_map]
    · simp only [eq_comm]
    · rwa [h.overloads, List.map_map, hparams]
  params t ht := params_forKind (h.subset_equalKinds ht)

/-- Values converted to their common kind are compared by the overload for it. -/
theorem says_body {v w : Value} {u : Tag} (hu : u ∈ kinds)
    (hcommon : commonTag? numericWidening v.tag w.tag = some u) :
    Says c.relates (aligned? kinds v w)
      (Target.convertAll [v, w] [u, u] >>= (c.forKind u).body) := by
  have hfilter : (commonTag? numericWidening v.tag w.tag).filter (fun u => u ∈ kinds) = some u :=
    Option.filter_eq_some_iff.mpr ⟨hcommon, decide_eq_true hu⟩
  simp only [aligned?, hfilter, Option.bind_eq_bind, Option.bind_some, Target.convertAll]
  cases hv : v.convert u with
  | error fault =>
    have hrefused := Value.refused_of_convert_error hv
    rwa [hv] at hrefused
  | ok v' =>
    cases hw : w.convert u with
    | error fault =>
      have hrefused := Value.refused_of_convert_error hw
      rwa [hw] at hrefused
    | ok w' =>
      have haligned : aligned? kinds v w = some (v', w') :=
        aligned?_eq_some_iff.mpr ⟨u, hu, hcommon, hv, hw⟩
      obtain ⟨t, ht, hcommon', hv', hw'⟩ := tag_of_aligned? h.subset_equalKinds haligned
      obtain rfl : u = t := Option.some.inj (hcommon.symm.trans hcommon')
      subst hv'
      exact h.ofOrdering.body_forKind (h.subset_equalKinds hu) hw'

/-- **What a comparison comes to**: two values are brought to their common kind and compared. They
are refused if there is no such kind, or one of them is not a number of that kind. -/
theorem says_dispatch (now : Calendar.DateTime) (v w : Value) :
    Says c.relates (aligned? kinds v w) ((Registry.standard now).dispatch name [v, w]) := by
  have htable : (Registry.standard now).table? name =
      some ((relations .empty).tableOrNew name).build := by
    rw [Registry.standard, Registry.Builder.table?_build, find?_relations now h.mem_names,
      Option.map_some]
  have hlookup := h.paired.map_lookup v.tag w.tag
  rw [widening_relations h.mem_names, ← signatureOf_pair] at hlookup
  rw [Registry.dispatch_of_table? htable]
  cases htarget : ((relations .empty).tableOrNew name).build.lookup (signatureOf [v, w]) with
  | none =>
    rw [htarget, Option.map_none, eq_comm, Option.map_eq_none_iff] at hlookup
    rw [aligned?, hlookup, Table.dispatch, htarget]
    exact refused_noOverload _ _
  | some target =>
    rw [htarget, Option.map_some, eq_comm, Option.map_eq_some_iff] at hlookup
    obtain ⟨u, hu, hoverload⟩ := hlookup
    obtain ⟨hcommon, hmem⟩ := Option.filter_eq_some_iff.mp hu
    rw [decide_eq_true_iff] at hmem
    rw [Table.dispatch_of_lookup htarget, Table.Builder.apply_of_lookup htarget, ← hoverload,
      params_forKind (h.subset_equalKinds hmem)]
    exact h.says_body hmem hcommon

end Comparison.Registered

/-! ### Numbers of mixed kinds -/

theorem commonTag?_exact (a b : Exact) :
    commonTag? numericWidening a.tag b.tag = some (Exact.widestTag [a, b]) := by
  cases a <;> cases b <;> rfl

/-- The order of exact numbers of one kind is the order of the numbers. -/
theorem order_exact {a b : Exact} (h : a.tag = b.tag) :
    a.value.order b.value = compare a.number b.number := by
  rw [← cmp_eq_compare]
  cases a with
  | integer m =>
    cases b with
    | integer n => exact (cmp_eq_compare ..).symm.trans (Int.cast_strictMono.cmp_map_eq ..).symm
    | long | decimal => simp [Exact.tag] at h
  | long m =>
    cases b with
    | long n => exact (cmp_eq_compare ..).symm.trans (Int.cast_strictMono.cmp_map_eq ..).symm
    | integer | decimal => simp [Exact.tag] at h
  | decimal d =>
    cases b with
    | decimal e => exact d.compare_eq_cmp e
    | integer | long => simp [Exact.tag] at h

/-- **Exact numbers of mixed kinds are compared as numbers.** -/
theorem Comparison.Registered.dispatch_exact {c : Comparison} {name : String} {kinds : List Tag}
    (h : c.Registered name kinds) (now : Calendar.DateTime) (a b : Exact) :
    (Registry.standard now).dispatch name [a.value, b.value] =
      .ok (.boolean (c.onOrdering (compare a.number b.number))) := by
  obtain ⟨hconvert, htag, hnumber⟩ :=
    Exact.convert_widestTag (List.mem_cons_self (a := a) (l := [b]))
  obtain ⟨hconvert', htag', hnumber'⟩ :=
    Exact.convert_widestTag (List.mem_cons_of_mem a (List.mem_singleton_self b))
  have hcommon : commonTag? numericWidening a.value.tag b.value.tag =
      some (Exact.widestTag [a, b]) := by
    rw [Exact.tag_value, Exact.tag_value, commonTag?_exact]
  have hmem : Exact.widestTag [a, b] ∈ kinds :=
    h.numericWidening_subset (htag ▸ Exact.tag_mem_numericWidening _)
  have hsays := h.says_dispatch now a.value b.value
  rw [aligned?_eq_some_iff.mpr ⟨_, hmem, hcommon, hconvert, hconvert'⟩] at hsays
  have hdouble : ∀ e : Exact, e.value.tag ≠ .double := fun e => by
    cases e <;> simp [Exact.value, Value.tag]
  refine hsays.trans ?_
  rw [relates_of_ne_double (hdouble _), order_exact (htag.trans htag'.symm), hnumber, hnumber']

/-! ### The comparisons together -/

/-- Outcomes that are truth values, the one a function of the other, or two refusals. -/
def Corresponds (f : Bool → Bool) (x y : Except Fault Value) : Prop :=
  (∃ p, x = .ok (.boolean p) ∧ y = .ok (.boolean (f p))) ∨ Refused x ∧ Refused y

theorem Says.corresponds {f : Bool → Bool} {g : Value × Value → Value × Value}
    {relates relates' : Value → Value → Bool} {pair? : Option (Value × Value)}
    {x y : Except Fault Value} (hx : Says relates pair? x) (hy : Says relates' (pair?.map g) y)
    (h : ∀ pair, relates' (g pair).1 (g pair).2 = f (relates pair.1 pair.2)) :
    Corresponds f x y := by
  cases pair? with
  | none => exact Or.inr ⟨hx, hy⟩
  | some pair => exact Or.inl ⟨_, hx, hy.trans (by rw [h])⟩

/-- How the outcomes of the six comparisons fit together: for values of any kinds, for values that
are no doubles, and for integers and decimals of mixed kinds. -/
structure ConsistentComparisons (r : Registry) : Prop where
  gt_lt : ∀ v w, Corresponds id (r.dispatch "lt" [w, v]) (r.dispatch "gt" [v, w])
  ge_le : ∀ v w, Corresponds id (r.dispatch "le" [w, v]) (r.dispatch "ge" [v, w])
  ne_eq : ∀ v w, Corresponds not (r.dispatch "eq" [v, w]) (r.dispatch "ne" [v, w])
  le_lt_eq : ∀ v w, v.tag ≠ .double → w.tag ≠ .double →
    (∃ p q, r.dispatch "lt" [v, w] = .ok (.boolean p) ∧
      r.dispatch "eq" [v, w] = .ok (.boolean q) ∧
      r.dispatch "le" [v, w] = .ok (.boolean (p || q))) ∨
    Refused (r.dispatch "lt" [v, w]) ∧ Refused (r.dispatch "le" [v, w])
  exact : ∀ a b : Exact,
    r.dispatch "lt" [a.value, b.value] = .ok (.boolean (a.number < b.number)) ∧
    r.dispatch "le" [a.value, b.value] = .ok (.boolean (a.number ≤ b.number)) ∧
    r.dispatch "gt" [a.value, b.value] = .ok (.boolean (b.number < a.number)) ∧
    r.dispatch "ge" [a.value, b.value] = .ok (.boolean (b.number ≤ a.number)) ∧
    r.dispatch "eq" [a.value, b.value] = .ok (.boolean (a.number = b.number)) ∧
    r.dispatch "ne" [a.value, b.value] = .ok (.boolean (a.number ≠ b.number))
  trichotomy : ∀ a b : Exact, ∃ p q s, r.dispatch "lt" [a.value, b.value] = .ok (.boolean p) ∧
    r.dispatch "eq" [a.value, b.value] = .ok (.boolean q) ∧
    r.dispatch "gt" [a.value, b.value] = .ok (.boolean s) ∧ [p, q, s].count true = 1
  lt_trans : ∀ a b c : Exact, r.dispatch "lt" [a.value, b.value] = .ok (.boolean true) →
    r.dispatch "lt" [b.value, c.value] = .ok (.boolean true) →
    r.dispatch "lt" [a.value, c.value] = .ok (.boolean true)

section

variable (now : Calendar.DateTime)

/-- Where there is an order, `le` is `lt` or `eq`, but for doubles. -/
theorem dispatch_le_of_ne_double {v w : Value} (hv : v.tag ≠ .double) (hw : w.tag ≠ .double) :
    (∃ p q, (Registry.standard now).dispatch "lt" [v, w] = .ok (.boolean p) ∧
      (Registry.standard now).dispatch "eq" [v, w] = .ok (.boolean q) ∧
      (Registry.standard now).dispatch "le" [v, w] = .ok (.boolean (p || q))) ∨
    Refused ((Registry.standard now).dispatch "lt" [v, w]) ∧
      Refused ((Registry.standard now).dispatch "le" [v, w]) := by
  obtain ⟨hlt, hle, -, -, heq, -⟩ := registered_relations
  have hlt' := hlt.says_dispatch now v w
  have hle' := hle.says_dispatch now v w
  have heq' := heq.says_dispatch now v w
  cases haligned : aligned? orderedKinds v w with
  | none =>
    rw [haligned] at hlt' hle'
    exact Or.inr ⟨hlt', hle'⟩
  | some pair =>
    obtain ⟨v', w'⟩ := pair
    have hsubset : orderedKinds ⊆ equalKinds := List.subset_cons_self ..
    obtain ⟨u, -, hcommon, rfl, -⟩ := tag_of_aligned? hsubset haligned
    have hdouble : v'.tag ≠ .double := by
      rcases Table.Builder.eq_or_mem_of_commonTag? hcommon with ⟨-, hu⟩ | ⟨hu, -⟩
      · rwa [hu]
      · rcases List.mem_pair.mp hu with hu | hu
        · rwa [hu]
        · rwa [hu]
    rw [haligned] at hlt' hle'
    rw [aligned?_mono hsubset haligned] at heq'
    refine Or.inl ⟨_, _, hlt', heq', hle'.trans ?_⟩
    simp only [Comparison.relates_of_ne_double hdouble]
    cases v'.order w' <;> rfl

/-- **The six comparisons are consistent.** -/
theorem comparisons_consistent : ConsistentComparisons (Registry.standard now) := by
  obtain ⟨hlt, hle, hgt, hge, heq, hne⟩ := registered_relations
  refine ⟨fun v w => ?_, fun v w => ?_, fun v w => ?_, fun v w => dispatch_le_of_ne_double now,
    fun a b => ?_, fun a b => ?_, fun a b c hab hbc => ?_⟩
  · refine (hlt.says_dispatch now w v).corresponds
      (aligned?_swap orderedKinds w v ▸ hgt.says_dispatch now v w) fun pair => ?_
    exact Comparison.relates_swap (fun _ _ => rfl) (fun _ => Ordering.isGT_swap) _ _
  · refine (hle.says_dispatch now w v).corresponds
      (aligned?_swap orderedKinds w v ▸ hge.says_dispatch now v w) fun pair => ?_
    exact Comparison.relates_swap (fun _ _ => rfl) (fun _ => Ordering.isGE_swap) _ _
  · have hsays := hne.says_dispatch now v w
    rw [← Option.map_id' (x := aligned? equalKinds v w)] at hsays
    refine (heq.says_dispatch now v w).corresponds hsays fun pair => ?_
    exact Comparison.relates_eq (fun _ _ => rfl) Comparison.isNe_eq_not_isEq _ _
  · refine ⟨?_, ?_, ?_, ?_, ?_, ?_⟩
    · rw [hlt.dispatch_exact, Comparison.onOrdering_lt]
    · rw [hle.dispatch_exact, Comparison.onOrdering_le]
    · rw [hgt.dispatch_exact, Comparison.onOrdering_gt]
    · rw [hge.dispatch_exact, Comparison.onOrdering_ge]
    · rw [heq.dispatch_exact, Comparison.onOrdering_eq]
    · rw [hne.dispatch_exact, Comparison.onOrdering_ne, decide_not]
  · refine ⟨_, _, _, hlt.dispatch_exact now a b, heq.dispatch_exact now a b,
      hgt.dispatch_exact now a b, ?_⟩
    cases compare a.number b.number <;> rfl
  · rw [hlt.dispatch_exact, Comparison.onOrdering_lt, Except.ok.injEq, Value.boolean.injEq,
      decide_eq_true_iff] at hab hbc ⊢
    exact hab.trans hbc

end

end Library

end Formulary
