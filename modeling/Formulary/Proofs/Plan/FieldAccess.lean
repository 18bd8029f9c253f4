import Formulary.Proofs.Plan.Builtins
import Formulary.Proofs.Record.Paths
import Mathlib.Data.List.Induction

/-!
# Access to the fields of a record

The way to a leaf can be written down: start at `$` and index with the position of each element and
the name of each field. Such an expression is bound to the variable of the leaf, and the value of
that variable is what the document that was read has at the end of the same path.

## Main definitions

* `Value.Denotes` — the constants that stand for a step
* `Expr.Reaches` — the expressions that index from `$` along a path

## Main results

* `Expr.exists_reaches` — every path whose positions are constants is written down
* `Layout.part?_const` — a constant index goes one step down
* `Scope.bind_of_reaches` — an expression along a path is bound to what is at its end
* `Expr.compile_of_reaches` — fields of a record that is read
-/

namespace Formulary

/-- The constants that stand for a step. -/
def Value.Denotes : Value → Step → Prop
  | .long n, .position i => n.toInt = i
  | .integer n, .position i => n.toInt = i
  | .string s, .field name => s = name
  | _, _ => False

namespace Expr

/-- The expressions that start at `$` and index along a path. -/
inductive Reaches : Expr → Path → Prop
  | root (span : Span) : Reaches (.var Scope.rootName span) []
  | step {base : Expr} {path : Path} {v : Value} {k : Step} (span span' : Span)
      (hbase : Reaches base path) (hindex : v.Denotes k) :
      Reaches (.index base (.const v span) span') (path ++ [k])

/-- Every path is written down whose positions are constants. -/
theorem exists_reaches (path : Path) (h : ∀ i, .position i ∈ path → i < 2 ^ 63) :
    ∃ e, Reaches e path := by
  induction path using List.reverseRecOn with
  | nil => exact ⟨_, .root ⟨0, 0⟩⟩
  | append_singleton path k ih =>
    obtain ⟨base, hbase⟩ := ih fun i hi => h i (List.mem_append_left _ hi)
    have hindex : ∃ v : Value, v.Denotes k := by
      cases k with
      | position i =>
        have hi := h i (List.mem_append_right _ (List.mem_singleton_self _))
        exact ⟨.long (.ofNat i), Int64.toInt_ofNat_of_lt hi⟩
      | field name => exact ⟨.string name, rfl⟩
    obtain ⟨v, hv⟩ := hindex
    exact ⟨_, .step ⟨0, 0⟩ ⟨0, 0⟩ hbase hv⟩

end Expr

/-- A constant index goes one step down. -/
theorem Layout.part?_const {v : Value} {k : Step} (h : v.Denotes k) (node : Layout) :
    node.part? (.const v) = node.child? k := by
  have position : ∀ {n : Int} {i : Nat}, n = i →
      (if 0 ≤ n then node.element? n.toNat else none) = node.element? i := by
    rintro _ i rfl
    rw [if_pos (Int.natCast_nonneg i), Int.toNat_natCast]
  cases v with
  | long n =>
    cases k with
    | position i => exact position h
    | field name => exact h.elim
  | integer n =>
    cases k with
    | position i => exact position h
    | field name => exact h.elim
  | string s =>
    cases k with
    | position i => exact h.elim
    | field name => exact congrArg node.field? h
  | _ => exact h.elim

namespace Scope

/-- **An expression along a path is bound to what is at the end of the path.** -/
theorem bind_of_reaches {registry : Registry} (hname : registry.constant? rootName = none)
    {root node : Layout} {e : Expr} {path : Path} (h : e.Reaches path)
    (hnode : root.follow? path = some node) :
    bind ⟨some root, registry⟩ e = .ok (.ofLayout node) := by
  induction h generalizing node with
  | root span =>
    obtain rfl := Option.some.inj hnode
    rw [bind, bindName, hname, Option.bind_some, if_pos rfl]
  | @step base path v k span span' _ hindex ih =>
    rw [Layout.follow?_append] at hnode
    obtain ⟨above, habove, hnode⟩ := Option.bind_eq_some_iff.mp hnode
    rw [Layout.follow?, Option.bind_eq_some_iff] at hnode
    obtain ⟨part, hpart, hnode⟩ := hnode
    obtain rfl : part = node := Option.some.inj hnode
    -- What has a part is no leaf.
    have hstructural : Bound.ofLayout above = .structural above := by
      cases above with
      | leaf t slot => simp at hpart
      | tuple elements => rfl
      | dict fields => rfl
    rw [bind, ih habove, hstructural]
    simp only [bind, ok_bind, Bound.toPlan, applyIndex, Layout.part?_const hindex, hpart]

end Scope

open Library

/-- **Fields of a record that is read.** Along the path to a leaf every expression is bound to the
variable of the leaf. Its value is what the leaf reads from the document at the end of that path,
nothing else in the document has a part in it, and no other path leads to the slot. -/
theorem Expr.compile_of_reaches (now : Calendar.DateTime) (schema : Schema) (path : Path) (t : Tag)
    (slot : Nat) (hleaf : (Layout.ofSchema schema).follow? path = some (.leaf t slot)) :
    (∀ e : Expr, e.Reaches path →
      e.compile ⟨some (Layout.ofSchema schema), Registry.standard now⟩ = .ok (.var slot t)) ∧
    (∀ d : Document, (Plan.var slot t).eval (some (schema.read d)) =
      .ok (((d.follow? path).bind (Field.read? t)).getD .null)) ∧
    (∀ d d' : Document, d.follow? path = d'.follow? path →
      (Plan.var slot t).eval (some (schema.read d)) =
        (Plan.var slot t).eval (some (schema.read d'))) ∧
    ∀ (path' : Path) (t' : Tag) (slot' : Nat),
      (Layout.ofSchema schema).follow? path' = some (.leaf t' slot') → path' ≠ path →
        slot' ≠ slot := by
  have hvalue : ∀ d : Document, (Plan.var slot t).eval (some (schema.read d)) =
      .ok (((d.follow? path).bind (Field.read? t)).getD .null) := by
    intro d
    rw [Plan.eval, Plan.readSlot, schema.get?_read hleaf]
  refine ⟨fun e he => ?_, hvalue, fun d d' hd => ?_, ?_⟩
  · have hname : (Registry.standard now).constant? Scope.rootName = none := by
      simp [constant?_standard, Scope.rootName]
    rw [compile, Scope.bind_of_reaches hname he hleaf]
    rfl
  · rw [hvalue, hvalue, hd]
  · rintro path' t' slot' hleaf' hne rfl
    exact hne (Layout.follow?_injective schema.nodup_slots hleaf' hleaf)

/-- A name, and a pair of a number and a text. -/
def labelledPair : Schema :=
  .record [("label", .string), ("pair", .arrayAt [.integer none, .string] (some false))]
    (some false)

/-- The way to the text of the pair. -/
def textOfPair : Path := [.field "pair", .position 1]

/-- The expression `$.pair[1]`. -/
def textOfPairSource : Expr :=
  .index (.index (.var "$" ⟨0, 1⟩) (.const (.string "pair") ⟨2, 6⟩) ⟨0, 6⟩)
    (.const (.long 1) ⟨7, 8⟩) ⟨0, 9⟩

/-- A document whose pair has no text. -/
def shortPair : Document := .object [("pair", .array [.number (.whole 4)])]

/-- The pair is too short, so the variable of its text has no value. -/
theorem Expr.compile_of_reaches_shortPair :
    (Layout.ofSchema labelledPair).follow? textOfPair = some (.leaf .string 2) ∧
      textOfPairSource.compile
        ⟨some (Layout.ofSchema labelledPair), Registry.standard ⟨0, 0, 0⟩⟩ =
          .ok (.var 2 .string) ∧
      (Plan.var 2 .string).eval (some (labelledPair.read shortPair)) = .ok .null := by
  have hleaf : (Layout.ofSchema labelledPair).follow? textOfPair = some (.leaf .string 2) := rfl
  have hpair : Value.Denotes (.string "pair") (.field "pair") := rfl
  have htext : Value.Denotes (.long 1) (.position 1) := by simp [Value.Denotes]
  have hreaches : textOfPairSource.Reaches textOfPair :=
    .step ⟨7, 8⟩ ⟨0, 9⟩ (.step ⟨2, 6⟩ ⟨0, 6⟩ (.root ⟨0, 1⟩) hpair) htext
  obtain ⟨hcompile, hvalue, -⟩ := Expr.compile_of_reaches ⟨0, 0, 0⟩ _ _ _ _ hleaf
  exact ⟨hleaf, hcompile _ hreaches, hvalue shortPair⟩

end Formulary
