import Formulary.Proofs.Dispatch.Content
import Mathlib.Data.List.Nodup
import Mathlib.Tactic.Linarith
import Mathlib.Tactic.Ring

/-!
# Tables with one overload for each kind

In the tables of arithmetic every kind of number has an overload of its own, which takes all its
arguments as numbers of that kind. Arguments of several kinds are then computed with as numbers of
the widest one. This does not go without saying: all overloads for wider kinds accept the arguments
as well, and the choice among them is made by the rank of a whole parameter list.

## Main definitions

* `Table.Builder.Widest` — the tag of a signature that stands first in the sequence
* `Table.Builder.Homogeneous` — one overload for each tag of the sequence

## Main results

* `Table.Builder.Homogeneous.chosen` — the overload for the widest tag is the chosen one
* `Table.Builder.Homogeneous.exists_lookup` — it is found, and converts the arguments to its tag
-/

namespace Formulary

/-! ### Arguments that need no conversion -/

/-- Values that carry the declared tags are left as they are. -/
theorem Target.convertAll_signatureOf (args : List Value) :
    convertAll args (signatureOf args) = .ok args := by
  induction args with
  | nil => rfl
  | cons v rest ih =>
    have hconvert : v.convert v.tag = .ok v := by rw [Value.convert, if_pos (Or.inl rfl)]
    rw [signatureOf, List.map_cons, ← signatureOf, convertAll, hconvert, ok_bind, ih]
    rfl

namespace Table.Builder

variable {b : Builder} {widening : List Tag} {key : Signature} {t u : Tag}

/-- A look-up by the tags of values finds an overload that is applied to them as converted to its
parameters, also where there is nothing to convert. -/
theorem apply_of_lookup {args : List Value} {target : Target}
    (h : b.build.lookup (signatureOf args) = some target) : target.apply args =
      Target.convertAll args target.overload.params >>= target.overload.body := by
  cases target with
  | widened o actual => rfl
  | exact o =>
    rw [lookup_build, Option.or_eq_some_iff] at h
    obtain ⟨p, hp, hexact⟩ | ⟨-, h⟩ := h.imp_left Option.map_eq_some_iff.mp
    · obtain rfl : p = o := Target.exact.inj hexact
      rw [Target.overload, (find?_params_eq_some_iff.mp hp).2, Target.convertAll_signatureOf]
      rfl
    · obtain ⟨p, -, hwidened⟩ := Option.map_eq_some_iff.mp h
      cases hwidened

/-! ### Places in the sequence -/

/-- A tag of the signature that all tags of the signature fit. -/
def Widest (widening : List Tag) (key : Signature) (t : Tag) : Prop :=
  t ∈ key ∧ ∀ s ∈ key, Fits widening t s

/-- In a sequence without repetitions a tag takes no tag that stands before it. -/
theorem Fits.firstPlace_le (hnodup : widening.Nodup) (ht : t ∈ widening) (h : Fits widening t u) :
    firstPlace widening t ≤ firstPlace widening u := by
  rcases h with rfl | ⟨before, after, rfl, hbefore, hu⟩
  · exact Int.le_refl _
  · have hfresh : u ∉ before := fun hmem =>
      List.disjoint_of_nodup_append hnodup hmem (List.mem_cons_of_mem _ hu)
    have hmem : u ∈ before ++ t :: after :=
      List.mem_append_right _ (List.mem_cons_of_mem _ hu)
    rw [firstPlace, firstPlace, if_pos ht, if_pos hmem, List.idxOf_append_of_notMem hbefore,
      List.idxOf_append_of_notMem hfresh, List.idxOf_cons_self]
    omega

theorem rank_replicate (widening : List Tag) (n : Nat) (t : Tag) :
    rank widening (List.replicate n t) = n * firstPlace widening t := by
  induction n with
  | zero => simp [rank]
  | succ n ih =>
    rw [List.replicate_succ, rank, ih]
    push_cast
    ring

theorem accepts_replicate_iff :
    Accepts widening (List.replicate key.length t) key ↔ ∀ s ∈ key, Fits widening t s := by
  induction key with
  | nil => simp [Accepts]
  | cons s rest ih =>
    rw [Accepts, List.length_cons, List.replicate_succ, List.forall₂_cons, ← Accepts, ih,
      List.forall_mem_cons]

/-- A declared tag outside of the sequence is accepted as itself only. -/
theorem mem_key_of_accepts {params : Signature} (h : Accepts widening params key)
    (ht : t ∈ params) (hwidening : t ∉ widening) : t ∈ key := by
  induction h with
  | nil => simp at ht
  | cons hfits _ ih =>
    rcases List.mem_cons.mp ht with rfl | ht
    · rcases hfits with rfl | ⟨before, after, rfl, -⟩
      · exact List.mem_cons_self ..
      · exact absurd (by simp) hwidening
    · exact List.mem_cons_of_mem _ (ih ht)

/-! ### One overload for each kind -/

/-- Every tag of the sequence has a live overload that takes `arity` arguments of it. All other
overloads declare a tag outside of the sequence. -/
structure Homogeneous (b : Builder) (arity : Nat) (overload : Tag → Overload) : Prop where
  nodup : b.widening.Nodup
  live : ∀ t ∈ b.widening, b.Live (overload t)
  params : ∀ t ∈ b.widening, (overload t).params = List.replicate arity t
  others : ∀ o, b.Live o →
    (∃ t ∈ b.widening, o = overload t) ∨ ∃ t ∈ o.params, t ∉ b.widening

namespace Homogeneous

variable {overload : Tag → Overload}

/-- What accepts a signature from the sequence is an overload for one of its tags. -/
theorem of_accepts (h : b.Homogeneous key.length overload) (hkey : ∀ s ∈ key, s ∈ b.widening)
    {o : Overload} (ho : b.Live o) (haccepts : Accepts b.widening o.params key) :
    ∃ u ∈ b.widening, o = overload u ∧ ∀ s ∈ key, Fits b.widening u s := by
  rcases h.others o ho with ⟨u, hu, rfl⟩ | ⟨u, hu, hout⟩
  · rw [h.params u hu] at haccepts
    exact ⟨u, hu, rfl, accepts_replicate_iff.mp haccepts⟩
  · exact absurd (hkey u (mem_key_of_accepts haccepts hu hout)) hout

/-- **Arguments of several kinds are taken as numbers of the widest one.** -/
theorem chosen (h : b.Homogeneous key.length overload) (hkey : ∀ s ∈ key, s ∈ b.widening)
    (ht : Widest b.widening key t) : b.Chosen key (overload t) := by
  have hmem : t ∈ b.widening := hkey t ht.1
  refine ⟨h.live t hmem, ?_, fun p hp hpkey => ?_⟩
  · rw [h.params t hmem]
    exact accepts_replicate_iff.mpr ht.2
  · -- `t` is one of the tags that the other overload accepts, so it stands behind the other's tag
    obtain ⟨u, hu, rfl, hfits⟩ := h.of_accepts hkey hp hpkey
    have hle := (hfits t ht.1).firstPlace_le h.nodup hu
    rw [Precedes, h.params t hmem, h.params u hu, rank_replicate, rank_replicate]
    rcases Int.lt_or_eq_of_le hle with hlt | heq
    · have hpos : (0 : Int) < key.length := by
        exact_mod_cast List.length_pos_of_mem ht.1
      exact Or.inl (by nlinarith)
    · rw [firstPlace, firstPlace, if_pos hu, if_pos hmem, Int.natCast_inj, List.idxOf_inj hu] at heq
      exact Or.inr ⟨by rw [heq], heq ▸ CodesLe.refl _⟩

/-- The overload for the widest tag is found, exactly or by widening. -/
theorem exists_lookup (h : b.Homogeneous key.length overload) (hkey : ∀ s ∈ key, s ∈ b.widening)
    (ht : Widest b.widening key t) :
    ∃ target, b.build.lookup key = some target ∧ target.overload = overload t := by
  rw [lookup_build, find?_variants_eq_some_iff.mpr (h.chosen hkey ht)]
  cases hfind : b.ordered.find? fun o => o.params = key with
  | none => exact ⟨_, rfl, rfl⟩
  | some o =>
    obtain ⟨ho, hparams⟩ := find?_params_eq_some_iff.mp hfind
    have haccepts : Accepts b.widening o.params key := hparams ▸ accepts_self o.params
    obtain ⟨u, hu, rfl, -⟩ := h.of_accepts hkey ho haccepts
    -- a signature that is declared has one tag only
    rw [h.params u hu] at hparams
    obtain rfl : t = u := List.eq_of_mem_replicate (hparams ▸ ht.1)
    exact ⟨_, rfl, rfl⟩

end Homogeneous

/-- Without two overloads of the same parameters all are live. -/
theorem live_of_nodup (h : (b.overloads.map Overload.params).Nodup) {o : Overload} :
    b.Live o ↔ o ∈ b.overloads := by
  refine ⟨Live.mem, fun ho => ?_⟩
  obtain ⟨before, after, hos⟩ := List.append_of_mem ho
  refine ⟨before, after, hos, fun p hp hparams => ?_⟩
  rw [hos, List.map_append, List.map_cons] at h
  have hcons := (List.nodup_append.mp h).2.1
  exact (List.nodup_cons.mp hcons).1 (hparams ▸ List.mem_map_of_mem hp)

end Table.Builder

end Formulary
