import Formulary.Proofs.Plan.Reference
import Mathlib.Data.List.Basic

/-!
# Strict and honest overloads

An overload is *honest* when its results carry the tag it declares, and *strict* when it refuses
arguments without value just as a look-up that finds nothing would. Every wrapped body has both
properties by the types it is wrapped for, so overloads do not have to be looked into one by one.

## Implementation notes

Both properties of types are classes, and the lemmas on wrapped bodies are for `simp`: that a list
of overloads is strict or honest is then found by going through the list.

## Main definitions

* `Refused` — the fault of a look-up that finds nothing
* `Overload.Honest`, `Overload.Strict` — the two properties
* `Carrier.Honest`, `Carrier.Strict` — the types whose wrapped bodies have them

## Main results

* `Target.honest_apply` — results of targets carry the tag that the overload declares
* `Target.refused_apply` — targets of strict overloads refuse arguments without value
-/

namespace Formulary

/-! ### Refusals -/

/-- An outcome with the fault of a look-up that finds nothing. -/
def Refused {α : Type} (x : Except Fault α) : Prop :=
  ∃ f, x = .error f ∧ f.stage = .eval ∧ f.code = .noMatchingEvaluator

section

variable {α β : Type} {x : Except Fault α} {y : Except Fault β}

theorem Refused.bind {f : α → Except Fault β} (h : Refused x) : Refused (x >>= f) := by
  obtain ⟨fault, rfl, hstage, hcode⟩ := h
  exact ⟨fault, rfl, hstage, hcode⟩

/-- Refusals agree. -/
theorem Refused.agrees {y : Except Fault α} (hx : Refused x) (hy : Refused y) : Agrees x y := by
  obtain ⟨f, rfl, hf, hf'⟩ := hx
  obtain ⟨g, rfl, hg, hg'⟩ := hy
  exact ⟨hf.trans hg.symm, hf'.trans hg'.symm⟩

end

theorem refused_noOverload {α : Type} (name : String) (key : Signature) :
    Refused (.error (.noOverload .eval name key) : Except Fault α) :=
  ⟨_, rfl, rfl, rfl⟩

/-! ### Overloads -/

/-- A tag that stands for values: neither `null` nor `object`. -/
def Tag.Definite (t : Tag) : Prop := t ≠ .null ∧ t ≠ .object

instance (t : Tag) : Decidable t.Definite := inferInstanceAs (Decidable (_ ∧ _))

theorem Tag.Definite.tag_eq {t : Tag} (ht : t.Definite) {v : Value} (h : t.Admits v)
    (hv : v ≠ .null) : t = v.tag := by
  rcases h with h | h | h
  · exact absurd h hv
  · exact h.symm
  · exact absurd h ht.2

namespace Overload

/-- Results carry the declared tag, if it is not `object`. -/
def Honest (o : Overload) : Prop :=
  ∀ args v, o.body args = .ok v → v.tag = o.result ∨ o.result = .object

/-- Parameters stand for values, and arguments without value are refused. -/
structure Strict (o : Overload) : Prop where
  definite : ∀ t ∈ o.params, t.Definite
  refuses : ∀ args, args.length = o.params.length → .null ∈ args → Refused (o.body args)

end Overload

namespace Carrier

variable {α β : Type}

/-- Packed values carry the tag of the type, if it is not `object`. -/
class Honest (c : Carrier α) : Prop where
  tag_pack : ∀ a, (c.pack a).tag = c.tag ∨ c.tag = .object

/-- The tag stands for values, and no value unpacks to nothing. -/
class Strict (c : Carrier α) : Prop where
  definite : c.tag.Definite
  unpack?_null : c.unpack? .null = none

instance : boolean.Honest := ⟨fun _ => Or.inl rfl⟩
instance : integer.Honest := ⟨fun _ => Or.inl rfl⟩
instance : long.Honest := ⟨fun _ => Or.inl rfl⟩
instance : double.Honest := ⟨fun _ => Or.inl rfl⟩
instance : decimal.Honest := ⟨fun _ => Or.inl rfl⟩
instance : string.Honest := ⟨fun _ => Or.inl rfl⟩
instance : time.Honest := ⟨fun _ => Or.inl rfl⟩
instance : object.Honest := ⟨fun _ => Or.inr rfl⟩

instance : boolean.Strict := ⟨⟨nofun, nofun⟩, rfl⟩
instance : integer.Strict := ⟨⟨nofun, nofun⟩, rfl⟩
instance : long.Strict := ⟨⟨nofun, nofun⟩, rfl⟩
instance : double.Strict := ⟨⟨nofun, nofun⟩, rfl⟩
instance : decimal.Strict := ⟨⟨nofun, nofun⟩, rfl⟩
instance : string.Strict := ⟨⟨nofun, nofun⟩, rfl⟩
instance : time.Strict := ⟨⟨nofun, nofun⟩, rfl⟩
instance : booleans.Strict := ⟨⟨nofun, nofun⟩, rfl⟩
instance : integers.Strict := ⟨⟨nofun, nofun⟩, rfl⟩
instance : longs.Strict := ⟨⟨nofun, nofun⟩, rfl⟩
instance : doubles.Strict := ⟨⟨nofun, nofun⟩, rfl⟩
instance : decimals.Strict := ⟨⟨nofun, nofun⟩, rfl⟩
instance : strings.Strict := ⟨⟨nofun, nofun⟩, rfl⟩
instance : objects.Strict := ⟨⟨nofun, nofun⟩, rfl⟩
instance : list.Strict := ⟨⟨nofun, nofun⟩, rfl⟩
instance : map.Strict := ⟨⟨nofun, nofun⟩, rfl⟩

/-- An argument that unpacks is a value. -/
theorem argument_ne_null {c : Carrier α} [c.Strict] {args : List Value} {i : Nat} {a : α}
    (h : c.argument args i = .ok a) : args[i]? ≠ some .null := by
  intro hnull
  rw [argument, hnull, Option.bind_some, Strict.unpack?_null] at h
  simp at h

/-- A body is refused when what follows the unpacking of an argument is. -/
theorem refused_argument_bind (c : Carrier α) {args : List Value} {i : Nat}
    {f : α → Except Fault β} (h : ∀ a, c.argument args i = .ok a → Refused (f a)) :
    Refused (c.argument args i >>= f) := by
  cases ha : c.argument args i with
  | ok a => exact h a ha
  | error fault =>
    rw [argument] at ha
    split at ha
    · simp at ha
    · obtain rfl := Except.error.inj ha
      exact ⟨_, rfl, rfl, rfl⟩

end Carrier

namespace Overload

variable {α β γ ρ : Type} {a : Carrier α} {b : Carrier β} {c : Carrier γ} {r : Carrier ρ}

section

variable [r.Honest]

/-- A body that ends by packing its result is honest. -/
theorem honest_of_pack {o : Overload} (ho : o.result = r.tag)
    (h : ∀ args v, o.body args = .ok v → ∃ x, v = r.pack x) : o.Honest := by
  intro args v hv
  obtain ⟨x, rfl⟩ := h args v hv
  rw [ho]
  exact Carrier.Honest.tag_pack x

@[simp] theorem honest_tryNullary (f : Except Fault ρ) : (tryNullary r f).Honest := by
  refine honest_of_pack rfl fun args v hv => ?_
  obtain ⟨x, -, hx⟩ := bind_eq_ok_iff.mp hv
  exact ⟨x, (Except.ok.inj hx).symm⟩

@[simp] theorem honest_nullary (f : ρ) : (nullary r f).Honest := honest_tryNullary _

@[simp] theorem honest_tryUnary (f : α → Except Fault ρ) : (tryUnary a r f).Honest := by
  refine honest_of_pack rfl fun args v hv => ?_
  obtain ⟨x, -, hv⟩ := bind_eq_ok_iff.mp hv
  obtain ⟨z, -, hz⟩ := bind_eq_ok_iff.mp hv
  exact ⟨z, (Except.ok.inj hz).symm⟩

@[simp] theorem honest_unary (f : α → ρ) : (unary a r f).Honest := honest_tryUnary _

@[simp] theorem honest_tryBinary (f : α → β → Except Fault ρ) : (tryBinary a b r f).Honest := by
  refine honest_of_pack rfl fun args v hv => ?_
  obtain ⟨x, -, hv⟩ := bind_eq_ok_iff.mp hv
  obtain ⟨y, -, hv⟩ := bind_eq_ok_iff.mp hv
  obtain ⟨z, -, hz⟩ := bind_eq_ok_iff.mp hv
  exact ⟨z, (Except.ok.inj hz).symm⟩

@[simp] theorem honest_binary (f : α → β → ρ) : (binary a b r f).Honest := honest_tryBinary _

@[simp] theorem honest_tryTernary (f : α → β → γ → Except Fault ρ) :
    (tryTernary a b c r f).Honest := by
  refine honest_of_pack rfl fun args v hv => ?_
  obtain ⟨x, -, hv⟩ := bind_eq_ok_iff.mp hv
  obtain ⟨y, -, hv⟩ := bind_eq_ok_iff.mp hv
  obtain ⟨w, -, hv⟩ := bind_eq_ok_iff.mp hv
  obtain ⟨z, -, hz⟩ := bind_eq_ok_iff.mp hv
  exact ⟨z, (Except.ok.inj hz).symm⟩

@[simp] theorem honest_ternary (f : α → β → γ → ρ) : (ternary a b c r f).Honest :=
  honest_tryTernary _

end

@[simp] theorem strict_tryNullary (f : Except Fault ρ) : (tryNullary r f).Strict where
  definite t ht := absurd ht List.not_mem_nil
  refuses args hlen hnull := by
    obtain rfl := List.length_eq_zero_iff.mp hlen
    simp at hnull

@[simp] theorem strict_nullary (f : ρ) : (nullary r f).Strict := strict_tryNullary _

section

variable [a.Strict]

@[simp] theorem strict_tryUnary (f : α → Except Fault ρ) : (tryUnary a r f).Strict where
  definite t ht := by
    obtain rfl := List.mem_singleton.mp ht
    exact Carrier.Strict.definite
  refuses args hlen hnull := by
    obtain ⟨v, rfl⟩ := List.length_eq_one_iff.mp hlen
    refine a.refused_argument_bind fun x hx => ?_
    obtain rfl := List.mem_singleton.mp hnull
    exact absurd rfl (Carrier.argument_ne_null hx)

@[simp] theorem strict_unary (f : α → ρ) : (unary a r f).Strict := strict_tryUnary _

variable [b.Strict]

@[simp] theorem strict_tryBinary (f : α → β → Except Fault ρ) : (tryBinary a b r f).Strict where
  definite t ht := by
    rcases List.mem_pair.mp ht with rfl | rfl
    · exact Carrier.Strict.definite
    · exact Carrier.Strict.definite
  refuses args hlen hnull := by
    obtain ⟨v, w, rfl⟩ := List.length_eq_two.mp hlen
    refine a.refused_argument_bind fun x hx => ?_
    refine b.refused_argument_bind fun y hy => ?_
    rcases List.mem_pair.mp hnull with rfl | rfl
    · exact absurd rfl (Carrier.argument_ne_null hx)
    · exact absurd rfl (Carrier.argument_ne_null hy)

@[simp] theorem strict_binary (f : α → β → ρ) : (binary a b r f).Strict := strict_tryBinary _

variable [c.Strict]

@[simp] theorem strict_tryTernary (f : α → β → γ → Except Fault ρ) :
    (tryTernary a b c r f).Strict where
  definite t ht := by
    rcases List.mem_cons.mp ht with rfl | ht
    · exact Carrier.Strict.definite
    rcases List.mem_pair.mp ht with rfl | rfl
    · exact Carrier.Strict.definite
    · exact Carrier.Strict.definite
  refuses args hlen hnull := by
    obtain ⟨u, v, w, rfl⟩ := List.length_eq_three.mp hlen
    refine a.refused_argument_bind fun x hx => ?_
    refine b.refused_argument_bind fun y hy => ?_
    refine c.refused_argument_bind fun z hz => ?_
    rcases List.mem_cons.mp hnull with rfl | hnull
    · exact absurd rfl (Carrier.argument_ne_null hx)
    rcases List.mem_pair.mp hnull with rfl | rfl
    · exact absurd rfl (Carrier.argument_ne_null hy)
    · exact absurd rfl (Carrier.argument_ne_null hz)

@[simp] theorem strict_ternary (f : α → β → γ → ρ) : (ternary a b c r f).Strict :=
  strict_tryTernary _

end

end Overload

/-! ### Conversion of arguments -/

theorem Value.refused_convert_null {t : Tag} (ht : t.Definite) :
    Refused (Value.null.convert t) := by
  rw [Value.convert, if_neg]
  · cases t <;> exact ⟨_, rfl, rfl, rfl⟩
  · rintro (h | h)
    · exact ht.1 h.symm
    · exact ht.2 h

/-- Conversion gives a value or a refusal. -/
theorem Value.refused_of_convert_error {t : Tag} {v : Value} {fault : Fault}
    (h : v.convert t = .error fault) : Refused (v.convert t) := by
  rw [h]
  rw [Value.convert] at h
  split at h
  · simp at h
  · split at h
    · simp at h
    · obtain rfl := Except.error.inj h
      exact ⟨_, rfl, rfl, rfl⟩

/-- Arguments one of which has no value are not converted. -/
theorem Target.refused_convertAll {args : List Value} {params : Signature}
    (hparams : ∀ t ∈ params, t.Definite) (hlen : args.length = params.length)
    (hnull : .null ∈ args) : Refused (convertAll args params) := by
  induction args generalizing params with
  | nil => simp at hnull
  | cons v rest ih =>
    cases params with
    | nil => simp at hlen
    | cons t params =>
      rw [convertAll]
      cases hw : v.convert t with
      | error fault => exact hw ▸ (Value.refused_of_convert_error hw).bind
      | ok w =>
        rw [ok_bind]
        refine (ih (fun s hs => hparams s (List.mem_cons_of_mem _ hs)) ?_ ?_).bind
        · simpa using hlen
        · refine (List.mem_cons.mp hnull).resolve_left ?_
          rintro rfl
          obtain ⟨fault, hfault, -⟩ :=
            Value.refused_convert_null (hparams t (List.mem_cons_self ..))
          rw [hfault] at hw
          simp at hw

theorem Target.honest_apply {target : Target} (h : target.overload.Honest) {args : List Value}
    {v : Value} (hv : target.apply args = .ok v) :
    v.tag = target.overload.result ∨ target.overload.result = .object := by
  cases target with
  | exact o => exact h args v hv
  | widened o actual =>
    obtain ⟨converted, -, hv⟩ := bind_eq_ok_iff.mp hv
    exact h converted v hv

theorem Target.refused_apply {target : Target} (h : target.overload.Strict) {args : List Value}
    (hlen : args.length = target.overload.params.length) (hnull : .null ∈ args) :
    Refused (target.apply args) := by
  cases target with
  | exact o => exact h.refuses args hlen hnull
  | widened o actual => exact (Target.refused_convertAll h.definite hlen hnull).bind

end Formulary
