import Formulary.Library.Conversion
import Formulary.Proofs.Dispatch.Content
import Formulary.Proofs.Plan.Strictness

/-!
# Choosing an overload early

An overload may be chosen before the arguments are there, by the tags they are known to have. The
arguments may then turn out otherwise in two ways: something known as `object` carries a tag of its
own, and anything may have no value. This file says when the early choice comes to the same as a
look-up by the tags of the values.

The first way is harmless where no overload declares `object`: such a signature is not listed, and
the choice is left for later. The second is harmless where overloads refuse arguments without
value. Tables of strict overloads have both properties. The table of `string` has neither, since it
prints anything; there the early choice is right only for arguments with a value.

## Main definitions

* `Table.Builder.Strict` — tables of strict overloads
* `Table.Honest`, `Registry.Honest` — tables and registries of honest overloads

## Main results

* `Table.apply_of_resolve_signatureOf` — a choice by the tags of the values is a look-up by them
* `Table.Honest.tag_apply` — the tag of a result is known as soon as the choice is made
* `Table.Builder.Strict.agrees` — early choices in strict tables
* `Table.Builder.agrees_printing` — early choices in the table of `string`
* `Table.Builder.lookup_eq_of_filter` — overloads that cannot take a signature play no part
-/

namespace Formulary

/-- What prints values of a tag prints the text of any value that the tag admits. -/
theorem Target.apply_printing {target : Target} {t : Tag} {v : Value}
    (h : target.overload = Library.printing t) (ht : t.Admits v) (hv : v ≠ .null) :
    target.apply [v] = .ok (.string v.text) := by
  cases target with
  | exact o =>
    obtain rfl : o = Library.printing t := h
    rfl
  | widened o actual =>
    obtain rfl : o = Library.printing t := h
    have hconvert : v.convert t = .ok v := by
      rw [Value.convert, if_pos (ht.resolve_left hv)]
    rw [Target.apply, Library.printing, Target.convertAll, hconvert]
    rfl

namespace Table

variable {table : Table} {key : Signature} {resolution : Resolution} {args : List Value}

/-! ### Choices -/

/-- A choice is a row of the table, or it is left for later. -/
theorem resolve_cases (h : table.resolve key = .ok resolution) :
    (∃ target, table.lookup key = some target ∧ resolution = .direct target) ∨
      resolution = .deferred := by
  rw [resolve] at h
  split at h
  · next target htarget => exact Or.inl ⟨target, htarget, (Except.ok.inj h).symm⟩
  · split at h
    · exact Or.inr (Except.ok.inj h).symm
    · simp at h

theorem apply_deferred_eq_dispatch (table : Table) (args : List Value) :
    Resolution.deferred.apply table args = table.dispatch args := rfl

theorem dispatch_of_lookup {target : Target} (h : table.lookup (signatureOf args) = some target) :
    table.dispatch args = target.apply args := by
  rw [dispatch, h]

/-- Tables that find the same come out alike. -/
theorem agrees_dispatch {table' : Table}
    (h : table'.lookup (signatureOf args) = table.lookup (signatureOf args)) :
    Agrees (table.dispatch args) (table'.dispatch args) := by
  rw [dispatch, dispatch, h]
  split
  · exact Agrees.refl _
  · exact (refused_noOverload _ _).agrees (refused_noOverload _ _)

/-- A choice by the tags of the values is a look-up by them. -/
theorem apply_of_resolve_signatureOf (h : table.resolve (signatureOf args) = .ok resolution) :
    resolution.apply table args = table.dispatch args := by
  rcases resolve_cases h with ⟨target, htarget, rfl⟩ | rfl
  · exact (dispatch_of_lookup htarget).symm
  · rfl

/-- What is found is a row. -/
theorem mem_rows_of_lookup {target : Target} (h : table.lookup key = some target) :
    (key, target) ∈ table.rows := by
  obtain ⟨before, after, hrows, -⟩ := List.lookup_eq_some_iff.mp h
  rw [hrows]
  exact List.mem_append_right _ (List.mem_cons_self ..)

/-- Overloads are honest. -/
def Honest (table : Table) : Prop := ∀ row ∈ table.rows, row.2.overload.Honest

/-- The tag of a result is known as soon as the choice is made. -/
theorem Honest.tag_apply (ht : table.Honest) (h : table.resolve key = .ok resolution) {v : Value}
    (hv : resolution.apply table args = .ok v) :
    v.tag = resolution.result ∨ resolution.result = .object := by
  rcases resolve_cases h with ⟨target, htarget, rfl⟩ | rfl
  · exact Target.honest_apply (ht _ (mem_rows_of_lookup htarget)) hv
  · exact Or.inr rfl

namespace Builder

variable {b b' : Builder}

/-! ### What is found -/

/-- Rows have overloads of the table. -/
theorem mem_of_mem_rows {row : Signature × Target} (h : row ∈ b.build.rows) :
    row.2.overload ∈ b.overloads := by
  rw [build, List.mem_append, List.mem_map, List.mem_flatMap] at h
  rcases h with ⟨o, ho, rfl⟩ | ⟨o, ho, hrow⟩
  · exact (mem_ordered_iff.mp ho).mem
  · obtain ⟨k, -, rfl⟩ := List.mem_map.mp hrow
    exact (mem_ordered_iff.mp ho).mem

/-- A table of honest overloads is honest. -/
theorem honest_build (h : ∀ o ∈ b.overloads, o.Honest) : b.build.Honest :=
  fun _ hrow => h _ (mem_of_mem_rows hrow)

/-- What is found is an overload of the table that accepts the signature. -/
theorem accepts_of_lookup {target : Target} (h : b.build.lookup key = some target) :
    target.overload ∈ b.overloads ∧ Accepts b.widening target.overload.params key :=
  (live_of_lookup h).imp_left Live.mem

/-- A live overload is chosen for its parameters. -/
theorem Live.resolve {o : Overload} (h : b.Live o) :
    b.build.resolve o.params = .ok (.direct (.exact o)) := by
  rw [Table.resolve, h.lookup]

/-- The signature of an overload is listed. -/
theorem exists_lookup_of_mem {o : Overload} (h : o ∈ b.overloads) :
    ∃ target, b.build.lookup o.params = some target := by
  obtain ⟨p, hp, hparams⟩ := exists_live_of_mem h
  exact ⟨_, hparams ▸ hp.lookup⟩

/-- A tag that an overload accepts is one that it declares, or one of the sequence. -/
theorem mem_of_accepts {widening : List Tag} {params : Signature} (h : Accepts widening params key)
    {t : Tag} (ht : t ∈ key) : t ∈ params ∨ t ∈ widening := by
  induction h with
  | nil => simp at ht
  | cons hfits _ ih =>
    rcases List.mem_cons.mp ht with rfl | ht
    · rcases hfits with rfl | ⟨before, after, rfl, -, hafter⟩
      · exact Or.inl (List.mem_cons_self ..)
      · exact Or.inr (List.mem_append_right _ (List.mem_cons_of_mem _ hafter))
    · exact (ih ht).imp_left (List.mem_cons_of_mem _)

/-! ### Strict tables -/

/-- Overloads are strict, and arguments are widened from tags that stand for values. -/
structure Strict (b : Builder) : Prop where
  widening : ∀ t ∈ b.widening, t.Definite
  overloads : ∀ o ∈ b.overloads, o.Strict

/-- A strict table lists no signature with `null` or `object` in it. -/
theorem Strict.definite (hb : b.Strict) {target : Target} (h : b.build.lookup key = some target)
    {t : Tag} (ht : t ∈ key) : t.Definite := by
  obtain ⟨ho, haccepts⟩ := accepts_of_lookup h
  rcases mem_of_accepts haccepts ht with ht | ht
  · exact (hb.overloads _ ho).definite t ht
  · exact hb.widening t ht

/-- Values are refused in a strict table when one of them is none. -/
theorem Strict.refused_dispatch (hb : b.Strict) (hnull : .null ∈ args) :
    Refused (b.build.dispatch args) := by
  rw [dispatch]
  split
  · next target htarget =>
    exact absurd rfl (hb.definite htarget (List.mem_map_of_mem hnull)).1
  · exact refused_noOverload _ _

/-- Definite tags are the tags of the values, when there are values. -/
theorem eq_signatureOf (hkey : ∀ t ∈ key, t.Definite) (h : List.Forall₂ Tag.Admits key args)
    (hnull : .null ∉ args) : key = signatureOf args := by
  induction h with
  | nil => rfl
  | cons ht _ ih =>
    rw [List.mem_cons, not_or] at hnull
    rw [signatureOf, List.map_cons]
    congr 1
    · exact (hkey _ (List.mem_cons_self ..)).tag_eq ht (Ne.symm hnull.1)
    · exact ih (fun t ht => hkey t (List.mem_cons_of_mem _ ht)) hnull.2

/-- **Early choices in strict tables.** Whatever the arguments turn out to be, a choice by the tags
they are known to have comes to the same as a look-up by the tags they carry. -/
theorem Strict.agrees (hb : b.Strict) (h : b.build.resolve key = .ok resolution)
    (hargs : List.Forall₂ Tag.Admits key args) :
    Agrees (resolution.apply b.build args) (b.build.dispatch args) := by
  rcases resolve_cases h with ⟨target, htarget, rfl⟩ | rfl
  · by_cases hnull : .null ∈ args
    · obtain ⟨ho, haccepts⟩ := accepts_of_lookup htarget
      have hlen : args.length = target.overload.params.length :=
        hargs.length_eq.symm.trans haccepts.length_eq.symm
      exact (Target.refused_apply (hb.overloads _ ho) hlen hnull).agrees (hb.refused_dispatch hnull)
    · obtain rfl := eq_signatureOf (fun _ ht => hb.definite htarget ht) hargs hnull
      exact Agrees.of_eq (dispatch_of_lookup htarget).symm
  · exact Agrees.refl _

/-! ### The table of `string` -/

/-- **Early choices in the table of `string`.** They come to the same as look-ups by the tags of the
values as long as there are values. -/
theorem agrees_printing (hwidening : b.widening = [])
    (hoverloads : b.overloads = Library.printableTags.map Library.printing)
    (h : b.build.resolve key = .ok resolution) (hargs : List.Forall₂ Tag.Admits key args)
    (hnull : .null ∉ args) : Agrees (resolution.apply b.build args) (b.build.dispatch args) := by
  -- a listed signature is that of an overload that prints
  have hprinting : ∀ k target, b.build.lookup k = some target →
      ∃ t, target.overload = Library.printing t ∧ k = [t] := by
    intro k target htarget
    obtain ⟨ho, haccepts⟩ := accepts_of_lookup htarget
    rw [hoverloads] at ho
    obtain ⟨t, -, ht⟩ := List.mem_map.mp ho
    refine ⟨t, ht.symm, ?_⟩
    rw [← ht, hwidening] at haccepts
    obtain ⟨s, _, hfits, hnil, rfl⟩ := List.forall₂_cons_left_iff.mp haccepts
    obtain rfl := List.forall₂_nil_left_iff.mp hnil
    rcases hfits with rfl | ⟨before, after, hw, -⟩
    · rfl
    · simp at hw
  rcases resolve_cases h with ⟨target, htarget, rfl⟩ | rfl
  · obtain ⟨t, ht, rfl⟩ := hprinting key target htarget
    obtain ⟨v, _, hv, hnil, rfl⟩ := List.forall₂_cons_left_iff.mp hargs
    obtain rfl := List.forall₂_nil_left_iff.mp hnil
    have hvalue : v ≠ .null := fun hv => hnull (hv ▸ List.mem_cons_self ..)
    have hmem : Library.printing v.tag ∈ b.overloads := by
      rw [hoverloads, Library.printableTags]
      refine List.mem_map_of_mem (List.mem_filter.mpr ⟨v.tag.mem_all, ?_⟩)
      rw [v.isStructural_tag]
      simpa [Value.tag_eq_null_iff] using hvalue
    obtain ⟨found, hfound⟩ := exists_lookup_of_mem hmem
    obtain ⟨s, hs, hkey⟩ := hprinting _ found hfound
    obtain rfl : v.tag = s := (List.cons.inj hkey).1
    have hdispatch : b.build.dispatch [v] = found.apply [v] := dispatch_of_lookup hfound
    rw [hdispatch, Target.apply_printing hs (Tag.admits_tag v) hvalue]
    exact Agrees.of_eq (Target.apply_printing ht hv hvalue)
  · exact Agrees.refl _

/-! ### Overloads that play no part -/

/-- Two tables find the same where they have the same overloads among those that could take the
signature. -/
theorem lookup_eq_of_filter (keep : Signature → Bool) (hwidening : b.widening = b'.widening)
    (hoverloads : b.overloads.filter (fun o => keep o.params) =
      b'.overloads.filter fun o => keep o.params)
    (hkeep : ∀ params, Accepts b.widening params key → keep params = true) :
    b.build.lookup key = b'.build.lookup key := by
  have hlive : ∀ o : Overload, keep o.params = true → (b.Live o ↔ b'.Live o) := by
    intro o ho
    have hfilter : ∀ c : Builder, c.Live o ↔
        o ∈ lastOfEach (c.overloads.filter fun o => keep o.params) := by
      intro c
      rw [live_iff, lastOfEach_filter, List.mem_filter, and_iff_left ho]
    rw [hfilter b, hfilter b', hoverloads]
  have hchosen : ∀ o, b.Chosen key o ↔ b'.Chosen key o := by
    intro o
    rw [Chosen, Chosen, ← hwidening]
    constructor
    · rintro ⟨ho, haccepts, hfirst⟩
      refine ⟨(hlive o (hkeep _ haccepts)).mp ho, haccepts, fun p hp hpkey => ?_⟩
      exact hfirst p ((hlive p (hkeep _ hpkey)).mpr hp) hpkey
    · rintro ⟨ho, haccepts, hfirst⟩
      refine ⟨(hlive o (hkeep _ haccepts)).mpr ho, haccepts, fun p hp hpkey => ?_⟩
      exact hfirst p ((hlive p (hkeep _ hpkey)).mp hp) hpkey
  rw [lookup_build, lookup_build]
  congr 2
  · refine Option.ext fun o => ?_
    rw [find?_params_eq_some_iff, find?_params_eq_some_iff]
    refine and_congr_left fun ho => hlive o (hkeep _ ?_)
    rw [ho]
    exact accepts_self key
  · refine Option.ext fun o => ?_
    rw [find?_variants_eq_some_iff, find?_variants_eq_some_iff, hchosen]

end Builder

end Table

/-! ### Registries -/

/-- Results carry the declared tag, if it is not `object`. -/
def Function.Honest (f : Function) : Prop :=
  ∀ args v, f.body args = .ok v → v.tag = f.result ∨ f.result = .object

/-- Every overload and every function is honest. -/
structure Registry.Honest (r : Registry) : Prop where
  tables : ∀ name table, r.table? name = some table → table.Honest
  functions : ∀ name f, r.function? name = some f → f.Honest

end Formulary
