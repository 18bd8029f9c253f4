import Formulary.Proofs.Dispatch.Widest

/-!
# Tables of pairs

In the tables of comparisons every overload takes two arguments of one kind, and there are kinds
beside those of numbers. Two arguments are compared as values of the kind that one of them has and
that the other one is widened to. The kind does not depend on which of the two comes first, and so
the sides of a comparison can be exchanged.

## Main definitions

* `Table.Builder.commonTag?` — the kind that two arguments are both taken as
* `Table.Builder.Paired` — every overload takes two arguments of one kind

## Main results

* `Table.Builder.commonTag?_comm` — the common kind is the same from both sides
* `Table.Builder.Paired.map_lookup` — a look-up finds the overload for the common kind
-/

namespace Formulary.Table.Builder

variable {b : Builder} {widening : List Tag} {s t u : Tag}

/-! ### The common kind -/

/-- The kind that two arguments are both taken as: the one of them that takes the other. -/
def commonTag? (widening : List Tag) (s t : Tag) : Option Tag :=
  if s = t ∨ t ∈ narrower widening s then some s
  else if s ∈ narrower widening t then some t
  else none

theorem mem_of_mem_narrower (h : t ∈ narrower widening s) : s ∈ widening ∧ t ∈ widening := by
  obtain ⟨before, after, rfl, -, ht⟩ := mem_narrower_iff.mp h
  exact ⟨by simp, by simp [ht]⟩

/-- Of two tags of the sequence one takes the other. -/
theorem mem_narrower_or (hs : s ∈ widening) (ht : t ∈ widening) (hne : s ≠ t) :
    t ∈ narrower widening s ∨ s ∈ narrower widening t := by
  obtain ⟨before, after, rfl, hfresh⟩ := List.eq_append_cons_of_mem hs
  rcases List.mem_append.mp ht with hbefore | hafter
  · -- the first place of `t` is before `s`
    obtain ⟨front, back, rfl, hfront⟩ := List.eq_append_cons_of_mem hbefore
    exact Or.inr (mem_narrower_iff.mpr ⟨front, back ++ s :: after, by simp, hfront, by simp⟩)
  · have hafter : t ∈ after := (List.mem_cons.mp hafter).resolve_left hne.symm
    exact Or.inl (mem_narrower_iff.mpr ⟨before, after, rfl, hfresh, hafter⟩)

/-- Without repetitions two tags take each other only if they are one. -/
theorem eq_of_mem_narrower (hnodup : widening.Nodup) (hst : t ∈ narrower widening s)
    (hts : s ∈ narrower widening t) : s = t := by
  obtain ⟨hs, ht⟩ := mem_of_mem_narrower hst
  have hle := Fits.firstPlace_le hnodup hs (fits_iff.mpr (Or.inr hst))
  have hge := Fits.firstPlace_le hnodup ht (fits_iff.mpr (Or.inr hts))
  have heq : firstPlace widening s = firstPlace widening t := Int.le_antisymm hle hge
  rwa [firstPlace, firstPlace, if_pos hs, if_pos ht, Int.natCast_inj, List.idxOf_inj hs] at heq

/-- The common kind is the same from both sides. -/
theorem commonTag?_comm (hnodup : widening.Nodup) (s t : Tag) :
    commonTag? widening s t = commonTag? widening t s := by
  by_cases hst : t ∈ narrower widening s
  · by_cases hts : s ∈ narrower widening t
    · rw [eq_of_mem_narrower hnodup hst hts]
    · by_cases heq : s = t
      · rw [heq]
      · simp [commonTag?, hst, hts, heq, Ne.symm heq]
  · by_cases heq : s = t
    · rw [heq]
    · simp [commonTag?, hst, heq, Ne.symm heq]

/-- The common kind takes both arguments. -/
theorem fits_of_commonTag? (h : commonTag? widening s t = some u) :
    Fits widening u s ∧ Fits widening u t := by
  rw [commonTag?] at h
  rw [fits_iff, fits_iff]
  split at h
  · next hs =>
    obtain rfl := Option.some.inj h
    exact ⟨Or.inl rfl, hs.imp_left Eq.symm⟩
  · split at h
    · next ht =>
      obtain rfl := Option.some.inj h
      exact ⟨Or.inr ht, Or.inl rfl⟩
    · simp at h

/-- The common kind is the only kind of both arguments, or they are both of the sequence. -/
theorem eq_or_mem_of_commonTag? (h : commonTag? widening s t = some u) :
    s = t ∧ u = s ∨ u ∈ [s, t] ∧ s ∈ widening ∧ t ∈ widening := by
  rw [commonTag?] at h
  split at h
  · next hs =>
    obtain rfl := Option.some.inj h
    rcases hs with rfl | hs
    · exact Or.inl ⟨rfl, rfl⟩
    · exact Or.inr ⟨by simp, mem_of_mem_narrower hs⟩
  · split at h
    · next ht =>
      obtain rfl := Option.some.inj h
      exact Or.inr ⟨by simp, (mem_of_mem_narrower ht).symm⟩
    · simp at h

/-- Where some kind takes both arguments there is a common one, the only kind of both arguments or
one of the sequence. -/
theorem exists_commonTag? (hs : Fits widening u s) (ht : Fits widening u t) :
    ∃ v, commonTag? widening s t = some v ∧ (v = u ∨ v ∈ widening) := by
  by_cases heq : s = t
  · subst heq
    refine ⟨s, by simp [commonTag?], ?_⟩
    exact (fits_iff.mp hs).imp_right fun h => (mem_of_mem_narrower h).2
  · have hmem : s ∈ widening ∧ t ∈ widening := by
      rcases fits_iff.mp hs with rfl | hs <;> rcases fits_iff.mp ht with rfl | ht
      · exact absurd rfl heq
      · exact mem_of_mem_narrower ht
      · exact (mem_of_mem_narrower hs).symm
      · exact ⟨(mem_of_mem_narrower hs).2, (mem_of_mem_narrower ht).2⟩
    by_cases hst : t ∈ narrower widening s
    · exact ⟨s, by simp [commonTag?, hst], Or.inr hmem.1⟩
    · have hts := (mem_narrower_or hmem.1 hmem.2 heq).resolve_left hst
      exact ⟨t, by simp [commonTag?, hst, hts, heq], Or.inr hmem.2⟩

/-! ### Overloads of one kind -/

/-- The live overloads each take two arguments of one kind, and there is one for every tag of the
sequence. -/
structure Paired (b : Builder) (kinds : List Tag) (overload : Tag → Overload) : Prop where
  nodup : b.widening.Nodup
  widening : ∀ t ∈ b.widening, t ∈ kinds
  live : ∀ o, b.Live o ↔ ∃ t ∈ kinds, o = overload t
  params : ∀ t ∈ kinds, (overload t).params = [t, t]

namespace Paired

variable {kinds : List Tag} {overload : Tag → Overload}

theorem homogeneous (h : b.Paired kinds overload) : b.Homogeneous 2 overload where
  nodup := h.nodup
  live t ht := (h.live _).mpr ⟨t, h.widening t ht, rfl⟩
  params t ht := h.params t (h.widening t ht)
  others o ho := by
    obtain ⟨t, ht, rfl⟩ := (h.live o).mp ho
    by_cases hmem : t ∈ b.widening
    · exact Or.inl ⟨t, hmem, rfl⟩
    · exact Or.inr ⟨t, by simp [h.params t ht], hmem⟩

/-- The overload for the common kind is found, exactly or by widening. -/
theorem exists_lookup (h : b.Paired kinds overload) (hcommon : commonTag? b.widening s t = some u)
    (hu : u ∈ kinds) :
    ∃ target, b.build.lookup [s, t] = some target ∧ target.overload = overload u := by
  have hfits := fits_of_commonTag? hcommon
  rcases eq_or_mem_of_commonTag? hcommon with ⟨rfl, rfl⟩ | ⟨hu, hs, ht⟩
  · refine ⟨.exact (overload u), ?_, rfl⟩
    rw [← h.params u hu]
    exact ((h.live _).mpr ⟨u, hu, rfl⟩).lookup
  · exact h.homogeneous.exists_lookup (by simp [hs, ht]) ⟨hu, by simpa using hfits⟩

/-- **A look-up for two arguments finds the overload for their common kind**, and nothing if there
is none. -/
theorem map_lookup (h : b.Paired kinds overload) (s t : Tag) :
    (b.build.lookup [s, t]).map Target.overload =
      ((commonTag? b.widening s t).filter fun u => u ∈ kinds).map overload := by
  cases hlookup : b.build.lookup [s, t] with
  | some target =>
    obtain ⟨hlive, haccepts⟩ := live_of_lookup hlookup
    obtain ⟨u, hu, hoverload⟩ := (h.live _).mp hlive
    rw [hoverload, h.params u hu, Accepts, List.forall₂_cons, List.forall₂_cons] at haccepts
    obtain ⟨v, hv, hvu⟩ := exists_commonTag? haccepts.1 haccepts.2.1
    have hkind : v ∈ kinds := hvu.elim (fun heq => heq ▸ hu) (h.widening v)
    obtain ⟨target', htarget', hoverload'⟩ := h.exists_lookup hv hkind
    obtain rfl : target = target' := Option.some.inj (hlookup.symm.trans htarget')
    simp [hv, hkind, hoverload']
  | none =>
    cases hcommon : commonTag? b.widening s t with
    | none => rfl
    | some u =>
      have hkind : u ∉ kinds := fun hu => by
        obtain ⟨target, htarget, -⟩ := h.exists_lookup hcommon hu
        simp [hlookup] at htarget
      simp [hkind]

end Paired

end Formulary.Table.Builder
