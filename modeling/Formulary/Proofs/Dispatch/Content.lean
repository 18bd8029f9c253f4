import Formulary.Dispatch.Builder
import Mathlib.Data.List.Forall2
import Mathlib.Data.List.TakeWhile

/-!
# What a dispatch table holds

A table is built from any overloads and any sequence of tags. This file says what it answers for
every signature, without reference to the order in which its rows were written.

Overloads that a later one with the same parameters replaced play no part; the others are *live*.
A live overload *accepts* a signature when each argument carries the declared tag or one that comes
after the first place of the declared tag in the sequence.

## Scope

Nothing is assumed about the sequence or the overloads: tags may repeat or be absent, overloads may
repeat and may differ in the number of their parameters.

## Main definitions

* `Table.Builder.Live` — the overloads that no later one replaced
* `Table.Builder.Accepts` — the signatures that a parameter list is widened from
* `Table.Builder.rank` — how far along the sequence a parameter list stands
* `Table.Builder.Chosen` — the live overload that a widened signature goes to

## Main results

* `lookup_build` — a look-up as two searches, over declared and over widened signatures
* `lookup_build_content` — the exact content of a table
-/

namespace Formulary.Table.Builder

variable {b : Builder} {widening : List Tag}

/-! ### Live overloads -/

/-- No later overload has the same parameters. -/
def Live (b : Builder) (o : Overload) : Prop :=
  ∃ before after, b.overloads = before ++ o :: after ∧ ∀ p ∈ after, p.params ≠ o.params

theorem mem_lastOfEach_iff {os : List Overload} {o : Overload} :
    o ∈ lastOfEach os ↔
      ∃ before after, os = before ++ o :: after ∧ ∀ p ∈ after, p.params ≠ o.params := by
  induction os with
  | nil => simp [lastOfEach]
  | cons q rest ih =>
    have keep : o ∈ lastOfEach rest ↔ ∃ before after, q :: rest = q :: before ++ o :: after ∧
        ∀ p ∈ after, p.params ≠ o.params := by
      rw [ih]
      simp only [List.cons_append, List.cons.injEq, true_and]
    rw [lastOfEach]
    split
    · next h =>
      -- the head is replaced, so it is not the overload that is looked for
      obtain ⟨p, hp, hpq⟩ := List.any_eq_true.mp h
      rw [keep]
      constructor
      · rintro ⟨before, after, hos, hafter⟩
        exact ⟨q :: before, after, hos, hafter⟩
      · rintro ⟨before, after, hos, hafter⟩
        cases before with
        | nil =>
          obtain ⟨rfl, rfl⟩ := List.cons.inj hos
          exact absurd (by simpa using hpq) (hafter p hp)
        | cons q' before =>
          obtain ⟨rfl, -⟩ := List.cons.inj hos
          exact ⟨before, after, hos, hafter⟩
    · next h =>
      rw [List.mem_cons, keep]
      constructor
      · rintro (rfl | ⟨before, after, hos, hafter⟩)
        · refine ⟨[], rest, rfl, fun p hp hpo => h ?_⟩
          exact List.any_eq_true.mpr ⟨p, hp, by simpa using hpo⟩
        · exact ⟨q :: before, after, hos, hafter⟩
      · rintro ⟨before, after, hos, hafter⟩
        cases before with
        | nil => exact Or.inl (List.cons.inj hos).1.symm
        | cons q' before =>
          obtain ⟨rfl, -⟩ := List.cons.inj hos
          exact Or.inr ⟨before, after, hos, hafter⟩

theorem live_iff {o : Overload} : b.Live o ↔ o ∈ lastOfEach b.overloads :=
  mem_lastOfEach_iff.symm

theorem mem_ordered_iff {o : Overload} : o ∈ b.ordered ↔ b.Live o := by
  rw [ordered, List.mem_mergeSort, live, live_iff]

theorem Live.mem {o : Overload} (h : b.Live o) : o ∈ b.overloads := by
  obtain ⟨before, after, hos, -⟩ := h
  rw [hos]
  exact List.mem_append_right _ (List.mem_cons_self ..)

theorem exists_mem_lastOfEach {os : List Overload} {o : Overload} (h : o ∈ os) :
    ∃ p ∈ lastOfEach os, p.params = o.params := by
  induction os generalizing o with
  | nil => simp at h
  | cons q rest ih =>
    rw [lastOfEach]
    rcases List.mem_cons.mp h with rfl | h
    · split
      · next hany =>
        obtain ⟨p, hp, hpo⟩ := List.any_eq_true.mp hany
        obtain ⟨p', hp', hparams⟩ := ih hp
        exact ⟨p', hp', hparams.trans (by simpa using hpo)⟩
      · exact ⟨o, List.mem_cons_self .., rfl⟩
    · obtain ⟨p, hp, hparams⟩ := ih h
      split
      · exact ⟨p, hp, hparams⟩
      · exact ⟨p, List.mem_cons_of_mem _ hp, hparams⟩

/-- Of the overloads with one parameter list there is a live one. -/
theorem exists_live_of_mem {o : Overload} (h : o ∈ b.overloads) :
    ∃ p, b.Live p ∧ p.params = o.params := by
  obtain ⟨p, hp, hparams⟩ := exists_mem_lastOfEach h
  exact ⟨p, live_iff.mpr hp, hparams⟩

/-- Live overloads are told apart by their parameters. -/
theorem Live.eq_of_params_eq {o p : Overload} (ho : b.Live o) (hp : b.Live p)
    (h : o.params = p.params) : o = p := by
  obtain ⟨before, after, hos, hafter⟩ := ho
  obtain ⟨before', after', hos', hafter'⟩ := hp
  rw [hos] at hos'
  rcases List.append_eq_append_iff.mp hos' with ⟨mid, rfl, hmid⟩ | ⟨mid, rfl, hmid⟩
  · cases mid with
    | nil => exact (List.cons.inj hmid).1
    | cons q mid =>
      obtain ⟨rfl, rfl⟩ := List.cons.inj hmid
      exact absurd h.symm (hafter p (by simp))
  · cases mid with
    | nil => exact (List.cons.inj hmid).1.symm
    | cons q mid =>
      obtain ⟨rfl, rfl⟩ := List.cons.inj hmid
      exact absurd h (hafter' o (by simp))

theorem lastOfEach_filter (keep : Signature → Bool) (os : List Overload) :
    lastOfEach (os.filter fun o => keep o.params) =
      (lastOfEach os).filter fun o => keep o.params := by
  induction os with
  | nil => rfl
  | cons o rest ih =>
    rw [List.filter_cons]
    split
    · next hkeep =>
      -- what replaces a kept overload is kept
      have hany : ((rest.filter fun p => keep p.params).any fun p => p.params == o.params) =
          rest.any fun p => p.params == o.params := by
        rw [Bool.eq_iff_iff, List.any_eq_true, List.any_eq_true]
        constructor
        · rintro ⟨p, hp, hpo⟩
          exact ⟨p, (List.mem_filter.mp hp).1, hpo⟩
        · rintro ⟨p, hp, hpo⟩
          refine ⟨p, List.mem_filter.mpr ⟨hp, ?_⟩, hpo⟩
          rwa [show p.params = o.params by simpa using hpo]
      rw [lastOfEach, lastOfEach, hany, ih]
      split
      · rfl
      · rw [List.filter_cons, if_pos hkeep]
    · next hkeep =>
      rw [lastOfEach, ih]
      split
      · rfl
      · rw [List.filter_cons, if_neg hkeep]

/-! ### Accepted signatures -/

/-- An argument fits a declared tag: it carries that tag, or one after its first place. -/
def Fits (widening : List Tag) (declared t : Tag) : Prop :=
  t = declared ∨
    ∃ before after, widening = before ++ declared :: after ∧ declared ∉ before ∧ t ∈ after

/-- A signature fits a parameter list, argument by argument. -/
def Accepts (widening : List Tag) (params key : Signature) : Prop :=
  List.Forall₂ (Fits widening) params key

theorem mem_narrower_iff {declared t : Tag} :
    t ∈ narrower widening declared ↔
      ∃ before after, widening = before ++ declared :: after ∧ declared ∉ before ∧ t ∈ after := by
  constructor
  · intro h
    have hd : declared ∈ widening := by
      by_contra hd
      have hall : ∀ s ∈ widening, (s != declared) = true := fun s hs =>
        bne_iff_ne.mpr fun hs' => hd (hs' ▸ hs)
      rw [narrower, List.dropWhile_eq_nil_iff.mpr hall] at h
      exact absurd h (by simp)
    obtain ⟨before, after, hw, hbefore⟩ := List.eq_append_cons_of_mem hd
    refine ⟨before, after, hw, hbefore, ?_⟩
    rwa [hw, mem_narrower hbefore] at h
  · rintro ⟨before, after, rfl, hbefore, ht⟩
    exact (mem_narrower hbefore).mpr ht

theorem fits_iff {declared t : Tag} :
    Fits widening declared t ↔ t = declared ∨ t ∈ narrower widening declared := by
  rw [Fits, mem_narrower_iff]

/-- The enumerated signatures are the accepted ones. -/
theorem mem_variants_iff {params key : Signature} :
    key ∈ variants widening params ↔ Accepts widening params key := by
  induction params generalizing key with
  | nil => simp [variants, Accepts]
  | cons declared rest ih =>
    simp only [variants, List.mem_flatMap, List.mem_map, List.mem_cons, mem_narrower_iff, ih]
    constructor
    · rintro ⟨t, ht, key, hkey, rfl⟩
      exact .cons ht hkey
    · rintro (_ | ⟨ht, hkey⟩)
      exact ⟨_, ht, _, hkey, rfl⟩

/-! ### The order of overloads -/

/-- The first place of a tag in the sequence; tags outside stand before it. -/
def firstPlace (widening : List Tag) (t : Tag) : Int :=
  if t ∈ widening then widening.idxOf t else -1

/-- The sum of the first places of parameters. -/
def rank (widening : List Tag) : Signature → Int
  | [] => 0
  | t :: p => firstPlace widening t + rank widening p

/-- Whether one parameter list has lesser codes than another, or the same: the first position where
they differ decides, and a part comes before the whole. -/
def CodesLe : Signature → Signature → Prop
  | [], _ => True
  | _ :: _, [] => False
  | s :: p, t :: q => s.code < t.code ∨ s = t ∧ CodesLe p q

/-- One parameter list goes before another: it has the greater rank, or the same rank and lesser
codes. -/
def Precedes (widening : List Tag) (p q : Signature) : Prop :=
  rank widening q < rank widening p ∨ rank widening p = rank widening q ∧ CodesLe p q

theorem position_eq (t : Tag) : position widening t = firstPlace widening t := by
  rw [position, firstPlace]
  split
  · next i hi =>
    have ht : t ∈ widening := List.isSome_idxOf?.mp (by rw [hi]; rfl)
    rw [if_pos ht, List.idxOf_eq_getD_idxOf?, hi, Option.getD_some]
  · next h => rw [if_neg (List.idxOf?_eq_none_iff.mp h)]

theorem specificity_eq (o : Overload) : specificity widening o = rank widening o.params := by
  rw [specificity]
  induction o.params with
  | nil => rfl
  | cons t p ih => rw [List.foldr_cons, ih, position_eq, rank]

theorem signatureLe_iff {p q : Signature} : signatureLe p q = true ↔ CodesLe p q := by
  rw [signatureLe]
  induction p generalizing q with
  | nil => cases q <;> simp [CodesLe, Ordering.isLE]
  | cons s p ih =>
    cases q with
    | nil => simp [CodesLe, Ordering.isLE]
    | cons t q =>
      rw [List.compare_cons_cons, CodesLe, ← ih]
      rw [show compare s t = compare s.code t.code from rfl]
      rcases Nat.lt_trichotomy s.code t.code with h | h | h
      · simp [Nat.compare_eq_lt.mpr h, h]
      · simp [Tag.code_injective h]
      · have hne : s ≠ t := fun hst => Nat.ne_of_gt h (congrArg Tag.code hst)
        simp [Nat.compare_eq_gt.mpr h, Nat.not_lt_of_gt h, hne]

theorem CodesLe.refl (p : Signature) : CodesLe p p := by
  induction p with
  | nil => exact trivial
  | cons s p ih => exact Or.inr ⟨rfl, ih⟩

theorem CodesLe.trans {p q r : Signature} (hpq : CodesLe p q) (hqr : CodesLe q r) :
    CodesLe p r := by
  induction p generalizing q r with
  | nil => exact trivial
  | cons s p ih =>
    cases q with
    | nil => exact absurd hpq id
    | cons t q =>
      cases r with
      | nil => exact absurd hqr id
      | cons u r =>
        rcases hpq with hpq | ⟨rfl, hpq⟩ <;> rcases hqr with hqr | ⟨rfl, hqr⟩
        · exact Or.inl (Nat.lt_trans hpq hqr)
        · exact Or.inl hpq
        · exact Or.inl hqr
        · exact Or.inr ⟨rfl, ih hpq hqr⟩

theorem CodesLe.total (p q : Signature) : CodesLe p q ∨ CodesLe q p := by
  induction p generalizing q with
  | nil => exact Or.inl trivial
  | cons s p ih =>
    cases q with
    | nil => exact Or.inr trivial
    | cons t q =>
      rcases Nat.lt_trichotomy s.code t.code with h | h | h
      · exact Or.inl (Or.inl h)
      · obtain rfl := Tag.code_injective h
        exact (ih q).imp (fun hle => Or.inr ⟨rfl, hle⟩) fun hle => Or.inr ⟨rfl, hle⟩
      · exact Or.inr (Or.inl h)

theorem CodesLe.antisymm {p q : Signature} (hpq : CodesLe p q) (hqp : CodesLe q p) : p = q := by
  induction p generalizing q with
  | nil =>
    cases q with
    | nil => rfl
    | cons t q => exact absurd hqp id
  | cons s p ih =>
    cases q with
    | nil => exact absurd hpq id
    | cons t q =>
      rcases hpq with hpq | ⟨rfl, hpq⟩ <;> rcases hqp with hqp | ⟨h, hqp⟩
      · exact absurd hqp (Nat.not_lt_of_gt hpq)
      · exact absurd hpq (Nat.not_lt_of_ge (Nat.le_of_eq (congrArg Tag.code h)))
      · exact absurd hqp (Nat.lt_irrefl _)
      · rw [ih hpq hqp]

theorem before_iff {o p : Overload} :
    before widening o p = true ↔ Precedes widening o.params p.params := by
  simp only [before, Precedes, specificity_eq, Bool.or_eq_true, Bool.and_eq_true, decide_eq_true_eq,
    beq_iff_eq, signatureLe_iff]

theorem Precedes.refl (p : Signature) : Precedes widening p p :=
  Or.inr ⟨rfl, CodesLe.refl p⟩

theorem Precedes.trans {p q r : Signature} (hpq : Precedes widening p q)
    (hqr : Precedes widening q r) : Precedes widening p r := by
  rcases hpq with hpq | ⟨hpq, hle⟩
  · rcases hqr with hqr | ⟨hqr, -⟩
    · exact Or.inl (by omega)
    · exact Or.inl (by omega)
  · rcases hqr with hqr | ⟨hqr, hle'⟩
    · exact Or.inl (by omega)
    · exact Or.inr ⟨hpq.trans hqr, hle.trans hle'⟩

theorem Precedes.total (p q : Signature) : Precedes widening p q ∨ Precedes widening q p := by
  rcases Int.lt_trichotomy (rank widening p) (rank widening q) with h | h | h
  · exact Or.inr (Or.inl h)
  · rcases CodesLe.total p q with hle | hle
    · exact Or.inl (Or.inr ⟨h, hle⟩)
    · exact Or.inr (Or.inr ⟨h.symm, hle⟩)
  · exact Or.inl (Or.inl h)

theorem Precedes.antisymm {p q : Signature} (hpq : Precedes widening p q)
    (hqp : Precedes widening q p) : p = q := by
  rcases hpq with hpq | ⟨hpq, hle⟩ <;> rcases hqp with hqp | ⟨hqp, hle'⟩
  · omega
  · omega
  · omega
  · exact hle.antisymm hle'

/-- The overloads of a table stand in the order of `Precedes`. -/
theorem pairwise_ordered (b : Builder) :
    b.ordered.Pairwise fun o p => Precedes b.widening o.params p.params := by
  have hsorted : b.ordered.Pairwise fun o p => before b.widening o p = true := by
    refine List.pairwise_mergeSort (fun o p q hop hpq => ?_) (fun o p => ?_) b.live
    · exact before_iff.mpr ((before_iff.mp hop).trans (before_iff.mp hpq))
    · rw [Bool.or_eq_true, before_iff, before_iff]
      exact Precedes.total o.params p.params
  exact hsorted.imp before_iff.mp

/-! ### Look-ups -/

theorem lookup_exactRows (os : List Overload) (key : Signature) :
    (os.map exactRow).lookup key = (os.find? fun o => o.params = key).map .exact := by
  induction os with
  | nil => rfl
  | cons o rest ih =>
    rw [List.map_cons, exactRow, List.lookup_cons, List.find?_cons, ih]
    by_cases h : o.params = key
    · simp [h]
    · simp [h, beq_eq_false_iff_ne.mpr (Ne.symm h)]

theorem lookup_widenedRows (o : Overload) (key : Signature) :
    (widenedRows widening o).lookup key =
      if key ∈ variants widening o.params then some (.widened o key) else none := by
  rw [widenedRows]
  induction variants widening o.params with
  | nil => rfl
  | cons k rest ih =>
    rw [List.map_cons, List.lookup_cons, ih]
    by_cases h : key = k
    · simp [h]
    · simp [h, beq_eq_false_iff_ne.mpr h]

theorem lookup_allWidenedRows (os : List Overload) (key : Signature) :
    (os.flatMap (widenedRows widening)).lookup key =
      (os.find? fun o => key ∈ variants widening o.params).map (.widened · key) := by
  induction os with
  | nil => rfl
  | cons o rest ih =>
    rw [List.flatMap_cons, List.lookup_append, lookup_widenedRows, List.find?_cons, ih]
    by_cases h : key ∈ variants widening o.params
    · simp [h]
    · simp [h]

/-- A look-up searches the declared signatures and then, in the order of the overloads, the widened
ones. -/
theorem lookup_build (b : Builder) (key : Signature) :
    b.build.lookup key =
      ((b.ordered.find? fun o => o.params = key).map .exact).or
        ((b.ordered.find? fun o => key ∈ variants b.widening o.params).map (.widened · key)) := by
  rw [lookup, build, List.lookup_append, lookup_exactRows, lookup_allWidenedRows]

/-- The live overload that a widened signature goes to: among those that accept the signature, the
one that precedes the others. -/
def Chosen (b : Builder) (key : Signature) (o : Overload) : Prop :=
  b.Live o ∧ Accepts b.widening o.params key ∧
    ∀ p, b.Live p → Accepts b.widening p.params key → Precedes b.widening o.params p.params

theorem Chosen.unique {key : Signature} {o p : Overload} (ho : b.Chosen key o)
    (hp : b.Chosen key p) : o = p :=
  ho.1.eq_of_params_eq hp.1 ((ho.2.2 p hp.1 hp.2.1).antisymm (hp.2.2 o ho.1 ho.2.1))

theorem find?_params_eq_some_iff {key : Signature} {o : Overload} :
    (b.ordered.find? fun p => p.params = key) = some o ↔ b.Live o ∧ o.params = key := by
  constructor
  · intro h
    exact ⟨mem_ordered_iff.mp (List.mem_of_find?_eq_some h), by simpa using List.find?_some h⟩
  · rintro ⟨ho, hkey⟩
    cases hfind : b.ordered.find? fun p => p.params = key with
    | none =>
      have hnone := List.find?_eq_none.mp hfind o (mem_ordered_iff.mpr ho)
      exact absurd hkey (by simpa using hnone)
    | some p =>
      have hp : p.params = key := by simpa using List.find?_some hfind
      have hlive := mem_ordered_iff.mp (List.mem_of_find?_eq_some hfind)
      rw [hlive.eq_of_params_eq ho (hp.trans hkey.symm)]

/-- The parameters of a live overload are answered by it. -/
theorem Live.lookup {o : Overload} (h : b.Live o) : b.build.lookup o.params = some (.exact o) := by
  rw [lookup_build, find?_params_eq_some_iff.mpr ⟨h, rfl⟩]
  rfl

theorem chosen_of_find? {key : Signature} {o : Overload}
    (h : (b.ordered.find? fun p => key ∈ variants b.widening p.params) = some o) :
    b.Chosen key o := by
  have haccepts : Accepts b.widening o.params key :=
    mem_variants_iff.mp (by simpa using List.find?_some h)
  have hlive : b.Live o := mem_ordered_iff.mp (List.mem_of_find?_eq_some h)
  refine ⟨hlive, haccepts, fun p hp hpkey => ?_⟩
  obtain ⟨-, front, back, hordered, hfront⟩ := List.find?_eq_some_iff_append.mp h
  have hsorted := b.pairwise_ordered
  rw [hordered] at hsorted
  have hmem := mem_ordered_iff.mpr hp
  rw [hordered, List.mem_append, List.mem_cons] at hmem
  rcases hmem with hmem | rfl | hmem
  · exact absurd (mem_variants_iff.mpr hpkey) (by simpa using hfront p hmem)
  · exact Precedes.refl p.params
  · exact (List.pairwise_cons.mp (List.pairwise_append.mp hsorted).2.1).1 p hmem

theorem find?_variants_eq_some_iff {key : Signature} {o : Overload} :
    (b.ordered.find? fun p => key ∈ variants b.widening p.params) = some o ↔ b.Chosen key o := by
  refine ⟨chosen_of_find?, fun ho => ?_⟩
  cases hfind : b.ordered.find? fun p => key ∈ variants b.widening p.params with
  | none =>
    have hnot := List.find?_eq_none.mp hfind o (mem_ordered_iff.mpr ho.1)
    exact absurd (mem_variants_iff.mpr ho.2.1) (by simpa using hnot)
  | some p => rw [(chosen_of_find? hfind).unique ho]

theorem accepts_self (params : Signature) : Accepts widening params params :=
  List.forall₂_same.mpr fun _ _ => Or.inl rfl

/-- What is found is a live overload that accepts the signature. -/
theorem live_of_lookup {key : Signature} {target : Target}
    (h : b.build.lookup key = some target) :
    b.Live target.overload ∧ Accepts b.widening target.overload.params key := by
  rw [lookup_build, Option.or_eq_some_iff] at h
  rcases h with h | ⟨-, h⟩
  · obtain ⟨o, ho, rfl⟩ := Option.map_eq_some_iff.mp h
    obtain ⟨hlive, rfl⟩ := find?_params_eq_some_iff.mp ho
    exact ⟨hlive, accepts_self o.params⟩
  · obtain ⟨o, ho, rfl⟩ := Option.map_eq_some_iff.mp h
    obtain ⟨hlive, haccepts, -⟩ := chosen_of_find? ho
    exact ⟨hlive, haccepts⟩

/-- **The exact content of a table.** A declared signature is answered by its live overload. Any
other signature is answered by the chosen one among the live overloads that accept it, and by
nothing when there is none. Rows are of these two kinds only. -/
theorem lookup_build_content (b : Builder) (key : Signature) :
    (∀ o, b.build.lookup key = some (.exact o) ↔ b.Live o ∧ o.params = key) ∧
      (∀ o actual, b.build.lookup key = some (.widened o actual) ↔
        actual = key ∧ (∀ p, b.Live p → p.params ≠ key) ∧ b.Chosen key o) ∧
      (b.build.lookup key = none ↔ ∀ o, b.Live o → ¬ Accepts b.widening o.params key) ∧
      ∀ row ∈ b.build.rows,
        row.2 = .exact row.2.overload ∨ row.2 = .widened row.2.overload row.1 := by
  have hnone : (b.ordered.find? fun o => o.params = key) = none ↔
      ∀ p, b.Live p → p.params ≠ key := by
    rw [List.find?_eq_none]
    simp only [mem_ordered_iff, decide_eq_true_eq, ne_eq]
  refine ⟨fun o => ?_, fun o actual => ?_, ?_, fun row hrow => ?_⟩
  · rw [lookup_build, ← find?_params_eq_some_iff]
    cases b.ordered.find? fun p => p.params = key with
    | none => simp
    | some p => simp
  · rw [lookup_build, ← find?_variants_eq_some_iff, ← hnone]
    cases b.ordered.find? fun p => p.params = key with
    | none =>
      rw [Option.map_none, Option.none_or, Option.map_eq_some_iff]
      simp only [Target.widened.injEq, true_and]
      constructor
      · rintro ⟨p, hp, rfl, rfl⟩
        exact ⟨rfl, hp⟩
      · rintro ⟨rfl, ho⟩
        exact ⟨o, ho, rfl, rfl⟩
    | some p => simp
  · rw [lookup_build, Option.or_eq_none_iff, Option.map_eq_none_iff, Option.map_eq_none_iff, hnone,
      List.find?_eq_none]
    simp only [mem_ordered_iff, decide_eq_true_eq, mem_variants_iff]
    refine ⟨And.right, fun h => ⟨fun p hp hkey => h p hp (hkey ▸ accepts_self p.params), h⟩⟩
  · rw [build, List.mem_append, List.mem_map, List.mem_flatMap] at hrow
    rcases hrow with ⟨o, -, rfl⟩ | ⟨o, -, hrow⟩
    · exact Or.inl rfl
    · obtain ⟨k, -, rfl⟩ := List.mem_map.mp hrow
      exact Or.inr rfl

end Formulary.Table.Builder
