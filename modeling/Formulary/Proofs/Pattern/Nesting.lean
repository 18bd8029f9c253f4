import Formulary.Proofs.Pattern.LocalGroups
import Formulary.Proofs.Pattern.Matching

/-!
# What is read, and how deep it may be nested

Every pattern that is read ends with the text or before a closing parenthesis, and no repetition in
it wants more times than it allows. Both are seen from what a single step does.

How deep groups may be nested is bounded, but the bound does not change what is read: a pattern that
is read with one bound is read with every bound that allows for its depth. Parts never leave a
pattern again, and so it can be traced back from the end how deep the groups on the way were.

## Main definitions

* `Pattern.Move` — what a step does
* `Pattern.Branches.Within` — the depths of branches and parts

## Main results

* `Pattern.closes_of_levels`, `Pattern.bounded_of_levels` — what is read
* `Pattern.levels_of_depth_lt`, `Pattern.levels_mono` — reading with another bound
-/

namespace Formulary.Pattern

open Text Escape

variable {m : Mode} {inner : Reader} {b : Branches} {cs rest : List Char} {x : Step}

/-! ### What a step does -/

/-- A repetition wants no more times than it allows. -/
def Repetition.Ordered (r : Repetition) : Prop := ∀ n ∈ r.most, r.least ≤ n

theorem repetitionOf_fst (m : Mode) (least : Nat) (most : Option Nat) (cs : List Char) :
    (repetitionOf m least most cs).1.least = least ∧
      (repetitionOf m least most cs).1.most = most := by
  unfold repetitionOf
  split <;> exact ⟨rfl, rfl⟩

theorem ordered_repetitionOf {least : Nat} {most : Option Nat} (h : ∀ n ∈ most, least ≤ n)
    (cs : List Char) : (repetitionOf m least most cs).1.Ordered := by
  obtain ⟨hleast, hmost⟩ := repetitionOf_fst m least most cs
  rw [Repetition.Ordered, hleast, hmost]
  exact h

theorem ordered_of_counted? {r : Repetition} (h : counted? m cs = some (r, rest)) : r.Ordered := by
  rw [counted?_eq] at h
  obtain ⟨⟨least, after⟩, -, h⟩ := Option.bind_eq_some_iff.mp h
  have hmark : ∀ {most cs}, (∀ n ∈ most, least ≤ n) →
      some (repetitionOf m least most cs) = some (r, rest) → r.Ordered := by
    intro most cs hmost heq
    have hr : (repetitionOf m least most cs).1 = r := congrArg Prod.fst (Option.some.inj heq)
    exact hr ▸ ordered_repetitionOf hmost cs
  rcases byMark_cases h with ⟨r₁, -, h⟩ | h
  · exact hmark (by simp) h
  rcases byMark_cases h with ⟨r₂, -, h⟩ | h
  · rcases byMark_cases h with ⟨r₃, -, h⟩ | h
    · exact hmark (by simp) h
    · obtain ⟨⟨most, r₄⟩, -, h⟩ := Option.bind_eq_some_iff.mp h
      rcases byMark_cases h with ⟨r₅, -, h⟩ | h
      · by_cases hle : least ≤ most
        · rw [if_pos hle] at h
          exact hmark (by simpa using hle) h
        · rw [if_neg hle] at h
          exact absurd h nofun
      · exact absurd h nofun
  · exact absurd h nofun

/-- A part that a step adds: a part that no reader of groups has read, or a group. -/
def Added (inner : Reader) (p : Pattern) : Prop :=
  p.Bounded ∨ ∃ kind body cs q rest, p = group kind q ∧ inner body cs = some (q, rest)

/-- What a step does. -/
inductive Move (m : Mode) (inner : Reader) (b : Branches) : Step → List Char → Prop
  /-- The reading ends with the text or before a closing parenthesis. -/
  | stop {rest : List Char} (h : Closes rest) : Move m inner b (.inl b.value) rest
  /-- A branch ends. -/
  | close (rest : List Char) : Move m inner b (.inr (m, b.close)) rest
  /-- The branch at hand has a further part. -/
  | add (m' : Mode) {p : Pattern} (rest : List Char) (h : Added inner p) :
    Move m inner b (.inr (m', b.add p)) rest
  /-- The last part is repeated. -/
  | times {r : Repetition} {parts : List Pattern} (rest : List Char) (hr : r.Ordered)
    (h : repeatLast? r b.parts = some parts) : Move m inner b (.inr (m, { b with parts })) rest

theorem move_of_repeated? {F : List Char → Read Repetition}
    (hF : ∀ r rest, F cs = some (r, rest) → r.Ordered) (h : repeated? m b F cs = some (x, rest)) :
    Move m inner b x rest := by
  obtain ⟨⟨r, after⟩, hr, h⟩ := Option.bind_eq_some_iff.mp h
  obtain ⟨y, hy, h⟩ := Option.map_eq_some_iff.mp h
  obtain ⟨parts, hparts, rfl⟩ := Option.map_eq_some_iff.mp hy
  obtain ⟨rfl, rfl⟩ := Prod.mk.inj h
  exact .times after (hF r after hr) hparts

theorem bounded_of_part? {p : Pattern} (h : part? m cs = some (p, rest)) : p.Bounded := by
  unfold part? at h
  split at h
  · exact absurd h nofun
  · obtain ⟨⟨⟨s, d⟩, r⟩, -, h⟩ := Option.map_eq_some_iff.mp h
    obtain ⟨rfl, -⟩ := Prod.mk.inj h
    trivial
  · obtain ⟨⟨e, r⟩, -, h⟩ := Option.map_eq_some_iff.mp h
    obtain ⟨rfl, -⟩ := Prod.mk.inj h
    cases e <;> trivial
  · obtain ⟨s, -, h⟩ := Option.map_eq_some_iff.mp h
    obtain ⟨rfl, -⟩ := Prod.mk.inj h
    trivial
  all_goals
    obtain ⟨rfl, -⟩ := Prod.mk.inj (Option.some.inj h)
    trivial

theorem move_of_partOrMark? (h : partOrMark? m b cs = some (x, rest)) : Move m inner b x rest := by
  have hmark : ∀ {least most cs}, (∀ n ∈ most, least ≤ n) →
      repeated? m b (fun cs => some (repetitionOf m least most cs)) cs = some (x, rest) →
      Move m inner b x rest := by
    intro least most cs hmost
    refine move_of_repeated? fun r after hr => ?_
    have hfst : (repetitionOf m least most cs).1 = r := congrArg Prod.fst (Option.some.inj hr)
    exact hfst ▸ ordered_repetitionOf hmost cs
  rcases byMark_cases h with ⟨r₁, -, h⟩ | h
  · exact hmark (by simp) h
  rcases byMark_cases h with ⟨r₂, -, h⟩ | h
  · exact hmark (by simp) h
  rcases byMark_cases h with ⟨r₃, -, h⟩ | h
  · exact hmark (by simp) h
  rcases byMark_cases h with ⟨r₄, -, h⟩ | h
  · exact move_of_repeated? (fun r after => ordered_of_counted?) h
  · obtain ⟨⟨p, after⟩, hp, h⟩ := Option.map_eq_some_iff.mp h
    obtain ⟨rfl, rfl⟩ := Prod.mk.inj h
    exact .add m after (Or.inl (bounded_of_part? hp))

theorem move_of_groupFrom? {o : Opening} (h : groupFrom? m inner b o cs = some (x, rest)) :
    Move m inner b x rest := by
  cases o with
  | flags m' =>
    obtain ⟨rfl, rfl⟩ := Prod.mk.inj (Option.some.inj h)
    exact .add m' cs (Or.inl trivial)
  | body kind body =>
    obtain ⟨⟨q, after⟩, hq, h⟩ := Option.bind_eq_some_iff.mp h
    obtain ⟨-, rfl⟩ := eq_of_groupEnd? m h
    exact .add m rest (Or.inr ⟨kind, body, cs, q, after, rfl, hq⟩)

/-- A step does one of these things. -/
theorem move_of_step? (h : step? m inner b cs = some (x, rest)) : Move m inner b x rest := by
  by_cases hcs : Closes cs
  · rw [step?_of_closes m inner b hcs] at h
    obtain ⟨rfl, rfl⟩ := Prod.mk.inj (Option.some.inj h)
    exact .stop hcs
  rw [step?_of_not_closes m inner b hcs] at h
  rcases byMark_cases h with ⟨r₁, -, h⟩ | h
  · obtain ⟨rfl, rfl⟩ := Prod.mk.inj (Option.some.inj h)
    exact .close r₁
  rcases byMark_cases h with ⟨r₂, -, h⟩ | h
  · obtain ⟨⟨o, after⟩, -, h⟩ := Option.bind_eq_some_iff.mp h
    exact move_of_groupFrom? h
  · exact move_of_partOrMark? h

/-! ### What is read -/

/-- Reading ends with the text or before a closing parenthesis. -/
theorem closes_of_levels {budget : Nat} {q : Pattern} (h : levels budget m cs = some (q, rest)) :
    Closes rest := by
  cases budget with
  | zero => exact absurd h nofun
  | succ budget =>
    rw [levels_succ] at h
    refine steps_invariant (P := fun _ => True) (Q := fun _ rest => Closes rest)
      (fun _ _ _ _ _ _ => trivial) (fun s cs q r _ hstep => ?_) trivial h
    cases move_of_step? hstep with
    | stop hrest => exact hrest

theorem bounded_sequence {ps : List Pattern} (h : ∀ p ∈ ps, p.Bounded) : (sequence ps).Bounded := by
  induction ps with
  | nil => trivial
  | cons p ps ih =>
    rw [List.forall_mem_cons] at h
    cases ps with
    | nil => exact h.1
    | cons q ps => exact ⟨h.1, ih h.2⟩

theorem bounded_choice {ps : List Pattern} (h : ∀ p ∈ ps, p.Bounded) : (choice ps).Bounded := by
  induction ps with
  | nil => trivial
  | cons p ps ih =>
    rw [List.forall_mem_cons] at h
    cases ps with
    | nil => exact h.1
    | cons q ps => exact ⟨h.1, ih h.2⟩

/-- The last part is replaced by its repetition. -/
theorem exists_of_repeatLast? {r : Repetition} {ps qs : List Pattern}
    (h : repeatLast? r ps = some qs) :
    ∃ p rest, ps = p :: rest ∧ qs = times r.least r.most r.lazy p :: rest := by
  unfold repeatLast? at h
  split at h
  · exact absurd h nofun
  · exact absurd h nofun
  · next p rest _ => exact ⟨p, rest, rfl, (Option.some.inj h).symm⟩

namespace Branches

/-- All branches and parts have a property. -/
def All (P : Pattern → Prop) (b : Branches) : Prop :=
  (∀ p ∈ b.complete, P p) ∧ ∀ p ∈ b.parts, P p

theorem All.bounded_close {b : Branches} (h : b.All Pattern.Bounded) :
    b.close.All Pattern.Bounded := by
  refine ⟨List.forall_mem_cons.mpr ⟨bounded_sequence ?_, h.1⟩, nofun⟩
  simpa using h.2

theorem All.bounded_value {b : Branches} (h : b.All Pattern.Bounded) : b.value.Bounded := by
  refine bounded_choice ?_
  simpa using h.bounded_close.1

end Branches

/-- What is read wants no more times than it allows. -/
theorem bounded_of_levels {budget : Nat} {q : Pattern} (h : levels budget m cs = some (q, rest)) :
    q.Bounded := by
  induction budget generalizing m cs q rest with
  | zero => exact absurd h nofun
  | succ budget ih =>
    rw [levels_succ] at h
    refine steps_invariant (P := fun s => s.2.All Pattern.Bounded) (Q := fun q _ => q.Bounded)
      (fun s cs s' rest hs hstep => ?_) (fun s cs q rest hs hstep => ?_) ⟨nofun, nofun⟩ h
    · cases move_of_step? hstep with
      | close => exact hs.bounded_close
      | add m' _ hp =>
        refine ⟨hs.1, List.forall_mem_cons.mpr ⟨?_, hs.2⟩⟩
        rcases hp with hp | ⟨kind, body, cs, q, r, rfl, hq⟩
        · exact hp
        · exact (ih hq : q.Bounded)
      | times _ hr hparts =>
        obtain ⟨p, parts, hb, rfl⟩ := exists_of_repeatLast? hparts
        have hp := List.forall_mem_cons.mp (hb ▸ hs.2)
        exact ⟨hs.1, List.forall_mem_cons.mpr ⟨⟨hr, hp.1⟩, hp.2⟩⟩
    · cases move_of_step? hstep with
      | stop => exact hs.bounded_value

/-! ### Depth -/

theorem depth_le_seq (p q : Pattern) : p.depth ≤ (seq p q).depth ∧ q.depth ≤ (seq p q).depth := by
  cases q with
  | seq q r =>
    rw [depth]
    exact ⟨by omega, le_max_right _ _⟩
  | _ =>
    simp only [depth]
    omega

theorem depth_le_alt (p q : Pattern) : p.depth ≤ (alt p q).depth ∧ q.depth ≤ (alt p q).depth := by
  cases q with
  | alt q r =>
    rw [depth]
    exact ⟨by omega, le_max_right _ _⟩
  | _ =>
    simp only [depth]
    omega

theorem depth_le_sequence {p : Pattern} {ps : List Pattern} (h : p ∈ ps) :
    p.depth ≤ (sequence ps).depth := by
  induction ps with
  | nil => exact absurd h List.not_mem_nil
  | cons q ps ih =>
    cases ps with
    | nil =>
      obtain rfl := List.mem_singleton.mp h
      exact le_refl _
    | cons r ps =>
      have hdepth := depth_le_seq q (sequence (r :: ps))
      rcases List.mem_cons.mp h with rfl | h
      · exact hdepth.1
      · exact (ih h).trans hdepth.2

theorem depth_le_choice {p : Pattern} {ps : List Pattern} (h : p ∈ ps) :
    p.depth ≤ (choice ps).depth := by
  induction ps with
  | nil => exact absurd h List.not_mem_nil
  | cons q ps ih =>
    cases ps with
    | nil =>
      obtain rfl := List.mem_singleton.mp h
      exact le_refl _
    | cons r ps =>
      have hdepth := depth_le_alt q (choice (r :: ps))
      rcases List.mem_cons.mp h with rfl | h
      · exact hdepth.1
      · exact (ih h).trans hdepth.2

namespace Branches

/-- Depths of branches and parts. -/
def Within (d : Nat) (b : Branches) : Prop := b.All fun p => p.depth ≤ d

variable {d : Nat} {b : Branches}

theorem Within.of_close (h : b.close.Within d) : b.Within d := by
  obtain ⟨hlast, hcomplete⟩ := List.forall_mem_cons.mp h.1
  exact ⟨hcomplete, fun p hp => (depth_le_sequence (List.mem_reverse.mpr hp)).trans hlast⟩

theorem Within.of_value (h : b.value.depth ≤ d) : b.Within d := by
  refine Within.of_close ⟨fun p hp => ?_, nofun⟩
  exact (depth_le_choice (List.mem_reverse.mpr hp)).trans h

end Branches

/-- What a step may lead to if the end is to be of a certain depth at most. -/
def Step.Within (d : Nat) : Step → Prop
  | .inl q => q.depth ≤ d
  | .inr (_, b) => b.Within d

/-- A step does not make anything less deep. -/
theorem within_of_move {d : Nat} (h : Move m inner b x rest) (hx : x.Within d) : b.Within d := by
  cases h with
  | stop => exact .of_value hx
  | close => exact .of_close hx
  | add => exact ⟨hx.1, (List.forall_mem_cons.mp hx.2).2⟩
  | times _ _ hparts =>
    obtain ⟨p, parts, hb, rfl⟩ := exists_of_repeatLast? hparts
    obtain ⟨hp, hrest⟩ := List.forall_mem_cons.mp hx.2
    exact ⟨hx.1, hb ▸ List.forall_mem_cons.mpr ⟨(Nat.le_succ _).trans hp, hrest⟩⟩

/-- A step is the same with another reader of groups, if that reads the group that is added. -/
theorem step?_of_inner {inner' : Reader} (h : step? m inner b cs = some (x, rest))
    (hinner : ∀ kind body cs q r, inner body cs = some (q, r) →
      x = .inr (m, b.add (group kind q)) → inner' body cs = some (q, r)) :
    step? m inner' b cs = some (x, rest) := by
  by_cases hcs : Closes cs
  · rw [step?_of_closes m inner b hcs] at h
    rw [step?_of_closes m inner' b hcs, h]
  rw [step?_of_not_closes m inner b hcs, taking?] at h
  rw [step?_of_not_closes m inner' b hcs, taking?]
  by_cases hbar : ∃ rest, cs = '|' :: rest
  · obtain ⟨after, rfl⟩ := hbar
    rw [byMark_singleton] at h
    rw [byMark_singleton, h]
  rw [byMark_of_ne fun rest h => hbar ⟨rest, h⟩] at h
  rw [byMark_of_ne fun rest h => hbar ⟨rest, h⟩]
  by_cases hopen : ∃ rest, cs = '(' :: rest
  · obtain ⟨after, rfl⟩ := hopen
    rw [byMark_singleton] at h
    rw [byMark_singleton]
    obtain ⟨⟨o, after⟩, ho, h⟩ := Option.bind_eq_some_iff.mp h
    rw [ho, Option.bind_some]
    cases o with
    | flags m' => exact h
    | body kind body =>
      obtain ⟨⟨q, r⟩, hq, hend⟩ := Option.bind_eq_some_iff.mp h
      rw [groupFrom?, hinner kind body after q r hq (eq_of_groupEnd? m hend).2, Option.bind_some]
      exact hend
  · rw [byMark_of_ne fun rest h => hopen ⟨rest, h⟩] at h
    rw [byMark_of_ne fun rest h => hopen ⟨rest, h⟩, h]

/-- **What is read with one bound on the depth of groups is read with any other that allows for its
depth.** -/
theorem levels_of_depth_lt {budget budget' : Nat} {q : Pattern}
    (h : levels budget m cs = some (q, rest)) (hdepth : q.depth < budget') :
    levels budget' m cs = some (q, rest) := by
  induction budget generalizing budget' m cs q rest with
  | zero => exact absurd h nofun
  | succ budget ih =>
    obtain ⟨budget', rfl⟩ : ∃ n, budget' = n + 1 := ⟨budget' - 1, by omega⟩
    rw [levels_succ] at h
    rw [levels_succ]
    refine (steps_of_backward (P := Step.Within budget') (fun s cs x rest hstep hx => ?_)
      (fun s cs x rest hstep hx => ?_) h (Nat.lt_succ_iff.mp hdepth)).2
    · exact within_of_move (move_of_step? hstep) hx
    · refine step?_of_inner hstep fun kind body cs q r hq hadd => ih hq ?_
      subst hadd
      exact (List.forall_mem_cons.mp hx.2).1

/-- A greater bound on the depth of groups allows for more. -/
theorem levels_mono {budget budget' : Nat} (hle : budget ≤ budget') {q : Pattern}
    (h : levels budget m cs = some (q, rest)) : levels budget' m cs = some (q, rest) := by
  induction budget generalizing budget' m cs q rest with
  | zero => exact absurd h nofun
  | succ budget ih =>
    obtain ⟨budget', rfl⟩ : ∃ n, budget' = n + 1 := ⟨budget' - 1, by omega⟩
    rw [levels_succ] at h
    rw [levels_succ]
    refine (steps_of_backward (P := fun _ => True) (fun _ _ _ _ _ _ => trivial)
      (fun s cs x rest hstep _ => ?_) h trivial).2
    exact step?_of_inner hstep fun kind body cs q r hq _ => ih (Nat.le_of_succ_le_succ hle) hq

end Formulary.Pattern
