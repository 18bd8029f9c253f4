/-!
# Sets of characters

A set of code points is known by its bounds: the ascending code points at which membership changes,
with the code points before the first bound outside. One sweep over the bounds of two sets carries
out every operation on sets.

No character is a surrogate, but a range may run across the surrogates, and then they count as
inside. No range starts or ends with a surrogate.

## Main definitions

* `CharSet` — the sets, with `contains` as their membership test
* `CharSet.combine` — any operation that leaves outside what is outside both sets
* `CharSet.union`, `inter`, `diff`, `symmDiff`, `complement` — the usual operations
* `CharSet.ofRanges`, `CharSet.ofMembers` — sets from ranges and from members
* `CharSet.ranges` — the ranges of a set

## Main results

* `CharSet.contains_combine` — a combination contains what the operation says
* `CharSet.contains_complement` — the complement contains the other characters
-/

namespace Formulary.Text

/-- A set of characters. -/
structure CharSet where
  /-- The code points at which membership changes. -/
  bounds : List Nat
  /-- Each bound is above the one before. -/
  ascending : bounds.Pairwise (· < ·)
  deriving DecidableEq, Repr

namespace CharSet

/-! ### Bounds -/

/-- Whether code point `n` is inside, where `inside` tells it for the code points before the first
bound. -/
def insideAfter (inside : Bool) : List Nat → Nat → Bool
  | [], _ => inside
  | b :: rest, n => if n < b then inside else insideAfter (!inside) rest n

/-- Crosses a bound at `n` if that is the next one. -/
def cross (n : Nat) (inside : Bool) : List Nat → Bool × List Nat
  | [] => (inside, [])
  | b :: rest => if b = n then (!inside, rest) else (inside, b :: rest)

/-- The least bound of two lists. -/
def nextBound : List Nat → List Nat → Option Nat
  | [], [] => none
  | a :: _, [] => some a
  | [], b :: _ => some b
  | a :: _, b :: _ => some (min a b)

/-- The bounds of an operation on two lists of bounds, where `x` and `y` tell what is inside before
them. -/
def sweep (op : Bool → Bool → Bool) : (fuel : Nat) → (x y : Bool) → (a b : List Nat) → List Nat
  | 0, _, _, _, _ => []
  | fuel + 1, x, y, a, b =>
    match nextBound a b with
    | none => []
    | some n =>
      let (x', a') := cross n x a
      let (y', b') := cross n y b
      let rest := sweep op fuel x' y' a' b'
      if op x y = op x' y' then rest else n :: rest

/-- The bounds that are above all before them, from `least` on. -/
def ascend (least : Nat) : List Nat → List Nat
  | [] => []
  | b :: rest => if least ≤ b then b :: ascend (b + 1) rest else ascend least rest

theorem le_of_mem_ascend {least : Nat} {l : List Nat} {b : Nat} (h : b ∈ ascend least l) :
    least ≤ b := by
  induction l generalizing least with
  | nil => simp [ascend] at h
  | cons c rest ih =>
    rw [ascend] at h
    split at h
    · rcases List.mem_cons.1 h with rfl | h
      · assumption
      · have := ih h
        omega
    · exact ih h

theorem pairwise_ascend (least : Nat) (l : List Nat) : (ascend least l).Pairwise (· < ·) := by
  induction l generalizing least with
  | nil => exact .nil
  | cons c rest ih =>
    rw [ascend]
    split
    · exact List.pairwise_cons.2 ⟨fun b hb => le_of_mem_ascend hb, ih _⟩
    · exact ih _

/-- The set of a list of bounds; a bound that is not above all before it does not count. -/
def ofBounds (bounds : List Nat) : CharSet := ⟨ascend 0 bounds, pairwise_ascend 0 bounds⟩

/-- Whether a code point belongs to a set. -/
def has (s : CharSet) (n : Nat) : Bool := insideAfter false s.bounds n

/-- Whether a character belongs to a set. -/
def contains (s : CharSet) (c : Char) : Bool := s.has c.toNat

/-! ### The sweep -/

/-- What `nextBound` finds is a bound of either list, and no bound is below it. -/
private theorem nextBound_spec {a b : List Nat} (ha : a.Pairwise (· < ·))
    (hb : b.Pairwise (· < ·)) :
    match nextBound a b with
    | none => a = [] ∧ b = []
    | some n => (∀ k ∈ a, n ≤ k) ∧ (∀ k ∈ b, n ≤ k) ∧ (n ∈ a ∨ n ∈ b) := by
  cases a <;> cases b <;> simp_all [nextBound] <;> grind

/-- Crossing takes one bound away at most, and leaves ascending bounds above `n`. -/
private theorem cross_spec {n : Nat} {x : Bool} {a : List Nat} (ha : a.Pairwise (· < ·))
    (hn : ∀ k ∈ a, n ≤ k) :
    (cross n x a).2.Pairwise (· < ·) ∧ (∀ k ∈ (cross n x a).2, n < k ∧ k ∈ a) ∧
      (cross n x a).2.length + (if n ∈ a then 1 else 0) = a.length ∧
      (∀ m, n ≤ m → insideAfter (cross n x a).1 (cross n x a).2 m = insideAfter x a m) ∧
      ∀ m, m < n → insideAfter x a m = x := by
  cases a with
  | nil => simp [cross, insideAfter]
  | cons c rest =>
    have hc := List.pairwise_cons.1 ha
    by_cases h : c = n
    · subst h
      simp only [cross, if_true]
      refine ⟨hc.2, fun k hk => ⟨hc.1 k hk, by simp [hk]⟩, by simp, fun m hm => ?_, fun m hm => ?_⟩
      · rw [insideAfter, if_neg (by omega)]
      · rw [insideAfter, if_pos hm]
    · have hlt : n < c := Nat.lt_of_le_of_ne (hn c (by simp)) (Ne.symm h)
      have hmem : n ∉ c :: rest := by
        intro hm
        rcases List.mem_cons.1 hm with rfl | hm
        · exact h rfl
        · have := hc.1 n hm
          omega
      simp only [cross, if_neg h]
      refine ⟨ha, fun k hk => ⟨?_, hk⟩, by simp [hmem], fun _ _ => trivial, fun m hm => ?_⟩
      · rcases List.mem_cons.1 hk with rfl | hk
        · exact hlt
        · exact Nat.lt_trans hlt (hc.1 k hk)
      · rw [insideAfter, if_pos (by omega)]

/-- Before the first bound nothing changes. -/
private theorem insideAfter_of_lt {x : Bool} {l : List Nat} {n : Nat} (h : ∀ k ∈ l, n < k) :
    insideAfter x l n = x := by
  cases l with
  | nil => rfl
  | cons b rest => rw [insideAfter, if_pos (h b (by simp))]

/-- Every bound of a sweep is a bound of one of the lists. -/
private theorem mem_sweep {op : Bool → Bool → Bool} {fuel : Nat} {x y : Bool} {a b : List Nat}
    (ha : a.Pairwise (· < ·)) (hb : b.Pairwise (· < ·)) {k : Nat} (h : k ∈ sweep op fuel x y a b) :
    k ∈ a ∨ k ∈ b := by
  induction fuel generalizing x y a b with
  | zero => simp [sweep] at h
  | succ fuel ih =>
    have next := nextBound_spec ha hb
    rw [sweep] at h
    split at h
    next => simp at h
    next n hn =>
      rw [hn] at next
      have ca := cross_spec (x := x) ha next.1
      have cb := cross_spec (x := y) hb next.2.1
      have rest : k ∈ sweep op fuel (cross n x a).1 (cross n y b).1 (cross n x a).2
          (cross n y b).2 → k ∈ a ∨ k ∈ b := fun h =>
        (ih ca.1 cb.1 h).imp (fun h => (ca.2.1 k h).2) (fun h => (cb.2.1 k h).2)
      dsimp only at h
      split at h
      · exact rest h
      · rcases List.mem_cons.1 h with rfl | h
        · exact next.2.2
        · exact rest h

/-- The bounds of a sweep ascend. -/
theorem pairwise_sweep (op : Bool → Bool → Bool) (fuel : Nat) (x y : Bool) {a b : List Nat}
    (ha : a.Pairwise (· < ·)) (hb : b.Pairwise (· < ·)) :
    (sweep op fuel x y a b).Pairwise (· < ·) := by
  induction fuel generalizing x y a b with
  | zero => exact .nil
  | succ fuel ih =>
    have next := nextBound_spec ha hb
    rw [sweep]
    split
    next => exact .nil
    next n hn =>
      rw [hn] at next
      have ca := cross_spec (x := x) ha next.1
      have cb := cross_spec (x := y) hb next.2.1
      dsimp only
      split
      · exact ih _ _ ca.1 cb.1
      · refine List.pairwise_cons.2 ⟨fun k hk => ?_, ih _ _ ca.1 cb.1⟩
        rcases mem_sweep ca.1 cb.1 hk with h | h
        · exact (ca.2.1 k h).1
        · exact (cb.2.1 k h).1

/-- A sweep with enough fuel tells what the operation tells. -/
private theorem insideAfter_sweep {op : Bool → Bool → Bool} {fuel : Nat} {x y : Bool}
    {a b : List Nat} (ha : a.Pairwise (· < ·)) (hb : b.Pairwise (· < ·))
    (hf : a.length + b.length ≤ fuel) (m : Nat) :
    insideAfter (op x y) (sweep op fuel x y a b) m =
      op (insideAfter x a m) (insideAfter y b m) := by
  induction fuel generalizing x y a b with
  | zero =>
    have h₁ : a = [] := List.length_eq_zero_iff.1 (by omega)
    have h₂ : b = [] := List.length_eq_zero_iff.1 (by omega)
    simp [h₁, h₂, sweep, insideAfter]
  | succ fuel ih =>
    have next := nextBound_spec ha hb
    rw [sweep]
    split
    next hn =>
      rw [hn] at next
      simp [next.1, next.2, insideAfter]
    next n hn =>
      rw [hn] at next
      have ca := cross_spec (x := x) ha next.1
      have cb := cross_spec (x := y) hb next.2.1
      have less : (cross n x a).2.length + (cross n y b).2.length ≤ fuel := by
        have h₁ := ca.2.2.1
        have h₂ := cb.2.2.1
        rcases next.2.2 with h | h <;> simp only [h, if_true] at h₁ h₂ <;> omega
      have above : ∀ k ∈ sweep op fuel (cross n x a).1 (cross n y b).1 (cross n x a).2
          (cross n y b).2, n < k := fun k hk =>
        (mem_sweep ca.1 cb.1 hk).elim (fun h => (ca.2.1 k h).1) (fun h => (cb.2.1 k h).1)
      have step := ih (x := (cross n x a).1) (y := (cross n y b).1) ca.1 cb.1 less
      dsimp only
      by_cases hm : n ≤ m
      · rw [← ca.2.2.2.1 m hm, ← cb.2.2.2.1 m hm, ← step]
        split
        next h => rw [h]
        next h =>
          rw [insideAfter, if_neg (by omega)]
          congr 1
          cases h₁ : op x y <;> cases h₂ : op (cross n x a).1 (cross n y b).1 <;> simp_all
      · have hm : m < n := by omega
        rw [ca.2.2.2.2 m hm, cb.2.2.2.2 m hm]
        split
        next => exact insideAfter_of_lt fun k hk => Nat.lt_trans hm (above k hk)
        next => rw [insideAfter, if_pos hm]

/-! ### Operations -/

/-- The code points for which an operation on the two memberships holds. What is outside both sets
has to be outside the result. -/
def combine (op : Bool → Bool → Bool) (s t : CharSet) : CharSet :=
  ⟨sweep op (s.bounds.length + t.bounds.length) false false s.bounds t.bounds,
    pairwise_sweep op _ _ _ s.ascending t.ascending⟩

/-- A combination contains what the operation says. -/
theorem has_combine {op : Bool → Bool → Bool} (h : op false false = false) (s t : CharSet)
    (n : Nat) : (combine op s t).has n = op (s.has n) (t.has n) := by
  have outside : insideAfter (op false false) (combine op s t).bounds n = op (s.has n) (t.has n) :=
    insideAfter_sweep s.ascending t.ascending (Nat.le_refl _) n
  rwa [h] at outside

theorem contains_combine {op : Bool → Bool → Bool} (h : op false false = false) (s t : CharSet)
    (c : Char) : (combine op s t).contains c = op (s.contains c) (t.contains c) :=
  has_combine h s t c.toNat

/-- No character. -/
def empty : CharSet := ⟨[], .nil⟩

/-- The code points of a range, both ends included. -/
def codes (low high : Nat) : CharSet :=
  if low ≤ high then ofBounds [low, high + 1] else empty

/-- The surrogates. -/
def surrogates : CharSet := codes 0xD800 0xDFFF

/-- The set without surrogates at the end of a range. They stay where a range runs across them. -/
def trim (s : CharSet) : CharSet :=
  if s.has 0xD7FF && s.has 0xE000 && s.has 0xD800 then s
  else combine (fun x y => x && !y) s surrogates

/-- The characters of either set. -/
def union (s t : CharSet) : CharSet := combine (· || ·) s t

/-- The characters of both sets. -/
def inter (s t : CharSet) : CharSet := combine (· && ·) s t

/-- The characters of the first set that the second does not have. -/
def diff (s t : CharSet) : CharSet := (combine (fun x y => x && !y) s t).trim

/-- The characters of exactly one of two sets. -/
def symmDiff (s t : CharSet) : CharSet := (combine (· != ·) s t).trim

/-- All characters. -/
def all : CharSet := codes 0 0x10FFFF

/-- Whether a set has the characters on both sides of the surrogates, but no range across them. -/
def isSplit (s : CharSet) : Bool := s.has 0xD7FF && !s.has 0xD800 && s.has 0xE000

/-- The characters that are not in the set. A set that is split at the surrogates leaves a gap there
that holds no character; the two characters next to it are taken for its ends. -/
def complement (s : CharSet) : CharSet :=
  if s.isSplit then (all.diff s).union (codes 0xD7FF 0xE000) else all.diff s

theorem has_codes (low high n : Nat) : (codes low high).has n = (low ≤ n && n ≤ high) := by
  rw [codes]
  split
  · simp only [has, ofBounds, ascend, Nat.zero_le, if_true, insideAfter, Nat.succ_le_succ_iff, *]
    grind
  · simp [has, empty, insideAfter]
    omega

@[simp] theorem contains_empty (c : Char) : empty.contains c = false := rfl

@[simp] theorem contains_surrogates (c : Char) : surrogates.contains c = false := by
  have h := c.valid
  simp only [UInt32.isValidChar, Nat.isValidChar] at h
  simp only [contains, surrogates, has_codes, Char.toNat]
  grind

@[simp] theorem contains_trim (s : CharSet) (c : Char) : s.trim.contains c = s.contains c := by
  rw [trim]
  split
  · rfl
  · simp [contains_combine]

@[simp] theorem contains_union (s t : CharSet) (c : Char) :
    (s.union t).contains c = (s.contains c || t.contains c) := contains_combine rfl s t c

@[simp] theorem contains_inter (s t : CharSet) (c : Char) :
    (s.inter t).contains c = (s.contains c && t.contains c) := contains_combine rfl s t c

@[simp] theorem contains_diff (s t : CharSet) (c : Char) :
    (s.diff t).contains c = (s.contains c && !t.contains c) := by
  rw [diff, contains_trim, contains_combine rfl]

@[simp] theorem contains_symmDiff (s t : CharSet) (c : Char) :
    (s.symmDiff t).contains c = (s.contains c != t.contains c) := by
  rw [symmDiff, contains_trim, contains_combine rfl]

@[simp] theorem contains_all (c : Char) : all.contains c = true := by
  have h := c.valid
  simp only [UInt32.isValidChar, Nat.isValidChar] at h
  simp only [contains, all, has_codes, Char.toNat]
  grind

/-- The complement contains the other characters, unless the set is split at the surrogates. -/
theorem contains_complement {s : CharSet} (h : s.isSplit = false) (c : Char) :
    s.complement.contains c = !s.contains c := by
  simp [complement, h]

/-! ### Sets from members -/

/-- One character. -/
def single (c : Char) : CharSet := codes c.toNat c.toNat

/-- All characters between two, both included. -/
def range (low high : Char) : CharSet := codes low.toNat high.toNat

/-- The union of many sets. -/
def unions (sets : List CharSet) : CharSet := sets.foldl union empty

/-- The union of ranges of code points. -/
def ofRanges (ranges : List (Nat × Nat)) : CharSet :=
  unions (ranges.map fun (low, high) => codes low high)

/-- Bounds without those at which membership changes twice. -/
def cancel : List Nat → List Nat
  | a :: b :: rest => if a = b then cancel rest else a :: cancel (b :: rest)
  | l => l

/-- The set of some code points. -/
def ofMembers (members : List Nat) : CharSet :=
  ofBounds (cancel ((ascend 0 members.mergeSort).flatMap fun n => [n, n + 1]))

/-- The ranges between bounds; the last one may be open. -/
def rangesOf : List Nat → List (Nat × Nat)
  | low :: next :: rest => (low, next - 1) :: rangesOf rest
  | [low] => [(low, 0x10FFFF)]
  | [] => []

/-- The ranges of a set, in ascending order. -/
def ranges (s : CharSet) : List (Nat × Nat) := rangesOf s.bounds

@[simp] theorem contains_single (c d : Char) : (single c).contains d = (d == c) := by
  rw [contains, single, has_codes, Bool.eq_iff_iff]
  simp only [Bool.and_eq_true, decide_eq_true_eq, beq_iff_eq]
  exact ⟨fun h => Char.toNat_inj.1 (Nat.le_antisymm h.2 h.1), fun h => by simp [h]⟩

@[simp] theorem contains_range (low high c : Char) :
    (range low high).contains c = (low ≤ c && c ≤ high) := has_codes ..

end CharSet

end Formulary.Text
