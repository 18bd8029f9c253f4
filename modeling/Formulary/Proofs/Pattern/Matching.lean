import Formulary.Pattern.Reach
import Mathlib.Logic.Function.Iterate

/-!
# What matching finds

The positions of a text that a pattern reaches are computed by bits of numbers, with rounds that are
cut short. This file says that they are the positions that the description of patterns gives: a
pattern leads from one position to another if it describes the characters between them.

A repetition without an upper bound is computed with one that depends on the length of the text.
Nothing is lost by it, as rounds that take no character can be left out.

## Main definitions

* `Pattern.Bounded` — no repetition wants more times than it allows
* `Pattern.Spans` — a pattern describes the characters between two positions

## Main results

* `Pattern.exists_copies_le` — rounds that take nothing can be left out
* `Pattern.goesBy_reach` — what a pattern reaches
* `Pattern.occursIn_iff` — a pattern occurs in a text if it describes a part of it
* `Pattern.occursIn_between_iff` — between anchors it has to describe the whole text
-/

namespace Formulary.Pattern

open Positions

/-! ### Patterns between positions -/

/-- No repetition wants more times than it allows. -/
def Bounded : Pattern → Prop
  | empty | chars .. | look _ => True
  | seq p q | alt p q => p.Bounded ∧ q.Bounded
  | times least most _ p => (∀ m ∈ most, least ≤ m) ∧ p.Bounded
  | group _ p => p.Bounded

/-- The pattern describes the characters of the text between two positions. -/
def Spans (text : List Char) (p : Pattern) (i j : Nat) : Prop :=
  ∃ before u after, text = before ++ u ++ after ∧ before.length = i ∧ (before ++ u).length = j ∧
    Matches p before.reverse u after

section

variable {text : List Char} {p q : Pattern} {i j : Nat}

theorem Spans.le (h : Spans text p i j) : i ≤ j := by
  obtain ⟨before, u, after, -, rfl, rfl, -⟩ := h
  simp

theorem Spans.le_length (h : Spans text p i j) : j ≤ text.length := by
  obtain ⟨before, u, after, rfl, -, rfl, -⟩ := h
  simp

theorem spans_empty_iff : Spans text empty i j ↔ i = j ∧ j ≤ text.length := by
  constructor
  · rintro ⟨before, u, after, rfl, rfl, rfl, h⟩
    cases h
    simp
  · rintro ⟨rfl, hi⟩
    have hlen : (text.take i).length = i := List.length_take_of_le hi
    exact ⟨text.take i, [], text.drop i, by simp, hlen, by rw [List.append_nil, hlen], .empty _ _⟩

theorem spans_chars_iff {set : Text.CharSet} {depth : Nat} :
    Spans text (chars set depth) i j ↔
      j = i + 1 ∧ ∃ c, text[i]? = some c ∧ set.contains c = true := by
  constructor
  · rintro ⟨before, u, after, rfl, rfl, rfl, h⟩
    cases h with
    | chars depth before after hc => exact ⟨by simp, _, by simp, hc⟩
  · rintro ⟨rfl, c, hc, hset⟩
    obtain ⟨hi, rfl⟩ := List.getElem?_eq_some_iff.mp hc
    have hlen : (text.take i).length = i := List.length_take_of_le (Nat.le_of_lt hi)
    refine ⟨text.take i, [text[i]], text.drop (i + 1), ?_, hlen, ?_, .chars _ _ _ hset⟩
    · simp
    · rw [List.length_append, hlen, List.length_singleton]

theorem spans_look_iff {l : Look} : Spans text (look l) i j ↔ i = j ∧ j ≤ text.length ∧
    l.holds (text.take j).getLast? text[j]? = true := by
  constructor
  · rintro ⟨before, u, after, rfl, rfl, rfl, h⟩
    cases h with
    | look h =>
      refine ⟨by simp, by simp, ?_⟩
      rw [List.head?_reverse] at h
      simpa [← List.head?_drop] using h
  · rintro ⟨rfl, hi, h⟩
    have hlen : (text.take i).length = i := List.length_take_of_le hi
    refine ⟨text.take i, [], text.drop i, by simp, hlen, by rw [List.append_nil, hlen], .look ?_⟩
    simpa using h

theorem spans_seq_iff :
    Spans text (seq p q) i j ↔ ∃ k, Spans text p i k ∧ Spans text q k j := by
  constructor
  · rintro ⟨before, w, after, htext, rfl, rfl, h⟩
    cases h with
    | @seq _ _ _ u v _ hp hq =>
      refine ⟨(before ++ u).length, ⟨before, u, v ++ after, ?_, rfl, rfl, hp⟩,
        ⟨before ++ u, v, after, ?_, rfl, ?_, ?_⟩⟩
      · simp [htext]
      · simp [htext]
      · simp
      · simpa using hq
  · rintro ⟨k, ⟨before, u, rest, htext, rfl, rfl, hp⟩, ⟨front, v, after, htext', hfront, rfl, hq⟩⟩
    rw [htext, List.append_assoc front] at htext'
    obtain ⟨rfl, rfl⟩ := List.append_inj htext' hfront.symm
    refine ⟨before, u ++ v, after, ?_, rfl, ?_, .seq hp ?_⟩
    · simp [htext]
    · simp
    · simpa using hq

theorem spans_alt_iff : Spans text (alt p q) i j ↔ Spans text p i j ∨ Spans text q i j := by
  constructor
  · rintro ⟨before, u, after, htext, hi, hj, h⟩
    cases h with
    | altLeft _ h => exact Or.inl ⟨before, u, after, htext, hi, hj, h⟩
    | altRight _ h => exact Or.inr ⟨before, u, after, htext, hi, hj, h⟩
  · rintro (⟨before, u, after, htext, hi, hj, h⟩ | ⟨before, u, after, htext, hi, hj, h⟩)
    · exact ⟨before, u, after, htext, hi, hj, .altLeft _ h⟩
    · exact ⟨before, u, after, htext, hi, hj, .altRight _ h⟩

theorem spans_times_iff {least : Nat} {most : Option Nat} {lazy : Bool} :
    Spans text (times least most lazy p) i j ↔
      ∃ n, least ≤ n ∧ (∀ m ∈ most, n ≤ m) ∧ Spans text (copies p n) i j := by
  constructor
  · rintro ⟨before, u, after, htext, hi, hj, h⟩
    cases h with
    | times _ hl hm h => exact ⟨_, hl, hm, before, u, after, htext, hi, hj, h⟩
  · rintro ⟨n, hl, hm, before, u, after, htext, hi, hj, h⟩
    exact ⟨before, u, after, htext, hi, hj, .times _ hl hm h⟩

theorem spans_group_iff {kind : GroupKind} : Spans text (group kind p) i j ↔ Spans text p i j := by
  constructor
  · rintro ⟨before, u, after, htext, hi, hj, h⟩
    cases h with
    | group _ h => exact ⟨before, u, after, htext, hi, hj, h⟩
  · rintro ⟨before, u, after, htext, hi, hj, h⟩
    exact ⟨before, u, after, htext, hi, hj, .group _ h⟩

end

/-! ### Rounds -/

/-- **Rounds that take nothing can be left out**, so that at most one is there for a character. -/
theorem exists_copies_le {text : List Char} {p : Pattern} {n i j : Nat}
    (h : Spans text (copies p n) i j) : ∃ k ≤ n, k ≤ j - i ∧ Spans text (copies p k) i j := by
  induction n generalizing i with
  | zero => exact ⟨0, Nat.le_refl 0, Nat.zero_le _, h⟩
  | succ n ih =>
    obtain ⟨a, hp, hrest⟩ := spans_seq_iff.mp h
    obtain ⟨k, hkn, hkj, hk⟩ := ih hrest
    by_cases hstay : a = i
    · exact ⟨k, Nat.le_succ_of_le hkn, hstay ▸ hkj, hstay ▸ hk⟩
    · have hia := hp.le
      have haj := hrest.le
      exact ⟨k + 1, by omega, by omega, spans_seq_iff.mpr ⟨a, hp, hk⟩⟩

/-- Rounds up to the first one that changes nothing come to the same as all rounds. -/
theorem iterate_eq (f : Positions → Positions) (n : Nat) (s : Positions) :
    Positions.iterate f n s = f^[n] s := by
  induction n generalizing s with
  | zero => rfl
  | succ n ih =>
    rw [Positions.iterate, Function.iterate_succ_apply]
    split
    · next hfix => rw [hfix, Function.iterate_fixed hfix]
    · exact ih (f s)

/-- Positions of a text. -/
def Inside (text : List Char) (s : Positions) : Prop :=
  ∀ i, s.testBit i = true → i ≤ text.length

/-- A step between sets of positions goes by a pattern. -/
def GoesBy (text : List Char) (p : Pattern) (f : Positions → Positions) : Prop :=
  ∀ s, Inside text s → ∀ j, (f s).testBit j = true ↔ ∃ i, s.testBit i = true ∧ Spans text p i j

namespace GoesBy

variable {text : List Char} {p : Pattern} {f : Positions → Positions}

theorem inside (hf : GoesBy text p f) {s : Positions} (hs : Inside text s) : Inside text (f s) := by
  intro j hj
  obtain ⟨i, -, hij⟩ := (hf s hs j).mp hj
  exact hij.le_length

/-- Where no step is made, the empty pattern goes from every position to itself. -/
theorem empty : GoesBy text .empty fun s => s := by
  intro s hs j
  simp only [spans_empty_iff]
  constructor
  · intro hj
    exact ⟨j, hj, rfl, hs j hj⟩
  · rintro ⟨i, hi, rfl, -⟩
    exact hi

/-- Several rounds go by as many copies. -/
theorem iterate (hf : GoesBy text p f) (n : Nat) :
    GoesBy text (copies p n) (Positions.iterate f n) := by
  intro s hs j
  rw [iterate_eq]
  induction n generalizing s with
  | zero => exact GoesBy.empty s hs j
  | succ n ih =>
    rw [Function.iterate_succ_apply, ih (f s) (hf.inside hs)]
    simp only [hf s hs, copies, spans_seq_iff]
    constructor
    · rintro ⟨k, ⟨i, hi, hik⟩, hkj⟩
      exact ⟨i, hi, k, hik, hkj⟩
    · rintro ⟨i, hi, k, hik, hkj⟩
      exact ⟨k, ⟨i, hi, hik⟩, hkj⟩

/-- Rounds that keep what they have reached go by at most as many copies. -/
theorem testBit_within (hf : GoesBy text p f) (n : Nat) {s : Positions} (hs : Inside text s)
    (j : Nat) : (within f n s).testBit j = true ↔
      ∃ i, s.testBit i = true ∧ ∃ k ≤ n, Spans text (copies p k) i j := by
  rw [within, iterate_eq]
  induction n generalizing s with
  | zero =>
    simp only [Nat.le_zero, exists_eq_left]
    exact GoesBy.empty s hs j
  | succ n ih =>
    have hnext : Inside text (s ||| f s) := by
      intro i hi
      rw [Nat.testBit_or, Bool.or_eq_true] at hi
      rcases hi with hi | hi
      · exact hs i hi
      · exact hf.inside hs i hi
    rw [Function.iterate_succ_apply, ih hnext]
    simp only [Nat.testBit_or, Bool.or_eq_true, hf s hs]
    constructor
    · rintro ⟨a, ha | ⟨i, hi, hia⟩, k, hk, haj⟩
      · exact ⟨a, ha, k, Nat.le_succ_of_le hk, haj⟩
      · exact ⟨i, hi, k + 1, Nat.succ_le_succ hk, spans_seq_iff.mpr ⟨a, hia, haj⟩⟩
    · rintro ⟨i, hi, k, hk, hij⟩
      cases k with
      | zero => exact ⟨i, Or.inl hi, 0, Nat.zero_le n, hij⟩
      | succ k =>
        obtain ⟨a, hia, haj⟩ := spans_seq_iff.mp hij
        exact ⟨a, Or.inr ⟨i, hi, hia⟩, k, Nat.le_of_succ_le_succ hk, haj⟩

end GoesBy

/-! ### Patterns -/

section

variable {text : List Char} {p : Pattern}

theorem spans_copies_add_iff {m n i j : Nat} : Spans text (copies p (m + n)) i j ↔
    ∃ k, Spans text (copies p m) i k ∧ Spans text (copies p n) k j := by
  induction m generalizing i with
  | zero =>
    simp only [Nat.zero_add, copies, spans_empty_iff]
    constructor
    · intro h
      exact ⟨i, ⟨rfl, Nat.le_trans h.le h.le_length⟩, h⟩
    · rintro ⟨k, ⟨rfl, -⟩, h⟩
      exact h
  | succ m ih =>
    simp only [Nat.succ_add, copies, spans_seq_iff, ih]
    constructor
    · rintro ⟨a, hia, k, hak, hkj⟩
      exact ⟨k, ⟨a, hia, hak⟩, hkj⟩
    · rintro ⟨k, ⟨a, hia, hak⟩, hkj⟩
      exact ⟨a, hia, k, hak, hkj⟩

/-- The least number of rounds, and further ones within the bound, are all rounds that a repetition
allows. -/
theorem spans_times_split {least : Nat} {most : Option Nat} {lazy : Bool}
    (hmost : ∀ m ∈ most, least ≤ m) {i j : Nat} : Spans text (times least most lazy p) i j ↔
      ∃ a, Spans text (copies p least) i a ∧
        ∃ k ≤ most.getD (least + text.length + 1) - least, Spans text (copies p k) a j := by
  rw [spans_times_iff]
  constructor
  · rintro ⟨n, hleast, hn, h⟩
    obtain ⟨k, rfl⟩ := Nat.exists_eq_add_of_le hleast
    obtain ⟨a, hia, haj⟩ := spans_copies_add_iff.mp h
    refine ⟨a, hia, ?_⟩
    cases most with
    | some m =>
      have hk := hn m rfl
      exact ⟨k, by rw [Option.getD_some]; omega, haj⟩
    | none =>
      obtain ⟨l, -, hl, haj⟩ := exists_copies_le haj
      have hj := haj.le_length
      exact ⟨l, by rw [Option.getD_none]; omega, haj⟩
  · rintro ⟨a, hia, k, hk, haj⟩
    refine ⟨least + k, Nat.le_add_right .., fun m hm => ?_, spans_copies_add_iff.mpr ⟨a, hia, haj⟩⟩
    obtain rfl := hm
    have hm := hmost m rfl
    rw [Option.getD_some] at hk
    omega

theorem getElem?_gaps {i : Nat} (hi : i ≤ text.length) :
    (Look.gaps text)[i]? = some ((text.take i).getLast?, text[i]?) := by
  rw [Look.gaps, List.getElem?_zip_eq_some]
  constructor
  · cases i with
    | zero => simp
    | succ i => simp [List.getLast?_take, List.getElem?_eq_getElem hi]
  · rcases Nat.lt_or_eq_of_le hi with hi | rfl
    · simp [List.getElem?_append_left, hi]
    · simp

theorem goesBy_chars (set : Text.CharSet) (depth : Nat) :
    GoesBy text (chars set depth) ((chars set depth).reach text) := by
  intro s hs j
  rw [reach_chars]
  simp only [spans_chars_iff]
  cases j with
  | zero =>
    rw [testBit_advance_zero]
    simp
  | succ j =>
    rw [testBit_advance_succ, Nat.testBit_and, testBit_ofList, Bool.and_eq_true]
    constructor
    · rintro ⟨hj, hset⟩
      cases hc : text[j]? with
      | none => simp [hc] at hset
      | some c => exact ⟨j, hj, rfl, c, hc, by simpa [hc] using hset⟩
    · rintro ⟨i, hi, hij, c, hc, hset⟩
      obtain rfl : j = i := Nat.succ.inj hij
      exact ⟨hi, by simp [hc, hset]⟩

theorem goesBy_look (l : Look) : GoesBy text (look l) ((look l).reach text) := by
  intro s hs j
  rw [reach_look, Nat.testBit_and, testBit_ofList, Bool.and_eq_true]
  simp only [spans_look_iff]
  constructor
  · rintro ⟨hj, hholds⟩
    refine ⟨j, hj, rfl, hs j hj, ?_⟩
    simpa [getElem?_gaps (hs j hj)] using hholds
  · rintro ⟨i, hi, rfl, hlen, hholds⟩
    exact ⟨hi, by simpa [getElem?_gaps hlen] using hholds⟩

/-- **What a pattern reaches** are the positions that it spans the text to. -/
theorem goesBy_reach (hp : p.Bounded) : GoesBy text p (p.reach text) := by
  induction p with
  | empty => exact GoesBy.empty
  | chars set depth => exact goesBy_chars set depth
  | look l => exact goesBy_look l
  | seq p q ihp ihq =>
    intro s hs j
    rw [reach_seq, ihq hp.2 _ ((ihp hp.1).inside hs)]
    simp only [ihp hp.1 s hs, spans_seq_iff]
    constructor
    · rintro ⟨k, ⟨i, hi, hik⟩, hkj⟩
      exact ⟨i, hi, k, hik, hkj⟩
    · rintro ⟨i, hi, k, hik, hkj⟩
      exact ⟨k, ⟨i, hi, hik⟩, hkj⟩
  | alt p q ihp ihq =>
    intro s hs j
    rw [reach_alt, Nat.testBit_or, Bool.or_eq_true, ihp hp.1 s hs, ihq hp.2 s hs]
    simp only [spans_alt_iff, and_or_left, exists_or]
  | times least most lazy p ih =>
    intro s hs j
    have hleast := (ih hp.2).iterate least
    rw [reach_times, (ih hp.2).testBit_within _ (hleast.inside hs)]
    simp only [hleast s hs, spans_times_split hp.1]
    constructor
    · rintro ⟨a, ⟨i, hi, hia⟩, haj⟩
      exact ⟨i, hi, a, hia, haj⟩
    · rintro ⟨i, hi, a, hia, haj⟩
      exact ⟨a, ⟨i, hi, hia⟩, haj⟩
  | group kind p ih =>
    intro s hs j
    rw [reach_group, ih hp s hs]
    simp only [spans_group_iff]

/-- **A pattern occurs in a text if it describes a part of it.** -/
theorem occursIn_iff (hp : p.Bounded) : p.occursIn text = true ↔
    ∃ before u after, text = before ++ u ++ after ∧ Matches p before.reverse u after := by
  have hall : ∀ i, (ofList (List.replicate (text.length + 1) true)).testBit i = true ↔
      i ≤ text.length := by
    intro i
    rw [testBit_ofList, List.getD_eq_getElem?_getD, List.getElem?_replicate, ← Nat.lt_succ_iff]
    split <;> simp [*]
  have hgoes : GoesBy text p (p.reach text) := goesBy_reach hp
  have hreach := hgoes _ fun i hi => (hall i).mp hi
  rw [occursIn, bne_iff_ne, Ne]
  constructor
  · intro hne
    obtain ⟨j, hj⟩ := Nat.exists_testBit_of_ne_zero hne
    obtain ⟨i, -, before, u, after, htext, -, -, h⟩ := (hreach j).mp hj
    exact ⟨before, u, after, htext, h⟩
  · rintro ⟨before, u, after, rfl, h⟩ hzero
    have hj := (hreach (before ++ u).length).mpr
      ⟨before.length, (hall _).mpr (by simp), before, u, after, rfl, rfl, rfl, h⟩
    rw [hzero, Nat.zero_testBit] at hj
    exact absurd hj Bool.false_ne_true

/-! ### Between anchors -/

/-- A pattern between anchors for the start and the end of a text. -/
def between (q : Pattern) : Pattern := sequence [look .start, group .plain q, look .stop]

theorem bounded_between (hp : p.Bounded) : (between p).Bounded := ⟨trivial, hp, trivial⟩

theorem matches_between_iff {before u after : List Char} :
    Matches (between p) before u after ↔ before = [] ∧ after = [] ∧ Matches p [] u [] := by
  constructor
  · intro h
    cases h with
    | seq hstart h =>
      cases h with
      | seq h hstop =>
        cases hstart with
        | look hstart =>
          cases hstop with
          | look hstop =>
            cases h with
            | group _ h =>
              have hbefore : before = [] := by simpa [Look.holds] using hstart
              have hafter : after = [] := by simpa [Look.holds] using hstop
              subst hbefore hafter
              exact ⟨rfl, rfl, by simpa using h⟩
  · rintro ⟨rfl, rfl, h⟩
    have hstop : Matches (look .stop) (u.reverse ++ []) [] [] := .look rfl
    have hrest := Matches.seq (.group .plain (by simpa using h)) hstop
    have hstart : Matches (look .start) [] [] ((u ++ []) ++ []) := .look rfl
    show Matches (seq (look .start) (seq (group .plain p) (look .stop))) [] u []
    simpa using Matches.seq hstart hrest

/-- **Between anchors a pattern has to describe the whole text.** -/
theorem occursIn_between_iff (hp : p.Bounded) :
    (between p).occursIn text = true ↔ Matches p [] text [] := by
  rw [occursIn_iff (bounded_between hp)]
  simp only [matches_between_iff]
  constructor
  · rintro ⟨before, u, after, rfl, hbefore, rfl, h⟩
    rw [List.reverse_eq_nil_iff] at hbefore
    simpa [hbefore] using h
  · intro h
    exact ⟨[], text, [], by simp, rfl, rfl, h⟩

end

end Formulary.Pattern
