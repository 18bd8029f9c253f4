import Formulary.Proofs.Pattern.Nesting
import Formulary.Library.Strings

/-!
# Putting a pattern between anchors

Whether a pattern describes a whole text is found out by putting the text of the pattern between
anchors, in a group. This is right as long as the pattern is read in the group as it is read by
itself. The text of a pattern can interfere with that in three ways: it may close the group, it may
end in a comment that takes in the end of the group, and it may be so close to the limits that the
group and the anchors break them. In all other cases nothing changes, since patterns are read
locally: the same pattern is read, or none is.

## Scope

Nothing is said of what a pattern that closes the group comes to mean. It may be refused, or it may
be taken for a pattern that it is not, as `a)|(?:b` is.

## Main definitions

* `Pattern.ClosesOutside`, `Pattern.EndsInComment`, `Pattern.NearLimits` — the three ways

## Main results

* `Pattern.anchored?_eq` — anchors leave all other patterns alone
* `Pattern.anchored?_of_endsInComment` — a pattern that ends in a comment is refused
* `Library.describes_iff_matches` — whether a whole text fits a pattern
-/

namespace Formulary.Pattern

open Text Escape

/-! ### Reading what is put between anchors -/

/-- The branches after the anchor at the start. -/
def opened : Branches := { parts := [look .start] }

/-- A pattern between anchors is read as a group between anchors, and the group is read with the
next smaller bound on the depth of groups. -/
theorem levels_between (budget : Nat) (cs : List Char) :
    levels (budget + 1) {} ("^(?:".toList ++ cs) =
      ((levels budget {} cs).bind fun x => groupEnd? {} opened .plain x.1 x.2).bind fun x =>
        match x.1 with
        | .inl q => some (q, x.2)
        | .inr s => steps (fun s cs => step? s.1 (levels budget) s.2 (s.1.skip cs))
            (cs.length + 3) s x.2 := by
  have hstart : step? {} (levels budget) {} ('^' :: '(' :: '?' :: ':' :: cs) =
      some (.inr ({}, opened), '(' :: '?' :: ':' :: cs) := rfl
  have hgroup : step? {} (levels budget) opened ('(' :: '?' :: ':' :: cs) =
      (levels budget {} cs).bind fun x => groupEnd? {} opened .plain x.1 x.2 := rfl
  have htext : "^(?:".toList ++ cs = '^' :: '(' :: '?' :: ':' :: cs := rfl
  have hskip : ∀ cs, Mode.skip {} cs = cs := fun _ => rfl
  rw [levels_succ, htext, List.length_cons, steps, List.length_cons]
  simp only [hskip, hstart, Option.bind_some]
  rw [steps, hskip, hgroup]
  refine Option.bind_congr fun x _ => ?_
  obtain ⟨q | s, rest⟩ := x <;> rfl

theorem levels_between_eq {budget : Nat} {cs : List Char} {q : Pattern}
    (h : levels budget {} cs = some (q, ")$".toList)) :
    levels (budget + 1) {} ("^(?:".toList ++ cs) = some (between q, []) := by
  rw [levels_between, h]
  rfl

/-- Where a pattern between anchors is read, the group has an end. -/
theorem exists_of_levels_between {budget : Nat} {cs : List Char} {y : Pattern × List Char}
    (h : levels (budget + 1) {} ("^(?:".toList ++ cs) = some y) :
    ∃ q rest, levels budget {} cs = some (q, ')' :: rest) := by
  rw [levels_between] at h
  obtain ⟨⟨x, r⟩, hx, -⟩ := Option.bind_eq_some_iff.mp h
  obtain ⟨⟨q, after⟩, hq, hend⟩ := Option.bind_eq_some_iff.mp hx
  obtain ⟨rfl, -⟩ := eq_of_groupEnd? {} hend
  exact ⟨q, r, hq⟩

/-! ### What is left alone -/

/-- A text that closes a group which it has not opened. -/
def ClosesOutside (p : List Char) : Prop :=
  ∃ q rest, levels (maxDepth + 1) {} p = some (q, ')' :: rest)

/-- A text that ends in a comment. What follows it is taken for part of the comment. -/
def EndsInComment (p : List Char) : Prop :=
  ∃ q, levels (maxDepth + 1) {} p = some (q, []) ∧
    levels (maxDepth + 1) {} (p ++ ")$".toList) = some (q, [])

/-- A text with room for neither of two further levels, or for which the anchors decide whether the
automaton is small enough. -/
def NearLimits (p : List Char) : Prop :=
  ∃ q, levels (maxDepth + 1) {} p = some (q, []) ∧
    (q.depth ≤ maxDepth ∧ maxDepth < q.depth + 2 ∨ q.fits ≠ (between q).fits)

theorem closing_stop : Closing ")$".toList := ⟨['$'], rfl, by decide⟩

theorem depth_between (q : Pattern) : (between q).depth = q.depth + 2 := by
  have hlast : (seq (group .plain q) (look .stop)).depth = q.depth + 2 := by
    simp only [depth]
    omega
  have hbetween : (between q).depth = max 1 (seq (group .plain q) (look .stop)).depth := rfl
  rw [hbetween, hlast]
  omega

theorem names_between (q : Pattern) : (between q).names = q.names := by
  simp [between, sequence, names]

/-- Away from the limits, anchors do not decide whether a pattern is within them. -/
theorem isSound_between {p : List Char} {q : Pattern} (hlimits : ¬NearLimits p)
    (h : levels (maxDepth + 1) {} p = some (q, [])) : (between q).isSound = q.isSound := by
  have hq : ¬(q.depth ≤ maxDepth ∧ maxDepth < q.depth + 2 ∨ q.fits ≠ (between q).fits) :=
    fun hq => hlimits ⟨q, h, hq⟩
  rw [not_or, not_not] at hq
  have hdepth : (q.depth + 2 ≤ maxDepth) = (q.depth ≤ maxDepth) := propext (by omega)
  simp only [isSound, depth_between, names_between, hq.2, hdepth]

theorem read?_of_levels {cs : List Char} {q : Pattern}
    (h : levels (maxDepth + 1) {} cs = some (q, [])) :
    read? cs = if q.isSound then some q else none := by
  rw [read?, h]

theorem read?_eq_none {cs : List Char} (h : ∀ q, levels (maxDepth + 1) {} cs ≠ some (q, [])) :
    read? cs = none := by
  rw [read?]
  split
  · next q heq => exact absurd heq (h q)
  · rfl

theorem anchored?_def (p : List Char) :
    anchored? p = read? ("^(?:".toList ++ (p ++ ")$".toList)) := by
  rw [anchored?, List.append_assoc]

/-- What does not denote anything as a group denotes nothing between anchors. -/
theorem anchored?_eq_none {p : List Char} (h : levels maxDepth {} p = none) :
    anchored? p = none := by
  rw [anchored?_def]
  refine read?_eq_none fun v hv => ?_
  obtain ⟨q, r, hq⟩ := exists_of_levels_between hv
  have hlocal := local_levels maxDepth {}
  have hsuffix := hlocal.ends _ q _ hq
  rcases suffix_append_cases hsuffix with ⟨r', hr⟩ | hlt
  · rw [hr] at hq
    rcases (hlocal.at_ p).restrict _ closing_stop q r' hq with hp | hp
    · exact absurd (h.symm.trans hp) nofun
    · exact hp
  · -- only the last character is left, and that is an anchor
    have hlength : r.length + 1 < 2 := hlt
    obtain rfl : r = [] := List.length_eq_zero_iff.mp (by omega)
    obtain ⟨front, hfront⟩ := hsuffix
    exact absurd (congrArg List.getLast? hfront) (by simp)

/-- **A text denotes the same between anchors**, if it does not close a group that it has not
opened, does not end in a comment and is not near the limits. -/
theorem anchored?_eq {p : List Char} (hcloses : ¬ClosesOutside p) (hcomment : ¬EndsInComment p)
    (hlimits : ¬NearLimits p) : anchored? p = (read? p).map between := by
  cases hp : levels maxDepth {} p with
  | none =>
    -- by itself the text may still be read, one level deeper than the limits allow
    have hread : read? p = none := by
      by_cases hq : ∃ q, levels (maxDepth + 1) {} p = some (q, [])
      · obtain ⟨q, hq⟩ := hq
        have hdepth : maxDepth ≤ q.depth := by
          by_contra hlt
          exact absurd (hp.symm.trans (levels_of_depth_lt hq (Nat.not_le.mp hlt))) nofun
        have hsound : (between q).isSound = false := by
          have hbetween : ¬(between q).depth ≤ maxDepth := by rw [depth_between]; omega
          simp [isSound, hbetween]
        rw [read?_of_levels hq, ← isSound_between hlimits hq, hsound]
        rfl
      · exact read?_eq_none fun q h => hq ⟨q, h⟩
    rw [anchored?_eq_none hp, hread, Option.map_none]
  | some x =>
    obtain ⟨q, rest⟩ := x
    have hmono := levels_mono (Nat.le_succ maxDepth) hp
    rcases closes_of_levels hp with rfl | ⟨rest, rfl⟩
    · rcases ((local_levels maxDepth {}).at_ p).extend q [] hp with hkept | ⟨-, hlost⟩
      · have hbetween : levels (maxDepth + 1) {} ("^(?:".toList ++ (p ++ ")$".toList)) =
            some (between q, []) := levels_between_eq (hkept _ closing_stop)
        rw [anchored?_def, read?_of_levels hbetween, read?_of_levels hmono,
          isSound_between hlimits hmono]
        split <;> rfl
      · exact absurd ⟨q, hmono, levels_mono (Nat.le_succ maxDepth) (hlost _ closing_stop)⟩ hcomment
    · exact absurd ⟨q, rest, hmono⟩ hcloses

/-- A pattern that ends in a comment is refused, whatever it denotes. -/
theorem anchored?_of_endsInComment {p : List Char} (h : EndsInComment p) : anchored? p = none := by
  obtain ⟨q, -, hlost⟩ := h
  rw [anchored?_def]
  refine read?_eq_none fun v hv => ?_
  obtain ⟨q', r, hq⟩ := exists_of_levels_between hv
  have hmono := levels_mono (Nat.le_succ maxDepth) hq
  exact absurd (hlost.symm.trans hmono) (by simp)

/-- What a text denotes is bounded. -/
theorem bounded_of_read? {p : List Char} {q : Pattern} (h : read? p = some q) : q.Bounded := by
  rw [read?] at h
  split at h
  · next q' heq =>
    split at h
    · exact Option.some.inj h ▸ bounded_of_levels heq
    · exact absurd h nofun
  · exact absurd h nofun

end Formulary.Pattern

namespace Formulary.Library

open Pattern

/-- **Whether a whole text fits a pattern** is refused exactly if the pattern denotes nothing, and
otherwise it is decided by what the pattern describes. -/
theorem describes_iff_matches {pattern : String} (hcloses : ¬ClosesOutside pattern.toList)
    (hcomment : ¬EndsInComment pattern.toList) (hlimits : ¬NearLimits pattern.toList) (s : String) :
    ((∃ message, describes s pattern = .error (.badPattern message)) ↔
        read? pattern.toList = none) ∧
      ∀ q, read? pattern.toList = some q →
        ∃ b, describes s pattern = .ok b ∧ (b = true ↔ q.Matches [] s.toList []) := by
  have hread : ∀ q, read? pattern.toList = some q →
      describes s pattern = .ok ((between q).occursIn s.toList) := fun q hq => by
    rw [describes, describes?, anchored?_eq hcloses hcomment hlimits, hq]
    rfl
  refine ⟨⟨?_, ?_⟩, fun q hq => ⟨_, hread q hq, occursIn_between_iff (bounded_of_read? hq)⟩⟩
  · rintro ⟨message, hmessage⟩
    rw [Option.eq_none_iff_forall_ne_some]
    intro q hq
    exact absurd ((hread q hq).symm.trans hmessage) nofun
  · intro hnone
    rw [describes, describes?, anchored?_eq hcloses hcomment hlimits, hnone]
    exact ⟨_, rfl⟩

/-- The whole of `ab` is neither of the two letters. -/
theorem describes_iff_matches_choice :
    (¬ClosesOutside "a|b".toList ∧ ¬EndsInComment "a|b".toList ∧ ¬NearLimits "a|b".toList) ∧
      ∃ q, read? "a|b".toList = some q ∧
        ∃ b, describes "ab" "a|b" = .ok b ∧ (b = true ↔ q.Matches [] "ab".toList []) := by
  have hlevels : levels (Pattern.maxDepth + 1) {} "a|b".toList =
      some (alt (chars (.single 'a') 0) (chars (.single 'b') 0), []) := rfl
  have hread : read? "a|b".toList = some (alt (chars (.single 'a') 0) (chars (.single 'b') 0)) :=
    rfl
  have hcloses : ¬ClosesOutside "a|b".toList := by
    rintro ⟨q, rest, h⟩
    exact absurd (hlevels.symm.trans h) (by simp)
  have hcomment : ¬EndsInComment "a|b".toList := by
    rintro ⟨q, -, h⟩
    have hclosing : levels (Pattern.maxDepth + 1) {} ("a|b".toList ++ ")$".toList) =
        some (alt (chars (.single 'a') 0) (chars (.single 'b') 0), ")$".toList) := rfl
    exact absurd (hclosing.symm.trans h) (by simp)
  have hlimits : ¬NearLimits "a|b".toList := by
    rintro ⟨q, h, hq⟩
    obtain ⟨rfl, -⟩ := Prod.mk.inj (Option.some.inj (hlevels.symm.trans h))
    exact absurd hq (by decide +kernel)
  exact ⟨⟨hcloses, hcomment, hlimits⟩, _, hread,
    (describes_iff_matches hcloses hcomment hlimits "ab").2 _ hread⟩

/-- A text that closes the group of the anchors and opens another one denotes nothing, and still it
is taken for a pattern. -/
theorem not_describes_iff_matches :
    ¬∀ s pattern : String,
      ((∃ message, describes s pattern = .error (.badPattern message)) ↔
          read? pattern.toList = none) ∧
        ∀ q, read? pattern.toList = some q →
          ∃ b, describes s pattern = .ok b ∧ (b = true ↔ q.Matches [] s.toList []) := by
  intro h
  have hread : read? "a)|(?:b".toList = none := rfl
  have hdescribes : describes? "a)|(?:b" "ax" = some true := by decide +kernel
  obtain ⟨message, hmessage⟩ := (h "ax" "a)|(?:b").1.mpr hread
  rw [describes, hdescribes] at hmessage
  exact absurd hmessage nofun

end Formulary.Library
