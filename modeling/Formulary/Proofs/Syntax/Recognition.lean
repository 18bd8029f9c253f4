import Formulary.Proofs.Syntax.Completeness

/-!
# The parser accepts exactly its grammar

Soundness and completeness together. That a sequence of tokens has only one tree follows from them:
with bounds that two trees both keep, both are what the parser gives.

## Main results

* `Grammar.Derives.tree_unique` — no tokens have two trees
* `Grammar.ofLexemes_eq_some_iff_derives` — the parser accepts exactly the grammar
-/

namespace Formulary

namespace Grammar

open Descent

/-- The tokens of an expression have one tree. -/
theorem Derives.tree_unique {ts : List Token} {t₁ t₂ : Tree} {d₁ d₂ : Nat}
    (h₁ : Derives .disjunction ts t₁ d₁) (h₂ : Derives .disjunction ts t₂ d₂) : t₁ = t₂ := by
  -- with bounds that both trees keep, both are what the parser gives
  let limit := 1 + max t₁.height t₂.height
  let ls : List Lexeme := ts.map fun token => ⟨token, 0, 0⟩
  have hlimit : 0 < limit := Nat.add_pos_left Nat.one_pos _
  have hls : ls.map Lexeme.token = ts := by
    rw [List.map_map]
    exact List.map_id ts
  have given : ∀ {t d}, Derives .disjunction ts t d → d ≤ max d₁ d₂ → t.height ≤ limit →
      ∃ t', t'.bare = t ∧ parser 0 limit (levels 0 limit (max d₁ d₂)) .disjunction ls =
        .ok (t', []) := by
    intro t d h hd hheight
    rcases (h.resumes hlimit).stop (max d₁ d₂) hls (show Stops .disjunction [] from nofun) with
      ⟨-, -, t', hbare, hrun⟩ | ⟨hfits, -⟩
    · rw [List.append_nil] at hrun
      exact ⟨t', hbare, hrun⟩
    · exact absurd ⟨hd, hheight⟩ hfits
  obtain ⟨t₁', rfl, hrun₁⟩ := given h₁ (Nat.le_max_left ..) (by omega)
  obtain ⟨t₂', rfl, hrun₂⟩ := given h₂ (Nat.le_max_right ..) (by omega)
  rw [hrun₁] at hrun₂
  cases hrun₂
  rfl

/-- **The parser accepts exactly its grammar.** A sequence of lexemes is accepted with a tree,
places aside, precisely when it derives that tree on at most `maxDepth` levels, the whole
expression being the first, and the tree is at most `maxDepth` high. No sequence derives two
trees. -/
theorem ofLexemes_eq_some_iff_derives :
    (∀ (ls : List Lexeme) (t : Tree),
      (∃ t', Tree.ofLexemes ls = .ok (some t') ∧ t'.bare = t.bare) ↔
        ∃ d, Derives .disjunction (ls.map Lexeme.token) t.bare d ∧ d + 1 ≤ maxDepth ∧
          t.height ≤ maxDepth) ∧
    ∀ (ts : List Token) (t₁ t₂ : Tree) (d₁ d₂ : Nat), Derives .disjunction ts t₁ d₁ →
      Derives .disjunction ts t₂ d₂ → t₁ = t₂ := by
  refine ⟨fun ls t => ⟨?_, ?_⟩, fun _ _ _ _ _ => Derives.tree_unique⟩
  · rintro ⟨t', h, hbare⟩
    unfold Tree.ofLexemes at h
    split at h
    · exact nomatch h
    · obtain ⟨⟨tree, rest⟩, hrun, hrest⟩ := bind_eq_ok_iff.mp h
      cases rest with
      | cons l rest => exact nomatch hrest
      | nil =>
        cases hrest
        have hlimit : 0 < maxDepth := by decide
        obtain ⟨taken, d, rfl, hd, hdepth, hheight⟩ :=
          sound_levels hlimit maxDepth (c := .disjunction) rfl _ _ _ hrun
        rw [← hbare, ← Tree.height_bare t, ← hbare, Tree.height_bare, List.append_nil]
        exact ⟨d, hd, hdepth, hheight⟩
  · rintro ⟨d, hd, hdepth, hheight⟩
    rw [← Tree.height_bare] at hheight
    rcases hd.ofLexemes with ⟨-, -, t', hbare, hrun⟩ | ⟨hfits, -⟩
    · exact ⟨t', hrun, hbare⟩
    · exact absurd ⟨hdepth, hheight⟩ hfits

/-- The lexemes of `a - b * c - d`. -/
def differences : List Lexeme :=
  [⟨.identifier "a", 0, 1⟩, ⟨.operator .sub, 2, 3⟩, ⟨.identifier "b", 4, 5⟩,
    ⟨.operator .mul, 6, 7⟩, ⟨.identifier "c", 8, 9⟩, ⟨.operator .sub, 10, 11⟩,
    ⟨.identifier "d", 12, 13⟩]

/-- The product first, and the differences from the left. -/
def differencesTree : Tree :=
  let product : Tree := .binary .mul (.var "b" default) (.var "c" default) default
  .binary .sub (.binary .sub (.var "a" default) product default) (.var "d" default) default

theorem derives_differences :
    Derives .disjunction (differences.map Lexeme.token) differencesTree 0 := by
  have hname : ∀ name, Derives .signed [.identifier name] (.var name default) 0 := fun name =>
    .unsigned (.base (.var name))
  have hproduct : Derives .product ([.identifier "b"] ++ .operator .mul :: [.identifier "c"])
      (.binary .mul (.var "b" default) (.var "c" default) default) 0 :=
    .link rfl (by decide) (.operand rfl (hname "b")) (hname "c")
  have hfirst : Derives .sum ([.identifier "a"] ++ .operator .sub :: _)
      (.binary .sub (.var "a" default) _ default) 0 :=
    .link rfl (by decide) (.operand rfl (.operand rfl (hname "a"))) hproduct
  have hsum : Derives .sum (_ ++ .operator .sub :: [.identifier "d"]) differencesTree 0 :=
    .link rfl (by decide) hfirst (.operand rfl (hname "d"))
  exact .operand rfl (.operand rfl (.unnegated (.operand rfl hsum)))

/-- `a - b * c - d` is read with the product first and the differences from the left, and it has no
other tree. -/
theorem ofLexemes_differences :
    (∃ t', Tree.ofLexemes differences = .ok (some t') ∧ t'.bare = differencesTree) ∧
    ∀ t d, Derives .disjunction (differences.map Lexeme.token) t d → t = differencesTree := by
  refine ⟨?_, fun t d h => ofLexemes_eq_some_iff_derives.2 _ _ _ _ _ h derives_differences⟩
  exact (ofLexemes_eq_some_iff_derives.1 differences differencesTree).mpr
    ⟨0, derives_differences, by decide, by decide⟩

end Grammar

end Formulary
