import Formulary.Proofs.Pattern.LocalBrackets

/-!
# Patterns are read locally

A pattern is read step by step: a step ends the reading, or it takes a bar, a group, flags, a
repetition or a part, with new modes and branches. A step is local, but for a condition that is read
before a brace only because of the addition; then the next step refuses the brace.

## Main definitions

* `Pattern.Step`, `Pattern.step?` — one step of reading a pattern
* `Pattern.Closes` — a text that ends, or goes on with a closing parenthesis

## Main results

* `Pattern.branches?_eq_steps` — branches are read step by step
* `Pattern.local_levels` — patterns with any bound on the depth of groups
-/

namespace Formulary.Pattern

open Text Escape

variable (m : Mode)

/-! ### Parts -/

/-- A part that stands for one character. -/
def letter? : List Char → Read Pattern
  | [] => none
  | c :: rest => some (chars (m.literal c) 0, rest)

theorem part?_eq (cs : List Char) : part? m cs =
    byMark ['['] (fun rest => (Bracket.read? m rest).map fun x => (chars x.1.1 x.1.2, x.2))
      (byMark ['\\'] (fun rest => (Escape.read? m rest).map fun x => (ofEscape m x.1, x.2))
        (byMark ['.'] (fun rest => (m.dot?.map fun s => chars s 0).map (·, rest))
          (byMark ['^'] (fun rest => some (look m.startAnchor, rest))
            (byMark ['$'] (fun rest => some (look m.stopAnchor, rest)) (letter? m))))) cs := by
  unfold part?
  split
  · simp [byMark, letter?]
  · rw [byMark_singleton]
  · rw [byMark_of_ne (by simp), byMark_singleton]
  · rw [byMark_of_ne (by simp), byMark_of_ne (by simp), byMark_singleton, Option.map_map]
    rfl
  · rw [byMark_of_ne (by simp), byMark_of_ne (by simp), byMark_of_ne (by simp), byMark_singleton]
  · rw [byMark_of_ne (by simp), byMark_of_ne (by simp), byMark_of_ne (by simp),
      byMark_of_ne (by simp), byMark_singleton]
  · next c rest h₁ h₂ h₃ h₄ h₅ =>
    rw [byMark_of_ne (by simpa using h₁), byMark_of_ne (by simpa using h₂),
      byMark_of_ne (by simpa using h₃), byMark_of_ne (by simpa using h₄),
      byMark_of_ne (by simpa using h₅), letter?]

theorem local_part? : Local (fun _ => StrayBrace m) (part? m) := by
  have hset : Local (fun _ => StrayBrace m) fun cs =>
      (Bracket.read? m cs).map fun x => (chars x.1.1 x.1.2, x.2) :=
    (Bracket.local_levels maxDepth m).andMap fun x => chars x.1 x.2
  have hescape : Local (fun _ => StrayBrace m) fun cs =>
      (Escape.read? m cs).map fun x => (ofEscape m x.1, x.2) :=
    (local_read? m).map (ofEscape m) fun _ _ h => h.2
  have hletter : Local (fun _ => StrayBrace m) (letter? m) :=
    Local.of_cons rfl fun c => Local.pure (chars (m.literal c) 0)
  have hdot : Local (fun _ => StrayBrace m) fun cs => (m.dot?.map fun s => chars s 0).map (·, cs) :=
    Local.option (m.dot?.map fun s => chars s 0)
  rw [funext (part?_eq m)]
  exact hset.byMark _ (hescape.byMark _ (hdot.byMark _ ((Local.pure _).byMark _
    ((Local.pure _).byMark _ hletter (by decide)) (by decide)) (by decide)) (by decide)) (by decide)

theorem takes_part? : Takes (part? m) := by
  have hset := (Bracket.local_levels maxDepth m).ends.map fun x => chars x.1 x.2
  have hescape := (local_read? m).ends.map (ofEscape m)
  have hdot := Ends.option (m.dot?.map fun s => chars s 0)
  have hletter : Takes (letter? m) := Takes.of_cons rfl fun c => Ends.pure _
  rw [funext (part?_eq m)]
  exact Takes.byMark hset _ (Takes.byMark hescape _ (Takes.byMark hdot _
    (Takes.byMark (Ends.pure _) _ (Takes.byMark (Ends.pure _) _ hletter (by simp)) (by simp))
    (by simp)) (by simp)) (by simp)

/-! ### Steps -/

/-- A step of reading a pattern ends it, or it leads to new modes and branches. -/
abbrev Step := Pattern ⊕ (Mode × Branches)

/-- The last part with a repetition that a reader finds. -/
def repeated? (b : Branches) (F : List Char → Read Repetition) (cs : List Char) : Read Step :=
  (F cs).bind fun x =>
    ((repeatLast? x.1 b.parts).map fun parts => .inr (m, { b with parts })).map (·, x.2)

/-- The end of a group that stands for a part. -/
def groupEnd? (b : Branches) (kind : GroupKind) (p : Pattern) : List Char → Read Step
  | ')' :: rest => some (.inr (m, b.add (group kind p)), rest)
  | _ => none

theorem eq_of_groupEnd? {b : Branches} {kind : GroupKind} {p : Pattern} {cs rest : List Char}
    {x : Step} (h : groupEnd? m b kind p cs = some (x, rest)) :
    cs = ')' :: rest ∧ x = .inr (m, b.add (group kind p)) := by
  unfold groupEnd? at h
  split at h
  · obtain ⟨rfl, rfl⟩ := Prod.mk.inj (Option.some.inj h)
    exact ⟨rfl, rfl⟩
  · exact absurd h nofun

/-- A group after what opens it, or flags. -/
def groupFrom? (inner : Reader) (b : Branches) : Opening → List Char → Read Step
  | .flags m, rest => some (.inr (m, b.add empty), rest)
  | .body kind body, rest => (inner body rest).bind fun x => groupEnd? m b kind x.1 x.2

/-- A part, perhaps repeated. -/
def partOrMark? (b : Branches) : List Char → Read Step :=
  byMark ['?'] (repeated? m b fun rest => some (repetitionOf m 0 (some 1) rest))
    (byMark ['*'] (repeated? m b fun rest => some (repetitionOf m 0 none rest))
      (byMark ['+'] (repeated? m b fun rest => some (repetitionOf m 1 none rest))
        (byMark ['\x7b'] (repeated? m b (counted? m)) fun cs =>
          (part? m cs).map fun x => (.inr (m, b.add x.1), x.2))))

/-- A step that takes something. -/
def taking? (inner : Reader) (b : Branches) : List Char → Read Step :=
  byMark ['|'] (fun rest => some (.inr (m, b.close), rest))
    (byMark ['('] (fun rest => (opening? m rest).bind fun x => groupFrom? m inner b x.1 x.2)
      (partOrMark? m b))

/-- A text that ends, or goes on with a closing parenthesis. -/
def Closes (cs : List Char) : Prop := cs = [] ∨ ∃ rest, cs = ')' :: rest

theorem closes_cons {c : Char} {rest : List Char} : Closes (c :: rest) ↔ c = ')' := by
  simp [Closes]

instance (cs : List Char) : Decidable (Closes cs) :=
  match cs with
  | [] => .isTrue (Or.inl rfl)
  | _ :: _ => decidable_of_iff _ closes_cons.symm

/-- An addition does not change what a text goes on with. -/
theorem closes_append {cs t : List Char} (ht : Closing t) : Closes (cs ++ t) ↔ Closes cs := by
  cases cs with
  | nil =>
    obtain ⟨more, rfl, -⟩ := ht
    exact iff_of_true (Or.inr ⟨more, rfl⟩) (Or.inl rfl)
  | cons c rest => rw [List.cons_append, closes_cons, closes_cons]

/-- One step of reading a pattern, where no blanks are in front. -/
def step? (inner : Reader) (b : Branches) (cs : List Char) : Read Step :=
  if Closes cs then some (.inl b.value, cs) else taking? m inner b cs

theorem partOrMark?_of_none (b : Branches) {cs : List Char} (h : repetition? m cs = none) :
    partOrMark? m b cs = (part? m cs).map fun x => (.inr (m, b.add x.1), x.2) := by
  unfold repetition? at h
  split at h
  · exact absurd h nofun
  · exact absurd h nofun
  · exact absurd h nofun
  · exact absurd h nofun
  · next h₁ h₂ h₃ h₄ =>
    rw [partOrMark?, byMark_of_ne h₁, byMark_of_ne h₂, byMark_of_ne h₃, byMark_of_ne h₄]

theorem partOrMark?_of_some (b : Branches) {cs : List Char} {r : Read Repetition}
    (h : repetition? m cs = some r) : partOrMark? m b cs = repeated? m b (fun _ => r) cs := by
  unfold repetition? at h
  split at h
  · rw [partOrMark?, byMark_singleton, ← Option.some.inj h]
    rfl
  · rw [partOrMark?, byMark_of_ne (by simp), byMark_singleton, ← Option.some.inj h]
    rfl
  · rw [partOrMark?, byMark_of_ne (by simp), byMark_of_ne (by simp), byMark_singleton,
      ← Option.some.inj h]
    rfl
  · rw [partOrMark?, byMark_of_ne (by simp), byMark_of_ne (by simp), byMark_of_ne (by simp),
      byMark_singleton, ← Option.some.inj h]
    rfl
  · exact absurd h nofun

theorem step?_of_closes (inner : Reader) (b : Branches) {cs : List Char} (h : Closes cs) :
    step? m inner b cs = some (.inl b.value, cs) := if_pos h

theorem step?_of_not_closes (inner : Reader) (b : Branches) {cs : List Char} (h : ¬Closes cs) :
    step? m inner b cs = taking? m inner b cs := if_neg h

theorem branches?_eq_steps (inner : Reader) (fuel : Nat) (b : Branches) (cs : List Char) :
    branches? inner fuel m b cs =
      steps (fun s cs => step? s.1 inner s.2 (s.1.skip cs)) fuel (m, b) cs := by
  induction fuel generalizing m b cs with
  | zero => rfl
  | succ fuel ih =>
    rw [branches?, steps]
    dsimp only
    split
    · next heq => rw [heq, step?_of_closes m inner b (Or.inl rfl), Option.bind_some]
    · next rest heq => rw [heq, step?_of_closes m inner b (Or.inr ⟨rest, rfl⟩), Option.bind_some]
    · next rest heq =>
      rw [step?_of_not_closes m inner b (by simp [heq, Closes]), taking?, byMark_of_eq ['|'] heq,
        Option.bind_some]
      exact ih m b.close rest
    · next rest heq =>
      rw [step?_of_not_closes m inner b (by simp [heq, Closes]), taking?,
        byMark_of_ne (by simp [heq]), byMark_of_eq ['('] heq, Option.bind_assoc]
      rcases opening? m rest with _ | ⟨⟨kind, body⟩ | ⟨m'⟩, after⟩
      · rfl
      · rw [Option.bind_some, groupFrom?, Option.bind_assoc]
        dsimp only
        rcases inner body after with _ | ⟨p, _ | ⟨c, r⟩⟩
        · rfl
        · rfl
        · by_cases hc : c = ')'
          · subst hc
            exact ih m (b.add (group kind p)) r
          · simp [groupEnd?, hc]
      · exact ih m' (b.add empty) after
    · next h₁ h₂ h₃ h₄ =>
      have hcloses : ¬Closes (m.skip cs) := by
        rintro (h | ⟨rest, h⟩)
        · exact h₁ h
        · exact h₂ rest h
      rw [step?_of_not_closes m inner b hcloses, taking?, byMark_of_ne h₃, byMark_of_ne h₄]
      cases hr : repetition? m (m.skip cs) with
      | none =>
        rw [partOrMark?_of_none m b hr]
        rcases part? m (m.skip cs) with _ | ⟨p, rest⟩
        · rfl
        · exact ih m (b.add p) rest
      | some r =>
        rw [partOrMark?_of_some m b hr, repeated?]
        obtain _ | ⟨r, rest⟩ := r
        · rfl
        · rw [Option.bind_some]
          dsimp only
          cases repeatLast? r b.parts with
          | none => rfl
          | some parts => exact ih m { b with parts } rest

/-! ### Levels of groups -/

theorem local_groupEnd? (b : Branches) (kind : GroupKind) (p : Pattern) :
    Local Never (groupEnd? m b kind p) := by
  refine Local.of_cons rfl fun c => ?_
  by_cases hc : c = ')'
  · subst hc
    exact Local.pure _
  · have h : (fun rest => groupEnd? m b kind p (c :: rest)) = fun _ => none := by
      funext rest
      simp [groupEnd?, hc]
    rw [h]
    exact Local.fail

variable {inner : Reader}

theorem local_groupFrom? (hinner : ∀ m, Local Never (inner m)) (b : Branches) (o : Opening) :
    Local Never (groupFrom? m inner b o) := by
  cases o with
  | flags m' => exact Local.pure _
  | body kind body => exact (hinner body).andThen (local_groupEnd? m b kind)

/-- A condition before a brace that begins no repetition may be there because of an addition. -/
def BeforeBrace : Step → List Char → Prop
  | .inl _, _ => False
  | .inr (m', _), rest => m' = m ∧ StrayBrace m rest

theorem local_partOrMark? (b : Branches) : Local (BeforeBrace m) (partOrMark? m b) := by
  have hrepeated : ∀ {F : List Char → Read Repetition}, Local Never F →
      Local (BeforeBrace m) (repeated? m b F) := fun hF =>
    hF.andThen fun r => Local.option ((repeatLast? r b.parts).map fun parts =>
      (.inr (m, { b with parts }) : Step))
  have hpart : Local (BeforeBrace m) fun cs =>
      (part? m cs).map fun x => ((.inr (m, b.add x.1) : Step), x.2) :=
    (local_part? m).map (fun p => (.inr (m, b.add p) : Step)) fun _ _ h => ⟨rfl, h⟩
  have hmark : ∀ least most, Local (BeforeBrace m) (repeated? m b fun rest =>
      some (repetitionOf m least most rest)) := fun least most =>
    hrepeated (local_repetitionOf m least most)
  have hcounted := (hrepeated (local_counted? m)).byMark ['\x7b'] hpart (by decide)
  exact (hmark 0 (some 1)).byMark _ ((hmark 0 none).byMark _ ((hmark 1 none).byMark _ hcounted
    (by decide)) (by decide)) (by decide)

theorem local_taking? (hinner : ∀ m, Local Never (inner m)) (b : Branches) :
    Local (BeforeBrace m) (taking? m inner b) := by
  have hgroup : Local (BeforeBrace m) fun cs =>
      (opening? m cs).bind fun x => groupFrom? m inner b x.1 x.2 :=
    (local_opening? m).andThen fun o => (local_groupFrom? m hinner b o).mono fun _ _ => nofun
  exact (Local.pure _).byMark _ (hgroup.byMark _ (local_partOrMark? m b) (by decide)) (by decide)

theorem takes_taking? (hinner : ∀ m, Local Never (inner m)) (b : Branches) :
    Takes (taking? m inner b) := by
  have hgroup : Ends fun cs => (opening? m cs).bind fun x => groupFrom? m inner b x.1 x.2 :=
    (local_opening? m).ends.bind fun o => (local_groupFrom? m hinner b o).ends
  have hrepeated : ∀ {F : List Char → Read Repetition}, Local Never F → Ends (repeated? m b F) :=
    fun hF => hF.ends.bind fun r => Ends.option ((repeatLast? r b.parts).map fun parts =>
      (.inr (m, { b with parts }) : Step))
  have hmark : ∀ least most, Ends (repeated? m b fun rest =>
      some (repetitionOf m least most rest)) := fun least most =>
    hrepeated (local_repetitionOf m least most)
  have hpart : Takes fun cs => (part? m cs).map fun x => ((.inr (m, b.add x.1) : Step), x.2) :=
    (takes_part? m).map fun p => (.inr (m, b.add p) : Step)
  have hcounted := Takes.byMark (hrepeated (local_counted? m)) ['\x7b'] hpart (by simp)
  exact Takes.byMark (Ends.pure _) _ (Takes.byMark hgroup _ (Takes.byMark (hmark 0 (some 1)) _
    (Takes.byMark (hmark 0 none) _ (Takes.byMark (hmark 1 none) _ hcounted (by simp)) (by simp))
    (by simp)) (by simp)) (by simp)

theorem local_step? (hinner : ∀ m, Local Never (inner m)) (b : Branches) :
    Local (BeforeBrace m) (step? m inner b) where
  ends cs x rest h := by
    by_cases hcs : Closes cs
    · rw [step?_of_closes m inner b hcs] at h
      exact Ends.pure _ cs x rest h
    · rw [step?_of_not_closes m inner b hcs] at h
      exact (local_taking? m hinner b).ends cs x rest h
  at_ cs := by
    by_cases hcs : Closes cs
    · exact LocalAt.keep (step?_of_closes m inner b hcs) fun t ht =>
        step?_of_closes m inner b ((closes_append ht).mpr hcs)
    · refine ((local_taking? m hinner b).at_ cs).of_eq (step?_of_not_closes m inner b hcs) ?_
      exact fun t ht => step?_of_not_closes m inner b ((closes_append ht).not.mpr hcs)

/-- Only what ends the reading takes nothing. -/
theorem length_lt_of_step? (hinner : ∀ m, Local Never (inner m)) {b : Branches}
    {cs rest : List Char} {s : Mode × Branches} (h : step? m inner b cs = some (.inr s, rest)) :
    rest.length < cs.length := by
  by_cases hcs : Closes cs
  · rw [step?_of_closes m inner b hcs] at h
    exact absurd (Prod.mk.inj (Option.some.inj h)).1 nofun
  · rw [step?_of_not_closes m inner b hcs] at h
    exact takes_taking? m hinner b cs _ rest h

/-- A brace that begins no repetition is refused. -/
theorem step?_brace (b : Branches) {rest : List Char} (h : counted? m rest = none) :
    step? m inner b (m.skip ('\x7b' :: rest)) = none := by
  have hrepetition : repetition? m ('\x7b' :: rest) = some none := congrArg some h
  rw [m.skip_cons (by decide) (by decide), step?_of_not_closes m inner b (by simp [closes_cons]),
    taking?, byMark_of_ne (by simp), byMark_of_ne (by simp), partOrMark?_of_some m b hrepetition]
  rfl

/-- Patterns are read locally, if the groups in them are. -/
theorem local_branches? (hinner : ∀ m, Local Never (inner m)) (b : Branches) :
    Local Never fun cs => branches? inner (cs.length + 1) m b cs := by
  have hstep : ∀ s : Mode × Branches,
      Local (BeforeBrace s.1) fun cs => step? s.1 inner s.2 (s.1.skip cs) :=
    fun s => (local_step? s.1 hinner s.2).skip s.1
  simp only [branches?_eq_steps]
  refine Local.steps hstep (fun s cs s' rest h => ?_) (fun s x rest h => ?_) (m, b)
  · exact (length_lt_of_step? s.1 hinner h).trans_le (s.1.skip_suffix cs).length_le
  · obtain q | ⟨m', b'⟩ := x
    · exact h.elim
    · obtain ⟨rfl, rest, rfl, hcounted⟩ := h
      exact ⟨(s.1, b'), rfl, step?_brace s.1 b' hcounted⟩

theorem levels_succ (budget : Nat) (cs : List Char) : levels (budget + 1) m cs =
    steps (fun s cs => step? s.1 (levels budget) s.2 (s.1.skip cs)) (cs.length + 1) (m, {}) cs :=
  branches?_eq_steps m (levels budget) (cs.length + 1) {} cs

/-- **Reading a pattern is local, whatever depth of groups is allowed.** -/
theorem local_levels (budget : Nat) (m : Mode) : Local Never (levels budget m) := by
  induction budget generalizing m with
  | zero => exact Local.fail
  | succ budget ih => exact local_branches? m ih {}

end Formulary.Pattern
