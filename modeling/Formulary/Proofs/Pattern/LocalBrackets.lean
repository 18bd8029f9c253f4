import Formulary.Proofs.Pattern.LocalEscapes
import Formulary.Text.Search
import Mathlib.Data.List.TakeWhile

/-!
# Sets in brackets are local

A set in brackets ends with its closing bracket, and so what is added after the text cannot matter
once the set has been read. The argument goes along the items, which are read step by step.

Two readers look ahead. A class in colons is no class unless its name ends and a bracket follows,
and otherwise its bracket opens a set; this does not depend on an addition because no class has a
closing parenthesis in its name. And an item is refused where the text ends behind it, and is not
the start of a range where the text ends behind its hyphen. A set does not end there either, so it
makes no difference to read the item in the first case and to refuse it in the second; the reader
of items that does so is local.

## Main definitions

* `Bracket.Stable` — a reader that takes the same with an addition, or nothing as well
* `Bracket.freeItem?` — an item, where the text may end behind it
* `Bracket.step?` — one step of reading the items of a set

## Main results

* `Bracket.stable_posix?` — classes in colons
* `Bracket.items?_eq_steps` — items are read step by step
* `Bracket.local_levels` — sets with any bound on the depth of brackets
-/

namespace Formulary.Bracket

open Text Pattern Escape

variable (m : Mode)

/-! ### Classes in colons -/

section

variable {α : Type} {F : List Char → Read α}

/-- A reader that takes the same, or nothing, where there is an addition. -/
def Stable (F : List Char → Read α) : Prop :=
  ∀ cs t, Closing t → F (cs ++ t) = (F cs).map fun x => (x.1, x.2 ++ t)

theorem Stable.local_ (hF : Stable F) (hends : Ends F) : Local Never F where
  ends := hends
  at_ cs := {
    extend := fun a rest h => Or.inl fun t ht => by rw [hF cs t ht, h, Option.map_some]
    restrict := fun t ht a rest h => by
      rw [hF cs t ht] at h
      obtain ⟨⟨b, r⟩, hr, hb⟩ := Option.map_eq_some_iff.mp h
      obtain ⟨rfl, hrest⟩ := Prod.mk.inj hb
      obtain rfl := List.append_cancel_right hrest
      exact Or.inl hr }

theorem Stable.byMark {A B : List Char → Read α} (hA : Stable A) (mark : List Char) (hB : Stable B)
    (hmark : ')' ∉ mark) : Stable (byMark mark A B) := by
  intro cs t ht
  by_cases hcs : ∃ rest, cs = mark ++ rest
  · obtain ⟨rest, rfl⟩ := hcs
    rw [byMark_of_eq mark rfl, byMark_of_eq mark (List.append_assoc ..), hA rest t ht]
  · rw [byMark_of_ne fun rest h => hcs ⟨rest, h⟩,
      byMark_of_ne fun rest h => hcs (eq_append_of_append_eq hmark ht h), hB cs t ht]

end

/-- A class in colons after the caret that may negate it. -/
def classIn? (negated : Bool) (cs : List Char) : Read (Option CharSet) :=
  match cs.span (· != ':') with
  | (name, ':' :: ']' :: rest) =>
    (CharSet.posix? (String.ofList name)).map fun s => (m.close? negated s, rest)
  | _ => none

theorem posix?_eq (cs : List Char) : posix? m cs =
    byMark [':', '^'] (classIn? m true) (byMark [':'] (classIn? m false) fun _ => none) cs := by
  by_cases hcolon : ∃ rest, cs = ':' :: rest
  · obtain ⟨rest, rfl⟩ := hcolon
    by_cases hcaret : ∃ r, rest = '^' :: r
    · obtain ⟨r, rfl⟩ := hcaret
      rw [byMark_pair]
      rfl
    · have hmark : ∀ r, ':' :: rest ≠ ':' :: '^' :: r := fun r h => hcaret ⟨r, (List.cons.inj h).2⟩
      rw [byMark_of_ne hmark, byMark_singleton, posix?, classIn?]
      all_goals first
        | rfl
        | exact fun r h => hcaret ⟨r, h⟩
  · rw [byMark_of_ne fun rest h => hcolon ⟨'^' :: rest, h⟩,
      byMark_of_ne fun rest h => hcolon ⟨rest, h⟩, posix?]
    exact fun rest h => hcolon ⟨rest, h⟩

/-- No class has a closing parenthesis in its name. -/
theorem notMem_of_posix? {name : String} {s : CharSet} (h : CharSet.posix? name = some s) :
    ')' ∉ name.toList := by
  obtain ⟨ranges, h, -⟩ := Option.map_eq_some_iff.mp h
  unfold CharSet.posixRanges? at h
  split at h
  all_goals first
    | decide
    | exact absurd h nofun

theorem classIn?_of_notMem (negated : Bool) {cs : List Char} (h : ':' ∉ cs) :
    classIn? m negated cs = none := by
  have hdrop : cs.dropWhile (· != ':') = [] :=
    List.dropWhile_eq_nil_iff.mpr fun c hc => bne_iff_ne.mpr (ne_of_mem_of_not_mem hc h)
  rw [classIn?, List.span_eq_takeWhile_dropWhile, hdrop]

theorem classIn?_name (negated : Bool) {name : List Char} (h : ':' ∉ name) (rest : List Char) :
    classIn? m negated (name ++ ':' :: rest) =
      byMark [']'] (fun rest =>
        (CharSet.posix? (String.ofList name)).map fun s => (m.close? negated s, rest))
        (fun _ => none) rest := by
  have hname : ∀ c ∈ name, (c != ':') = true :=
    fun c hc => bne_iff_ne.mpr (ne_of_mem_of_not_mem hc h)
  have hrest : ∀ c ∈ (':' :: rest).head?, (c != ':') = false := by simp
  rw [classIn?, List.span_eq_takeWhile_dropWhile, takeWhile_append_of_head? hname hrest,
    dropWhile_append_of_head? hname hrest]
  by_cases hbracket : ∃ r, rest = ']' :: r
  · obtain ⟨r, rfl⟩ := hbracket
    rw [byMark_singleton]
    rfl
  · rw [byMark_of_ne fun r h => hbracket ⟨r, h⟩]
    split
    · next r heq =>
      exact absurd ⟨r, (List.cons.inj (Prod.mk.inj heq).2).2⟩ hbracket
    · rfl

theorem stable_classIn? (negated : Bool) : Stable (classIn? m negated) := by
  intro cs t ht
  by_cases hcolon : ':' ∈ cs
  · obtain ⟨name, rest, rfl, hname⟩ := List.eq_append_cons_of_mem hcolon
    have hclass : Stable fun rest =>
        (CharSet.posix? (String.ofList name)).map fun s => (m.close? negated s, rest) := by
      intro cs t _
      rw [Option.map_map, Function.comp_def]
    have hnone : Stable fun _ => (none : Read (Option CharSet)) := fun _ _ _ => rfl
    rw [List.append_assoc, List.cons_append, classIn?_name m negated hname,
      classIn?_name m negated hname]
    exact hclass.byMark _ hnone (by decide) rest t ht
  · rw [classIn?_of_notMem m negated hcolon, Option.map_none]
    obtain ⟨more, rfl, -⟩ := ht
    by_cases hmore : ':' ∈ more
    · -- the name would have the closing parenthesis
      obtain ⟨name, rest, rfl, hname⟩ := List.eq_append_cons_of_mem hmore
      have hbefore : ':' ∉ cs ++ ')' :: name := by simp [hcolon, hname]
      have hnone : CharSet.posix? (String.ofList (cs ++ ')' :: name)) = none := by
        rw [Option.eq_none_iff_forall_ne_some]
        intro s hs
        exact notMem_of_posix? hs (by simp)
      have hassoc : cs ++ ')' :: (name ++ ':' :: rest) = (cs ++ ')' :: name) ++ ':' :: rest := by
        simp
      rw [hassoc, classIn?_name m negated hbefore, hnone, byMark]
      split <;> rfl
    · exact classIn?_of_notMem m negated (by simp [hcolon, hmore])

/-- A class in colons is there with an addition exactly if it is there without. -/
theorem stable_posix? : Stable (posix? m) := by
  have hnone : Stable fun _ => (none : Read (Option CharSet)) := fun _ _ _ => rfl
  rw [funext (posix?_eq m)]
  exact (stable_classIn? m true).byMark _ ((stable_classIn? m false).byMark _ hnone (by decide))
    (by decide)

theorem ends_classIn? (negated : Bool) : Ends (classIn? m negated) := by
  intro cs s r h
  by_cases hcolon : ':' ∈ cs
  · obtain ⟨name, rest, rfl, hname⟩ := List.eq_append_cons_of_mem hcolon
    rw [classIn?_name m negated hname] at h
    have hclass : Ends fun rest =>
        (CharSet.posix? (String.ofList name)).map fun s => (m.close? negated s, rest) := by
      have hoption := Ends.option ((CharSet.posix? (String.ofList name)).map (m.close? negated))
      simpa only [Option.map_map, Function.comp_def] using hoption
    have hnone : Ends fun _ => (none : Read (Option CharSet)) := nofun
    exact (hclass.byMark [']'] hnone rest s r h).trans
      ((List.suffix_cons ':' rest).trans (List.suffix_append name _))
  · exact absurd (classIn?_of_notMem m negated hcolon ▸ h) nofun

theorem ends_posix? : Ends (posix? m) := by
  have hnone : Ends fun _ => (none : Read (Option CharSet)) := nofun
  rw [funext (posix?_eq m)]
  exact (ends_classIn? m true).byMark _ ((ends_classIn? m false).byMark _ hnone)

/-! ### Items -/

/-- A member that is no escape. -/
def plainMember? : List Char → Read Escape
  | [] => none
  | c :: rest => some (.char c, rest)

theorem member?_eq : member? m = byMark ['\\'] (Escape.read? m) plainMember? := by
  funext cs
  unfold member?
  split
  · rw [byMark_of_ne (by simp), plainMember?]
  · rw [byMark_singleton]
  · next hbackslash => rw [byMark_of_ne (by simpa using hbackslash), plainMember?]

theorem local_member? : Local (BeforeStrayBrace m) (member? m) := by
  rw [member?_eq]
  exact (local_read? m).byMark _ (Local.of_cons rfl fun c => Local.pure (Escape.char c)) (by decide)

theorem takes_member? : Takes (member? m) := by
  have hplain : Takes plainMember? := Takes.of_cons rfl fun c => Ends.pure (Escape.char c)
  rw [member?_eq]
  exact Takes.byMark (local_read? m).ends _ hplain (by simp)

/-- The end of a range. -/
def rangeEnd? (low : Escape) (high : Escape) : Option CharSet :=
  match low, high with
  | .char low, .char high => if low ≤ high && m.allows high then some (.range low high) else none
  | _, _ => none

/-- A range from a member, after its hyphen. -/
def rangeFrom? (low : Escape) (cs : List Char) : Read CharSet :=
  (member? m cs).bind fun x => (rangeEnd? m low x.1).map (·, x.2)

theorem local_rangeFrom? (low : Escape) : Local Never (rangeFrom? m low) := by
  refine (local_member? m).bind (fun high => Local.option (rangeEnd? m low high)) ?_
  rintro _ rest ⟨⟨l, rfl⟩, -⟩
  cases low <;> rfl

/-- What stands after a member: a hyphen and the end of a range, or what comes after an item. A
hyphen with nothing behind it is refused. -/
def itemFrom? (low : Escape) (cs : List Char) : Read CharSet :=
  match cs with
  | '-' :: after =>
    match m.skip after with
    | [] => none
    | ']' :: _ | '-' :: _ => (memberSet? m low).map (·, cs)
    | after => rangeFrom? m low after
  | _ => (memberSet? m low).map (·, cs)

/-- An item, where the text may end behind it. -/
def freeItem? (cs : List Char) : Read CharSet :=
  (member? m cs).bind fun x => itemFrom? m x.1 (m.skip x.2)

theorem itemFrom?_of_ne (low : Escape) {cs : List Char} (h : ∀ rest, cs ≠ '-' :: rest) :
    itemFrom? m low cs = (memberSet? m low).map (·, cs) := by
  rw [itemFrom?]
  exact h

theorem itemFrom?_hyphen_nil (low : Escape) {after : List Char} (h : m.skip after = []) :
    itemFrom? m low ('-' :: after) = none := by
  rw [itemFrom?, h]

theorem itemFrom?_hyphen_cons (low : Escape) {c : Char} {after rest : List Char}
    (h : m.skip after = c :: rest) : itemFrom? m low ('-' :: after) =
      if c = ']' ∨ c = '-' then (memberSet? m low).map (·, '-' :: after)
      else rangeFrom? m low (m.skip after) := by
  rw [itemFrom?, h]
  split
  · next heq => exact absurd heq nofun
  · next heq => rw [if_pos (Or.inl (List.cons.inj heq).1)]
  · next heq => rw [if_pos (Or.inr (List.cons.inj heq).1)]
  · next hbracket hhyphen =>
    rw [if_neg]
    rintro (rfl | rfl)
    · exact hbracket _ rfl
    · exact hhyphen _ rfl

theorem ends_itemFrom? (low : Escape) : Ends (itemFrom? m low) := by
  intro cs s r h
  have hkeep : (memberSet? m low).map (·, cs) = some (s, r) → r <:+ cs :=
    Ends.option (memberSet? m low) cs s r
  by_cases hhyphen : ∃ after, cs = '-' :: after
  · obtain ⟨after, rfl⟩ := hhyphen
    cases hskip : m.skip after with
    | nil => exact absurd (itemFrom?_hyphen_nil m low hskip ▸ h) nofun
    | cons c rest =>
      rw [itemFrom?_hyphen_cons m low hskip] at h
      split at h
      · exact hkeep h
      · exact (((local_rangeFrom? m low).skip m).ends after s r h).trans (List.suffix_cons _ after)
  · rw [itemFrom?_of_ne m low fun rest h => hhyphen ⟨rest, h⟩] at h
    exact hkeep h

theorem local_itemFrom? (low : Escape) : Local Never (itemFrom? m low) where
  ends := ends_itemFrom? m low
  at_ cs := by
    have hkeep : LocalAt Never _ cs := (Local.option (memberSet? m low)).at_ cs
    by_cases hhyphen : ∃ after, cs = '-' :: after
    · obtain ⟨after, rfl⟩ := hhyphen
      have hrange := ((local_rangeFrom? m low).skip m).at_ after
      cases hskip : m.skip after with
      | nil =>
        -- an addition is the end of the range, and then it is not left over
        refine ⟨fun s r h => absurd (itemFrom?_hyphen_nil m low hskip ▸ h) nofun, ?_⟩
        intro t ht s r h
        rw [List.cons_append] at h
        rcases m.skip_append_closing hskip with hstop | hlost
        · have hstop := hstop t ht
          have hrange := ((local_rangeFrom? m low).at_ []).restrict t ht s r
          have hhead : ∃ more, t = ')' :: more := ht.imp fun _ => And.left
          obtain ⟨more, rfl⟩ := hhead
          rw [itemFrom?_hyphen_cons m low hstop, if_neg (by decide), hstop] at h
          exact absurd (hrange h) (by simp [Never, rangeFrom?, member?])
        · exact absurd (itemFrom?_hyphen_nil m low (hlost t ht) ▸ h) nofun
      | cons c rest =>
        have happend := m.skip_append_of_eq_cons hskip
        by_cases hc : c = ']' ∨ c = '-'
        · refine hkeep.of_eq ?_ fun t _ => ?_
          · rw [itemFrom?_hyphen_cons m low hskip, if_pos hc]
          · rw [List.cons_append, itemFrom?_hyphen_cons m low (happend t), if_pos hc]
        · refine hrange.of_eq ?_ fun t _ => ?_
          · rw [itemFrom?_hyphen_cons m low hskip, if_neg hc]
          · rw [List.cons_append, itemFrom?_hyphen_cons m low (happend t), if_neg hc]
    · refine hkeep.of_eq (itemFrom?_of_ne m low fun rest h => hhyphen ⟨rest, h⟩) fun t ht => ?_
      refine itemFrom?_of_ne m low fun rest h => hhyphen ?_
      exact (eq_append_of_append_eq (by decide) ht h : ∃ r, cs = ['-'] ++ r)

/-- A condition is no item. -/
theorem itemFrom?_look (l : Look) (cs : List Char) : itemFrom? m (.look l) cs = none := by
  have hrange : ∀ cs, rangeFrom? m (.look l) cs = none := fun cs => by
    simp only [rangeFrom?, rangeEnd?, Option.map_none, Option.bind_fun_none]
  unfold itemFrom?
  split
  · split
    · rfl
    · rfl
    · rfl
    · exact hrange _
  · rfl

theorem local_freeItem? : Local Never (freeItem? m) := by
  refine (local_member? m).bind (fun low => (local_itemFrom? m low).skip m) ?_
  rintro _ rest ⟨⟨l, rfl⟩, -⟩
  exact itemFrom?_look m l _

theorem takes_freeItem? : Takes (freeItem? m) :=
  (takes_member? m).bind fun low => (ends_itemFrom? m low).skip m

theorem rangeFrom?_eq (low : Escape) (cs : List Char) : rangeFrom? m low cs =
    match low, member? m cs with
    | .char low, some (.char high, rest) =>
      if low ≤ high && m.allows high then some (.range low high, rest) else none
    | _, _ => none := by
  rw [rangeFrom?]
  cases member? m cs with
  | none => cases low <;> rfl
  | some x =>
    obtain ⟨high, rest⟩ := x
    cases low <;> cases high <;> try rfl
    rw [Option.bind_some, rangeEnd?]
    dsimp only
    split <;> rfl

/-- What stands after a member, where the text may not end. -/
def boundItemFrom? (low : Escape) (cs : List Char) : Read CharSet :=
  match cs with
  | [] => none
  | '-' :: after =>
    match m.skip after with
    | [] | ']' :: _ | '-' :: _ => (memberSet? m low).map (·, cs)
    | after => rangeFrom? m low after
  | _ :: _ => (memberSet? m low).map (·, cs)

theorem item?_eq (cs : List Char) :
    item? m cs = (member? m cs).bind fun x => boundItemFrom? m x.1 (m.skip x.2) := by
  simp only [boundItemFrom?, rangeFrom?_eq]
  rfl

/-- Where the end of the text leads nowhere, an item may be read as if the text could end behind
it. -/
theorem item?_bind {β : Type} {K : CharSet × List Char → Option β} (hnil : ∀ s, K (s, []) = none)
    (hhyphen : ∀ s after, m.skip after = [] → K (s, '-' :: after) = none) (cs : List Char) :
    (item? m cs).bind K = (freeItem? m cs).bind K := by
  have hset : ∀ low cs, (∀ s, K (s, cs) = none) →
      ((memberSet? m low).map (·, cs)).bind K = none := by
    intro low cs h
    cases memberSet? m low with
    | none => rfl
    | some s => exact h s
  rw [item?_eq, freeItem?, Option.bind_assoc, Option.bind_assoc]
  refine Option.bind_congr fun x _ => ?_
  obtain ⟨low, rest⟩ := x
  dsimp only
  generalize m.skip rest = cs
  unfold boundItemFrom?
  split
  · rw [itemFrom?_of_ne m low (by simp), hset low [] hnil, Option.bind_none]
  · next after =>
    cases hskip : m.skip after with
    | nil =>
      rw [itemFrom?_hyphen_nil m low hskip, hset low _ fun s => hhyphen s after hskip,
        Option.bind_none]
    | cons c rest =>
      rw [itemFrom?, hskip]
      split
      · next heq => exact absurd heq nofun
      all_goals rfl
  · next hhyphen => rw [itemFrom?_of_ne m low (by simpa using hhyphen)]

/-! ### Steps -/

/-- A step of reading the items of a set ends it, or it leads to further progress. -/
abbrev Step := (CharSet × Nat) ⊕ Progress

/-- A class or a set after its opening bracket, as an item. -/
def nestedFrom? (nested : Reader) (p : Progress) (cs : List Char) :
    Read Step :=
  match posix? m cs with
  | some (some s, rest) => some (.inr (p.add s 0), rest)
  | some (none, _) => none
  | none => (nested m cs).map fun x => (.inr (p.add x.1.1 x.1.2), x.2)

/-- One step of reading the items of a set, where no blanks are in front. -/
def step? (nested : Reader) (p : Progress) : List Char → Read Step :=
  byMark [']'] (fun rest => some (.inl (p.value m, p.depth), rest))
    (byMark ['&', '&'] (fun rest => some (.inr (p.join m .inter), rest))
      (byMark ['-', '-'] (fun rest => some (.inr (p.join m .diff), rest))
        (byMark ['~', '~'] (fun rest => some (.inr (p.join m .symmDiff), rest))
          (byMark ['['] (nestedFrom? m nested p) fun cs =>
            (freeItem? m cs).map fun x => (.inr (p.add x.1 0), x.2)))))

theorem items?_nil (nested : Reader) (fuel : Nat) (p : Progress) :
    items? nested m fuel p [] = none := by
  cases fuel with
  | zero => rfl
  | succ fuel => rw [items?, show m.skip [] = [] from List.suffix_nil.mp (m.skip_suffix [])]

/-- A hyphen at the end of a text is the end of no set. -/
theorem items?_hyphen (nested : Reader) (fuel : Nat) (p : Progress) {after : List Char}
    (h : m.skip after = []) : items? nested m fuel p ('-' :: after) = none := by
  cases fuel with
  | zero => rfl
  | succ fuel =>
    have hhyphen : ∀ rest, m.skip ('-' :: rest) = '-' :: rest :=
      fun rest => m.skip_cons (by decide) (by decide) rest
    have hitem : item? m ('-' :: after) = none := by
      rw [item?_eq, member?]
      · rw [Option.bind_some, h]
        rfl
      · simp
    rw [items?, hhyphen]
    split
    · rfl
    · next heq => exact absurd (List.cons.inj heq).1 (by decide)
    · next heq => exact absurd (List.cons.inj heq).1 (by decide)
    · next heq =>
      obtain rfl := (List.cons.inj heq).2
      rw [hhyphen] at h
      exact absurd h nofun
    · next heq => exact absurd (List.cons.inj heq).1 (by decide)
    · next heq => exact absurd (List.cons.inj heq).1 (by decide)
    · rw [hitem, Option.bind_none]

theorem items?_eq_steps (nested : Reader) (fuel : Nat) (p : Progress) (cs : List Char) :
    items? nested m fuel p cs = steps (fun p cs => step? m nested p (m.skip cs)) fuel p cs := by
  induction fuel generalizing p cs with
  | zero => rfl
  | succ fuel ih =>
    rw [items?, steps, step?]
    split
    · next heq => simp [heq, byMark, freeItem?, member?]
    · next heq => rw [byMark_of_eq [']'] heq, Option.bind_some]
    · next heq =>
      rw [byMark_of_ne (by simp [heq]), byMark_of_eq ['&', '&'] heq, Option.bind_some, ih]
    · next heq =>
      rw [byMark_of_ne (by simp [heq]), byMark_of_ne (by simp [heq]), byMark_of_eq ['-', '-'] heq,
        Option.bind_some, ih]
    · next heq =>
      rw [byMark_of_ne (by simp [heq]), byMark_of_ne (by simp [heq]), byMark_of_ne (by simp [heq]),
        byMark_of_eq ['~', '~'] heq, Option.bind_some, ih]
    · next rest heq =>
      rw [byMark_of_ne (by simp [heq]), byMark_of_ne (by simp [heq]), byMark_of_ne (by simp [heq]),
        byMark_of_ne (by simp [heq]), byMark_of_eq ['['] heq, nestedFrom?]
      rcases posix? m rest with _ | ⟨_ | s, r⟩
      · dsimp only
        rw [Option.bind_map]
        exact Option.bind_congr fun x _ => ih _ _
      · rfl
      · exact ih _ _
    · next h₁ h₂ h₃ h₄ h₅ h₆ =>
      rw [byMark_of_ne h₂, byMark_of_ne h₃, byMark_of_ne h₄, byMark_of_ne h₅, byMark_of_ne h₆,
        Option.bind_map]
      refine Eq.trans (item?_bind m (fun s => items?_nil m nested fuel _)
        (fun s after h => items?_hyphen m nested fuel _ h) _) ?_
      exact Option.bind_congr fun x _ => ih _ _

variable {nested : Reader}

theorem local_nestedFrom? (hnested : Local Never (nested m)) (p : Progress) :
    Local Never (nestedFrom? m nested p) := by
  have hset : Local Never fun cs => (nested m cs).map fun x =>
      ((.inr (p.add x.1.1 x.1.2) : Step), x.2) :=
    hnested.andMap fun x => (.inr (p.add x.1 x.2) : Step)
  have hclass : Local Never fun cs => (posix? m cs).bind fun x =>
      (x.1.map fun s => (.inr (p.add s 0) : Step)).map (·, x.2) :=
    ((stable_posix? m).local_ (ends_posix? m)).andThen fun s =>
      Local.option (s.map fun s => (.inr (p.add s 0) : Step))
  have hnone : ∀ cs, posix? m cs = none → nestedFrom? m nested p cs = (nested m cs).map fun x =>
      ((.inr (p.add x.1.1 x.1.2) : Step), x.2) := fun cs h => by
    rw [nestedFrom?, h]
  have hsome : ∀ cs x, posix? m cs = some x → nestedFrom? m nested p cs =
      (posix? m cs).bind fun x =>
        (x.1.map fun s => (.inr (p.add s 0) : Step)).map (·, x.2) := by
    rintro cs ⟨_ | s, rest⟩ h <;> rw [nestedFrom?, h] <;> rfl
  refine ⟨fun cs a rest h => ?_, fun cs => ?_⟩
  · cases hposix : posix? m cs with
    | none => exact hset.ends cs a rest (hnone cs hposix ▸ h)
    | some x => exact hclass.ends cs a rest (hsome cs x hposix ▸ h)
  · cases hposix : posix? m cs with
    | none =>
      refine (hset.at_ cs).of_eq (hnone cs hposix) fun t ht => hnone _ ?_
      rw [stable_posix? m cs t ht, hposix, Option.map_none]
    | some x =>
      refine (hclass.at_ cs).of_eq (hsome cs x hposix) fun t ht => hsome _ (x.1, x.2 ++ t) ?_
      rw [stable_posix? m cs t ht, hposix, Option.map_some]

theorem local_step? (hnested : Local Never (nested m)) (p : Progress) :
    Local Never (step? m nested p) := by
  have hitem : Local Never fun cs =>
      (freeItem? m cs).map fun x => ((.inr (p.add x.1 0) : Step), x.2) :=
    (local_freeItem? m).andMap fun s => (.inr (p.add s 0) : Step)
  have hopen := (local_nestedFrom? m hnested p).byMark ['['] hitem (by decide)
  exact (Local.pure _).byMark _ ((Local.pure _).byMark _ ((Local.pure _).byMark _
    ((Local.pure _).byMark _ hopen (by decide)) (by decide)) (by decide)) (by decide)

theorem takes_step? (hnested : Local Never (nested m)) (p : Progress) :
    Takes (step? m nested p) := by
  have hitem : Takes fun cs =>
      (freeItem? m cs).map fun x => ((.inr (p.add x.1 0) : Step), x.2) :=
    (takes_freeItem? m).map fun s => (.inr (p.add s 0) : Step)
  have hopen := Takes.byMark (local_nestedFrom? m hnested p).ends ['['] hitem (by simp)
  exact Takes.byMark (Ends.pure _) _ (Takes.byMark (Ends.pure _) _ (Takes.byMark (Ends.pure _) _
    (Takes.byMark (Ends.pure _) _ hopen (by simp)) (by simp)) (by simp)) (by simp)

/-- The items of a set are read locally, if the sets nested in it are. -/
theorem local_items? (hnested : Local Never (nested m)) (p : Progress) :
    Local Never fun cs => items? nested m (cs.length + 1) p cs := by
  simp only [items?_eq_steps]
  refine Local.steps (fun p => (local_step? m hnested p).skip m) ?_
    (fun _ _ _ => nofun) p
  intro p cs p' rest h
  exact ((takes_step? m hnested p).skip m) cs (.inr p') rest h

/-! ### Levels of brackets -/

theorem hyphens_eq (fuel : Nat) (p : Progress) (cs : List Char) : hyphens m fuel p cs =
    ((m.span (· == '-') fuel cs).1.foldl (fun p _ => p.add (.single '-') 0) p,
      (m.span (· == '-') fuel cs).2) := by
  induction fuel generalizing p cs with
  | zero => cases cs <;> rfl
  | succ fuel ih =>
    by_cases hhyphen : ∃ rest, cs = '-' :: rest
    · obtain ⟨rest, rfl⟩ := hhyphen
      rw [hyphens, ih]
      rfl
    · rw [hyphens]
      · cases cs with
        | nil => rfl
        | cons c rest =>
          have hc : (c == '-') = false := beq_false_of_ne fun h => hhyphen ⟨rest, h ▸ rfl⟩
          rw [Mode.span, hc, if_neg Bool.false_ne_true]
          rfl
      · exact fun _ _ _ h => hhyphen ⟨_, h⟩

theorem local_hyphens (p : Progress) : Local Never fun cs => some (hyphens m cs.length p cs) := by
  simp only [hyphens_eq]
  exact (m.local_run (p := (· == '-')) (by decide)).andMap fun run =>
    run.foldl (fun p _ => p.add (.single '-') 0) p

/-- The items of a set after what stands for itself in front. -/
def itemsFrom? (nested : Reader) (negated : Bool) (p : Progress) (cs : List Char) :
    Read (CharSet × Nat) :=
  (items? nested m (cs.length + 1) p cs).bind fun x =>
    ((m.close? negated x.1.1).map fun s => (s, x.1.2 + 1)).map (·, x.2)

/-- A set after the caret that may negate it. -/
def setFrom? (nested : Reader) (negated : Bool) : List Char → Read (CharSet × Nat) :=
  byMark [']'] (itemsFrom? m nested negated (Progress.add {} (.single ']') 0)) fun cs =>
    (some (hyphens m cs.length {} cs)).bind fun x => itemsFrom? m nested negated x.1 x.2

theorem itemsFrom?_eq (negated : Bool) (p : Progress) (cs : List Char) :
    itemsFrom? m nested negated p cs = (items? nested m (cs.length + 1) p cs).bind fun x =>
      (m.close? negated x.1.1).map fun s => ((s, x.1.2 + 1), x.2) := by
  simp only [itemsFrom?, Option.map_map]
  rfl

theorem level_eq (cs : List Char) : level nested m cs =
    byMark ['^'] (fun rest => setFrom? m nested true (m.skip rest)) (setFrom? m nested false)
      (m.skip cs) := by
  rw [level]
  split
  next negated start hcaret =>
    have hlevel : byMark ['^'] (fun rest => setFrom? m nested true (m.skip rest))
        (setFrom? m nested false) (m.skip cs) = setFrom? m nested negated start := by
      split at hcaret
      · next rest hrest =>
        obtain ⟨rfl, rfl⟩ := Prod.mk.inj hcaret
        exact byMark_of_eq ['^'] hrest
      · next hne =>
        obtain ⟨rfl, rfl⟩ := Prod.mk.inj hcaret
        exact byMark_of_ne hne
    split
    next p rest hbracket =>
      have hset : setFrom? m nested negated start = itemsFrom? m nested negated p rest := by
        split at hbracket
        · obtain ⟨rfl, rfl⟩ := Prod.mk.inj hbracket
          exact byMark_singleton ']' _
        · next hne => rw [setFrom?, byMark_of_ne hne, Option.bind_some, hbracket]
      rw [hlevel, hset]
      exact (itemsFrom?_eq m negated p rest).symm

theorem local_level (hnested : Local Never (nested m)) : Local Never (level nested m) := by
  have hitems : ∀ negated p, Local Never (itemsFrom? m nested negated p) := fun negated p =>
    (local_items? m hnested p).andThen fun x =>
      Local.option ((m.close? negated x.1).map fun s => (s, x.2 + 1))
  have hset : ∀ negated, Local Never (setFrom? m nested negated) := fun negated =>
    (hitems negated _).byMark _ ((local_hyphens m {}).andThen (hitems negated)) (by decide)
  rw [funext (level_eq m)]
  exact (((hset true).skip m).byMark _ (hset false) (by decide)).skip m

/-- Sets are read locally, whatever depth of brackets is allowed. -/
theorem local_levels (budget : Nat) (m : Mode) : Local Never (levels budget m) := by
  induction budget generalizing m with
  | zero => exact Local.fail
  | succ budget ih => exact local_level m (ih m)

end Formulary.Bracket
