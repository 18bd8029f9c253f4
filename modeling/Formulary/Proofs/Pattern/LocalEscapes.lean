import Formulary.Proofs.Pattern.Locality

/-!
# Flags, names, repetitions and escapes are local

The readers of what stands between the parts of a pattern, and of escapes, go by what they take.
Each is first brought into the form of local readers one after the other, or of a choice by a mark,
and then it is local for that reason.

The one exception is the brace after `\b`, which may give the condition a name or begin a
repetition. Which of the two it does is decided by the first character behind it. Where the text
ends there, the reader refuses; a closing parenthesis there makes it leave the brace to the
repetition, and no repetition begins with a closing parenthesis.

## Main definitions

* `Mode.run` — the longest run of characters with a property
* `Mode.upTo?` — the characters before a mark
* `Escape.StrayBrace` — a brace that begins no repetition

## Main results

* `Pattern.local_opening?`, `Pattern.local_counted?` — openings of groups and repetitions
* `Escape.local_boundaryFrom?`, `Escape.local_read?` — escapes, with the exception
-/

namespace Formulary

open Text Pattern Escape

namespace Mode

variable (m : Mode) {p : Char → Bool} {cs : List Char}

/-! ### Runs -/

/-- The longest run of characters with a property, and the rest. -/
def run (p : Char → Bool) (cs : List Char) : List Char × List Char := m.span p cs.length cs

/-- A run is not cut short if there is fuel for every character. -/
theorem span_eq_run {n : Nat} (h : cs.length ≤ n) : m.span p n cs = m.run p cs := by
  induction n using Nat.strongRecOn generalizing cs with
  | ind n ih =>
    cases cs with
    | nil => cases n <;> rfl
    | cons c rest =>
      cases n with
      | zero => simp at h
      | succ n =>
        have hskip := (m.skip_suffix rest).length_le
        rw [List.length_cons, Nat.succ_le_succ_iff] at h
        rw [run, List.length_cons, span, span, ih n (Nat.lt_succ_self n) (hskip.trans h),
          ih rest.length (Nat.lt_succ_of_le h) hskip]

theorem run_cons (c : Char) (rest : List Char) : m.run p (c :: rest) =
    if p c then (c :: (m.run p (m.skip rest)).1, (m.run p (m.skip rest)).2)
    else ([], c :: rest) := by
  rw [run, List.length_cons, span, span_eq_run m (m.skip_suffix rest).length_le]

theorem length_skip_lt (c : Char) (rest : List Char) :
    (m.skip rest).length < (c :: rest).length :=
  Nat.lt_succ_of_le (m.skip_suffix rest).length_le

theorem run_suffix (cs : List Char) : (m.run p cs).2 <:+ cs := by
  match cs with
  | [] => exact List.suffix_refl []
  | c :: rest =>
    rw [run_cons]
    split
    · exact (run_suffix (m.skip rest)).trans ((m.skip_suffix rest).trans (List.suffix_cons c rest))
    · exact List.suffix_refl _
termination_by cs.length
decreasing_by exact m.length_skip_lt c rest

theorem ends_run : Ends fun cs => some (m.run p cs) := by
  intro cs a rest h
  have hrest : (m.run p cs).2 = rest := congrArg Prod.snd (Option.some.inj h)
  exact hrest ▸ m.run_suffix cs

/-- A run that a closing parenthesis ends is local. -/
theorem local_run (hp : p ')' = false) : Local Never fun cs => some (m.run p cs) where
  ends := m.ends_run
  at_ cs := by
    -- on the length of the text, as a run goes on behind the blanks after a character
    induction h : cs.length using Nat.strongRecOn generalizing cs with
    | ind n ih =>
      obtain _ | ⟨c, rest⟩ := cs
      · refine LocalAt.keep rfl ?_
        rintro t ⟨more, rfl, -⟩
        rw [List.nil_append, run_cons, hp, if_neg Bool.false_ne_true]
      · by_cases hc : p c = true
        · have hrest := ih (m.skip rest).length (h ▸ m.length_skip_lt c rest) (m.skip rest) rfl
          refine ((hrest.skip m.ends_run).map (c :: ·) fun _ _ => nofun).cons fun cs => ?_
          rw [run_cons, if_pos hc, Option.map_some]
        · have hstop : ∀ cs, some (m.run p (c :: cs)) = some ([], c :: cs) := fun cs => by
            rw [run_cons, if_neg hc]
          exact LocalAt.keep (hstop rest) fun t _ => hstop (rest ++ t)

/-- The characters before the first `d`, and what follows it. -/
def upTo? (d : Char) (cs : List Char) : Read (List Char) :=
  match m.run (· != d) cs with
  | (content, _ :: rest) => some (content, rest)
  | (_, []) => none

theorem upTo?_cons (d c : Char) (rest : List Char) : m.upTo? d (c :: rest) =
    if c = d then some ([], rest)
    else (m.upTo? d (m.skip rest)).map fun x => (c :: x.1, x.2) := by
  rw [upTo?, upTo?, run_cons]
  by_cases hc : c = d
  · rw [if_neg (by simp [hc]), if_pos hc]
  · rw [if_pos (by simp [hc]), if_neg hc]
    obtain ⟨content, _ | ⟨_, rest⟩⟩ := m.run (· != d) (m.skip rest) <;> rfl

theorem ends_upTo? (d : Char) : Ends (m.upTo? d) := by
  intro cs content rest h
  have hsuffix := m.run_suffix (p := (· != d)) cs
  rw [upTo?] at h
  split at h
  · next heq =>
    obtain ⟨-, rfl⟩ := Prod.mk.inj (Option.some.inj h)
    rw [heq] at hsuffix
    exact (List.suffix_cons _ _).trans hsuffix
  · exact absurd h nofun

theorem local_upTo? (d : Char) : Local Never (m.upTo? d) where
  ends := m.ends_upTo? d
  at_ cs := by
    induction h : cs.length using Nat.strongRecOn generalizing cs with
    | ind n ih =>
      obtain _ | ⟨c, rest⟩ := cs
      · refine LocalAt.nil rfl fun more a rest h => ?_
        rw [upTo?_cons] at h
        split at h
        · obtain ⟨-, rfl⟩ := Prod.mk.inj (Option.some.inj h)
          exact List.suffix_refl more
        · exact (((m.ends_upTo? d).skip m).map _) more a rest h
      · by_cases hc : c = d
        · exact ((Local.pure []).at_ rest).cons fun cs => by rw [upTo?_cons, if_pos hc]
        · have hrest := ih (m.skip rest).length (h ▸ m.length_skip_lt c rest) (m.skip rest) rfl
          refine ((hrest.skip (m.ends_upTo? d)).map (c :: ·) fun _ _ => nofun).cons fun cs => ?_
          rw [upTo?_cons, if_neg hc]

theorem local_braced? : Local Never m.braced? := by
  have h : m.braced? = fun cs => m.upTo? '\x7d' (m.skip cs) := by
    funext cs
    rw [braced?, span_eq_run m (m.skip_suffix cs).length_le]
    rfl
  rw [h]
  exact (m.local_upTo? '\x7d').skip m

/-- Where no blanks are skipped a run is what any list has. -/
theorem span_eq_run_plain (p : Char → Bool) (cs : List Char) : cs.span p = run {} p cs := by
  induction cs with
  | nil => rfl
  | cons c rest ih =>
    rw [List.span_eq_takeWhile_dropWhile] at ih
    have hskip : skip {} rest = rest := rfl
    rw [run_cons, hskip, ← ih, List.span_eq_takeWhile_dropWhile, List.takeWhile_cons,
      List.dropWhile_cons]
    split <;> rfl

/-! ### Flags -/

/-- A character is a flag, or it ends the flags or makes them wrong. -/
theorem flagsFrom?_cons (seen : List Char) (c : Char) :
    (∃ m' seen', ∀ rest, flagsFrom? m seen (c :: rest) = flagsFrom? m' seen' rest) ∨
      ∃ x : Option (Mode × FlagsEnd),
        ∀ rest, flagsFrom? m seen (c :: rest) = x.map fun x => (x.1, x.2, rest) := by
  by_cases hcolon : c = ':'
  · subst hcolon
    right
    refine ⟨if seen.head? == some '-' then none else some (m, .body), fun rest => ?_⟩
    rw [flagsFrom?]
    split <;> rfl
  by_cases hclose : c = ')'
  · subst hclose
    right
    refine ⟨if seen.isEmpty || seen.head? == some '-' then none else some (m, .rest),
      fun rest => ?_⟩
    rw [flagsFrom?]
    split <;> rfl
  by_cases hhyphen : c = '-'
  · subst hhyphen
    by_cases hseen : seen.contains '-' = true
    · exact Or.inr ⟨none, fun rest => by rw [flagsFrom?, if_pos hseen]; rfl⟩
    · exact Or.inl ⟨m, '-' :: seen, fun rest => by rw [flagsFrom?, if_neg hseen]⟩
  have hflag : ∀ rest, flagsFrom? m seen (c :: rest) = if seen.contains c then none
      else (m.switch? (!seen.contains '-') c).bind fun m => flagsFrom? m (c :: seen) rest :=
    fun rest => by
      rw [flagsFrom?]
      · cases m.switch? (!seen.contains '-') c <;> rfl
      all_goals assumption
  by_cases hseen : seen.contains c = true
  · exact Or.inr ⟨none, fun rest => by rw [hflag, if_pos hseen]; rfl⟩
  simp only [hflag, if_neg hseen]
  cases m.switch? (!seen.contains '-') c with
  | none => exact Or.inr ⟨none, fun _ => rfl⟩
  | some m' => exact Or.inl ⟨m', c :: seen, fun _ => rfl⟩

/-- The modes after flags, with what ends the flags. -/
def readFlags? (seen : List Char) (cs : List Char) : Read (Mode × FlagsEnd) :=
  (flagsFrom? m seen cs).map fun x => ((x.1, x.2.1), x.2.2)

theorem readFlags?_cons (seen : List Char) (c : Char) :
    (∃ m' seen', ∀ rest, readFlags? m seen (c :: rest) = readFlags? m' seen' rest) ∨
      ∃ x : Option (Mode × FlagsEnd),
        ∀ rest, readFlags? m seen (c :: rest) = x.map fun x => (x, rest) := by
  rcases m.flagsFrom?_cons seen c with ⟨m', seen', h⟩ | ⟨x, h⟩
  · exact Or.inl ⟨m', seen', fun rest => by rw [readFlags?, h, readFlags?]⟩
  · exact Or.inr ⟨x, fun rest => by rw [readFlags?, h, Option.map_map]; rfl⟩

theorem ends_readFlags? (seen : List Char) : Ends (m.readFlags? seen) := by
  intro cs a rest h
  induction cs generalizing m seen with
  | nil => exact absurd h nofun
  | cons c cs ih =>
    rcases m.readFlags?_cons seen c with ⟨m', seen', hcons⟩ | ⟨x, hcons⟩
    · rw [hcons] at h
      exact (ih m' seen' h).trans (List.suffix_cons c cs)
    · rw [hcons] at h
      exact (Ends.option x cs a rest h).trans (List.suffix_cons c cs)

theorem local_readFlags? (seen : List Char) : Local Never (m.readFlags? seen) where
  ends := m.ends_readFlags? seen
  at_ cs := by
    induction cs generalizing m seen with
    | nil =>
      refine LocalAt.nil rfl fun more a rest h => ?_
      rcases m.readFlags?_cons seen ')' with ⟨m', seen', hcons⟩ | ⟨x, hcons⟩
      · rw [hcons] at h
        exact m'.ends_readFlags? seen' more a rest h
      · rw [hcons] at h
        exact Ends.option x more a rest h
    | cons c cs ih =>
      rcases m.readFlags?_cons seen c with ⟨m', seen', hcons⟩ | ⟨x, hcons⟩
      · exact (ih m' seen').cons hcons
      · exact ((Local.option x).at_ cs).cons hcons

end Mode

namespace Pattern

variable (m : Mode)

/-! ### Openings of groups -/

/-- The name that characters make. -/
def nameOf? : List Char → Option String
  | [] => none
  | first :: more =>
    if isNameChar true first && more.all (isNameChar false) then
      some (String.ofList (first :: more))
    else none

theorem local_name? : Local Never name? := by
  have h : name? = fun cs => (Mode.upTo? {} '>' cs).bind fun x => (nameOf? x.1).map (·, x.2) := by
    funext cs
    rw [name?, Mode.span_eq_run_plain, Mode.upTo?]
    obtain ⟨_ | ⟨first, more⟩, _ | ⟨_, rest⟩⟩ := Mode.run {} (· != '>') cs
    · rfl
    · rfl
    · rfl
    · simp only [Option.bind_some, nameOf?]
      split <;> rfl
  rw [h]
  exact (Mode.local_upTo? {} '>').andThen fun content => Local.option (nameOf? content)

/-- A group with a name. -/
def namedOpening? (cs : List Char) : Read Opening :=
  (name? cs).map fun x => (.body (.named x.1) m, x.2)

/-- A group with flags, or flags alone. -/
def flagsOpening? (cs : List Char) : Read Opening :=
  (m.readFlags? [] cs).map fun x =>
    (if x.1.2 = .body then .body .plain x.1.1 else .flags x.1.1, x.2)

theorem opening?_eq (cs : List Char) : opening? m cs =
    byMark ['?', 'P', '<'] (namedOpening? m)
      (byMark ['?', '<'] (namedOpening? m)
        (byMark ['?'] (flagsOpening? m) fun cs => some (.body .numbered m, cs))) (m.skip cs) := by
  rw [opening?]
  split
  · next heq => rw [byMark_of_eq ['?', 'P', '<'] heq, namedOpening?]
  · next heq =>
    rw [byMark_of_ne (by simp [heq]), byMark_of_eq ['?', '<'] heq, namedOpening?]
  · next rest hname hangle heq =>
    rw [byMark_of_ne fun r hr => hname r (List.cons.inj (heq.symm.trans hr)).2,
      byMark_of_ne fun r hr => hangle r (List.cons.inj (heq.symm.trans hr)).2,
      byMark_of_eq ['?'] heq, flagsOpening?, Mode.readFlags?, Mode.ofFlags?]
    rcases m.flagsFrom? [] rest with _ | ⟨m', _ | _, rest⟩ <;> rfl
  · next hname hangle hmark =>
    rw [byMark_of_ne hname, byMark_of_ne hangle, byMark_of_ne hmark]

theorem local_opening? : Local Never (opening? m) := by
  have hnamed : Local Never (namedOpening? m) :=
    local_name?.andMap fun name => Opening.body (.named name) m
  have hflags : Local Never (flagsOpening? m) :=
    (m.local_readFlags? []).andMap fun x =>
      if x.2 = .body then Opening.body .plain x.1 else .flags x.1
  have hmarked := hflags.byMark ['?'] (Local.pure (Opening.body .numbered m)) (by decide)
  have hopening := hnamed.byMark ['?', 'P', '<'] (hnamed.byMark ['?', '<'] hmarked (by decide))
    (by decide)
  rw [funext (opening?_eq m)]
  exact hopening.skip m

/-! ### Repetitions -/

theorem local_repetitionOf (least : Nat) (most : Option Nat) :
    Local Never fun cs => some (repetitionOf m least most cs) := by
  have h : (fun cs => some (repetitionOf m least most cs)) =
      byMark ['?'] (fun cs => some (⟨least, most, !m.lazy⟩, cs))
        fun cs => some (⟨least, most, m.lazy⟩, cs) := by
    funext cs
    unfold repetitionOf
    split
    · rw [byMark_singleton]
    · next hmark => rw [byMark_of_ne hmark]
  rw [h]
  exact (Local.pure _).byMark _ (Local.pure _) (by decide)

/-- A closing parenthesis is no blank. -/
theorem dropWhile_isBlank_append (cs : List Char) {t : List Char} (ht : Closing t) :
    (cs ++ t).dropWhile isBlank = cs.dropWhile isBlank ++ t := by
  have hclose : isBlank ')' = false := by decide
  obtain ⟨more, rfl, -⟩ := ht
  rw [List.dropWhile_append]
  split
  · next h =>
    rw [List.isEmpty_iff.mp h, List.dropWhile_cons, hclose, if_neg Bool.false_ne_true,
      List.nil_append]
  · rfl

/-- The number that digits make, if they make one. -/
def countOf? (digits : List Char) : Option Nat :=
  let n := digits.foldl (fun n c => 10 * n + (c.toNat - '0'.toNat)) 0
  if !digits.isEmpty && n ≤ maxCount then some n else none

theorem count?_eq (cs : List Char) : count? m cs =
    (some (m.run Char.isDigit (cs.dropWhile isBlank))).bind fun x =>
      (countOf? x.1).map (·, x.2.dropWhile isBlank) := by
  rw [count?, Mode.run, Option.bind_some, countOf?]
  dsimp only
  split <;> rfl

theorem local_count? : Local Never (count? m) := by
  have hdrop : ∀ {α : Type} {F : List Char → Read α}, Local Never F →
      Local Never fun cs => F (cs.dropWhile isBlank) :=
    fun hF => hF.comp (fun _ => List.dropWhile_suffix _) fun cs _ => dropWhile_isBlank_append cs
  rw [funext (count?_eq m)]
  have hdigits : Local Never fun cs => some (m.run Char.isDigit (cs.dropWhile isBlank)) :=
    hdrop (m.local_run (by decide))
  have hcount : ∀ digits, Local Never fun cs =>
      (countOf? digits).map fun n => (n, cs.dropWhile isBlank) :=
    fun digits => hdrop (Local.option (countOf? digits))
  exact hdigits.andThen hcount

/-- What stands after the greatest count of a repetition. -/
def countedTo? (least most : Nat) : List Char → Read Repetition :=
  byMark ['\x7d'] (fun rest =>
    if least ≤ most then some (repetitionOf m least (some most) (m.skip rest)) else none)
    fun _ => none

/-- What stands after the least count of a repetition. -/
def countedFrom? (least : Nat) : List Char → Read Repetition :=
  byMark ['\x7d'] (fun rest => some (repetitionOf m least (some least) (m.skip rest)))
    (byMark [','] (fun rest =>
        byMark ['\x7d'] (fun rest => some (repetitionOf m least none (m.skip rest)))
          (fun rest => (count? m rest).bind fun x => countedTo? m least x.1 x.2) (m.skip rest))
      fun _ => none)

theorem counted?_eq (cs : List Char) : counted? m cs =
    (count? m (m.skip cs)).bind fun x => countedFrom? m x.1 x.2 := by
  rw [counted?]
  refine Option.bind_congr fun x _ => ?_
  obtain ⟨least, rest⟩ := x
  dsimp only
  rw [countedFrom?]
  split
  · rw [byMark_singleton]
  · rw [byMark_of_ne (by simp), byMark_singleton]
    split
    · next heq => rw [byMark_of_eq ['\x7d'] heq]
    · next hbrace =>
      rw [byMark_of_ne hbrace]
      refine Option.bind_congr fun x _ => ?_
      split
      · next heq => rw [countedTo?, byMark_of_eq ['\x7d'] heq]
      · next hclose => rw [countedTo?, byMark_of_ne hclose]
  · next hbrace hcomma => rw [byMark_of_ne hbrace, byMark_of_ne hcomma]

theorem local_counted? : Local Never (counted? m) := by
  have hmark : ∀ least most, Local Never fun cs => some (repetitionOf m least most (m.skip cs)) :=
    fun least most => (local_repetitionOf m least most).skip m
  have hto : ∀ least most, Local Never (countedTo? m least most) := by
    intro least most
    refine Local.byMark ?_ _ Local.fail (by decide)
    split
    · exact hmark least (some most)
    · exact Local.fail
  have hfrom : ∀ least, Local Never (countedFrom? m least) := by
    intro least
    refine (hmark least (some least)).byMark _ (Local.byMark ?_ _ Local.fail (by decide))
      (by decide)
    refine Local.skip ((hmark least none).byMark _ ?_ (by decide)) m
    exact (local_count? m).andThen (hto least)
  rw [funext (counted?_eq m)]
  exact ((local_count? m).skip m).andThen hfrom

end Pattern

namespace Escape

variable (m : Mode)

/-! ### Escapes -/

theorem local_hexDigits? (count : Nat) : Local Never (hexDigits? m count) := by
  induction count with
  | zero => exact Local.pure []
  | succ n ih =>
    have hdigit : Local Never fun cs => match cs with
        | [] => none
        | c :: rest => (hexDigits? m n rest).map fun x => (c :: x.1, x.2) :=
      Local.of_cons rfl fun c => ih.andMap fun digits => c :: digits
    exact hdigit.skip m

/-- The character with a number in hexadecimal digits, where so many digits allow it. -/
def sizedHex? (count : Nat) (digits : List Char) : Option Char :=
  (ofHex? digits).bind fun c => if 2 < count || m.allows c then some c else none

theorem number?_eq (count : Nat) (cs : List Char) : number? m count cs =
    byMark ['\x7b'] (fun rest => (m.braced? rest).bind fun x => (ofHex? x.1).map (·, x.2))
      (fun cs => (hexDigits? m count cs).bind fun x => (sizedHex? m count x.1).map (·, x.2))
      (m.skip cs) := by
  rw [number?]
  split
  · next heq => rw [byMark_of_eq ['\x7b'] heq]
  · next hbrace =>
    rw [byMark_of_ne hbrace]
    refine Option.bind_congr fun x _ => ?_
    obtain ⟨digits, rest⟩ := x
    dsimp only
    rw [sizedHex?]
    cases ofHex? digits with
    | none => rfl
    | some c =>
      simp only [Option.bind_some]
      split <;> rfl

theorem local_number? (count : Nat) : Local Never (number? m count) := by
  have hbraced : Local Never fun cs =>
      (m.braced? cs).bind fun x => (ofHex? x.1).map fun c => (c, x.2) :=
    m.local_braced?.andThen fun digits => Local.option (ofHex? digits)
  have hsized : Local Never fun cs =>
      (hexDigits? m count cs).bind fun x => (sizedHex? m count x.1).map fun c => (c, x.2) :=
    (local_hexDigits? m count).andThen fun digits => Local.option (sizedHex? m count digits)
  rw [funext (number?_eq m count)]
  exact (hbraced.byMark _ hsized (by decide)).skip m

/-- The name of a property where no blanks are in front. -/
def nameFrom? : List Char → Read (List Char) :=
  byMark ['\x7b'] m.braced? (byMark ['\\'] (fun _ => none) fun
    | [] => none
    | c :: rest => some ([c], rest))

theorem propertyName?_eq (cs : List Char) : propertyName? m cs = nameFrom? m (m.skip cs) := by
  rw [propertyName?, nameFrom?]
  split
  · next heq => rw [byMark_of_eq ['\x7b'] heq]
  · next heq => rw [byMark_of_ne (by simp [heq]), byMark_of_eq ['\\'] heq]
  · next heq => rw [byMark_of_ne (by simp [heq]), byMark_of_ne (by simp [heq]), heq]
  · next c rest hbrace hbackslash heq =>
    rw [byMark_of_ne (by simpa [heq] using hbrace), byMark_of_ne (by simpa [heq] using hbackslash),
      heq]

theorem local_propertyName? : Local Never (propertyName? m) := by
  have hletter : Local Never fun cs => match cs with
      | [] => none
      | c :: rest => some ([c], rest) :=
    Local.of_cons rfl fun c => Local.pure [c]
  have hname : Local Never (nameFrom? m) :=
    m.local_braced?.byMark _ (Local.fail.byMark _ hletter (by decide)) (by decide)
  rw [funext (propertyName?_eq m)]
  exact hname.skip m

theorem local_propertyClass? (negated : Bool) : Local Never (propertyClass? m negated) := by
  have h : propertyClass? m negated = fun cs =>
      if m.unicode then
        (propertyName? m cs).bind fun x =>
          ((property? x.1).bind fun y => m.close? (negated != y.2) y.1).map (·, x.2)
      else none := by
    funext cs
    rw [propertyClass?]
    simp only [Option.map_bind, Function.comp_def]
  rw [h]
  split
  · exact (local_propertyName? m).andThen fun name =>
      Local.option ((property? name).bind fun y => m.close? (negated != y.2) y.1)
  · exact Local.fail

/-- A brace that begins no repetition. -/
def StrayBrace (cs : List Char) : Prop :=
  ∃ rest, cs = '\x7b' :: rest ∧ counted? m rest = none

theorem count?_closing {t : List Char} (ht : Closing t) : count? m t = none := by
  have hdrop : t.dropWhile isBlank = t := dropWhile_isBlank_append [] ht
  obtain ⟨more, rfl, -⟩ := ht
  have hdigit : Char.isDigit ')' = false := by decide
  rw [count?_eq, hdrop, Mode.run_cons, hdigit, if_neg Bool.false_ne_true]
  rfl

theorem boundaryFrom?_of_ne {cs : List Char} (h : ∀ rest, cs ≠ '\x7b' :: rest) :
    boundaryFrom? m cs = some (.boundary m.unicode, cs) := by
  rw [boundaryFrom?]
  exact h

/-- A character that may stand first in the braces of `\b`. -/
def isNameStart (c : Char) : Bool := c.isAlpha || c == '-'

/-- The condition in the braces of `\b`. -/
def boundaryIn? (cs : List Char) : Read Look :=
  (m.braced? cs).bind fun x => (boundary? m x.1).map (·, x.2)

theorem boundaryFrom?_brace {c : Char} {rest after : List Char} (h : m.skip rest = c :: after) :
    boundaryFrom? m ('\x7b' :: rest) =
      if isNameStart c then boundaryIn? m rest else some (.boundary m.unicode, '\x7b' :: rest) := by
  rw [boundaryFrom?, h]
  rfl

theorem boundaryFrom?_brace_nil {rest : List Char} (h : m.skip rest = []) :
    boundaryFrom? m ('\x7b' :: rest) = none := by
  rw [boundaryFrom?, h]

theorem local_boundaryIn? : Local Never (boundaryIn? m) :=
  m.local_braced?.andThen fun name => Local.option (boundary? m name)

theorem ends_boundaryFrom? : Ends (boundaryFrom? m) := by
  intro cs a r h
  by_cases hbrace : ∃ rest, cs = '\x7b' :: rest
  · obtain ⟨rest, rfl⟩ := hbrace
    cases hskip : m.skip rest with
    | nil => exact absurd (boundaryFrom?_brace_nil m hskip ▸ h) nofun
    | cons c after =>
      rw [boundaryFrom?_brace m hskip] at h
      split at h
      · exact ((local_boundaryIn? m).ends rest a r h).trans (List.suffix_cons _ rest)
      · exact (Prod.mk.inj (Option.some.inj h)).2 ▸ List.suffix_refl _
  · rw [boundaryFrom?_of_ne m fun rest hrest => hbrace ⟨rest, hrest⟩] at h
    exact (Prod.mk.inj (Option.some.inj h)).2 ▸ List.suffix_refl _

/-- Braces after `\b` are looked into. At the end of a text they are refused, and before an addition
they are left over, but they begin no repetition. -/
theorem local_boundaryFrom? : Local (fun _ => StrayBrace m) (boundaryFrom? m) where
  ends := ends_boundaryFrom? m
  at_ cs := by
    by_cases hbrace : ∃ rest, cs = '\x7b' :: rest
    · obtain ⟨rest, rfl⟩ := hbrace
      cases hskip : m.skip rest with
      | nil =>
        refine ⟨fun a r h => absurd (boundaryFrom?_brace_nil m hskip ▸ h) nofun, ?_⟩
        intro t ht a r h
        rw [List.cons_append] at h
        rcases m.skip_append_closing hskip with hstop | hlost
        · -- only here does the addition make a difference
          right
          have hcounted : counted? m (rest ++ t) = none := by
            rw [counted?, hstop t ht, count?_closing m ht, Option.bind_none]
          have hstart : isNameStart ')' = false := by decide
          have hstop := hstop t ht
          obtain ⟨more, rfl, -⟩ := ht
          rw [boundaryFrom?_brace m hstop, hstart, if_neg Bool.false_ne_true] at h
          exact ⟨_, (Prod.mk.inj (Option.some.inj h)).2.symm, hcounted⟩
        · exact absurd (boundaryFrom?_brace_nil m (hlost t ht) ▸ h) nofun
      | cons c after =>
        have happend := m.skip_append_of_eq_cons hskip
        by_cases hstart : isNameStart c = true
        · refine ((local_boundaryIn? m).at_ rest |>.mono fun _ _ => nofun).of_eq ?_ fun t _ => ?_
          · rw [boundaryFrom?_brace m hskip, if_pos hstart]
          · rw [List.cons_append, boundaryFrom?_brace m (happend t), if_pos hstart]
        · refine LocalAt.keep (a := .boundary m.unicode) ?_ fun t _ => ?_
          · rw [boundaryFrom?_brace m hskip, if_neg hstart]
          · rw [List.cons_append, boundaryFrom?_brace m (happend t), if_neg hstart]
    · refine LocalAt.keep (a := .boundary m.unicode) ?_ fun t ht => ?_
      · exact boundaryFrom?_of_ne m fun rest hrest => hbrace ⟨rest, hrest⟩
      · obtain ⟨more, rfl, -⟩ := ht
        refine boundaryFrom?_of_ne m fun rest h => ?_
        cases cs with
        | nil => exact absurd (List.cons.inj h).1 (by decide)
        | cons c cs => exact hbrace ⟨cs, by rw [(List.cons.inj h).1]⟩

/-- The letters of escapes that go on after the letter. -/
def openLetters : List Char := ['x', 'u', 'U', 'p', 'P', 'b']

/-- The other escapes consist of one character. -/
theorem read?_of_notMem {c : Char} (hc : c ∉ openLetters) :
    ∃ x : Option Escape, ∀ rest, read? m (c :: rest) = x.map (·, rest) := by
  refine ⟨(read? m [c]).map (·.1), fun rest => ?_⟩
  simp only [openLetters, List.mem_cons, not_or] at hc
  simp only [read?]
  split <;> simp_all only [Option.map_map, Function.comp_def, Option.map_some, not_true_eq_false,
    false_and, and_false]
  cases letter? c with
  | some c => rfl
  | none => dsimp only; split <;> rfl

/-- A condition before a brace that begins no repetition. -/
def BeforeStrayBrace (e : Escape) (rest : List Char) : Prop :=
  (∃ l, e = .look l) ∧ StrayBrace m rest

theorem local_read? : Local (BeforeStrayBrace m) (read? m) := by
  refine Local.of_cons rfl fun c => ?_
  by_cases hc : c ∈ openLetters
  · have hnumber : ∀ count, Local (BeforeStrayBrace m) fun cs =>
        (number? m count cs).map fun x => (Escape.char x.1, x.2) :=
      fun count => (local_number? m count).andMap Escape.char
    have hproperty : ∀ negated, Local (BeforeStrayBrace m) fun cs =>
        (propertyClass? m negated cs).map fun x => (Escape.set x.1, x.2) :=
      fun negated => (local_propertyClass? m negated).andMap Escape.set
    simp only [openLetters, List.mem_cons, List.not_mem_nil, or_false] at hc
    rcases hc with rfl | rfl | rfl | rfl | rfl | rfl
    · exact hnumber 2
    · exact hnumber 4
    · exact hnumber 8
    · exact hproperty false
    · exact hproperty true
    · exact (local_boundaryFrom? m).map Escape.look fun l _ h => ⟨⟨l, rfl⟩, h⟩
  · obtain ⟨x, hx⟩ := read?_of_notMem m hc
    rw [funext hx]
    exact Local.option x

end Escape

end Formulary
