import Formulary.Pattern.Reader
import Mathlib.Data.List.Infix

/-!
# Readers and what follows

A reader takes something off the front of a text. It is local if it goes by what it takes: put a
closing parenthesis after the text, and more on the same line, and the reader does what it did, with
the addition left over. Readers of patterns are local, with two reservations.

Comments end with the line. A reader that passes over blanks and comments may come to the end of the
text in a comment, and then the addition is part of the comment: nothing is left over. And a reader
may look ahead. What it takes may then be there only because of the addition, and is named as an
exception; it leads nowhere when reading goes on.

## Main definitions

* `Closing` — a closing parenthesis and more on its line
* `Ends` — what a reader leaves is the end of the text
* `LocalAt`, `Local` — a reader goes by what it takes, for one text and for all
* `byMark` — a reader that chooses by what stands in front
* `steps` — a reader that goes on step by step

## Main results

* `Mode.skip_append`, `Mode.skip_append_closing` — blanks and comments before an addition
* `LocalAt.bind`, `LocalAt.skip`, `Local.byMark` — local readers make local readers
* `Local.steps` — reading in local steps is local
-/

namespace Formulary.Pattern

open Text Escape

/-! ### What follows -/

/-- A closing parenthesis, and what follows it on its line. -/
def Closing (t : List Char) : Prop := ∃ more, t = ')' :: more ∧ '\n' ∉ more

/-- The rest of a text with an addition has the whole addition, or is shorter than it. -/
theorem suffix_append_cases {rest cs t : List Char} (h : rest <:+ cs ++ t) :
    (∃ r, rest = r ++ t) ∨ rest.length < t.length := by
  obtain ⟨front, h⟩ := h
  rcases List.append_eq_append_iff.mp h with ⟨r, -, hr⟩ | ⟨r, -, rfl⟩
  · exact Or.inl ⟨r, hr⟩
  · cases r with
    | nil => exact Or.inl ⟨[], rfl⟩
    | cons c r =>
      right
      simp only [List.length_append, List.length_cons]
      omega

end Formulary.Pattern

namespace Formulary.Mode

open Text Pattern

variable (m : Mode)

/-- A character is passed over, or it stops the skipping. -/
theorem skipBlanks_cons (comment : Bool) (c : Char) :
    (∃ comment', ∀ rest, skipBlanks comment (c :: rest) = skipBlanks comment' rest) ∨
      ∀ rest, skipBlanks comment (c :: rest) = c :: rest := by
  by_cases hcomment : comment = true
  · exact Or.inl ⟨c != '\n', fun rest => by rw [skipBlanks, if_pos hcomment]⟩
  by_cases hblank : isBlank c = true
  · exact Or.inl ⟨false, fun rest => by rw [skipBlanks, if_neg hcomment, if_pos hblank]⟩
  by_cases hmark : (c == '#') = true
  · left
    refine ⟨true, fun rest => ?_⟩
    rw [skipBlanks, if_neg hcomment, if_neg hblank, if_pos hmark]
  · right
    intro rest
    rw [skipBlanks, if_neg hcomment, if_neg hblank, if_neg hmark]

theorem skipBlanks_suffix (comment : Bool) (cs : List Char) : skipBlanks comment cs <:+ cs := by
  induction cs generalizing comment with
  | nil => exact List.suffix_refl []
  | cons c rest ih =>
    rcases skipBlanks_cons comment c with ⟨comment', h⟩ | h
    · rw [h]
      exact (ih comment').trans (List.suffix_cons c rest)
    · rw [h]

/-- What is neither blank nor a comment is not skipped. -/
theorem skip_cons {c : Char} (hblank : isBlank c = false) (hmark : c ≠ '#') (rest : List Char) :
    m.skip (c :: rest) = c :: rest := by
  rw [skip]
  split
  · rw [skipBlanks, if_neg Bool.false_ne_true, hblank, if_neg Bool.false_ne_true,
      if_neg (by simpa using hmark)]
  · rfl

theorem skip_suffix (cs : List Char) : m.skip cs <:+ cs := by
  rw [skip]
  split
  · exact skipBlanks_suffix false cs
  · exact List.suffix_refl cs

theorem skipBlanks_append {comment : Bool} {cs : List Char} (hne : skipBlanks comment cs ≠ [])
    (t : List Char) : skipBlanks comment (cs ++ t) = skipBlanks comment cs ++ t := by
  induction cs generalizing comment with
  | nil => exact absurd rfl hne
  | cons c rest ih =>
    rcases skipBlanks_cons comment c with ⟨comment', h⟩ | h
    · rw [h] at hne
      rw [List.cons_append, h, h, ih hne]
    · rw [List.cons_append, h, h, List.cons_append]

/-- What stops the skipping is still there when something follows. -/
theorem skip_append {cs : List Char} (hne : m.skip cs ≠ []) (t : List Char) :
    m.skip (cs ++ t) = m.skip cs ++ t := by
  rw [skip] at hne
  rw [skip, skip]
  split
  · next hverbose =>
    rw [if_pos hverbose] at hne
    exact skipBlanks_append hne t
  · rfl

theorem skip_append_of_eq_cons {c : Char} {cs after : List Char} (h : m.skip cs = c :: after)
    (t : List Char) : m.skip (cs ++ t) = c :: (after ++ t) := by
  rw [m.skip_append (h ▸ List.cons_ne_nil c after), h, List.cons_append]

theorem skipBlanks_comment {cs : List Char} (h : '\n' ∉ cs) : skipBlanks true cs = [] := by
  induction cs with
  | nil => rfl
  | cons c rest ih =>
    rw [List.mem_cons, not_or] at h
    have hc : (c != '\n') = true := bne_iff_ne.mpr (Ne.symm h.1)
    rw [skipBlanks, if_pos rfl, hc]
    exact ih h.2

theorem skipBlanks_append_closing {comment : Bool} {cs : List Char}
    (hnil : skipBlanks comment cs = []) :
    (∀ t, Closing t → skipBlanks comment (cs ++ t) = t) ∨
      ∀ t, Closing t → skipBlanks comment (cs ++ t) = [] := by
  induction cs generalizing comment with
  | nil =>
    cases comment with
    | false =>
      left
      rintro t ⟨more, rfl, -⟩
      rfl
    | true =>
      right
      rintro t ⟨more, rfl, hmore⟩
      exact skipBlanks_comment (by simpa using hmore)
  | cons c rest ih =>
    rcases skipBlanks_cons comment c with ⟨comment', h⟩ | h
    · rw [h] at hnil
      simp only [List.cons_append, h]
      exact ih hnil
    · rw [h] at hnil
      exact absurd hnil (List.cons_ne_nil c rest)

/-- Where all of a text is skipped, a closing parenthesis stops the skipping, or it is part of a
comment and so is what follows it on its line. -/
theorem skip_append_closing {cs : List Char} (hnil : m.skip cs = []) :
    (∀ t, Closing t → m.skip (cs ++ t) = t) ∨ ∀ t, Closing t → m.skip (cs ++ t) = [] := by
  rw [skip] at hnil
  simp only [skip]
  split
  · next hverbose =>
    rw [if_pos hverbose] at hnil
    exact skipBlanks_append_closing hnil
  · next hverbose =>
    rw [if_neg hverbose] at hnil
    subst hnil
    exact Or.inl fun t _ => rfl

end Formulary.Mode

namespace Formulary.Pattern

open Text Escape

/-! ### Local readers -/

section

variable {α β : Type}

/-- What a reader leaves is the end of the text. -/
def Ends (F : List Char → Read α) : Prop := ∀ cs a rest, F cs = some (a, rest) → rest <:+ cs

/-- At a text a reader goes by what it takes. What is added to the text is left over, unless it
becomes part of a comment. What is taken where an addition is left over was there before, but for
the exceptions. -/
structure LocalAt (except : α → List Char → Prop) (F : List Char → Read α) (cs : List Char) :
    Prop where
  extend : ∀ a rest, F cs = some (a, rest) →
    (∀ t, Closing t → F (cs ++ t) = some (a, rest ++ t)) ∨
      rest = [] ∧ ∀ t, Closing t → F (cs ++ t) = some (a, [])
  restrict : ∀ t, Closing t → ∀ a rest, F (cs ++ t) = some (a, rest ++ t) →
    F cs = some (a, rest) ∨ except a (rest ++ t)

/-- There are no exceptions. -/
def Never (_ : α) (_ : List Char) : Prop := False

/-- A reader goes by what it takes. -/
structure Local (except : α → List Char → Prop) (F : List Char → Read α) : Prop where
  ends : Ends F
  at_ : ∀ cs, LocalAt except F cs

variable {F : List Char → Read α} {cs : List Char} {except : α → List Char → Prop}

/-- A reader does not leave more than there is. -/
theorem Ends.ne_of_length_lt (h : Ends F) {t : List Char} (hlt : cs.length < t.length) (a : α)
    (rest : List Char) : F cs ≠ some (a, rest ++ t) := by
  intro heq
  have hle := (h cs a _ heq).length_le
  rw [List.length_append] at hle
  omega

namespace Ends

theorem bind {G : α → List Char → Read β} (hF : Ends F) (hG : ∀ a, Ends (G a)) :
    Ends fun cs => (F cs).bind fun x => G x.1 x.2 := by
  intro cs b rest h
  obtain ⟨⟨a, r⟩, hr, hb⟩ := Option.bind_eq_some_iff.mp h
  exact (hG a r b rest hb).trans (hF cs a r hr)

theorem map (hF : Ends F) (f : α → β) : Ends fun cs => (F cs).map fun x => (f x.1, x.2) := by
  intro cs b rest h
  obtain ⟨⟨a, r⟩, hr, hb⟩ := Option.map_eq_some_iff.mp h
  obtain ⟨-, rfl⟩ := Prod.mk.inj hb
  exact hF cs a r hr

theorem skip (hF : Ends F) (m : Mode) : Ends fun cs => F (m.skip cs) :=
  fun cs a rest h => (hF _ a rest h).trans (m.skip_suffix cs)

end Ends

namespace LocalAt

/-- Reading on after a local reader. The exceptions of the first reader lead nowhere. -/
theorem bind {except' : β → List Char → Prop} {G : α → List Char → Read β} (hends : Ends F)
    (hF : LocalAt except F cs) (hendsG : ∀ a, Ends (G a))
    (hG : ∀ a rest, F cs = some (a, rest) → LocalAt except' (G a) rest)
    (hexcept : ∀ a rest, except a rest → G a rest = none) :
    LocalAt except' (fun cs => (F cs).bind fun x => G x.1 x.2) cs where
  extend b rest h := by
    obtain ⟨⟨a, r⟩, hr, hb⟩ := Option.bind_eq_some_iff.mp h
    rcases hF.extend a r hr with hkept | ⟨rfl, hlost⟩
    · rcases (hG a r hr).extend b rest hb with hkept' | ⟨rfl, hlost'⟩
      · exact Or.inl fun t ht => by rw [hkept t ht, Option.bind_some, hkept' t ht]
      · exact Or.inr ⟨rfl, fun t ht => by rw [hkept t ht, Option.bind_some, hlost' t ht]⟩
    · obtain rfl : rest = [] := List.suffix_nil.mp (hendsG a [] b rest hb)
      exact Or.inr ⟨rfl, fun t ht => by rw [hlost t ht, Option.bind_some, hb]⟩
  restrict t ht b rest h := by
    obtain ⟨⟨a, r⟩, hr, hb⟩ := Option.bind_eq_some_iff.mp h
    rcases suffix_append_cases (hends _ a r hr) with ⟨r, rfl⟩ | hlt
    · rcases hF.restrict t ht a r hr with hr | hr
      · rw [hr, Option.bind_some]
        exact (hG a r hr).restrict t ht b rest hb
      · rw [hexcept a _ hr] at hb
        exact absurd hb (by simp)
    · exact absurd hb ((hendsG a).ne_of_length_lt hlt b rest)

theorem mono {except' : α → List Char → Prop} (hF : LocalAt except F cs)
    (h : ∀ a rest, except a rest → except' a rest) : LocalAt except' F cs where
  extend := hF.extend
  restrict t ht a rest hrest := (hF.restrict t ht a rest hrest).imp_right (h a _)

theorem map {except' : β → List Char → Prop} (hF : LocalAt except F cs) (f : α → β)
    (hexcept : ∀ a rest, except a rest → except' (f a) rest) :
    LocalAt except' (fun cs => (F cs).map fun x => (f x.1, x.2)) cs where
  extend b rest h := by
    obtain ⟨⟨a, r⟩, hr, hb⟩ := Option.map_eq_some_iff.mp h
    obtain ⟨rfl, rfl⟩ := Prod.mk.inj hb
    rcases hF.extend a r hr with hkept | ⟨hnil, hlost⟩
    · exact Or.inl fun t ht => by rw [hkept t ht, Option.map_some]
    · exact Or.inr ⟨hnil, fun t ht => by rw [hlost t ht, Option.map_some]⟩
  restrict t ht b rest h := by
    obtain ⟨⟨a, r⟩, hr, hb⟩ := Option.map_eq_some_iff.mp h
    obtain ⟨rfl, rfl⟩ := Prod.mk.inj hb
    exact (hF.restrict t ht a rest hr).imp (fun hr => by rw [hr, Option.map_some]) (hexcept a _)

/-- A reader that does here, with an addition or without, what another one does elsewhere. -/
theorem of_eq {cs' : List Char} {G : List Char → Read α} (hG : LocalAt except G cs')
    (h : F cs = G cs') (ht : ∀ t, Closing t → F (cs ++ t) = G (cs' ++ t)) :
    LocalAt except F cs where
  extend a r hr := by
    rw [h] at hr
    refine (hG.extend a r hr).imp (fun hr t hclosing => ?_) fun hr => ⟨hr.1, fun t hclosing => ?_⟩
    · rw [ht t hclosing, hr t hclosing]
    · rw [ht t hclosing, hr.2 t hclosing]
  restrict t hclosing a r hr := by
    rw [ht t hclosing] at hr
    rw [h]
    exact hG.restrict t hclosing a r hr

/-- After the first character a reader goes on like another one. -/
theorem cons {c : Char} {rest : List Char} {G : List Char → Read α} (hG : LocalAt except G rest)
    (h : ∀ cs, F (c :: cs) = G cs) : LocalAt except F (c :: rest) :=
  hG.of_eq (h rest) fun t _ => h (rest ++ t)

/-- Reading after blanks and comments. -/
theorem skip {m : Mode} (hends : Ends F) (hF : LocalAt except F (m.skip cs)) :
    LocalAt except (fun cs => F (m.skip cs)) cs := by
  by_cases hnil : m.skip cs = []
  · rcases m.skip_append_closing hnil with hstop | hlost
    · refine hF.of_eq rfl fun t ht => ?_
      rw [hstop t ht, hnil, List.nil_append]
    · exact {
        extend := fun a rest h => by
          rw [hnil] at h
          obtain rfl : rest = [] := List.suffix_nil.mp (hends [] a rest h)
          exact Or.inr ⟨rfl, fun t ht => by rw [hlost t ht, h]⟩
        restrict := fun t ht a rest h => by
          rw [hlost t ht] at h
          obtain ⟨more, rfl, -⟩ := ht
          exact absurd h (hends.ne_of_length_lt (by simp) a rest) }
  · exact hF.of_eq rfl fun t _ => by rw [m.skip_append hnil]

/-- Where nothing is taken, what is added is left over as well. -/
theorem keep {a : α} (h : F cs = some (a, cs))
    (ht : ∀ t, Closing t → F (cs ++ t) = some (a, cs ++ t)) : LocalAt except F cs where
  extend b rest hb := by
    obtain ⟨rfl, rfl⟩ := Prod.mk.inj (Option.some.inj (h.symm.trans hb))
    exact Or.inl ht
  restrict t hclosing b rest hb := by
    obtain ⟨rfl, hrest⟩ := Prod.mk.inj (Option.some.inj ((ht t hclosing).symm.trans hb))
    exact Or.inl (List.append_cancel_right hrest ▸ h)

/-- At the end of a text, where what follows is taken or refused. -/
theorem nil (h : F [] = none)
    (hlt : ∀ more a rest, F (')' :: more) = some (a, rest) → rest <:+ more) :
    LocalAt except F [] where
  extend a rest hrest := absurd (h.symm.trans hrest) (by simp)
  restrict t ht a rest hrest := by
    obtain ⟨more, rfl, -⟩ := ht
    have hle := (hlt more a _ hrest).length_le
    rw [List.length_append, List.length_cons] at hle
    omega

end LocalAt

namespace Local

theorem mono {except' : α → List Char → Prop} (hF : Local except F)
    (h : ∀ a rest, except a rest → except' a rest) : Local except' F where
  ends := hF.ends
  at_ cs := (hF.at_ cs).mono h

theorem bind {except' : β → List Char → Prop} {G : α → List Char → Read β} (hF : Local except F)
    (hG : ∀ a, Local except' (G a)) (hexcept : ∀ a rest, except a rest → G a rest = none) :
    Local except' fun cs => (F cs).bind fun x => G x.1 x.2 where
  ends := hF.ends.bind fun a => (hG a).ends
  at_ cs :=
    (hF.at_ cs).bind hF.ends (fun a => (hG a).ends) (fun a rest _ => (hG a).at_ rest) hexcept

theorem map {except' : β → List Char → Prop} (hF : Local except F) (f : α → β)
    (hexcept : ∀ a rest, except a rest → except' (f a) rest) :
    Local except' fun cs => (F cs).map fun x => (f x.1, x.2) where
  ends := hF.ends.map f
  at_ cs := (hF.at_ cs).map f hexcept

/-- Reading on after a reader without exceptions. -/
theorem andThen {except' : β → List Char → Prop} {G : α → List Char → Read β}
    (hF : Local Never F) (hG : ∀ a, Local except' (G a)) :
    Local except' fun cs => (F cs).bind fun x => G x.1 x.2 :=
  hF.bind hG fun _ _ => nofun

theorem andMap {except' : β → List Char → Prop} (hF : Local Never F) (f : α → β) :
    Local except' fun cs => (F cs).map fun x => (f x.1, x.2) :=
  hF.map f fun _ _ => nofun

theorem skip (hF : Local except F) (m : Mode) : Local except fun cs => F (m.skip cs) where
  ends := hF.ends.skip m
  at_ cs := (hF.at_ (m.skip cs)).skip hF.ends

/-- Reading after a part of the text that no closing parenthesis changes. -/
theorem comp (hF : Local except F) {g : List Char → List Char} (hg : ∀ cs, g cs <:+ cs)
    (happend : ∀ cs t, Closing t → g (cs ++ t) = g cs ++ t) : Local except fun cs => F (g cs) where
  ends cs a rest h := (hF.ends _ a rest h).trans (hg cs)
  at_ cs := (hF.at_ (g cs)).of_eq rfl fun t ht => by rw [happend cs t ht]

end Local

namespace Ends

theorem option (x : Option α) : Ends fun cs => x.map fun a => (a, cs) := by
  intro cs a rest h
  obtain ⟨b, -, hb⟩ := Option.map_eq_some_iff.mp h
  obtain ⟨-, rfl⟩ := Prod.mk.inj hb
  exact List.suffix_refl cs

theorem pure (a : α) : Ends fun cs => some (a, cs) := option (some a)

end Ends

namespace Local

/-- Nothing is taken, and the outcome may be a refusal. -/
theorem option (x : Option α) : Local except fun cs => x.map fun a => (a, cs) where
  ends := Ends.option x
  at_ cs := by
    cases x with
    | none => exact ⟨nofun, nofun⟩
    | some a => exact LocalAt.keep rfl fun _ _ => rfl

theorem pure (a : α) : Local except fun cs => some (a, cs) := option (some a)

theorem fail : Local except fun _ => (none : Read α) := option none

/-- A reader that refuses the end of a text and takes a character of any other. -/
theorem of_cons (hnil : F [] = none) (hcons : ∀ c, Local except fun rest => F (c :: rest)) :
    Local except F where
  ends cs a rest h := by
    cases cs with
    | nil => exact absurd (hnil.symm.trans h) (by simp)
    | cons c cs => exact ((hcons c).ends cs a rest h).trans (List.suffix_cons c cs)
  at_ cs := by
    cases cs with
    | nil => exact LocalAt.nil hnil fun more a rest h => (hcons ')').ends more a rest h
    | cons c cs => exact ((hcons c).at_ cs).cons fun _ => rfl

end Local

/-! ### A choice by a mark -/

/-- A reader that goes on in one way after a mark, and otherwise in another way. -/
def byMark (mark : List Char) (A B : List Char → Read α) (cs : List Char) : Read α :=
  if mark <+: cs then A (cs.drop mark.length) else B cs

/-- A reader that takes something. -/
def Takes (F : List Char → Read α) : Prop :=
  ∀ cs a rest, F cs = some (a, rest) → rest.length < cs.length

variable {A B : List Char → Read α}

theorem byMark_of_eq (mark : List Char) {rest : List Char} (h : cs = mark ++ rest) :
    byMark mark A B cs = A rest := by
  rw [byMark, if_pos ⟨rest, h.symm⟩, h, List.drop_left]

theorem byMark_singleton (c : Char) (rest : List Char) : byMark [c] A B (c :: rest) = A rest :=
  byMark_of_eq [c] rfl

theorem byMark_pair (c d : Char) (rest : List Char) :
    byMark [c, d] A B (c :: d :: rest) = A rest :=
  byMark_of_eq [c, d] rfl

theorem byMark_of_ne {mark : List Char} (h : ∀ rest, cs ≠ mark ++ rest) :
    byMark mark A B cs = B cs :=
  if_neg fun ⟨rest, hrest⟩ => h rest hrest.symm

/-- Where a choice is made the mark is there, or the other way was taken. -/
theorem byMark_cases {mark : List Char} {y : α × List Char} (h : byMark mark A B cs = some y) :
    (∃ rest, cs = mark ++ rest ∧ A rest = some y) ∨ B cs = some y := by
  by_cases hcs : ∃ rest, cs = mark ++ rest
  · obtain ⟨rest, hrest⟩ := hcs
    rw [byMark_of_eq mark hrest] at h
    exact Or.inl ⟨rest, hrest, h⟩
  · rw [byMark_of_ne fun rest hrest => hcs ⟨rest, hrest⟩] at h
    exact Or.inr h

/-- A mark in a text with an addition stands in the text, unless it has a closing parenthesis. -/
theorem eq_append_of_append_eq {mark rest t : List Char} (hmark : ')' ∉ mark) (ht : Closing t)
    (h : cs ++ t = mark ++ rest) : ∃ r, cs = mark ++ r := by
  obtain ⟨more, rfl, -⟩ := ht
  rcases List.append_eq_append_iff.mp h with ⟨r, rfl, hr⟩ | ⟨r, rfl, -⟩
  · cases r with
    | nil => exact ⟨[], by simp⟩
    | cons c r =>
      obtain ⟨rfl, -⟩ := List.cons.inj hr
      exact absurd (by simp) hmark
  · exact ⟨r, rfl⟩

theorem Ends.byMark (hA : Ends A) (mark : List Char) (hB : Ends B) : Ends (byMark mark A B) := by
  intro cs a rest h
  rw [Pattern.byMark] at h
  split at h
  · exact (hA _ a rest h).trans (List.drop_suffix _ cs)
  · exact hB cs a rest h

theorem Takes.of_cons (hnil : F [] = none) (hcons : ∀ c, Ends fun rest => F (c :: rest)) :
    Takes F := by
  intro cs a rest h
  cases cs with
  | nil => exact absurd (hnil.symm.trans h) (by simp)
  | cons c cs => exact Nat.lt_succ_of_le (hcons c cs a rest h).length_le

theorem Takes.byMark (hA : Ends A) (mark : List Char) (hB : Takes B) (hmark : mark ≠ []) :
    Takes (byMark mark A B) := by
  intro cs a rest h
  rw [Pattern.byMark] at h
  split at h
  · next hprefix =>
    have hle := (hA _ a rest h).length_le
    have hmarkle := hprefix.length_le
    have hpos := List.length_pos_iff.mpr hmark
    rw [List.length_drop] at hle
    omega
  · exact hB cs a rest h

theorem Takes.bind {β : Type} {G : α → List Char → Read β} (hF : Takes F) (hG : ∀ a, Ends (G a)) :
    Takes fun cs => (F cs).bind fun x => G x.1 x.2 := by
  intro cs b rest h
  obtain ⟨⟨a, r⟩, hr, hb⟩ := Option.bind_eq_some_iff.mp h
  exact (hG a r b rest hb).length_le.trans_lt (hF cs a r hr)

theorem Takes.map (hF : Takes F) (f : α → β) :
    Takes fun cs => (F cs).map fun x => (f x.1, x.2) := by
  intro cs b rest h
  obtain ⟨⟨a, r⟩, hr, hb⟩ := Option.map_eq_some_iff.mp h
  obtain ⟨-, rfl⟩ := Prod.mk.inj hb
  exact hF cs a r hr

theorem Takes.skip (hF : Takes F) (m : Mode) : Takes fun cs => F (m.skip cs) :=
  fun cs a rest h => (hF _ a rest h).trans_le (m.skip_suffix cs).length_le

theorem Local.byMark (hA : Local except A) (mark : List Char) (hB : Local except B)
    (hmark : ')' ∉ mark) : Local except (byMark mark A B) where
  ends := hA.ends.byMark mark hB.ends
  at_ cs := by
    by_cases hcs : ∃ rest, cs = mark ++ rest
    · obtain ⟨rest, rfl⟩ := hcs
      exact (hA.at_ rest).of_eq (byMark_of_eq mark rfl) fun t _ =>
        byMark_of_eq mark (List.append_assoc ..)
    · refine (hB.at_ cs).of_eq (byMark_of_ne fun rest h => hcs ⟨rest, h⟩) fun t ht => ?_
      exact byMark_of_ne fun rest h => hcs (eq_append_of_append_eq hmark ht h)

/-! ### Reading in steps -/

variable {σ : Type}

/-- Reads step by step: a step ends the reading, or the reading goes on in a new state. -/
def steps (next : σ → List Char → Read (α ⊕ σ)) : (fuel : Nat) → σ → List Char → Read α
  | 0, _, _ => none
  | fuel + 1, s, cs =>
    (next s cs).bind fun x =>
      match x.1 with
      | .inl a => some (a, x.2)
      | .inr s => steps next fuel s x.2

/-- Every step that is not the last takes something. -/
def Advances (next : σ → List Char → Read (α ⊕ σ)) : Prop :=
  ∀ s cs s' rest, next s cs = some (.inr s', rest) → rest.length < cs.length

variable {next : σ → List Char → Read (α ⊕ σ)}

/-- The steps do not run out if there is one for every character. -/
theorem steps_eq (hnext : Advances next) {n : Nat} {s : σ} (h : cs.length < n) :
    steps next n s cs = steps next (cs.length + 1) s cs := by
  induction n using Nat.strongRecOn generalizing s cs with
  | ind n ih =>
    obtain ⟨n, rfl⟩ : ∃ n', n = n' + 1 := ⟨n - 1, by omega⟩
    rw [steps, steps]
    refine Option.bind_congr fun x hx => ?_
    obtain ⟨a | s', rest⟩ := x
    · rfl
    · have hlt := hnext s cs s' rest hx
      dsimp only
      by_cases hn : n = cs.length
      · rw [hn]
      · rw [ih n (by omega) (by omega), ih cs.length (by omega) hlt]

theorem steps_succ (hnext : Advances next) (s : σ) (cs : List Char) :
    steps next (cs.length + 1) s cs = (next s cs).bind fun x =>
      match x.1 with
      | .inl a => some (a, x.2)
      | .inr s => steps next (x.2.length + 1) s x.2 := by
  rw [steps]
  refine Option.bind_congr fun x hx => ?_
  obtain ⟨a | s', rest⟩ := x
  · rfl
  · exact steps_eq hnext (hnext s cs s' rest hx)

/-- What the steps keep, and what they make of it in the end. -/
theorem steps_invariant {P : σ → Prop} {Q : α → List Char → Prop}
    (hstep : ∀ s cs s' rest, P s → next s cs = some (.inr s', rest) → P s')
    (hend : ∀ s cs a rest, P s → next s cs = some (.inl a, rest) → Q a rest) {n : Nat} {s : σ}
    (hs : P s) {a : α} {rest : List Char} (h : steps next n s cs = some (a, rest)) : Q a rest := by
  induction n generalizing s cs with
  | zero => exact absurd h nofun
  | succ n ih =>
    obtain ⟨⟨b | s', r⟩, hr, hb⟩ := Option.bind_eq_some_iff.mp h
    · obtain ⟨rfl, rfl⟩ := Prod.mk.inj (Option.some.inj hb)
      exact hend s cs b r hs hr
    · exact ih (hstep s cs s' r hs hr) hb

/-- Other steps come to the same end, if they are the same where the end is the one that is wanted.
Whether it may be is traced back from the end. -/
theorem steps_of_backward {next' : σ → List Char → Read (α ⊕ σ)} {P : α ⊕ σ → Prop}
    (hback : ∀ s cs x rest, next s cs = some (x, rest) → P x → P (.inr s))
    (hnext : ∀ s cs x rest, next s cs = some (x, rest) → P x → next' s cs = some (x, rest))
    {n : Nat} {s : σ} {a : α} {rest : List Char} (h : steps next n s cs = some (a, rest))
    (ha : P (.inl a)) : P (.inr s) ∧ steps next' n s cs = some (a, rest) := by
  induction n generalizing s cs with
  | zero => exact absurd h nofun
  | succ n ih =>
    obtain ⟨⟨b | s', r⟩, hr, hb⟩ := Option.bind_eq_some_iff.mp h
    · obtain ⟨rfl, rfl⟩ := Prod.mk.inj (Option.some.inj hb)
      exact ⟨hback s cs _ r hr ha, by rw [steps, hnext s cs _ r hr ha, Option.bind_some]⟩
    · obtain ⟨hs', hsteps⟩ := ih hb
      refine ⟨hback s cs _ r hr hs', ?_⟩
      rw [steps, hnext s cs _ r hr hs', Option.bind_some]
      exact hsteps

theorem Ends.steps (hends : ∀ s, Ends (next s)) (n : Nat) (s : σ) : Ends (steps next n s) := by
  induction n generalizing s with
  | zero => exact nofun
  | succ n ih =>
    intro cs b rest h
    obtain ⟨⟨a | s', r⟩, hr, hb⟩ := Option.bind_eq_some_iff.mp h
    · obtain ⟨-, rfl⟩ := Prod.mk.inj (Option.some.inj hb)
      exact hends s cs _ r hr
    · exact (ih s' r b rest hb).trans (hends s cs _ r hr)

/-- Reading in local steps is local. Steps that are there only because of the addition have to lead
nowhere. -/
theorem Local.steps {except : σ → α ⊕ σ → List Char → Prop}
    (hlocal : ∀ s, Local (except s) (next s)) (hnext : Advances next)
    (hexcept : ∀ s x rest, except s x rest → ∃ s', x = .inr s' ∧ next s' rest = none) (s : σ) :
    Local Never fun cs => steps next (cs.length + 1) s cs where
  ends cs a rest h := Ends.steps (fun s => (hlocal s).ends) (cs.length + 1) s cs a rest h
  at_ cs := by
    induction h : cs.length using Nat.strongRecOn generalizing s cs with
    | ind n ih =>
      have hends : ∀ x : α ⊕ σ, Ends fun rest => match x with
          | .inl a => some (a, rest)
          | .inr s => Pattern.steps next (rest.length + 1) s rest := by
        rintro (a | s') cs b rest h
        · obtain ⟨-, rfl⟩ := Prod.mk.inj (Option.some.inj h)
          exact List.suffix_refl cs
        · exact Ends.steps (fun s => (hlocal s).ends) (cs.length + 1) s' cs b rest h
      rw [funext (steps_succ hnext s)]
      refine ((hlocal s).at_ cs).bind (hlocal s).ends hends (fun x rest hx => ?_)
        fun x rest hx => ?_
      · obtain a | s' := x
        · exact (Local.pure a).at_ rest
        · exact ih rest.length (h ▸ hnext s cs s' rest hx) s' rest rfl
      · obtain ⟨s', rfl, hnone⟩ := hexcept s x rest hx
        simp only [Pattern.steps, hnone, Option.bind_none]

end

end Formulary.Pattern
