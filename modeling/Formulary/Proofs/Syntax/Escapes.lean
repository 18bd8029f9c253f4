import Formulary.Expr.Literal
import Mathlib.Data.List.Forall2
import Mathlib.Data.List.Induction
import Mathlib.Tactic.IntervalCases

/-!
# The escapes of quoted texts

What stands between quotes is read as a text: plain characters stand for themselves, one-letter
escapes for the characters of a fixed list, and a run of escaped units for the characters that the
units encode together. This file gives that language without reference to how it is read, and says
that it is what is read.

One thing is read beside it. Of the four characters of a unit the first may be a plus sign, and the
unit is then the number of the other three.

## Main definitions

* `Escapes.Digits` — the number of hexadecimal digits
* `Escapes.Four`, `Escapes.Signed` — the unit of four digits, and of a plus sign and three
* `Escapes.Denotes` — the text that a body denotes, for a choice of units

## Main results

* `Utf16.decode?_eq_some_iff` — units are decoded just where they encode something
* `Literal.unescape?_eq_some_iff` — the bodies that are read, and the texts they are read as
* `Literal.not_unescape?_denotes` — units of four digits are not all that is read
-/

namespace Formulary

/-! ### Units -/

namespace Text.Utf16

theorem encode_append (cs ds : List Char) : encode (cs ++ ds) = encode cs ++ encode ds :=
  List.flatMap_append

theorem toNat_ofNat {n : Nat} (h : n.isValidChar) : (Char.ofNat n).toNat = n := by
  rw [Char.ofNat, dif_pos h]
  rfl

/-- A unit outside the surrogates is that of a character. -/
theorem encode_ofNat {u : Nat} (hu : u < 0x10000) (h : ¬ (isHigh u || isLow u) = true) :
    encode [Char.ofNat u] = [u] := by
  have hvalid : u.isValidChar := by
    simp only [isHigh, isLow, Bool.or_eq_true, Bool.and_eq_true, decide_eq_true_eq] at h
    simp only [Nat.isValidChar]
    omega
  have hnat : (Char.ofNat u).toNat = u := toNat_ofNat hvalid
  rw [encode, List.flatMap_cons, List.flatMap_nil, List.append_nil, hnat]
  exact if_pos hu

/-- A surrogate pair is that of a character beyond the basic plane. -/
theorem encode_pair {u v : Nat} (hu : isHigh u = true) (hv : isLow v = true) :
    encode [pair u v] = [u, v] := by
  simp only [isHigh, isLow, Bool.and_eq_true, decide_eq_true_eq] at hu hv
  have hvalid : (0x10000 + (u - 0xD800) * 0x400 + (v - 0xDC00)).isValidChar := by
    simp only [Nat.isValidChar]
    omega
  have hnat : (pair u v).toNat = 0x10000 + (u - 0xD800) * 0x400 + (v - 0xDC00) :=
    toNat_ofNat hvalid
  rw [encode, List.flatMap_cons, List.flatMap_nil, List.append_nil]
  simp only [hnat]
  have hhigh : 0xD800 + (0x10000 + (u - 0xD800) * 0x400 + (v - 0xDC00) - 0x10000) / 0x400 = u := by
    omega
  have hlow : 0xDC00 + (0x10000 + (u - 0xD800) * 0x400 + (v - 0xDC00) - 0x10000) % 0x400 = v := by
    omega
  rw [if_neg (by omega), hhigh, hlow]

/-- Units are decoded just where they encode something. -/
theorem decode?_eq_some_iff {us : List Nat} (hus : ∀ u ∈ us, u < 0x10000) {cs : List Char} :
    decode? us = some cs ↔ us = encode cs := by
  refine ⟨fun h => ?_, fun h => h ▸ decode?_encode cs⟩
  fun_induction decode? us generalizing cs with
  | case1 =>
    obtain rfl := Option.some.inj h
    rfl
  | case2 u hsurrogate => simp at h
  | case3 u hscalar =>
    obtain rfl := Option.some.inj h
    exact (encode_ofNat (hus u (List.mem_singleton_self u)) hscalar).symm
  | case4 u v rest hhigh hlow ih =>
    obtain ⟨ds, hds, rfl⟩ := Option.map_eq_some_iff.mp h
    rw [encode_cons, encode_pair hhigh hlow,
      ← ih (fun w hw => hus w (List.mem_cons_of_mem _ (List.mem_cons_of_mem _ hw))) hds]
    rfl
  | case5 u v rest hhigh hlow => simp at h
  | case6 u v rest hhigh hlow => simp at h
  | case7 u v rest hhigh hlow ih =>
    obtain ⟨ds, hds, rfl⟩ := Option.map_eq_some_iff.mp h
    rw [encode_cons, encode_ofNat (hus u (List.mem_cons_self ..)) (by simp [hhigh, hlow]),
      ← ih (fun w hw => hus w (List.mem_cons_of_mem _ hw)) hds]
    rfl

/-- Units behind others are decoded apart from them, unless the first is the second half of a
pair. -/
theorem decode?_append {us vs : List Nat} (hvs : ∀ v ∈ vs.head?, isLow v = false) :
    decode? (us ++ vs) =
      (decode? us).bind fun cs => (decode? vs).map (cs ++ ·) := by
  fun_induction decode? us with
  | case1 => simp
  | case2 u hsurrogate =>
    cases vs with
    | nil => simp [decode?, hsurrogate]
    | cons v rest =>
      have hv : isLow v = false := hvs v rfl
      rw [List.singleton_append, decode?, hv]
      rcases Bool.or_eq_true _ _ |>.mp hsurrogate with hhigh | hlow
      · simp [hhigh]
      · simp [hlow]
  | case3 u hscalar =>
    rw [Bool.or_eq_true, not_or, Bool.not_eq_true, Bool.not_eq_true] at hscalar
    rw [List.singleton_append, decode?_cons_scalar hscalar.1 hscalar.2]
    rfl
  | case4 u v rest hhigh hlow ih =>
    rw [List.cons_append, List.cons_append, decode?, if_pos hhigh, if_pos hlow, ih]
    cases decode? rest <;> cases decode? vs <;> rfl
  | case5 u v rest hhigh hlow =>
    rw [List.cons_append, List.cons_append, decode?, if_pos hhigh, if_neg hlow]
    rfl
  | case6 u v rest hhigh hlow =>
    rw [List.cons_append, List.cons_append, decode?, if_neg hhigh, if_pos hlow]
    rfl
  | case7 u v rest hhigh hlow ih =>
    rw [List.cons_append, List.cons_append, decode?, if_neg hhigh, if_neg hlow, ← List.cons_append,
      ih]
    cases decode? (v :: rest) <;> cases decode? vs <;> rfl

end Text.Utf16

/-! ### The language of escapes -/

namespace Escapes

open Text Text.Quoted

/-- A hexadecimal digit, of either case, and its value. -/
def Digit (c : Char) (n : Nat) : Prop :=
  "0123456789abcdef".toList[n]? = some c ∨ "0123456789ABCDEF".toList[n]? = some c

instance (c : Char) (n : Nat) : Decidable (Digit c n) := inferInstanceAs (Decidable (_ ∨ _))

/-- Hexadecimal digits, and the number that they stand for. -/
def Digits (digits : List Char) (u : Nat) : Prop :=
  ∃ values, List.Forall₂ Digit digits values ∧ u = values.foldl (fun n d => 16 * n + d) 0

/-- A unit of four hexadecimal digits. -/
def Four (group : List Char) (u : Nat) : Prop := group.length = 4 ∧ Digits group u

/-- A unit of a plus sign and three hexadecimal digits. -/
def Signed (group : List Char) (u : Nat) : Prop :=
  ∃ digits, group = '+' :: digits ∧ digits.length = 3 ∧ Digits digits u

/-- A unit as it is read. -/
def Read (group : List Char) (u : Nat) : Prop := Four group u ∨ Signed group u

/-- The one-letter escapes, and what they stand for. -/
def letters : List (Char × Char) :=
  [('"', '"'), ('\'', '\''), ('\\', '\\'), ('/', '/'), ('b', '\x08'), ('f', '\x0c'), ('n', '\n'),
    ('r', '\r'), ('t', '\t')]

/-- How a run of units is written. -/
def spell (groups : List (List Char)) : List Char :=
  groups.flatMap fun group => '\\' :: 'u' :: group

/-- A text does not go on with another unit. -/
def EndsRun (rest : List Char) : Prop := ∀ after, rest ≠ '\\' :: 'u' :: after

/-- The text that a body denotes: characters and one-letter escapes one by one, and a run of units,
as long as it goes, all at once. -/
inductive Denotes (Unit : List Char → Nat → Prop) : List Char → List Char → Prop
  | nil : Denotes Unit [] []
  | plain {c : Char} {body text : List Char} (hc : c ≠ '\\') (h : Denotes Unit body text) :
      Denotes Unit (c :: body) (c :: text)
  | letter {c d : Char} {body text : List Char} (hc : (c, d) ∈ letters)
      (h : Denotes Unit body text) : Denotes Unit ('\\' :: c :: body) (d :: text)
  | run {groups : List (List Char)} {cs body text : List Char} (hgroups : groups ≠ [])
      (hunits : List.Forall₂ Unit groups (Utf16.encode cs)) (hends : EndsRun body)
      (h : Denotes Unit body text) : Denotes Unit (spell groups ++ body) (cs ++ text)

/-! #### Digits -/

/-- The characters between two bounds are those of the numbers between them. -/
theorem exists_ofNat {low high c : Char} (h : low ≤ c ∧ c ≤ high) :
    ∃ k, low.toNat ≤ k ∧ k ≤ high.toNat ∧ c = Char.ofNat k :=
  ⟨c.toNat, h.1, h.2, (Char.ofNat_toNat c).symm⟩

theorem digit_of_hexValue? {c : Char} {n : Nat} (h : hexValue? c = some n) : Digit c n := by
  rw [hexValue?] at h
  split at h
  · next hc =>
    obtain ⟨k, hlow, hhigh, rfl⟩ := exists_ofNat hc
    change 48 ≤ k at hlow
    change k ≤ 57 at hhigh
    interval_cases k <;> (obtain rfl := Option.some.inj h; decide)
  · split at h
    · next hc =>
      obtain ⟨k, hlow, hhigh, rfl⟩ := exists_ofNat hc
      change 97 ≤ k at hlow
      change k ≤ 102 at hhigh
      interval_cases k <;> (obtain rfl := Option.some.inj h; decide)
    · split at h
      · next hc =>
        obtain ⟨k, hlow, hhigh, rfl⟩ := exists_ofNat hc
        change 65 ≤ k at hlow
        change k ≤ 70 at hhigh
        interval_cases k <;> (obtain rfl := Option.some.inj h; decide)
      · cases h

theorem Digit.lt {c : Char} {n : Nat} (h : Digit c n) : n < 16 := by
  rcases h with h | h <;> exact (List.getElem?_eq_some_iff.mp h).1

theorem hexValue?_eq_some_iff {c : Char} {n : Nat} : hexValue? c = some n ↔ Digit c n := by
  refine ⟨digit_of_hexValue?, fun h => ?_⟩
  have hn := h.lt
  rcases h with h | h <;> interval_cases n <;> (obtain rfl := Option.some.inj h; rfl)

theorem foldlM_hexValue?_eq_some_iff {digits : List Char} {n u : Nat} :
    digits.foldlM (fun n c => (hexValue? c).map (16 * n + ·)) n = some u ↔
      ∃ values, List.Forall₂ Digit digits values ∧
        u = values.foldl (fun n d => 16 * n + d) n := by
  induction digits generalizing n with
  | nil =>
    constructor
    · intro h
      exact ⟨[], .nil, (Option.some.inj h).symm⟩
    · rintro ⟨values, hvalues, rfl⟩
      cases hvalues
      rfl
  | cons c rest ih =>
    rw [List.foldlM_cons]
    constructor
    · intro h
      obtain ⟨m, hm, hrest⟩ := Option.bind_eq_some_iff.mp h
      obtain ⟨d, hd, rfl⟩ := Option.map_eq_some_iff.mp hm
      obtain ⟨values, hvalues, rfl⟩ := ih.mp hrest
      exact ⟨d :: values, .cons (hexValue?_eq_some_iff.mp hd) hvalues, rfl⟩
    · rintro ⟨_, hvalues, rfl⟩
      cases hvalues with
      | cons hd hvalues =>
        rw [hexValue?_eq_some_iff.mpr hd]
        exact ih.mpr ⟨_, hvalues, rfl⟩

theorem hexNumber?_eq_some_iff {digits : List Char} {u : Nat} :
    hexNumber? digits = some u ↔ Digits digits u := foldlM_hexValue?_eq_some_iff

theorem Digits.lt {digits : List Char} {u : Nat} (h : Digits digits u) :
    u < 16 ^ digits.length := by
  obtain ⟨values, hvalues, rfl⟩ := h
  rw [hvalues.length_eq]
  have hlt : ∀ d ∈ values, d < 16 := by
    intro d hd
    induction hvalues with
    | nil => simp at hd
    | cons hdigit _ ih =>
      rcases List.mem_cons.mp hd with rfl | hd
      · exact hdigit.lt
      · exact ih hd
  clear hvalues
  induction values using List.reverseRecOn with
  | nil => simp
  | append_singleton values d ih =>
    rw [List.foldl_append, List.foldl_cons, List.foldl_nil, List.length_append,
      List.length_singleton, pow_succ]
    have hvalues := ih fun e he => hlt e (List.mem_append_left _ he)
    have hd := hlt d (by simp)
    omega

/-! #### Units and letters -/

theorem Digits.head {c : Char} {digits : List Char} {u : Nat} (h : Digits (c :: digits) u) :
    ∃ d, Digit c d := by
  obtain ⟨_, hvalues, -⟩ := h
  cases hvalues with
  | cons hd _ => exact ⟨_, hd⟩

theorem not_digit_plus (d : Nat) : ¬ Digit '+' d := fun h => by
  rw [← hexValue?_eq_some_iff] at h
  cases h

theorem unit?_eq_some_iff {group : List Char} (hgroup : group.length = 4) {u : Nat} :
    Literal.unit? group = some u ↔ Read group u := by
  obtain ⟨c, digits, rfl⟩ := List.exists_cons_of_length_eq_add_one hgroup
  have hdigits : digits.length = 3 := by simpa using hgroup
  by_cases hc : c = '+'
  · subst hc
    have hne : digits.isEmpty = false := by
      cases digits with
      | nil => simp at hdigits
      | cons => rfl
    have hunit : Literal.unit? ('+' :: digits) = hexNumber? digits := by
      rw [Literal.unit?, hne]
      rfl
    rw [hunit, hexNumber?_eq_some_iff]
    constructor
    · exact fun h => Or.inr ⟨digits, rfl, hdigits, h⟩
    · rintro (⟨-, h⟩ | ⟨_, hcons, -, h⟩)
      · obtain ⟨d, hd⟩ := h.head
        exact absurd hd (not_digit_plus d)
      · exact (List.cons.inj hcons).2 ▸ h
  · have hunit : Literal.unit? (c :: digits) = hexNumber? (c :: digits) := by
      rw [Literal.unit?]
      exact fun _ h => hc (List.cons.inj h).1
    rw [hunit, hexNumber?_eq_some_iff]
    constructor
    · exact fun h => Or.inl ⟨hgroup, h⟩
    · rintro (⟨-, h⟩ | ⟨_, hcons, -⟩)
      · exact h
      · exact absurd (List.cons.inj hcons).1 hc

theorem Read.length {group : List Char} {u : Nat} (h : Read group u) : group.length = 4 := by
  rcases h with ⟨h, -⟩ | ⟨digits, rfl, h, -⟩
  · exact h
  · rw [List.length_cons, h]

theorem Read.lt {group : List Char} {u : Nat} (h : Read group u) : u < 0x10000 := by
  rcases h with ⟨hlength, h⟩ | ⟨digits, -, hlength, h⟩
  · have hlt := h.lt
    rwa [hlength] at hlt
  · have hlt := h.lt
    rw [hlength] at hlt
    omega

theorem forall_lt_of_read {groups : List (List Char)} {values : List Nat}
    (h : List.Forall₂ Read groups values) : ∀ u ∈ values, u < 0x10000 := by
  induction h with
  | nil => simp
  | cons hunit _ ih => exact List.forall_mem_cons.mpr ⟨hunit.lt, ih⟩

theorem letter?_eq_some_iff {c d : Char} : Literal.letter? c = some d ↔ (c, d) ∈ letters := by
  constructor
  · intro h
    rw [Literal.letter?] at h
    split at h
    · next hc =>
      obtain rfl := Option.some.inj h
      subst hc
      decide
    · rw [escapedChar?.eq_def] at h
      split at h <;> cases h <;> decide
  · intro h
    simp only [letters, List.mem_cons, Prod.mk.injEq, List.not_mem_nil, or_false] at h
    rcases h with ⟨rfl, rfl⟩ | ⟨rfl, rfl⟩ | ⟨rfl, rfl⟩ | ⟨rfl, rfl⟩ | ⟨rfl, rfl⟩ | ⟨rfl, rfl⟩ |
      ⟨rfl, rfl⟩ | ⟨rfl, rfl⟩ | ⟨rfl, rfl⟩ <;> rfl

/-! #### Bodies -/

section

variable {c d : Char} {group body text : List Char} {us : List Nat}

theorem units?_plain_cons (hc : c ≠ '\\') (body : List Char) :
    units? Literal.dialect (c :: body) =
      (units? Literal.dialect body).map (Utf16.encode [c] ++ ·) := by
  rw [units?, if_neg hc]
  · cases units? Literal.dialect body <;> rfl
  · simp [hc]
  · simp [hc]

theorem units?_letter (hc : (c, d) ∈ letters) (body : List Char) :
    units? Literal.dialect ('\\' :: c :: body) =
      (units? Literal.dialect body).map (Utf16.encode [d] ++ ·) := by
  have hu : c ≠ 'u' := by
    rintro rfl
    simp [letters] at hc
  have hletter : Literal.dialect.letter? c = some d := letter?_eq_some_iff.mpr hc
  rw [units?, hletter]
  · cases units? Literal.dialect body <;> rfl
  · simp [hu]

theorem units?_group (hgroup : group.length = 4) (body : List Char) :
    units? Literal.dialect ('\\' :: 'u' :: group ++ body) =
      (Literal.unit? group).bind fun u => (units? Literal.dialect body).map (u :: ·) := by
  obtain ⟨x, y, z, w, rfl⟩ := List.length_eq_four.mp hgroup
  change units? Literal.dialect ('\\' :: 'u' :: x :: y :: z :: w :: body) =
    (Literal.dialect.unit? [x, y, z, w]).bind _
  rw [units?]
  cases Literal.dialect.unit? [x, y, z, w] <;> cases units? Literal.dialect body <;> rfl

/-- A run of units and what is behind it are read one after the other. -/
theorem units?_spell {groups : List (List Char)} {values : List Nat}
    (hgroups : List.Forall₂ Read groups values) (body : List Char) :
    units? Literal.dialect (spell groups ++ body) =
      (units? Literal.dialect body).map (values ++ ·) := by
  induction hgroups with
  | nil => simp [spell]
  | @cons group u groups values hunit _ ih =>
    rw [spell, List.flatMap_cons, ← spell, List.append_assoc, List.cons_append, List.cons_append,
      ← List.cons_append, ← List.cons_append, units?_group hunit.length,
      (unit?_eq_some_iff hunit.length).mpr hunit, ih]
    cases units? Literal.dialect body <;> rfl

/-- What a body denotes is what its units encode. -/
theorem Denotes.units?_eq (h : Denotes Read body text) :
    units? Literal.dialect body = some (Utf16.encode text) := by
  induction h with
  | nil => rfl
  | plain hc _ ih => rw [units?_plain_cons hc, ih, Option.map_some, ← Utf16.encode_cons]
  | letter hc _ ih => rw [units?_letter hc, ih, Option.map_some, ← Utf16.encode_cons]
  | run _ hunits _ _ ih => rw [units?_spell hunits, ih, Option.map_some, ← Utf16.encode_append]

/-- An escaped unit that is read has its four characters. -/
theorem exists_group {after : List Char}
    (h : units? Literal.dialect ('\\' :: 'u' :: after) = some us) :
    ∃ group rest u vs, after = group ++ rest ∧ Read group u ∧
      units? Literal.dialect rest = some vs ∧ us = u :: vs := by
  rcases lt_or_ge after.length 4 with hshort | hlong
  · have hnone : units? Literal.dialect ('\\' :: 'u' :: after) = none := by
      rcases after with _ | ⟨x, _ | ⟨y, _ | ⟨z, _ | ⟨w, rest⟩⟩⟩⟩
      · rfl
      · rfl
      · rfl
      · rfl
      · simp only [List.length_cons] at hshort
        omega
    rw [hnone] at h
    cases h
  · have hgroup : (after.take 4).length = 4 := by rw [List.length_take, min_eq_left hlong]
    rw [← List.take_append_drop 4 after, ← List.cons_append, ← List.cons_append,
      units?_group hgroup] at h
    obtain ⟨u, hu, h⟩ := Option.bind_eq_some_iff.mp h
    obtain ⟨vs, hvs, rfl⟩ := Option.map_eq_some_iff.mp h
    exact ⟨after.take 4, after.drop 4, u, vs, (List.take_append_drop 4 after).symm,
      (unit?_eq_some_iff hgroup).mp hu, hvs, rfl⟩

/-- A body that is read begins with a run of units, which may be empty. -/
theorem exists_run (h : units? Literal.dialect body = some us) :
    ∃ groups values rest vs, body = spell groups ++ rest ∧ List.Forall₂ Read groups values ∧
      EndsRun rest ∧ units? Literal.dialect rest = some vs ∧ us = values ++ vs := by
  induction hn : body.length using Nat.strong_induction_on generalizing body us with
  | _ n ih =>
    subst hn
    by_cases hends : EndsRun body
    · exact ⟨[], [], body, us, rfl, .nil, hends, h, rfl⟩
    · simp only [EndsRun, not_forall, not_not] at hends
      obtain ⟨after, rfl⟩ := hends
      obtain ⟨group, more, u, ws, rfl, hunit, hmore, rfl⟩ := exists_group h
      have hlt : more.length < ('\\' :: 'u' :: (group ++ more)).length := by
        simp only [List.length_cons, List.length_append]
        omega
      obtain ⟨groups, values, rest, vs, rfl, hvalues, hrest, hvs, rfl⟩ := ih _ hlt hmore rfl
      exact ⟨group :: groups, u :: values, rest, vs, by simp [spell], .cons hunit hvalues, hrest,
        hvs, rfl⟩

/-- A body that does not begin with a unit is empty, or begins with a plain character or a letter,
and is read from there. -/
theorem read_cases (hends : EndsRun body)
    (h : units? Literal.dialect body = some us) :
    body = [] ∧ us = [] ∨ ∃ c rest vs, units? Literal.dialect rest = some vs ∧
      us = Utf16.encode [c] ++ vs ∧ rest.length < body.length ∧
      ∀ {text}, Denotes Read rest text → Denotes Read body (c :: text) := by
  cases body with
  | nil => exact Or.inl ⟨rfl, (Option.some.inj h).symm⟩
  | cons c rest =>
    refine Or.inr ?_
    by_cases hc : c = '\\'
    · subst hc
      cases rest with
      | nil => cases h
      | cons d rest =>
        cases hletter : Literal.letter? d with
        | none =>
          rw [units?] at h
          · have hletter' : Literal.dialect.letter? d = none := hletter
            rw [hletter'] at h
            cases h
          · rintro a b c e after rfl rfl
            exact hends _ rfl
        | some e =>
          have he := letter?_eq_some_iff.mp hletter
          rw [units?_letter he] at h
          obtain ⟨vs, hvs, rfl⟩ := Option.map_eq_some_iff.mp h
          exact ⟨e, rest, vs, hvs, rfl, by simp only [List.length_cons]; omega, .letter he⟩
    · rw [units?_plain_cons hc] at h
      obtain ⟨vs, hvs, rfl⟩ := Option.map_eq_some_iff.mp h
      exact ⟨c, rest, vs, hvs, rfl, by simp, .plain hc⟩

/-- A character does not begin with the second half of a pair. -/
theorem isLow_head_encode (c : Char) (us : List Nat) :
    ∀ u ∈ (Utf16.encode [c] ++ us).head?, Utf16.isLow u = false := by
  have hvalid : c.toNat < 0xD800 ∨ 0xDFFF < c.toNat ∧ c.toNat < 0x110000 := c.valid
  rw [Utf16.encode, List.flatMap_cons, List.flatMap_nil, List.append_nil]
  dsimp only
  split <;>
  · intro u hu
    obtain rfl := Option.some.inj hu
    simp only [Utf16.isLow, Bool.and_eq_false_iff, decide_eq_false_iff_not]
    omega

/-- What the units of a body encode is what the body denotes. -/
theorem denotes_of_units? (h : units? Literal.dialect body = some us)
    (htext : Utf16.decode? us = some text) : Denotes Read body text := by
  induction hn : body.length using Nat.strong_induction_on generalizing body us text with
  | _ n ih =>
    subst hn
    obtain ⟨groups, values, rest, vs, rfl, hvalues, hends, hvs, rfl⟩ := exists_run h
    have hcases := read_cases hends hvs
    have hhead : ∀ v ∈ vs.head?, Utf16.isLow v = false := by
      rcases hcases with ⟨-, rfl⟩ | ⟨c, _, _, -, rfl, -⟩
      · simp
      · exact isLow_head_encode c _
    rw [Utf16.decode?_append hhead] at htext
    obtain ⟨cs, hcs, htext⟩ := Option.bind_eq_some_iff.mp htext
    obtain ⟨more, hmore, rfl⟩ := Option.map_eq_some_iff.mp htext
    -- what is behind the run begins with a character, after which the text is shorter
    have hrest : Denotes Read rest more := by
      rcases hcases with ⟨rfl, rfl⟩ | ⟨c, after, ws, hws, rfl, hlt, hdenotes⟩
      · obtain rfl := Option.some.inj hmore
        exact .nil
      · rw [Utf16.decode?_encode_append] at hmore
        obtain ⟨tail, htail, rfl⟩ := Option.map_eq_some_iff.mp hmore
        exact hdenotes (ih _ (by simp only [List.length_append]; omega) hws htail rfl)
    cases hvalues with
    | nil =>
      obtain rfl := Option.some.inj hcs
      exact hrest
    | cons hunit hvalues =>
      refine .run (List.cons_ne_nil _ _) ?_ hends hrest
      rw [← (Utf16.decode?_eq_some_iff ?_).mp hcs]
      · exact .cons hunit hvalues
      · exact forall_lt_of_read (.cons hunit hvalues)

/-! #### Plus signs -/

/-- A language of units is part of a larger one. -/
theorem Denotes.mono {Unit Unit' : List Char → Nat → Prop} (hle : ∀ group u, Unit group u →
    Unit' group u) (h : Denotes Unit body text) : Denotes Unit' body text := by
  induction h with
  | nil => exact .nil
  | plain hc _ ih => exact .plain hc ih
  | letter hc _ ih => exact .letter hc ih
  | run hgroups hunits hends _ ih => exact .run hgroups (hunits.imp hle) hends ih

/-- In a run that holds no plus sign the units have four digits. -/
theorem four_of_read {groups : List (List Char)} {values : List Nat}
    (h : List.Forall₂ Read groups values) (hplus : ¬ ['\\', 'u', '+'] <:+: spell groups) :
    List.Forall₂ Four groups values := by
  induction h with
  | nil => exact .nil
  | @cons group u groups values hunit _ ih =>
    have hspell : spell (group :: groups) = '\\' :: 'u' :: group ++ spell groups := rfl
    rw [hspell] at hplus
    refine .cons (hunit.resolve_right ?_) (ih fun hinfix => hplus ?_)
    · rintro ⟨digits, rfl, -⟩
      exact hplus ⟨[], digits ++ spell groups, by simp⟩
    · exact hinfix.trans (List.suffix_append _ _).isInfix

theorem Denotes.four (h : Denotes Read body text) (hplus : ¬ ['\\', 'u', '+'] <:+: body) :
    Denotes Four body text := by
  induction h with
  | nil => exact .nil
  | plain hc _ ih => exact .plain hc (ih fun h => hplus (h.trans (List.suffix_cons _ _).isInfix))
  | @letter c _ body _ hc _ ih =>
    have hsuffix : body <:+ ['\\', c] ++ body := List.suffix_append _ _
    exact .letter hc (ih fun h => hplus (h.trans hsuffix.isInfix))
  | run hgroups hunits hends _ ih =>
    refine .run hgroups (four_of_read hunits fun h => hplus ?_) hends (ih fun h => hplus ?_)
    · exact h.trans (List.prefix_append _ _).isInfix
    · exact h.trans (List.suffix_append _ _).isInfix

/-- A unit of four digits does not begin with a plus sign. -/
theorem not_denotes_four_plus (rest text : List Char) :
    ¬ Denotes Four ('\\' :: 'u' :: '+' :: rest) text := by
  intro h
  generalize hbody : '\\' :: 'u' :: '+' :: rest = body at h
  cases h with
  | nil => cases hbody
  | plain hc => exact hc (List.cons.inj hbody).1.symm
  | letter hc =>
    obtain rfl := (List.cons.inj (List.cons.inj hbody).2).1
    simp [letters] at hc
  | @run groups cs body text hgroups hunits =>
    generalize Utf16.encode cs = values at hunits
    cases hunits with
    | nil => exact hgroups rfl
    | @cons group u groups _ hunit =>
      obtain ⟨hlength, hdigits⟩ := hunit
      obtain ⟨c, digits, rfl⟩ := List.exists_cons_of_length_eq_add_one hlength
      obtain ⟨d, hd⟩ := hdigits.head
      obtain rfl : '+' = c := (List.cons.inj (List.cons.inj (List.cons.inj hbody).2).2).1
      exact not_digit_plus d hd

end

end Escapes

/-! ### Unescaping -/

namespace Literal

open Escapes

/-- **The escapes that are read.** A body is read as a text just where it denotes that text, with
units of four hexadecimal digits, or of a plus sign and three. Where no plus sign stands behind an
escaping `u`, it is read as a text just where it denotes that text with units of four digits. -/
theorem unescape?_eq_some_iff (body text : List Char) :
    (unescape? body = some text ↔ Denotes Read body text) ∧
      (¬ ['\\', 'u', '+'] <:+: body → (unescape? body = some text ↔ Denotes Four body text)) := by
  have hread : unescape? body = some text ↔ Denotes Read body text := by
    rw [unescape?, Text.Quoted.decode?, Option.bind_eq_some_iff]
    constructor
    · rintro ⟨us, hus, htext⟩
      exact denotes_of_units? hus htext
    · intro h
      exact ⟨_, h.units?_eq, Text.Utf16.decode?_encode text⟩
  refine ⟨hread, fun hplus => hread.trans ⟨fun h => h.four hplus, fun h => ?_⟩⟩
  exact h.mono fun _ _ => Or.inl

/-- A run of two units that are one character. -/
theorem unescape?_eq_some_iff_pair :
    ¬ ['\\', 'u', '+'] <:+: "\\uD83D\\uDE00".toList ∧
      Denotes Four "\\uD83D\\uDE00".toList "😀".toList := by
  have hplus : ¬ ['\\', 'u', '+'] <:+: "\\uD83D\\uDE00".toList := by
    simp [List.infix_cons_iff]
  have hread : unescape? "\\uD83D\\uDE00".toList = some "😀".toList := by decide +kernel
  exact ⟨hplus, ((unescape?_eq_some_iff _ _).2 hplus).mp hread⟩

/-- **A plus sign is read among the digits.** Units of four digits are not all that is read. -/
theorem not_unescape?_denotes :
    ¬ ∀ body text, unescape? body = some text ↔ Denotes Four body text := by
  intro h
  have hread : unescape? "\\u+041".toList = some ['A'] := rfl
  exact not_denotes_four_plus "041".toList ['A'] ((h _ _).mp hread)

end Literal

end Formulary
