import Formulary.Text.Classes

/-!
# Searching, cutting and replacing

Operations on texts as sequences of characters: trimming, occurrence, replacement and cutting by
character positions.

## Main definitions

* `trim` — a text without the blanks around it
* `occursIn` — whether one text occurs in another
* `replaceAll` — every occurrence replaced, from left to right
* `slice` — the characters between two positions
* `byteLength` — the number of bytes of a text
* `Trims` — what trimming is to do

## Main results

* `trim_eq_iff` — a text is trimmed by taking off just the blanks at either end
* `occursIn_iff` — occurrence is being an infix
* `length_slice` — a slice inside a text has the length of its interval
* `byteLength_append` — the bytes of texts one after the other add up
-/

namespace Formulary.Text

/-- A list without the blanks at either end. -/
def trimList (cs : List Char) : List Char :=
  ((cs.dropWhile isBlank).reverse.dropWhile isBlank).reverse

/-- A text without the blanks at either end. -/
def trim (s : String) : String := String.ofList (trimList s.toList)

/-- Whether `needle` occurs in `hay`. -/
def occursIn (needle : List Char) : List Char → Bool
  | [] => needle.isEmpty
  | c :: rest => needle.isPrefixOf (c :: rest) || occursIn needle rest

/-- Replace the occurrences of a nonempty `old`, passing over `skip` characters of the last one. -/
private def replaceFrom (old new : List Char) : (skip : Nat) → List Char → List Char
  | _, [] => []
  | skip + 1, _ :: rest => replaceFrom old new skip rest
  | 0, c :: rest =>
    if old.isPrefixOf (c :: rest) then new ++ replaceFrom old new (old.length - 1) rest
    else c :: replaceFrom old new 0 rest

/-- Every occurrence of `old` replaced by `new`, from left to right and without overlap. The empty
text occurs before every character and at the end. -/
def replaceAll (old new hay : List Char) : List Char :=
  if old.isEmpty then hay.foldr (fun c rest => new ++ c :: rest) new
  else replaceFrom old new 0 hay

/-- The characters at the positions `start ≤ i < stop`. -/
def slice (start stop : Nat) (cs : List Char) : List Char := (cs.drop start).take (stop - start)

/-- The number of bytes of a list of characters. -/
def byteLength (cs : List Char) : Nat := cs.foldr (fun c n => c.utf8Size + n) 0

/-! ### What the operations say -/

@[simp] theorem byteLength_nil : byteLength [] = 0 := rfl

@[simp] theorem byteLength_cons (c : Char) (cs : List Char) :
    byteLength (c :: cs) = c.utf8Size + byteLength cs := by
  simp [byteLength]

@[simp] theorem byteLength_append (cs ds : List Char) :
    byteLength (cs ++ ds) = byteLength cs + byteLength ds := by
  induction cs with
  | nil => simp
  | cons c cs ih => rw [List.cons_append, byteLength_cons, byteLength_cons, ih, Nat.add_assoc]

/-- Every character takes at least one byte. -/
theorem length_le_byteLength (cs : List Char) : cs.length ≤ byteLength cs := by
  induction cs with
  | nil => simp
  | cons c cs ih =>
    have := c.utf8Size_pos
    simp only [byteLength_cons, List.length_cons]
    omega

/-- A text occurs in another exactly when the other is the text with something around it. -/
theorem occursIn_iff {needle hay : List Char} : occursIn needle hay = true ↔ needle <:+: hay := by
  induction hay with
  | nil => simp [occursIn, List.isEmpty_iff]
  | cons c rest ih =>
    rw [occursIn, Bool.or_eq_true, List.isPrefixOf_iff_prefix, ih, List.infix_cons_iff]

theorem length_slice {start stop : Nat} {cs : List Char} (h : stop ≤ cs.length) :
    (slice start stop cs).length = stop - start := by
  simp only [slice, List.length_take, List.length_drop]
  omega

theorem replaceAll_nil (new hay : List Char) :
    replaceAll [] new hay = hay.foldr (fun c rest => new ++ c :: rest) new := rfl

/-! ### Taking up to a character -/

/-- What holds of every character of a list, one after the other. -/
theorem forall_mem_of_all {p : Char → Prop} [DecidablePred p] {cs : List Char}
    (h : (cs.all fun c => p c) = true) : ∀ c ∈ cs, p c := by
  simpa using h

theorem takeWhile_append_of_head? {p : Char → Bool} {text rest : List Char}
    (h : ∀ c ∈ text, p c = true) (hrest : ∀ c ∈ rest.head?, p c = false) :
    (text ++ rest).takeWhile p = text := by
  rw [List.takeWhile_append_of_pos h]
  cases rest with
  | nil => rw [List.takeWhile_nil, List.append_nil]
  | cons c rest =>
    rw [List.takeWhile_cons, if_neg (by simp [hrest c rfl]), List.append_nil]

theorem dropWhile_append_of_head? {p : Char → Bool} {text rest : List Char}
    (h : ∀ c ∈ text, p c = true) (hrest : ∀ c ∈ rest.head?, p c = false) :
    (text ++ rest).dropWhile p = rest := by
  rw [List.dropWhile_append_of_pos h]
  cases rest with
  | nil => rfl
  | cons c rest => rw [List.dropWhile_cons, if_neg (by simp [hrest c rfl])]

/-! ### Trimming -/

/-- Nothing but blanks is missing around the text, and it neither begins nor ends with one. -/
structure Trims (cs trimmed : List Char) : Prop where
  /-- Blanks stand around it. -/
  around : ∃ before after, cs = before ++ trimmed ++ after ∧
    (∀ c ∈ before, isBlank c = true) ∧ ∀ c ∈ after, isBlank c = true
  /-- It does not begin with a blank. -/
  head : ∀ c ∈ trimmed.head?, isBlank c = false
  /-- It does not end with a blank. -/
  last : ∀ c ∈ trimmed.getLast?, isBlank c = false

theorem isBlank_of_mem_takeWhile {cs : List Char} {c : Char} (h : c ∈ cs.takeWhile isBlank) :
    isBlank c = true :=
  List.all_eq_true.mp List.all_takeWhile c h

theorem isBlank_head?_dropWhile {cs : List Char} {c : Char}
    (h : c ∈ (cs.dropWhile isBlank).head?) : isBlank c = false := by
  have hnot := List.head?_dropWhile_not isBlank cs
  rwa [Option.mem_def.mp h] at hnot

/-- What is trimmed and the blanks behind it are what is behind the blanks in front. -/
theorem trimList_append_takeWhile (cs : List Char) :
    trimList cs ++ ((cs.dropWhile isBlank).reverse.takeWhile isBlank).reverse =
      cs.dropWhile isBlank := by
  rw [trimList, ← List.reverse_append, List.takeWhile_append_dropWhile, List.reverse_reverse]

/-- Trimming takes off blanks at either end until there are none. -/
theorem trims_trimList (cs : List Char) : Trims cs (trimList cs) where
  around := by
    refine ⟨cs.takeWhile isBlank, ((cs.dropWhile isBlank).reverse.takeWhile isBlank).reverse, ?_,
      fun c => isBlank_of_mem_takeWhile, fun c hc => ?_⟩
    · rw [List.append_assoc, trimList_append_takeWhile, List.takeWhile_append_dropWhile]
    · exact isBlank_of_mem_takeWhile (List.mem_reverse.mp hc)
  head c hc := by
    have hfront : c ∈ (cs.dropWhile isBlank).head? := by
      rw [← trimList_append_takeWhile, Option.mem_def, List.head?_append, Option.mem_def.mp hc,
        Option.some_or]
    exact isBlank_head?_dropWhile hfront
  last c hc := by
    rw [trimList, List.getLast?_reverse] at hc
    exact isBlank_head?_dropWhile hc

/-- There is one way to take off the blanks at either end. -/
theorem trimList_of_trims {cs trimmed : List Char} (h : Trims cs trimmed) :
    trimList cs = trimmed := by
  obtain ⟨before, after, rfl, hbefore, hafter⟩ := h.around
  cases trimmed with
  | nil =>
    have hblank : (before ++ after ++ []).dropWhile isBlank = [] :=
      dropWhile_append_of_head? (fun c hc => (List.mem_append.mp hc).elim (hbefore c) (hafter c))
        nofun
    rw [trimList, List.append_nil, ← List.append_nil (before ++ after), hblank]
    rfl
  | cons c rest =>
    have hfront : (before ++ (c :: rest ++ after)).dropWhile isBlank = c :: rest ++ after :=
      dropWhile_append_of_head? hbefore fun d hd => h.head d hd
    have hback : (after.reverse ++ (c :: rest).reverse).dropWhile isBlank = (c :: rest).reverse :=
      dropWhile_append_of_head? (fun d hd => hafter d (List.mem_reverse.mp hd)) fun d hd =>
        h.last d (List.head?_reverse ▸ hd)
    rw [trimList, List.append_assoc, hfront, List.reverse_append, hback, List.reverse_reverse]

/-- A text is trimmed by taking off just the blanks at either end. -/
theorem trim_eq_iff {s t : String} : trim s = t ↔ Trims s.toList t.toList := by
  constructor
  · rintro rfl
    rw [trim, String.toList_ofList]
    exact trims_trimList _
  · intro h
    rw [trim, trimList_of_trims h, String.ofList_toList]

end Formulary.Text
