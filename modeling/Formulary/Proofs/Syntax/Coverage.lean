import Formulary.Proofs.Syntax.Leaves

/-!
# What the lexer passes over

A source that is lexed without a fault is its lexemes in their places, with blanks between them.
That would be all, were it not for numbers: a number is counted in bytes, and as many characters are
passed over. A digit of another script has several bytes, and the characters after it are lost.

## Scope

What is said of the places of lexemes holds of every source, and so does what is said of the number
of characters that are passed over after each. That nothing but blanks is passed over is said of the
sources whose numbers have one byte for each character. Of the others it may fail, and
`Lexeme.ofSource_digit` is a family for which it does.

## Main definitions

* `Text.positions` — the characters of a text with their offsets
* `Token.Spelled` — how a token is written
* `Token.overrun` — how many characters are passed over after a token
* `Lexeme.Laid` — a text that is lexemes in their places
* `Lexeme.under`, `Lexeme.withoutGaps` — what stands under a lexeme, and a text without the blanks
  that stand under none
* `Lexeme.Exhaust` — lexemes that are all that there is, but blanks

## Main results

* `Lexeme.stands_item`, `Lexeme.laid_of_ofSource` — an item, and a source, as lexemes in their
  places
* `Lexeme.exhaust_of_ofSource` — nothing is lost but blanks
* `Lexeme.ofSource_digit` — what is lost after a digit of several bytes
-/

namespace Formulary

open Text

/-! ### Places -/

namespace Text

theorem byteLength_toList (s : String) : byteLength s.toList = s.utf8ByteSize := by
  obtain ⟨cs, rfl⟩ : ∃ cs, s = String.ofList cs := ⟨s.toList, String.ofList_toList.symm⟩
  rw [String.toList_ofList]
  induction cs with
  | nil => rfl
  | cons c cs ih =>
    have hcons : String.ofList (c :: cs) = String.singleton c ++ String.ofList cs := by
      rw [← List.singleton_append, String.ofList_append]
      rfl
    rw [byteLength_cons, ih, hcons, String.utf8ByteSize_append, String.utf8ByteSize_singleton]

/-- The characters of a text with the offsets they stand at. -/
def positions (offset : Nat) : List Char → List (Nat × Char)
  | [] => []
  | c :: rest => (offset, c) :: positions (offset + c.utf8Size) rest

theorem positions_append (offset : Nat) (text rest : List Char) :
    positions offset (text ++ rest) =
      positions offset text ++ positions (offset + byteLength text) rest := by
  induction text generalizing offset with
  | nil => rfl
  | cons c text ih =>
    rw [List.cons_append, positions, ih, positions, byteLength_cons, Nat.add_assoc,
      List.cons_append]

theorem map_positions (offset : Nat) (text : List Char) :
    (positions offset text).map (·.2) = text := by
  induction text generalizing offset with
  | nil => rfl
  | cons c text ih => rw [positions, List.map_cons, ih]

/-- A character of a text stands between its two ends. -/
theorem bounds_of_mem_positions {offset : Nat} {text : List Char} {p : Nat × Char}
    (h : p ∈ positions offset text) : offset ≤ p.1 ∧ p.1 < offset + byteLength text := by
  induction text generalizing offset with
  | nil => exact nomatch h
  | cons c text ih =>
    rw [byteLength_cons]
    have := c.utf8Size_pos
    rcases List.mem_cons.mp h with rfl | h
    · dsimp only
      omega
    · have := ih h
      omega

end Text

/-! ### Spellings -/

/-- How a token is written. -/
inductive Token.Spelled : Token → List Char → Prop
  | literal (kind : LiteralKind) (text : List Char) :
    Spelled (.literal kind (String.ofList text)) text
  | word (text : List Char) : Spelled (Lexeme.wordToken (String.ofList text)) text
  | pair {c d : Char} {token : Token} : Lexeme.pairToken? c d = some token → Spelled token [c, d]
  | single {c : Char} {token : Token} : Lexeme.singleToken? c = some token → Spelled token [c]

/-- How many characters are passed over after a token: as many as a number has bytes beyond one for
each character. -/
def Token.overrun : Token → Nat
  | .literal .integer text | .literal .real text => byteLength text.toList - text.toList.length
  | _ => 0

namespace Lexeme

/-- A text from an offset on is lexemes in their places. Between them are blanks, and behind each
what is passed over with it. -/
inductive Laid : Nat → List Char → List Lexeme → Prop
  | done (offset : Nat) : Laid offset [] []
  | blank {offset : Nat} {c : Char} {rest : List Char} {lexemes : List Lexeme} :
    isBlank c = true → Laid (offset + c.utf8Size) rest lexemes → Laid offset (c :: rest) lexemes
  | lexeme {offset : Nat} {token : Token} {text rest : List Char} {lexemes : List Lexeme} :
    token.Spelled text →
    Laid (offset + byteLength text + byteLength (rest.take token.overrun))
      (rest.drop token.overrun) lexemes →
    Laid offset (text ++ rest) (⟨token, offset, offset + byteLength text⟩ :: lexemes)

/-! ### The lexer -/

theorem isPrefix_append {α : Type} {as bs cs : List α} (ha : as <+: cs)
    (hb : bs <+: cs.drop as.length) : as ++ bs <+: cs := by
  obtain ⟨rest, rfl⟩ := ha
  rw [List.drop_left] at hb
  exact (List.prefix_append_right_inj as).mpr hb

theorem fractionPart_isPrefix (cs : List Char) : fractionPart cs <+: cs := by
  unfold fractionPart
  split
  · next rest =>
    dsimp only
    split
    · exact List.nil_prefix
    · exact (List.prefix_cons_inj '.').mpr (List.takeWhile_prefix _)
  · exact List.nil_prefix

theorem take_one_filter_isPrefix (p : Char → Bool) (cs : List Char) :
    (cs.take 1).filter p <+: cs := by
  cases cs with
  | nil => exact List.nil_prefix
  | cons c rest =>
    rw [List.take_succ_cons, List.take_zero, List.filter_singleton]
    cases p c with
    | true => exact List.prefix_append [c] rest
    | false => exact List.nil_prefix

theorem exponentPart_isPrefix (cs : List Char) : exponentPart cs <+: cs := by
  unfold exponentPart
  split
  · next c rest =>
    split
    · dsimp only
      split
      · exact List.nil_prefix
      · refine (List.prefix_cons_inj c).mpr (isPrefix_append ?_ (List.takeWhile_prefix _))
        exact take_one_filter_isPrefix _ rest
    · exact List.nil_prefix
  · exact List.nil_prefix

/-- The text of a number stands where it was found. -/
theorem numberText_isPrefix (cs : List Char) : numberText cs <+: cs := by
  refine isPrefix_append (isPrefix_append (List.takeWhile_prefix _) (fractionPart_isPrefix _)) ?_
  rw [List.length_append]
  exact exponentPart_isPrefix _

/-- A lexeme, if there is one, is written at its place, and takes the characters that it is written
with and those that are passed over after it. -/
def Stands (offset : Nat) (c : Char) (rest : List Char) (found : Item × Nat) : Prop :=
  ∀ l, found.1 = .ok l → ∃ token text tail, rest = text ++ tail ∧ Token.Spelled token (c :: text) ∧
    l = ⟨token, offset, offset + byteLength (c :: text)⟩ ∧ found.2 = text.length + token.overrun

section

variable {offset : Nat} {c : Char} {rest : List Char}

theorem stands_made {token : Token} {text : List Char} (tail : List Char)
    (hspelled : token.Spelled (c :: text)) (hoverrun : token.overrun = 0) :
    Stands offset c (text ++ tail) (made offset token (c :: text)) := by
  intro l hl
  refine ⟨token, text, tail, rfl, hspelled, (Except.ok.inj hl).symm, ?_⟩
  rw [hoverrun]
  rfl

theorem overrun_number (real : Bool) (text : List Char) :
    Token.overrun (.literal (if real then .real else .integer) (String.ofList text)) =
      byteLength text - text.length := by
  cases real <;>
    simp only [Token.overrun, String.toList_ofList, if_true, Bool.false_eq_true, if_false]

theorem stands_number (h : startsNumber c rest.head? = true) :
    Stands offset c rest (number offset (c :: rest)) := by
  intro l hl
  obtain ⟨text, htext, -⟩ := numberText_cons h
  obtain ⟨tail, htail⟩ := numberText_isPrefix (c :: rest)
  rw [htext] at htail
  obtain rfl : text ++ tail = rest := (List.cons.inj htail).2
  rw [number, htext] at hl ⊢
  obtain rfl := Except.ok.inj hl
  have hlength := length_le_byteLength (c :: text)
  refine ⟨_, text, tail, rfl, .literal _ _, rfl, ?_⟩
  rw [overrun_number, List.length_cons]
  rw [List.length_cons] at hlength
  dsimp only
  omega

theorem stands_quoted (quote : Char) : Stands offset quote rest (quotedText offset quote rest) := by
  rw [quotedText]
  split
  · next body hbody =>
    obtain ⟨tail, rfl⟩ := Quoted.body?_eq_some hbody
    rw [List.append_cons]
    exact stands_made tail (.literal .string _) rfl
  · intro l hl
    cases hl

theorem stands_word : Stands offset c rest
    (made offset (wordToken (String.ofList (c :: rest.takeWhile isIdentifierContinue)))
      (c :: rest.takeWhile isIdentifierContinue)) := by
  have hoverrun : ∀ word, (wordToken word).overrun = 0 := by
    intro word
    unfold wordToken
    split <;> rfl
  have hmade : Stands offset c
      (rest.takeWhile isIdentifierContinue ++ rest.dropWhile isIdentifierContinue) _ :=
    stands_made _ (.word (c :: rest.takeWhile isIdentifierContinue)) (hoverrun _)
  rwa [List.takeWhile_append_dropWhile] at hmade

theorem stands_pair {token : Token} (h : rest.head?.bind (pairToken? c) = some token) :
    Stands offset c rest (made offset token (c :: rest.take 1)) := by
  obtain ⟨d, hd, hpair⟩ := Option.bind_eq_some_iff.mp h
  cases rest with
  | nil => exact nomatch hd
  | cons _ rest =>
    obtain rfl := Option.some.inj hd
    refine stands_made rest (.pair hpair) ?_
    unfold pairToken? at hpair
    split at hpair <;> cases hpair <;> rfl

theorem stands_single {token : Token} (h : singleToken? c = some token) :
    Stands offset c rest (made offset token [c]) := by
  refine stands_made rest (.single h) ?_
  unfold singleToken? at h
  split at h <;> cases h <;> rfl

/-- **One item** stands where it was found. -/
theorem stands_item (offset : Nat) (c : Char) (rest : List Char) :
    Stands offset c rest (item offset c rest) := by
  unfold item
  split
  · next hnumber => exact stands_number hnumber
  · split
    · exact stands_quoted c
    · split
      · exact stands_word
      · split
        · next hpair => exact stands_pair hpair
        · split
          · next hsingle => exact stands_single hsingle
          · exact fun _ hl => nomatch hl

end

/-- **The run** lays its lexemes where they were found, behind what is passed over first. -/
theorem laid_of_itemsFrom {offset skip : Nat} {cs : List Char} {lexemes : List Lexeme}
    (h : itemsFrom offset skip cs = lexemes.map Except.ok) :
    Laid (offset + byteLength (cs.take skip)) (cs.drop skip) lexemes := by
  induction cs generalizing offset skip lexemes with
  | nil =>
    obtain rfl := List.map_eq_nil_iff.mp h.symm
    rw [List.drop_nil]
    exact .done _
  | cons c rest ih =>
    cases skip with
    | succ skip =>
      rw [itemsFrom] at h
      have hrest := ih h
      rwa [Nat.add_assoc, ← byteLength_cons] at hrest
    | zero =>
      rw [itemsFrom] at h
      split at h
      · next hblank =>
        have hrest := ih h
        exact .blank hblank hrest
      · cases lexemes with
        | nil => exact absurd h (List.cons_ne_nil _ _)
        | cons l lexemes =>
          rw [List.map_cons] at h
          obtain ⟨hitem, hrest⟩ := List.cons.inj h
          obtain ⟨token, text, tail, rfl, hspelled, rfl, hskip⟩ := stands_item offset c rest l hitem
          have hlaid := ih hrest
          rw [hskip, List.take_length_add_append, List.drop_length_add_append, byteLength_append,
            ← Nat.add_assoc, Nat.add_assoc offset, ← byteLength_cons] at hlaid
          exact .lexeme hspelled hlaid

/-- **A source is its lexemes in their places.** -/
theorem laid_of_ofSource {source : String} {lexemes : List Lexeme}
    (h : ofSource source = .ok lexemes) : Laid 0 source.toList lexemes :=
  @laid_of_itemsFrom 0 0 _ _ (eq_map_ok_of_mapM h)

/-- Every lexeme takes some of the source. -/
theorem start_lt_stop_of_itemsFrom {l : Lexeme} {cs : List Char} {offset skip : Nat}
    (h : .ok l ∈ itemsFrom offset skip cs) : l.start < l.stop := by
  induction cs generalizing offset skip with
  | nil => exact nomatch h
  | cons c rest ih =>
    cases skip with
    | succ skip => exact ih h
    | zero =>
      rw [itemsFrom] at h
      split at h
      · exact ih h
      · rcases List.mem_cons.mp h with hl | h
        · obtain ⟨token, text, tail, -, -, rfl, -⟩ := stands_item offset c rest l hl.symm
          have := c.utf8Size_pos
          rw [byteLength_cons]
          dsimp only
          omega
        · exact ih h

theorem start_lt_stop_of_ofSource {source : String} {lexemes : List Lexeme}
    (h : ofSource source = .ok lexemes) {l : Lexeme} (hl : l ∈ lexemes) : l.start < l.stop := by
  refine @start_lt_stop_of_itemsFrom l source.toList 0 0 ?_
  rw [← items, eq_map_ok_of_mapM h]
  exact List.mem_map_of_mem hl

/-! ### Nothing is lost -/

/-- Whether an offset is under the lexeme. -/
def covers (l : Lexeme) (i : Nat) : Bool := decide (l.start ≤ i ∧ i < l.stop)

/-- The characters that stand under a lexeme. -/
def under (l : Lexeme) (chars : List (Nat × Char)) : List Char :=
  (chars.filter fun p => l.covers p.1).map (·.2)

/-- The characters without the blanks that stand under no lexeme. -/
def withoutGaps (lexemes : List Lexeme) (chars : List (Nat × Char)) : List Char :=
  (chars.filter fun p => !isBlank p.2 || lexemes.any fun l => l.covers p.1).map (·.2)

/-- The lexemes are all that there is, but blanks. -/
structure Exhaust (lexemes : List Lexeme) (chars : List (Nat × Char)) : Prop where
  /-- What is no blank stands under a lexeme. -/
  covered : ∀ p ∈ chars, isBlank p.2 = false → ∃ l ∈ lexemes, l.covers p.1 = true
  /-- What stands under a lexeme spells its token. -/
  spelled : ∀ l ∈ lexemes, l.token.Spelled (l.under chars)
  /-- Without the blanks between them there are the texts of the lexemes, one after the other. -/
  withoutGaps_eq : withoutGaps lexemes chars = lexemes.flatMap fun l => l.under chars

theorem under_append (l : Lexeme) (chars chars' : List (Nat × Char)) :
    l.under (chars ++ chars') = l.under chars ++ l.under chars' := by
  rw [under, List.filter_append, List.map_append, under, under]

theorem under_eq_nil {l : Lexeme} {chars : List (Nat × Char)}
    (h : ∀ p ∈ chars, l.covers p.1 = false) : l.under chars = [] := by
  rw [under, List.filter_eq_nil_iff.mpr fun p hp => by rw [h p hp]; exact Bool.false_ne_true]
  rfl

theorem under_eq_map {l : Lexeme} {chars : List (Nat × Char)}
    (h : ∀ p ∈ chars, l.covers p.1 = true) : l.under chars = chars.map (·.2) := by
  rw [under, List.filter_eq_self.mpr h]

/-- A blank before all lexemes is deleted. -/
theorem Exhaust.blank {lexemes : List Lexeme} {chars : List (Nat × Char)} {p : Nat × Char}
    (h : Exhaust lexemes chars) (hblank : isBlank p.2 = true)
    (hbefore : ∀ l ∈ lexemes, l.covers p.1 = false) : Exhaust lexemes (p :: chars) := by
  have hunder : ∀ l ∈ lexemes, l.under (p :: chars) = l.under chars := by
    intro l hl
    rw [under, List.filter_cons_of_neg (by rw [hbefore l hl]; exact Bool.false_ne_true), under]
  refine ⟨?_, ?_, ?_⟩
  · intro q hq hnot
    rcases List.mem_cons.mp hq with rfl | hq
    · rw [hblank] at hnot
      exact nomatch hnot
    · exact h.covered q hq hnot
  · intro l hl
    rw [hunder l hl]
    exact h.spelled l hl
  · have hany : (lexemes.any fun l => l.covers p.1) = false :=
      List.any_eq_false.mpr fun l hl => by rw [hbefore l hl]; exact Bool.false_ne_true
    rw [withoutGaps, List.filter_cons_of_neg (by rw [hblank, hany]; decide), ← withoutGaps,
      h.withoutGaps_eq]
    exact (List.flatMap_congr hunder).symm

/-- A lexeme before all others stands over its own characters. -/
theorem Exhaust.lexeme {l : Lexeme} {lexemes : List Lexeme} {text rest : List (Nat × Char)}
    (h : Exhaust lexemes rest) (hspelled : l.token.Spelled (text.map (·.2)))
    (htext : ∀ p ∈ text, l.covers p.1 = true) (hrest : ∀ p ∈ rest, l.covers p.1 = false)
    (hbefore : ∀ l' ∈ lexemes, ∀ p ∈ text, l'.covers p.1 = false) :
    Exhaust (l :: lexemes) (text ++ rest) := by
  have hunder : l.under (text ++ rest) = text.map (·.2) := by
    rw [under_append, under_eq_map htext, under_eq_nil hrest, List.append_nil]
  have hothers : ∀ l' ∈ lexemes, l'.under (text ++ rest) = l'.under rest := by
    intro l' hl'
    rw [under_append, under_eq_nil (hbefore l' hl'), List.nil_append]
  refine ⟨?_, ?_, ?_⟩
  · intro p hp hnot
    rcases List.mem_append.mp hp with hp | hp
    · exact ⟨l, List.mem_cons_self .., htext p hp⟩
    · obtain ⟨l', hl', hcovers⟩ := h.covered p hp hnot
      exact ⟨l', List.mem_cons_of_mem _ hl', hcovers⟩
  · intro l' hl'
    rcases List.mem_cons.mp hl' with rfl | hl'
    · rwa [hunder]
    · rw [hothers l' hl']
      exact h.spelled l' hl'
  · have hkeep : withoutGaps (l :: lexemes) text = text.map (·.2) := by
      rw [withoutGaps, List.filter_eq_self.mpr]
      intro p hp
      rw [List.any_cons, htext p hp, Bool.true_or, Bool.or_true]
    have hsame : withoutGaps (l :: lexemes) rest = withoutGaps lexemes rest := by
      rw [withoutGaps, withoutGaps, List.filter_congr]
      intro p hp
      rw [List.any_cons, hrest p hp, Bool.false_or]
    calc
      withoutGaps (l :: lexemes) (text ++ rest)
          = withoutGaps (l :: lexemes) text ++ withoutGaps (l :: lexemes) rest := by
        rw [withoutGaps, List.filter_append, List.map_append, ← withoutGaps, ← withoutGaps]
      _ = l.under (text ++ rest) ++ lexemes.flatMap fun l' => l'.under (text ++ rest) := by
        rw [hkeep, hsame, h.withoutGaps_eq, hunder, List.flatMap_congr hothers]
      _ = (l :: lexemes).flatMap fun l' => l'.under (text ++ rest) := by
        rw [List.flatMap_cons]

/-- Lexemes stand from the offset on. -/
theorem Laid.le_start {offset : Nat} {cs : List Char} {lexemes : List Lexeme}
    (h : Laid offset cs lexemes) : ∀ l ∈ lexemes, offset ≤ l.start := by
  induction h with
  | done => exact fun _ hl => nomatch hl
  | blank _ _ ih => exact fun l hl => Nat.le_of_add_right_le (ih l hl)
  | lexeme _ _ ih =>
    intro l hl
    rcases List.mem_cons.mp hl with rfl | hl
    · exact Nat.le_refl _
    · have := ih l hl
      omega

/-- Lexemes stand before the end of the text. -/
theorem Laid.stop_le {offset : Nat} {cs : List Char} {lexemes : List Lexeme}
    (h : Laid offset cs lexemes) : ∀ l ∈ lexemes, l.stop ≤ offset + byteLength cs := by
  induction h with
  | done => exact fun _ hl => nomatch hl
  | blank _ _ ih =>
    intro l hl
    have := ih l hl
    rw [byteLength_cons]
    omega
  | @lexeme _ token text rest _ _ _ ih =>
    intro l hl
    have hrest : byteLength (rest.take token.overrun) + byteLength (rest.drop token.overrun) =
        byteLength rest := by
      rw [← byteLength_append, List.take_append_drop]
    rw [byteLength_append]
    rcases List.mem_cons.mp hl with rfl | hl
    · dsimp only
      omega
    · have := ih l hl
      omega

/-- Lexemes stand one after the other. -/
theorem Laid.pairwise {offset : Nat} {cs : List Char} {lexemes : List Lexeme}
    (h : Laid offset cs lexemes) : lexemes.Pairwise fun l l' => l.stop ≤ l'.start := by
  induction h with
  | done => exact .nil
  | blank _ _ ih => exact ih
  | lexeme _ hrest ih =>
    refine .cons (fun l hl => ?_) ih
    have := hrest.le_start l hl
    dsimp only
    omega

/-- Where nothing is passed over after a lexeme, the lexemes are all that there is. -/
theorem Laid.exhaust {offset : Nat} {cs : List Char} {lexemes : List Lexeme}
    (h : Laid offset cs lexemes) (hoverrun : ∀ l ∈ lexemes, l.token.overrun = 0) :
    Exhaust lexemes (positions offset cs) := by
  induction h with
  | done => exact ⟨List.forall_mem_nil _, List.forall_mem_nil _, rfl⟩
  | @blank _ c _ _ hblank hrest ih =>
    refine (ih hoverrun).blank hblank fun l hl => ?_
    have := hrest.le_start l hl
    have := c.utf8Size_pos
    exact decide_eq_false (by dsimp only; omega)
  | @lexeme offset _ text rest _ hspelled hrest ih =>
    rw [(List.forall_mem_cons.mp hoverrun).1, List.take_zero, List.drop_zero, byteLength_nil,
      Nat.add_zero] at hrest ih
    rw [positions_append]
    refine (ih (List.forall_mem_cons.mp hoverrun).2).lexeme ?_ ?_ ?_ ?_
    · rwa [map_positions]
    · exact fun p hp => decide_eq_true (bounds_of_mem_positions hp)
    · intro p hp
      have := bounds_of_mem_positions hp
      exact decide_eq_false (by dsimp only; omega)
    · intro l hl p hp
      have := hrest.le_start l hl
      have := bounds_of_mem_positions hp
      exact decide_eq_false (by omega)

/-- The token is no number, or has one byte for each character. -/
def OneByte : Token → Prop
  | .literal .integer text | .literal .real text => ∀ c ∈ text.toList, c.utf8Size = 1
  | _ => True

theorem oneByte_literal {kind : LiteralKind} {text : String}
    (h : ∀ c ∈ text.toList, c.utf8Size = 1) : OneByte (.literal kind text) := by
  cases kind <;> first | exact h | trivial

theorem OneByte.overrun {token : Token} (h : OneByte token) : token.overrun = 0 := by
  unfold OneByte at h
  unfold Token.overrun
  split
  iterate 2
    rw [byteLength_of_ascii h, Nat.sub_self]
  · rfl

/-- **Nothing is lost but blanks**, as long as the numbers have one byte for each character. -/
theorem exhaust_of_ofSource {source : String} {lexemes : List Lexeme}
    (h : ofSource source = .ok lexemes) (hnumbers : ∀ l ∈ lexemes, OneByte l.token) :
    Exhaust lexemes (positions 0 source.toList) :=
  (laid_of_ofSource h).exhaust fun l hl => (hnumbers l hl).overrun

/-- The lexemes of a sum whose sign has blanks around it. -/
def sumLexemes : List Lexeme :=
  [⟨.literal .integer "1", 0, 1⟩, ⟨.operator .add, 2, 3⟩, ⟨.literal .real "2.5", 4, 7⟩]

/-- The sum is its three lexemes, and two blanks. -/
theorem exhaust_of_ofSource_sum :
    (ofSource "1 + 2.5" = .ok sumLexemes ∧ ∀ l ∈ sumLexemes, OneByte l.token) ∧
      sumLexemes.map (·.under (positions 0 "1 + 2.5".toList)) = [['1'], ['+'], ['2', '.', '5']] ∧
      Exhaust sumLexemes (positions 0 "1 + 2.5".toList) := by
  have hsource : ofSource "1 + 2.5" = .ok sumLexemes := rfl
  have hnumbers : ∀ l ∈ sumLexemes, OneByte l.token := by
    have hone : ∀ c ∈ "1".toList, c.utf8Size = 1 := by simp [Char.utf8Size]
    have hhalf : ∀ c ∈ "2.5".toList, c.utf8Size = 1 := by simp [Char.utf8Size]
    refine List.forall_mem_cons.mpr ⟨oneByte_literal hone, List.forall_mem_cons.mpr ⟨trivial, ?_⟩⟩
    exact List.forall_mem_singleton.mpr (oneByte_literal hhalf)
  exact ⟨⟨hsource, hnumbers⟩, by decide, exhaust_of_ofSource hsource hnumbers⟩

/-! ### What is lost -/

theorem itemsFrom_of_length_le {offset skip : Nat} {cs : List Char} (h : cs.length ≤ skip) :
    itemsFrom offset skip cs = [] := by
  induction cs generalizing offset skip with
  | nil => rfl
  | cons c rest ih =>
    rw [List.length_cons] at h
    obtain ⟨skip, rfl⟩ := Nat.exists_eq_add_of_le' (Nat.le_of_add_left_le h)
    exact ih (Nat.le_of_succ_le_succ h)

/-- The character does not prolong a whole number. -/
def EndsNumber (c : Char) : Prop := isDecimalDigit c = false ∧ c ≠ '.' ∧ c ≠ 'e' ∧ c ≠ 'E'

theorem numberText_append {digits rest : List Char}
    (hdigits : ∀ c ∈ digits, isDecimalDigit c = true)
    (hrest : ∀ c ∈ rest.head?, EndsNumber c) : numberText (digits ++ rest) = digits := by
  have hwhole : (digits ++ rest).takeWhile isDecimalDigit = digits :=
    takeWhile_append_of_head? hdigits fun c hc => (hrest c hc).1
  have hfraction : fractionPart rest = [] := by
    unfold fractionPart
    split
    · exact absurd rfl (hrest '.' rfl).2.1
    · rfl
  have hexponent : exponentPart rest = [] := by
    cases rest with
    | nil => rfl
    | cons c rest =>
      obtain ⟨-, -, he, hE⟩ := hrest c rfl
      rw [exponentPart, beq_eq_false_iff_ne.mpr he, beq_eq_false_iff_ne.mpr hE]
      rfl
  rw [numberText, hwhole, List.drop_left, hfraction, List.length_nil, Nat.add_zero, List.drop_left,
    hexponent, List.append_nil, List.append_nil]

/-- **What is lost.** After a digit of several bytes, as many characters are passed over as it has
bytes beyond the first, whatever they are. -/
theorem ofSource_digit {d : Char} (hd : isDecimalDigit d = true) {lost : List Char}
    (hlength : lost.length < d.utf8Size) (hlost : ∀ c ∈ lost.head?, EndsNumber c) :
    ofSource (String.ofList ('1' :: d :: lost)) =
      .ok [⟨.literal .integer (String.ofList ['1', d]), 0, 1 + d.utf8Size⟩] := by
  have htext : numberText ('1' :: d :: lost) = ['1', d] := by
    have hdigits : ∀ c ∈ ['1', d], isDecimalDigit c = true :=
      List.forall_mem_cons.mpr ⟨by decide, List.forall_mem_singleton.mpr hd⟩
    exact numberText_append hdigits hlost
  have hreal : isReal ['1', d] = false := by
    have hne : ∀ c, isDecimalDigit c = false → (d == c) = false := by
      rintro c hc
      refine beq_eq_false_iff_ne.mpr fun heq => ?_
      rw [heq, hc] at hd
      exact nomatch hd
    rw [isReal, List.any_cons, List.any_cons, hne '.' (by decide), hne 'e' (by decide),
      hne 'E' (by decide)]
    rfl
  have hitem : item 0 '1' (d :: lost) =
      (.ok ⟨.literal .integer (String.ofList ['1', d]), 0, 1 + d.utf8Size⟩, d.utf8Size) := by
    have hnumber : startsNumber '1' (d :: lost).head? = true := rfl
    have hone : ('1').utf8Size = 1 := by decide
    rw [item, if_pos hnumber, number, htext, hreal, byteLength_cons, byteLength_cons,
      byteLength_nil, hone, Nat.add_zero, Nat.zero_add, Nat.add_sub_cancel_left]
    rfl
  have hitems : items (String.ofList ('1' :: d :: lost)) =
      [.ok ⟨.literal .integer (String.ofList ['1', d]), 0, 1 + d.utf8Size⟩] := by
    rw [items, String.toList_ofList, itemsFrom, if_neg (by decide), hitem,
      itemsFrom_of_length_le (by rw [List.length_cons]; omega)]
  rw [ofSource, hitems]
  rfl

end Lexeme

end Formulary
