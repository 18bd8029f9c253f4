import Formulary.Proofs.Syntax.Places

/-!
# The lexer step by step

The items of a source are what a reader finds that goes through it from left to right. Every step
passes over blanks and cuts a piece out of what follows them, and the next one begins behind the
piece or further on. So the reader comes to the end of every source, also behind faults, and no two
pieces overlap.

One exit of a step takes nothing, and a reader that came to it would stay there for good: the fault
of a number without text. A number is only tried where a digit stands, or a point and a digit, and
from there it always has some text.

## Implementation notes

The lexer counts down the characters that belong to an item; the reader of this file is moved
instead, as `Reader.next?` says. `itemsFrom_eq` compares the two.

The places of faults saturate. Pieces have the offsets themselves, so what is said of their order
holds in sources of every length.

## Main definitions

* `Lexeme.Piece` — a token or a code between two offsets
* `Reader.next?`, `Reader.Run` — a step of the reader, and all steps to the end
* `Reader.Takes` — what a step does
* `Piece.Sound` — a piece that stands in the source

## Main results

* `Reader.takes_of_next?` — every step takes some text
* `Reader.exists_run` — every reader comes to the end
* `Lexeme.read_to_end` — the items of a source are those of its run
-/

namespace Formulary

open Text

theorem Text.byteLength_pos {cs : List Char} (h : cs ≠ []) : 0 < byteLength cs :=
  Nat.lt_of_lt_of_le (List.length_pos_of_ne_nil h) (length_le_byteLength cs)

namespace Lexeme

/-- A token, or the code of a fault, between two offsets. -/
structure Piece where
  /-- The token or the code. -/
  outcome : Except Code Token
  /-- The offset of the first byte. -/
  start : Nat
  /-- The offset after the last byte. -/
  stop : Nat

/-- The item of a piece. -/
def Piece.item (p : Piece) : Item :=
  match p.outcome with
  | .ok token => .ok ⟨token, p.start, p.stop⟩
  | .error code => .error (.of p.start p.stop code)

/-- What is left of a source, and the offset it begins at. -/
structure Reader where
  /-- The offset of the next character. -/
  offset : Nat
  /-- The characters that are left. -/
  rest : List Char

namespace Reader

/-- The reader of a source. -/
def of (source : String) : Reader := ⟨0, source.toList⟩

/-- The reader behind a number of characters, or at the end if there are fewer. -/
def advance (r : Reader) (n : Nat) : Reader :=
  ⟨r.offset + byteLength (r.rest.take n), r.rest.drop n⟩

/-- The step at a number. Where there is none, nothing is taken. -/
def number (r : Reader) : Piece × Reader :=
  let text := numberText r.rest
  if text.isEmpty then (⟨.error .expectedNumber, r.offset, r.offset + 1⟩, r)
  else
    let kind := if isReal text then .real else .integer
    (⟨.ok (.literal kind (String.ofList text)), r.offset, r.offset + byteLength text⟩,
      r.advance (byteLength text))

/-- What begins with a character that begins no number: the token or the code, and the text. -/
def cut (c : Char) (rest : List Char) : Except Code Token × List Char :=
  if c == '\'' || c == '"' then
    match Quoted.body? c rest with
    | some body =>
      let text := c :: (body ++ [c])
      (.ok (.literal .string (String.ofList text)), text)
    | none => (.error .unclosedString, c :: rest)
  else if isIdentifierStart c then
    let word := c :: rest.takeWhile isIdentifierContinue
    (.ok (wordToken (String.ofList word)), word)
  else
    match rest.head?.bind (pairToken? c) with
    | some token => (.ok token, c :: rest.take 1)
    | none =>
      match singleToken? c with
      | some token => (.ok token, [c])
      | none => (.error .unrecognizedToken, [c])

/-- The step at a character other than a blank. -/
def step (offset : Nat) (c : Char) (rest : List Char) : Piece × Reader :=
  let r : Reader := ⟨offset, c :: rest⟩
  if startsNumber c rest.head? then r.number
  else
    let (outcome, text) := cut c rest
    (⟨outcome, offset, offset + byteLength text⟩, r.advance text.length)

/-- The step at a text, behind its blanks. There is none at the end. -/
def scan (offset : Nat) : List Char → Option (Piece × Reader)
  | [] => none
  | c :: rest => if isBlank c then scan (offset + c.utf8Size) rest else some (step offset c rest)

/-- One step: the next piece, and the reader after it. -/
def next? (r : Reader) : Option (Piece × Reader) := scan r.offset r.rest

/-- The pieces that the reader finds until it is at the end. -/
inductive Run : Reader → List Piece → Prop
  | done {r : Reader} : r.next? = none → Run r []
  | step {r r' : Reader} {p : Piece} {pieces : List Piece} :
    r.next? = some (p, r') → Run r' pieces → Run r (p :: pieces)

end Reader

/-! ### One step -/

/-- The outcome is that of the text. -/
structure Piece.Fits (outcome : Except Code Token) (text : List Char) : Prop where
  /-- Some text is taken. -/
  nonempty : text ≠ []
  /-- The fault that takes no text is not met. -/
  ne_expectedNumber : outcome ≠ .error .expectedNumber
  /-- A token is spelled by its text. -/
  spelled : ∀ token, outcome = .ok token → token.Spelled text
  /-- A string stands between two quotes that are the same. -/
  quoted : ∀ s, outcome = .ok (.literal .string s) →
    ∃ quote body, (quote = '\'' ∨ quote = '"') ∧ text = quote :: (body ++ [quote])

namespace Reader

/-- A step passes over some text, takes a piece, and passes over some more characters. -/
inductive Takes : Reader → Piece → Reader → Prop
  | mk {offset : Nat} {outcome : Except Code Token} {before text after : List Char} (more : Nat) :
    Piece.Fits outcome text →
    Takes ⟨offset, before ++ (text ++ after)⟩
      ⟨outcome, offset + byteLength before, offset + byteLength before + byteLength text⟩
      ⟨offset + byteLength before + byteLength text + byteLength (after.take more),
        after.drop more⟩

section

variable {c : Char} {rest : List Char}

/-- A token that is no string. -/
theorem fits_token {token : Token} {text : List Char} (hsome : text ≠ [])
    (hspelled : token.Spelled text) (hstring : ∀ s, token ≠ .literal .string s) :
    Piece.Fits (.ok token) text := by
  refine ⟨hsome, nofun, ?_, fun s hs => absurd (Except.ok.inj hs) (hstring s)⟩
  rintro _ ⟨⟩
  exact hspelled

theorem fits_single {token : Token} (h : singleToken? c = some token) :
    Piece.Fits (.ok token) [c] := by
  refine fits_token (List.cons_ne_nil _ _) (.single h) ?_
  rintro s rfl
  unfold singleToken? at h
  split at h <;> exact nomatch h

theorem fits_pair {d : Char} {token : Token} (h : pairToken? c d = some token) :
    Piece.Fits (.ok token) [c, d] := by
  refine fits_token (List.cons_ne_nil _ _) (.pair h) ?_
  rintro s rfl
  unfold pairToken? at h
  split at h <;> exact nomatch h

theorem fits_word {word : List Char} (h : word ≠ []) :
    Piece.Fits (.ok (wordToken (String.ofList word))) word := by
  refine fits_token h (.word word) fun s hs => ?_
  unfold wordToken at hs
  split at hs <;> exact nomatch hs

theorem fits_quoted {body : List Char} (h : c = '\'' ∨ c = '"') :
    Piece.Fits (.ok (.literal .string (String.ofList (c :: (body ++ [c])))))
      (c :: (body ++ [c])) := by
  refine ⟨List.cons_ne_nil _ _, nofun, ?_, fun _ _ => ⟨c, body, h, rfl⟩⟩
  rintro _ ⟨⟩
  exact .literal .string _

theorem fits_error {code : Code} {text : List Char} (hcode : code ≠ .expectedNumber)
    (htext : text ≠ []) : Piece.Fits (.error code) text :=
  ⟨htext, fun h => hcode (Except.error.inj h), nofun, nofun⟩

/-- A number has some text where it is tried. -/
theorem fits_number (h : startsNumber c rest.head? = true) :
    Piece.Fits (.ok (.literal (if isReal (numberText (c :: rest)) then .real else .integer)
      (String.ofList (numberText (c :: rest))))) (numberText (c :: rest)) := by
  obtain ⟨text, htext, -⟩ := numberText_cons h
  refine fits_token ?_ (.literal _ _) fun s hs => ?_
  · rw [htext]
    exact List.cons_ne_nil _ _
  · split at hs <;> exact nomatch hs

/-- What is cut from a text begins it. -/
theorem cut_isPrefix (c : Char) (rest : List Char) : (cut c rest).2 <+: c :: rest := by
  unfold cut
  split
  · split
    · next body hbody =>
      obtain ⟨after, rfl⟩ := Quoted.body?_eq_some hbody
      exact ⟨after, by rw [List.cons_append, List.append_assoc, List.singleton_append]⟩
    · exact List.prefix_rfl
  · split
    · exact (List.prefix_cons_inj c).mpr (List.takeWhile_prefix _)
    · split
      · exact (List.prefix_cons_inj c).mpr (List.take_prefix 1 rest)
      · split <;> exact List.prefix_append [c] rest

theorem fits_cut (c : Char) (rest : List Char) : Piece.Fits (cut c rest).1 (cut c rest).2 := by
  unfold cut
  split
  · next hquote =>
    rw [Bool.or_eq_true, beq_iff_eq, beq_iff_eq] at hquote
    split
    · exact fits_quoted hquote
    · exact fits_error nofun (List.cons_ne_nil _ _)
  · split
    · exact fits_word (List.cons_ne_nil _ _)
    · split
      · next token hpair =>
        obtain ⟨d, hd, htoken⟩ := Option.bind_eq_some_iff.mp hpair
        obtain ⟨after, rfl⟩ := List.head?_eq_some_iff.mp hd
        exact fits_pair htoken
      · split
        · next hsingle => exact fits_single hsingle
        · exact fits_error nofun (List.cons_ne_nil _ _)

/-- A step that takes the beginning of a text and advances at least as far. -/
theorem takes_advance {offset n : Nat} {outcome : Except Code Token} {text cs : List Char}
    (hfits : Piece.Fits outcome text) (hbegins : text <+: cs) (hn : text.length ≤ n) :
    Takes ⟨offset, cs⟩ ⟨outcome, offset, offset + byteLength text⟩
      ((⟨offset, cs⟩ : Reader).advance n) := by
  obtain ⟨after, rfl⟩ := hbegins
  obtain ⟨more, rfl⟩ := Nat.exists_eq_add_of_le hn
  rw [advance, List.take_length_add_append, List.drop_length_add_append, byteLength_append,
    ← Nat.add_assoc]
  exact @Takes.mk offset outcome [] text after more hfits

/-- **One step at a character** takes some text that begins with it. -/
theorem takes_step (offset : Nat) (c : Char) (rest : List Char) :
    Takes ⟨offset, c :: rest⟩ (step offset c rest).1 (step offset c rest).2 := by
  unfold step
  dsimp only
  split
  · next h =>
    have hfits := fits_number h
    -- the exit without text is closed, because the number has some
    rw [number, if_neg (by rw [List.isEmpty_iff]; exact hfits.nonempty)]
    exact takes_advance hfits (numberText_isPrefix _) (length_le_byteLength _)
  · exact takes_advance (fits_cut c rest) (cut_isPrefix c rest) (Nat.le_refl _)

theorem Takes.blank {offset : Nat} {r' : Reader} {p : Piece}
    (h : Takes ⟨offset + c.utf8Size, rest⟩ p r') : Takes ⟨offset, c :: rest⟩ p r' := by
  generalize hr : (⟨offset + c.utf8Size, rest⟩ : Reader) = r at h
  cases h with
  | @mk _ outcome before text after more hfits =>
    obtain ⟨rfl, rfl⟩ := Reader.mk.inj hr
    rw [Nat.add_assoc offset, ← byteLength_cons]
    exact @Takes.mk offset outcome (c :: before) text after more hfits

end

theorem takes_of_scan {offset : Nat} {cs : List Char} {p : Piece} {r' : Reader}
    (h : scan offset cs = some (p, r')) : Takes ⟨offset, cs⟩ p r' := by
  induction cs generalizing offset with
  | nil => exact nomatch h
  | cons c rest ih =>
    rw [scan] at h
    split at h
    · exact (ih h).blank
    · obtain ⟨rfl, rfl⟩ := Prod.mk.inj (Option.some.inj h)
      exact takes_step offset c rest

/-- **One step** takes some text. -/
theorem takes_of_next? {r r' : Reader} {p : Piece} (h : r.next? = some (p, r')) : r.Takes p r' :=
  takes_of_scan h

namespace Takes

variable {r r' : Reader} {p : Piece} {source : String}

/-- A step leaves less than there was. -/
theorem length_lt (h : r.Takes p r') : r'.rest.length < r.rest.length := by
  obtain ⟨more, hfits⟩ := h
  have := List.length_pos_of_ne_nil hfits.nonempty
  simp only [List.length_drop, List.length_append]
  omega

/-- A piece has some text. -/
theorem start_lt_stop (h : r.Takes p r') : p.start < p.stop := by
  obtain ⟨more, hfits⟩ := h
  exact Nat.lt_add_of_pos_right (byteLength_pos hfits.nonempty)

/-- A piece begins at the reader or behind it. -/
theorem le_start (h : r.Takes p r') : r.offset ≤ p.start := by
  obtain ⟨more, -⟩ := h
  exact Nat.le_add_right _ _

/-- The next step begins behind the piece. -/
theorem stop_le (h : r.Takes p r') : p.stop ≤ r'.offset := by
  obtain ⟨more, -⟩ := h
  exact Nat.le_add_right _ _

end Takes

/-! ### The run -/

/-- **Every reader comes to the end.** -/
theorem exists_run (r : Reader) : ∃ pieces, r.Run pieces := by
  induction hlength : r.rest.length using Nat.strong_induction_on generalizing r with
  | _ n ih =>
    cases hnext : r.next? with
    | none => exact ⟨[], .done hnext⟩
    | some found =>
      obtain ⟨p, r'⟩ := found
      have hlt := (takes_of_next? hnext).length_lt
      obtain ⟨pieces, hrun⟩ := ih _ (hlength ▸ hlt) r' rfl
      exact ⟨p :: pieces, .step hnext hrun⟩

namespace Run

variable {r : Reader} {pieces : List Piece}

/-- A run has at most one piece for each character. -/
theorem length_le (h : r.Run pieces) : pieces.length ≤ r.rest.length := by
  induction h with
  | done => exact Nat.zero_le _
  | step hnext _ ih =>
    have := (takes_of_next? hnext).length_lt
    rw [List.length_cons]
    omega

theorem le_start (h : r.Run pieces) : ∀ p ∈ pieces, r.offset ≤ p.start := by
  induction h with
  | done => exact List.forall_mem_nil _
  | @step r r' p pieces hnext _ ih =>
    have htakes := takes_of_next? hnext
    refine List.forall_mem_cons.mpr ⟨htakes.le_start, fun q hq => ?_⟩
    calc
      r.offset ≤ p.start := htakes.le_start
      _ ≤ p.stop := Nat.le_of_lt htakes.start_lt_stop
      _ ≤ r'.offset := htakes.stop_le
      _ ≤ q.start := ih q hq

/-- No piece begins before those in front of it have ended. -/
theorem inOrder (h : r.Run pieces) : pieces.Pairwise fun p q => p.stop ≤ q.start := by
  induction h with
  | done => exact .nil
  | step hnext hrun ih =>
    have hstop := (takes_of_next? hnext).stop_le
    exact .cons (fun q hq => Nat.le_trans hstop (hrun.le_start q hq)) ih

end Run

end Reader

/-! ### The pieces of a source -/

/-- What is left of the source, at the offset where it begins. -/
def Reader.Within (source : String) (r : Reader) : Prop :=
  ∃ before, source.toList = before ++ r.rest ∧ byteLength before = r.offset

/-- The piece stands in the source, with the text that its token has. -/
structure Piece.Sound (source : String) (p : Piece) : Prop where
  /-- The fault that takes no text is not met. -/
  ne_expectedNumber : p.outcome ≠ .error .expectedNumber
  /-- The piece has some text. -/
  start_lt_stop : p.start < p.stop
  /-- It ends within the source. -/
  stop_le : p.stop ≤ source.utf8ByteSize
  /-- A text stands between its offsets, and a token that has a text has that one. -/
  standsAt : ∃ text, StandsAt source text ⟨p.start, p.stop⟩ ∧
    ∀ token, p.outcome = .ok token → ∀ s, token.text? = some s → s = text
  /-- A string is a body between two quotes that are the same, and decoding takes them off. -/
  quoted : ∀ s, p.outcome = .ok (.literal .string s) → ∃ quote body,
    (quote = '\'' ∨ quote = '"') ∧ s.toList = quote :: (body ++ [quote]) ∧
      Literal.bodyOf s = body

/-- A text that is cut out of the characters of a source stands there. -/
theorem standsAt_of_toList {source : String} {before text after : List Char}
    (h : source.toList = before ++ (text ++ after)) :
    StandsAt source (String.ofList text)
      ⟨byteLength before, byteLength before + byteLength text⟩ := by
  refine ⟨String.ofList before, String.ofList after, ?_, ?_, ?_⟩
  · rw [← String.toList_inj, h]
    simp only [String.toList_append, String.toList_ofList, List.append_assoc]
  · rw [← byteLength_toList, String.toList_ofList]
  · rw [← byteLength_toList, String.toList_ofList]

namespace Reader.Takes

variable {r r' : Reader} {p : Piece} {source : String}

/-- A step stays within the source. -/
theorem within (h : r.Takes p r') (hr : r.Within source) : r'.Within source := by
  obtain ⟨front, hsource, hfront⟩ := hr
  cases h with
  | @mk _ _ before text after more _ =>
    dsimp only at hsource hfront
    refine ⟨front ++ before ++ text ++ after.take more, ?_, ?_⟩
    · rw [hsource]
      simp only [List.append_assoc, List.take_append_drop]
    · simp only [byteLength_append, hfront]

/-- **A step finds a piece of the source.** -/
theorem sound (h : r.Takes p r') (hr : r.Within source) : p.Sound source := by
  have hsome := h.start_lt_stop
  obtain ⟨front, hsource, hfront⟩ := hr
  cases h with
  | @mk offset outcome before text after more hfits =>
    dsimp only at hsource hfront
    rw [← List.append_assoc] at hsource
    have hplace : byteLength (front ++ before) = offset + byteLength before := by
      rw [byteLength_append, hfront]
    have hstands := standsAt_of_toList hsource
    rw [hplace] at hstands
    have hsize : source.utf8ByteSize =
        offset + byteLength before + (byteLength text + byteLength after) := by
      rw [← byteLength_toList, hsource, byteLength_append, hplace, byteLength_append]
    refine ⟨hfits.ne_expectedNumber, hsome, ?_, ⟨_, hstands, ?_⟩, ?_⟩
    · rw [hsize]
      dsimp only
      omega
    · intro token htoken s hs
      have htext := (hfits.spelled token htoken).eq_toList hs
      rw [htext, String.ofList_toList]
    · intro s hs
      obtain ⟨quote, body, hquote, htext⟩ := hfits.quoted s hs
      have hchars := (hfits.spelled _ hs).eq_toList rfl
      refine ⟨quote, body, hquote, by rw [← hchars, htext], ?_⟩
      rw [Literal.bodyOf, ← hchars, htext, List.drop_one, List.tail_cons, List.dropLast_concat]

end Reader.Takes

theorem Reader.Run.sound {r : Reader} {pieces : List Piece} {source : String} (h : r.Run pieces)
    (hr : r.Within source) : ∀ p ∈ pieces, p.Sound source := by
  induction h with
  | done => exact List.forall_mem_nil _
  | step hnext _ ih =>
    have htakes := takes_of_next? hnext
    exact List.forall_mem_cons.mpr ⟨htakes.sound hr, ih (htakes.within hr)⟩

/-! ### The items of a source -/

/-- Items after some characters are those of what is left. -/
theorem itemsFrom_advance (offset skip : Nat) (cs : List Char) :
    itemsFrom offset skip cs = itemsFrom (offset + byteLength (cs.take skip)) 0 (cs.drop skip) := by
  induction cs generalizing offset skip with
  | nil => rw [List.drop_nil, itemsFrom, itemsFrom]
  | cons c rest ih =>
    cases skip with
    | zero => rfl
    | succ skip =>
      rw [itemsFrom, ih, List.take_succ_cons, byteLength_cons, Nat.add_assoc, List.drop_succ_cons]

/-- An item that is no number is what is cut there. -/
theorem item_eq_cut (offset : Nat) {c : Char} {rest : List Char}
    (h : ¬startsNumber c rest.head? = true) :
    item offset c rest =
      ((⟨(Reader.cut c rest).1, offset, offset + byteLength (Reader.cut c rest).2⟩ : Piece).item,
        (Reader.cut c rest).2.length - 1) := by
  unfold item Reader.cut
  rw [if_neg h]
  by_cases hquote : (c == '\'' || c == '"') = true
  · rw [if_pos hquote, if_pos hquote, quotedText]
    cases Quoted.body? c rest <;> rfl
  · rw [if_neg hquote, if_neg hquote]
    by_cases hword : isIdentifierStart c = true
    · rw [if_pos hword, if_pos hword]
      rfl
    · rw [if_neg hword, if_neg hword]
      cases rest.head?.bind (pairToken? c) with
      | some token => rfl
      | none => cases singleToken? c <;> rfl

/-- The item at a character is the piece of the step there, and takes as many characters. -/
theorem item_eq_step (offset : Nat) (c : Char) (rest : List Char) :
    (item offset c rest).1 = (Reader.step offset c rest).1.item ∧
      (Reader.step offset c rest).2 =
        (⟨offset, c :: rest⟩ : Reader).advance ((item offset c rest).2 + 1) := by
  by_cases h : startsNumber c rest.head? = true
  · have hnonempty := (Reader.fits_number h).nonempty
    rw [item, if_pos h, Reader.step, if_pos h, Reader.number,
      if_neg (by rw [List.isEmpty_iff]; exact hnonempty), number,
      Nat.sub_add_cancel (byteLength_pos hnonempty)]
    exact ⟨rfl, rfl⟩
  · have hpos := List.length_pos_of_ne_nil (Reader.fits_cut c rest).nonempty
    rw [item_eq_cut offset h, Nat.sub_add_cancel hpos, Reader.step, if_neg h]
    exact ⟨rfl, rfl⟩

/-- Items one after the other are the steps of a reader. -/
theorem itemsFrom_eq (offset : Nat) (cs : List Char) :
    itemsFrom offset 0 cs =
      match Reader.scan offset cs with
      | none => []
      | some (p, r') => p.item :: itemsFrom r'.offset 0 r'.rest := by
  induction cs generalizing offset with
  | nil => rfl
  | cons c rest ih =>
    rw [itemsFrom, Reader.scan]
    split
    · exact ih _
    · obtain ⟨hitem, hreader⟩ := item_eq_step offset c rest
      change _ = (Reader.step offset c rest).1.item ::
        itemsFrom (Reader.step offset c rest).2.offset 0 (Reader.step offset c rest).2.rest
      rw [hitem, itemsFrom_advance, hreader, Reader.advance]
      dsimp only
      rw [List.take_succ_cons, byteLength_cons, Nat.add_assoc, List.drop_succ_cons]

theorem Reader.Run.items_eq {r : Reader} {pieces : List Piece} (h : r.Run pieces) :
    pieces.map Piece.item = itemsFrom r.offset 0 r.rest := by
  induction h with
  | done hnext =>
    rw [Reader.next?] at hnext
    rw [itemsFrom_eq, hnext, List.map_nil]
  | step hnext _ ih =>
    rw [Reader.next?] at hnext
    rw [itemsFrom_eq, hnext, List.map_cons, ih]

/-- **Every source is read to its end.** The reader comes there, also behind faults, with at most
one piece for each character; its pieces make up the items of the source; every piece has some text
of the source, which is the one that its token has; and none begins before those in front of it have
ended. -/
theorem read_to_end (source : String) : ∃ pieces, (Reader.of source).Run pieces ∧
    items source = pieces.map Piece.item ∧ pieces.length ≤ source.length ∧
      (∀ p ∈ pieces, p.Sound source) ∧ pieces.Pairwise fun p q => p.stop ≤ q.start := by
  obtain ⟨pieces, hrun⟩ := (Reader.of source).exists_run
  have hwithin : (Reader.of source).Within source := ⟨[], rfl, rfl⟩
  refine ⟨pieces, hrun, hrun.items_eq.symm, ?_, hrun.sound hwithin, hrun.inOrder⟩
  rw [← String.length_toList]
  exact hrun.length_le

end Lexeme

end Formulary
