import Formulary.Expr.Lexeme

/-!
# Texts that are read token by token

How the lexer reads a text that is followed by another one. A token is found where its text stands
as long as what follows does not prolong it: a name goes on with the characters of names, a number
with digits, a point or an exponent, and an exclamation mark with an equals sign. Punctuation and
quoted texts end by themselves.

That a text is read as certain tokens is therefore said under a condition on what follows it, and
such statements are put together by `Lexeme.Reads.append`.

## Main definitions

* `Lexeme.Reads` — a text is read as tokens when what follows meets a condition
* `Lexeme.Delimited` — what follows is nothing, a blank or punctuation
* `Lexeme.IsName` — a text that the lexer reads as a single name
* `Lexeme.IsNumber` — the texts of numbers

## Main results

* `Lexeme.Reads.append` — one text after the other
* `Lexeme.IsName.reads`, `Lexeme.IsNumber.reads`, `Lexeme.reads_quoted` — words, numbers and quoted
  texts
* `Lexeme.Reads.ofSource` — a text that is read as tokens is a source of them
-/

namespace Formulary.Lexeme

open Text

/-! ### Reading with something after -/

/-- Wherever it stands, and whatever follows it that meets `next`, the text is read as the
tokens. -/
def Reads (next : List Char → Prop) (text : List Char) (tokens : List Token) : Prop :=
  ∀ offset rest, next rest → ∃ lexemes : List Lexeme, lexemes.map Lexeme.token = tokens ∧
    itemsFrom offset 0 (text ++ rest) =
      lexemes.map Except.ok ++ itemsFrom (offset + byteLength text) 0 rest

/-- Anything. -/
def Anything (_ : List Char) : Prop := True

variable {next next' : List Char → Prop} {text text' : List Char} {tokens tokens' : List Token}

theorem Reads.mono (h : Reads next text tokens) (hnext : ∀ rest, next' rest → next rest) :
    Reads next' text tokens :=
  fun offset rest hrest => h offset rest (hnext rest hrest)

theorem Reads.nil : Reads Anything [] [] :=
  fun _ _ _ => ⟨[], rfl, rfl⟩

/-- Two texts, one after the other: what follows the first is the second with what follows it. -/
theorem Reads.append (h : Reads next text tokens) (h' : Reads next' text' tokens')
    (hnext : ∀ rest, next' rest → next (text' ++ rest)) :
    Reads next' (text ++ text') (tokens ++ tokens') := by
  intro offset rest hrest
  obtain ⟨lexemes, rfl, hread⟩ := h offset (text' ++ rest) (hnext rest hrest)
  obtain ⟨lexemes', rfl, hread'⟩ := h' (offset + byteLength text) rest hrest
  refine ⟨lexemes ++ lexemes', List.map_append, ?_⟩
  rw [List.append_assoc, hread, hread', byteLength_append, List.map_append, List.append_assoc,
    Nat.add_assoc]

theorem mapM_map_ok (lexemes : List Lexeme) :
    (lexemes.map Except.ok).mapM id = (.ok lexemes : Except SyntaxFault (List Lexeme)) := by
  induction lexemes with
  | nil => rfl
  | cons l lexemes ih =>
    rw [List.map_cons, List.mapM_cons, ih]
    rfl

/-- A text that is read as tokens to its end is a source of them. -/
theorem Reads.ofSource {source : String} (h : Reads next source.toList tokens) (hend : next []) :
    ∃ lexemes, Lexeme.ofSource source = .ok lexemes ∧ lexemes.map Lexeme.token = tokens := by
  obtain ⟨lexemes, rfl, hread⟩ := h 0 [] hend
  refine ⟨lexemes, ?_, rfl⟩
  rw [List.append_nil, itemsFrom, List.append_nil] at hread
  rw [Lexeme.ofSource, items, hread, mapM_map_ok]

/-! ### One item -/

theorem itemsFrom_skip (offset : Nat) (text rest : List Char) :
    itemsFrom offset text.length (text ++ rest) = itemsFrom (offset + byteLength text) 0 rest := by
  induction text generalizing offset with
  | nil => rfl
  | cons c text ih =>
    rw [List.length_cons, List.cons_append, itemsFrom, ih, byteLength_cons, Nat.add_assoc]

/-- A text that is one item, whatever follows it that meets `next`. -/
theorem reads_item {c : Char} {text : List Char} {token : Token} (hblank : isBlank c = false)
    (h : ∀ offset rest, next rest → item offset c (text ++ rest) =
      (.ok ⟨token, offset, offset + byteLength (c :: text)⟩, text.length)) :
    Reads next (c :: text) [token] := by
  intro offset rest hrest
  refine ⟨[⟨token, offset, offset + byteLength (c :: text)⟩], rfl, ?_⟩
  rw [List.cons_append, itemsFrom, hblank, if_neg Bool.false_ne_true, h offset rest hrest,
    itemsFrom_skip, byteLength_cons, Nat.add_assoc]
  rfl

/-- Blanks are no tokens. -/
theorem reads_blank {c : Char} (h : isBlank c = true) : Reads Anything [c] [] := by
  intro offset rest _
  refine ⟨[], rfl, ?_⟩
  rw [List.singleton_append, itemsFrom, if_pos h]
  rfl

/-! ### Punctuation -/

/-- The character begins nothing but punctuation. -/
def IsMark (c : Char) : Prop :=
  isBlank c = false ∧ c.isDigit = false ∧ (c == '\'' || c == '"') = false ∧
    isIdentifierStart c = false

theorem isMark_of_singleToken? {c : Char} {token : Token} (h : singleToken? c = some token) :
    IsMark c := by
  unfold singleToken? at h
  unfold IsMark
  split at h
  case h_15 => exact nomatch h
  all_goals decide

theorem isMark_of_pairToken? {c d : Char} {token : Token} (h : pairToken? c d = some token) :
    IsMark c ∧ c ≠ '.' := by
  unfold pairToken? at h
  unfold IsMark
  split at h
  case h_8 => exact nomatch h
  all_goals decide

theorem item_of_isMark {c : Char} {rest : List Char} (offset : Nat) (hc : IsMark c)
    (hdot : c = '.' → rest.head?.any Char.isDigit = false) :
    item offset c rest =
      match rest.head?.bind (pairToken? c) with
      | some token => made offset token (c :: rest.take 1)
      | none =>
        match singleToken? c with
        | some token => made offset token [c]
        | none => (.error (.of offset (offset + c.utf8Size) .unrecognizedToken), 0) := by
  obtain ⟨-, hdigit, hquote, hstart⟩ := hc
  have hnumber : startsNumber c rest.head? = false := by
    rw [startsNumber, hdigit, Bool.false_or, Bool.and_eq_false_iff]
    by_cases h : c = '.'
    · exact .inr (hdot h)
    · exact .inl (beq_eq_false_iff_ne.mpr h)
  rw [item, hnumber, hquote, hstart]
  rfl

/-- A character that is a token alone, unless it makes one with the next. -/
theorem reads_single {c : Char} {token : Token} (h : singleToken? c = some token) (hdot : c ≠ '.')
    (hnext : ∀ rest, next rest → rest.head?.bind (pairToken? c) = none) :
    Reads next [c] [token] := by
  refine reads_item (isMark_of_singleToken? h).1 fun offset rest hrest => ?_
  rw [List.nil_append, item_of_isMark offset (isMark_of_singleToken? h) (absurd · hdot),
    hnext rest hrest]
  dsimp only
  rw [h]
  rfl

/-- Two characters that are a token together. -/
theorem reads_pair {c d : Char} {token : Token} (h : pairToken? c d = some token) :
    Reads Anything [c, d] [token] := by
  obtain ⟨hmark, hdot⟩ := isMark_of_pairToken? h
  refine reads_item hmark.1 fun offset rest _ => ?_
  rw [List.singleton_append, item_of_isMark offset hmark (absurd · hdot), List.head?_cons,
    Option.bind_some, h]
  rfl

/-! ### Words -/

/-- The characters that a printed text has after a name or a number. -/
def delimiters : List Char := [' ', '(', ')', '[', ']', ',']

/-- What follows is nothing, or begins with a delimiter. -/
def Delimited (rest : List Char) : Prop := ∀ c ∈ rest.head?, c ∈ delimiters

/-- A word before a character that does not continue it. -/
theorem reads_word_before {c : Char} {text : List Char} (hblank : isBlank c = false)
    (hdigit : c.isDigit = false) (hstart : isIdentifierStart c = true)
    (h : ∀ c ∈ text, isIdentifierContinue c = true) :
    Reads (fun rest => ∀ d ∈ rest.head?, isIdentifierContinue d = false) (c :: text)
      [wordToken (String.ofList (c :: text))] := by
  refine reads_item hblank fun offset rest hrest => ?_
  have hmarks : ∀ d ∈ ['.', '\'', '"'], isIdentifierStart d = false :=
    forall_mem_of_all (by decide)
  have hne : ∀ d ∈ ['.', '\'', '"'], c ≠ d := by
    rintro d hd rfl
    rw [hmarks c hd] at hstart
    exact nomatch hstart
  have hnumber : startsNumber c (text ++ rest).head? = false := by
    rw [startsNumber, hdigit, beq_eq_false_iff_ne.mpr (hne '.' (by decide))]
    rfl
  have hquote : (c == '\'' || c == '"') = false := by
    rw [beq_eq_false_iff_ne.mpr (hne '\'' (by decide)),
      beq_eq_false_iff_ne.mpr (hne '"' (by decide))]
    rfl
  rw [item, hnumber, hquote, hstart, takeWhile_append_of_head? h hrest]
  rfl

/-- A word before a delimiter. -/
theorem reads_word {c : Char} {text : List Char} (hblank : isBlank c = false)
    (hdigit : c.isDigit = false) (hstart : isIdentifierStart c = true)
    (h : ∀ c ∈ text, isIdentifierContinue c = true) :
    Reads Delimited (c :: text) [wordToken (String.ofList (c :: text))] := by
  have hdelimiters : ∀ d ∈ delimiters, isIdentifierContinue d = false :=
    forall_mem_of_all (by decide)
  exact (reads_word_before hblank hdigit hstart h).mono fun rest hrest d hd =>
    hdelimiters d (hrest d hd)

/-! ### Names -/

/-- The lexer reads the text as a single name. -/
def IsName (name : String) : Prop :=
  (ofSource name).map (List.map Lexeme.token) = .ok [.identifier name]

theorem wordToken_eq_identifier {word name : String} (h : wordToken word = .identifier name) :
    name = word := by
  unfold wordToken at h
  split at h
  case h_10 =>
    cases h
    rfl
  all_goals exact nomatch h

/-- An item that is a name is the word at its place. -/
theorem name_of_item {offset : Nat} {c : Char} {rest : List Char} {l : Lexeme} {name : String}
    (h : (item offset c rest).1 = .ok l) (hname : l.token = .identifier name) :
    c.isDigit = false ∧ isIdentifierStart c = true ∧
      name = String.ofList (c :: rest.takeWhile isIdentifierContinue) ∧
      wordToken name = .identifier name := by
  unfold item at h
  split at h
  · cases h
    exact nomatch hname
  · next hnumber =>
    split at h
    · unfold quotedText at h
      split at h
      · cases h
        exact nomatch hname
      · exact nomatch h
    · split at h
      · next hstart =>
        cases h
        have hword := wordToken_eq_identifier hname
        subst hword
        refine ⟨?_, hstart, rfl, hname⟩
        simp only [startsNumber, Bool.or_eq_true, not_or, Bool.not_eq_true] at hnumber
        exact hnumber.1
      · split at h
        · next token hpair =>
          cases h
          dsimp only [made] at hname
          subst hname
          obtain ⟨d, -, hd⟩ := Option.bind_eq_some_iff.mp hpair
          unfold pairToken? at hd
          split at hd <;> exact nomatch hd
        · split at h
          · next token hsingle =>
            cases h
            dsimp only [made] at hname
            subst hname
            unfold singleToken? at hsingle
            split at hsingle <;> exact nomatch hsingle
          · exact nomatch h

theorem length_le_of_mem_itemsFrom {offset skip : Nat} {cs : List Char} {l : Lexeme} {name : String}
    (h : .ok l ∈ itemsFrom offset skip cs) (hname : l.token = .identifier name) :
    name.toList.length ≤ cs.length := by
  induction cs generalizing offset skip with
  | nil => exact nomatch h
  | cons c rest ih =>
    have later : ∀ {offset skip}, .ok l ∈ itemsFrom offset skip rest →
        name.toList.length ≤ (c :: rest).length :=
      fun h => Nat.le_succ_of_le (ih h)
    unfold itemsFrom at h
    split at h
    · exact later h
    · split at h
      · exact later h
      · rcases List.mem_cons.mp h with h | h
        · obtain ⟨-, -, rfl, -⟩ := name_of_item h.symm hname
          rw [String.toList_ofList]
          exact Nat.succ_le_succ (List.takeWhile_sublist _).length_le
        · exact later h

theorem eq_map_ok_of_mapM {items : List Item} {lexemes : List Lexeme}
    (h : items.mapM id = .ok lexemes) : items = lexemes.map Except.ok := by
  induction items generalizing lexemes with
  | nil =>
    cases h
    rfl
  | cons item items ih =>
    rw [List.mapM_cons] at h
    obtain ⟨l, hl, h⟩ := bind_eq_ok_iff.mp h
    obtain ⟨rest, hrest, h⟩ := bind_eq_ok_iff.mp h
    cases h
    rw [List.map_cons, ← ih hrest, show item = .ok l from hl]

/-- A name is a word: a character that starts names, with characters after it that continue
them. -/
theorem IsName.spec {name : String} (h : IsName name) : ∃ c text, name.toList = c :: text ∧
    isBlank c = false ∧ c.isDigit = false ∧ isIdentifierStart c = true ∧
    (∀ d ∈ text, isIdentifierContinue d = true) ∧ wordToken name = .identifier name := by
  unfold IsName at h
  cases hsource : ofSource name with
  | error fault =>
    rw [hsource] at h
    exact nomatch h
  | ok lexemes =>
    rw [hsource] at h
    obtain ⟨l, rfl, hl⟩ := List.map_eq_singleton_iff.mp (Except.ok.inj h)
    have hitems : itemsFrom 0 0 name.toList = [.ok l] := eq_map_ok_of_mapM hsource
    cases hcs : name.toList with
    | nil =>
      rw [hcs] at hitems
      exact nomatch hitems
    | cons c text =>
      have hmem : .ok l ∈ itemsFrom 0 0 (c :: text) := by
        rw [← hcs, hitems]
        exact List.mem_singleton_self _
      rw [hcs] at hitems
      unfold itemsFrom at hitems
      dsimp only at hitems
      split at hitems
      · have hlength := length_le_of_mem_itemsFrom (hitems ▸ List.mem_singleton_self _) hl
        rw [hcs] at hlength
        exact absurd hlength (Nat.not_succ_le_self _)
      · next hblank =>
        obtain ⟨hdigit, hstart, hword, htoken⟩ := name_of_item (List.cons.inj hitems).1 hl
        have htext : text = text.takeWhile isIdentifierContinue := by
          rw [hword, String.toList_ofList] at hcs
          exact (List.cons.inj hcs).2.symm
        refine ⟨c, text, rfl, by simpa using hblank, hdigit, hstart, ?_, htoken⟩
        rw [htext]
        exact List.all_eq_true.mp List.all_takeWhile

theorem IsName.reads {name : String} (h : IsName name) :
    Reads Delimited name.toList [.identifier name] := by
  obtain ⟨c, text, hname, hblank, hdigit, hstart, hrest, htoken⟩ := h.spec
  have hword := reads_word hblank hdigit hstart hrest
  rw [← hname, String.ofList_toList, htoken] at hword
  exact hword

/-! ### Quoted texts -/

theorem reads_quoted {body : List Char}
    (h : ∀ rest, Quoted.body? '\'' (body ++ '\'' :: rest) = some body) :
    Reads Anything ('\'' :: (body ++ ['\'']))
      [.literal .string (String.ofList ('\'' :: (body ++ ['\''])))] := by
  refine reads_item (by decide) fun offset rest _ => ?_
  have hnumber : ∀ next, startsNumber '\'' next = false := fun _ => rfl
  have hquote : ('\'' == '\'' || '\'' == '"') = true := rfl
  rw [item, hnumber, if_neg Bool.false_ne_true, if_pos hquote, quotedText, List.append_assoc,
    List.singleton_append, h]
  rfl

/-! ### Numbers -/

/-- A text of digits, one at least. -/
def Digits (cs : List Char) : Prop := cs ≠ [] ∧ ∀ c ∈ cs, c.isDigit = true

/-- A text made of digits, a point with digits if there is a fraction, and the letter `e` with an
optional sign and digits if there is an exponent. -/
structure IsNumber (whole fraction exponent : List Char) : Prop where
  /-- The digits in front. -/
  whole : Digits whole
  /-- The fraction, if there is one. -/
  fraction : fraction = [] ∨ ∃ digits, fraction = '.' :: digits ∧ Digits digits
  /-- The exponent, if there is one. -/
  exponent : exponent = [] ∨ ∃ sign digits, exponent = 'e' :: (sign ++ digits) ∧
    (sign = [] ∨ sign = ['-'] ∨ sign = ['+']) ∧ Digits digits

theorem digits_zero : Digits ['0'] := ⟨nofun, forall_mem_of_all (by decide)⟩

theorem Digits.takeWhile_append {digits rest : List Char} (h : Digits digits)
    (hrest : ∀ c ∈ rest.head?, isDecimalDigit c = false) :
    (digits ++ rest).takeWhile isDecimalDigit = digits :=
  takeWhile_append_of_head? (fun c hc => isDecimalDigit_of_isDigit (h.2 c hc)) hrest

/-- No delimiter goes on with a number. -/
theorem Delimited.not_number {rest : List Char} (h : Delimited rest) : ∀ c ∈ rest.head?,
    isDecimalDigit c = false ∧ c ≠ '.' ∧ (c == 'e' || c == 'E') = false := by
  have hdelimiters : ∀ c ∈ delimiters,
      isDecimalDigit c = false ∧ c ≠ '.' ∧ (c == 'e' || c == 'E') = false :=
    forall_mem_of_all (by decide)
  exact fun c hc => hdelimiters c (h c hc)

theorem exponentPart_of_delimited {rest : List Char} (h : Delimited rest) :
    exponentPart rest = [] := by
  cases rest with
  | nil => rfl
  | cons c rest => rw [exponentPart, (h.not_number c rfl).2.2, if_neg Bool.false_ne_true]

theorem exponentPart_append {sign digits rest : List Char}
    (hsign : sign = [] ∨ sign = ['-'] ∨ sign = ['+']) (hdigits : Digits digits)
    (hrest : Delimited rest) :
    exponentPart ('e' :: (sign ++ digits ++ rest)) = 'e' :: (sign ++ digits) := by
  have htake : (digits ++ rest).takeWhile isDecimalDigit = digits :=
    hdigits.takeWhile_append fun c hc => (hrest.not_number c hc).1
  have hempty : digits.isEmpty = false := List.isEmpty_eq_false_iff.mpr hdigits.1
  obtain ⟨d, ds, hd⟩ := List.exists_cons_of_ne_nil hdigits.1
  have hnosign : (d == '-' || d == '+') = false := by
    have hdigit := hdigits.2 d (hd ▸ List.mem_cons_self ..)
    have hminus : d ≠ '-' := by rintro rfl; exact absurd hdigit (by decide)
    have hplus : d ≠ '+' := by rintro rfl; exact absurd hdigit (by decide)
    rw [beq_eq_false_iff_ne.mpr hminus, beq_eq_false_iff_ne.mpr hplus]
    rfl
  have hfilter :
      (((sign ++ digits ++ rest).take 1).filter fun s => s == '-' || s == '+') = sign := by
    rcases hsign with rfl | rfl | rfl
    · rw [hd]
      simp [hnosign]
    · rfl
    · rfl
  have hletter : ('e' == 'e' || 'e' == 'E') = true := rfl
  rw [exponentPart, if_pos hletter, hfilter]
  dsimp only
  rw [List.append_assoc, List.drop_left, htake, hempty, if_neg Bool.false_ne_true]

section

variable {whole fraction exponent rest : List Char}

/-- After the whole part and the fraction comes no digit and no point. -/
theorem IsNumber.head?_exponent (h : IsNumber whole fraction exponent) (hrest : Delimited rest) :
    ∀ c ∈ (exponent ++ rest).head?, isDecimalDigit c = false ∧ c ≠ '.' := by
  rcases h.exponent with rfl | ⟨sign, digits, rfl, -, -⟩
  · intro c hc
    obtain ⟨hdigit, hdot, -⟩ := hrest.not_number c hc
    exact ⟨hdigit, hdot⟩
  · rintro _ ⟨⟩
    decide

theorem IsNumber.exponentPart (h : IsNumber whole fraction exponent) (hrest : Delimited rest) :
    exponentPart (exponent ++ rest) = exponent := by
  rcases h.exponent with rfl | ⟨sign, digits, rfl, hsign, hdigits⟩
  · exact exponentPart_of_delimited hrest
  · rw [List.cons_append, exponentPart_append hsign hdigits hrest]

theorem IsNumber.fractionPart (h : IsNumber whole fraction exponent) (hrest : Delimited rest) :
    fractionPart (fraction ++ (exponent ++ rest)) = fraction := by
  have hhead := h.head?_exponent hrest
  rcases h.fraction with rfl | ⟨digits, rfl, hdigits⟩
  · rw [List.nil_append]
    unfold Lexeme.fractionPart
    split
    · next heq =>
      rw [heq] at hhead
      exact absurd rfl (hhead '.' rfl).2
    · rfl
  · rw [List.cons_append, Lexeme.fractionPart, hdigits.takeWhile_append fun c hc => (hhead c hc).1,
      List.isEmpty_eq_false_iff.mpr hdigits.1, if_neg Bool.false_ne_true]

/-- A number is taken whole before a delimiter. -/
theorem IsNumber.numberText (h : IsNumber whole fraction exponent) (hrest : Delimited rest) :
    numberText (whole ++ (fraction ++ exponent) ++ rest) = whole ++ (fraction ++ exponent) := by
  have hwhole : (whole ++ (fraction ++ (exponent ++ rest))).takeWhile isDecimalDigit = whole := by
    refine h.whole.takeWhile_append ?_
    rcases h.fraction with rfl | ⟨digits, rfl, -⟩
    · exact fun c hc => (h.head?_exponent hrest c hc).1
    · rintro _ ⟨⟩
      decide
  rw [List.append_assoc, List.append_assoc, Lexeme.numberText, hwhole, List.drop_left,
    h.fractionPart hrest, ← List.drop_drop, List.drop_left, List.drop_left, h.exponentPart hrest,
    List.append_assoc]

theorem utf8Size_of_isDigit {c : Char} (h : c.isDigit = true) : c.utf8Size = 1 := by
  rw [Char.isDigit_iff_toNat] at h
  rw [Char.utf8Size_eq_one_iff, UInt32.le_iff_toNat_le]
  exact Nat.le_trans h.2 (by decide)

theorem isBlank_of_isDigit {c : Char} (h : c.isDigit = true) : isBlank c = false := by
  rw [Char.isDigit_iff_toNat, show '0'.toNat = 48 from rfl, show '9'.toNat = 57 from rfl] at h
  simp [isBlank, inRanges, blankRanges]
  omega

theorem byteLength_of_ascii {cs : List Char} (h : ∀ c ∈ cs, c.utf8Size = 1) :
    byteLength cs = cs.length := by
  induction cs with
  | nil => rfl
  | cons c cs ih =>
    rw [byteLength_cons, h c (List.mem_cons_self ..),
      ih fun d hd => h d (List.mem_cons_of_mem _ hd), List.length_cons, Nat.add_comm]

theorem IsNumber.ascii (h : IsNumber whole fraction exponent) :
    ∀ c ∈ whole ++ (fraction ++ exponent), c.utf8Size = 1 := by
  have hdigits : ∀ {digits}, Digits digits → ∀ c ∈ digits, c.utf8Size = 1 :=
    fun h c hc => utf8Size_of_isDigit (h.2 c hc)
  intro c hc
  simp only [List.mem_append] at hc
  rcases hc with hc | hc | hc
  · exact hdigits h.whole c hc
  · rcases h.fraction with rfl | ⟨digits, rfl, hfraction⟩
    · exact nomatch hc
    · rcases List.mem_cons.mp hc with rfl | hc
      · rfl
      · exact hdigits hfraction c hc
  · rcases h.exponent with rfl | ⟨sign, digits, rfl, hsign, hexponent⟩
    · exact nomatch hc
    · rcases List.mem_cons.mp hc with rfl | hc
      · rfl
      · rcases List.mem_append.mp hc with hc | hc
        · rcases hsign with rfl | rfl | rfl
          · exact nomatch hc
          · rw [List.mem_singleton.mp hc]
            rfl
          · rw [List.mem_singleton.mp hc]
            rfl
        · exact hdigits hexponent c hc

/-- A number before a delimiter. -/
theorem IsNumber.reads (h : IsNumber whole fraction exponent) :
    Reads Delimited (whole ++ (fraction ++ exponent))
      [.literal (if isReal (whole ++ (fraction ++ exponent)) then .real else .integer)
        (String.ofList (whole ++ (fraction ++ exponent)))] := by
  obtain ⟨d, ds, rfl⟩ := List.exists_cons_of_ne_nil h.whole.1
  have hdigit : d.isDigit = true := h.whole.2 d (List.mem_cons_self ..)
  refine reads_item (isBlank_of_isDigit hdigit) fun offset rest hrest => ?_
  have hnumber : ∀ next, startsNumber d next = true := fun next => by
    rw [startsNumber, hdigit, Bool.true_or]
  have htext : Lexeme.numberText (d :: (ds.append (fraction ++ exponent) ++ rest)) =
      d :: ds ++ (fraction ++ exponent) := h.numberText hrest
  rw [item, hnumber, if_pos rfl, number, htext]
  refine congrArg (Prod.mk _) ?_
  rw [byteLength_of_ascii h.ascii]
  rfl

end

end Formulary.Lexeme
