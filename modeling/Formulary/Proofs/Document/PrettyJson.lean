import Formulary.Document.Json.Reader
import Formulary.Document.Json.Writer
import Formulary.Text.Search

/-!
# Documents that are laid out in JSON

A document is written over several lines, and the text is read. It comes back as it was, members in
their order, if it has no numbers and is not nested more deeply than the reader allows.

## Scope

Numbers are left out: doubles are read in an arithmetic of their own, which may miss the last place
of a number. What schemas are written as has none.

## Implementation notes

The reader is a machine that takes tokens, and the text is cut into tokens first. Here both are
followed at once: `Json.resume` is what becomes of a state of the machine on the rest of a text, and
the text of a value takes any state that awaits one to the state behind it. What is open around the
value is a parameter, and so is the text after it, which must not continue a literal.

## Main definitions

* `Document.Numberless` — documents without numbers
* `Json.resume` — the machine on the rest of a text
* `Json.State.Awaits`, `Json.State.AwaitsKey` — states before a value, and before a member

## Main results

* `Json.scan?_quoted` — a text between quotes is read as the text
* `Json.resume_prettyAt` — the text of a value is read as the value, wherever it stands
* `Json.read?_pretty` — documents without numbers come back
-/

namespace Formulary

namespace Document

mutual

/-- The document has no numbers. -/
def Numberless : Document → Prop
  | .number _ => False
  | .array items => NumberlessAll items
  | .object members => NumberlessMembers members
  | _ => True

/-- The items have no numbers. -/
def NumberlessAll : List Document → Prop
  | [] => True
  | d :: rest => Numberless d ∧ NumberlessAll rest

/-- The members have no numbers. -/
def NumberlessMembers : List (String × Document) → Prop
  | [] => True
  | (_, d) :: rest => Numberless d ∧ NumberlessMembers rest

end

end Document

namespace Json

open Text

/-! ### Quoted texts -/

/-- How a character is written inside quotes: as itself, with a letter, or with its number. -/
theorem escape_cases (c : Char) :
    (escape c = [c] ∧ c ≠ '"' ∧ c ≠ '\\' ∧ 0x20 ≤ c.toNat) ∨
      (∃ letter, escape c = ['\\', letter] ∧ letter ≠ 'u' ∧ 0x20 ≤ letter.toNat ∧
        Quoted.escapedChar? letter = some c) ∨
      c.toNat < 0x20 ∧ escape c = '\\' :: 'u' :: '0' :: '0' ::
        [Nat.digitChar (c.toNat / 16), Nat.digitChar (c.toNat % 16)] := by
  unfold escape
  split
  iterate 7 exact .inr (.inl ⟨_, rfl, by decide, by decide, rfl⟩)
  split
  · next h => exact .inr (.inr ⟨h, rfl⟩)
  · next hquote hslash _ _ _ _ _ h => exact .inl ⟨rfl, hquote, hslash, Nat.not_lt.mp h⟩

theorem digitChar_plain : ∀ n < 16, Nat.digitChar n ≠ '"' ∧ Nat.digitChar n ≠ '\\' ∧
    0x20 ≤ (Nat.digitChar n).toNat := by decide

theorem hexNumber?_control : ∀ n < 0x20, Quoted.hexNumber?
    ['0', '0', Nat.digitChar (n / 16), Nat.digitChar (n % 16)] = some n := by decide

section

variable {c : Char} (rest : List Char)

theorem body?_plain (hquote : c ≠ '"') (hslash : c ≠ '\\') :
    Quoted.body? '"' (c :: rest) = (Quoted.body? '"' rest).map (c :: ·) := by
  rw [Quoted.body?.eq_def]
  dsimp only
  rw [if_neg hquote, if_neg hslash]

theorem body?_backslash (c : Char) :
    Quoted.body? '"' ('\\' :: c :: rest) = (Quoted.body? '"' rest).map ('\\' :: c :: ·) := by
  rw [Quoted.body?.eq_def]
  dsimp only
  rw [if_neg (by decide), if_pos rfl]

theorem body?_escape (c : Char) :
    Quoted.body? '"' (escape c ++ rest) = (Quoted.body? '"' rest).map (escape c ++ ·) := by
  rcases escape_cases c with ⟨h, hquote, hslash, -⟩ | ⟨letter, h, -⟩ | ⟨hc, h⟩
  · rw [h]
    exact body?_plain rest hquote hslash
  · rw [h]
    exact body?_backslash rest letter
  · have hhigh := digitChar_plain (c.toNat / 16) (by omega)
    have hlow := digitChar_plain (c.toNat % 16) (by omega)
    simp only [h, List.cons_append, List.nil_append]
    rw [body?_backslash, body?_plain _ (by decide) (by decide), body?_plain _ (by decide)
      (by decide), body?_plain _ hhigh.1 hhigh.2.1, body?_plain _ hlow.1 hlow.2.1]
    simp only [Option.map_map]
    rfl

theorem units?_escape (c : Char) : Quoted.units? dialect (escape c ++ rest) =
    (Quoted.units? dialect rest).map (Utf16.encode [c] ++ ·) := by
  rcases escape_cases c with ⟨h, -, hslash, -⟩ | ⟨letter, h, hu, -, hletter⟩ | ⟨hc, h⟩
  · rw [h, List.singleton_append, Quoted.units?, if_neg hslash]
    · exact Option.map_eq_bind.symm
    · exact fun _ _ _ _ _ h => absurd h hslash
    · exact fun _ _ h => absurd h hslash
  · rw [h, List.cons_append, List.singleton_append, Quoted.units?,
      show dialect.letter? letter = some c from hletter]
    · exact Option.map_eq_bind.symm
    · exact fun _ _ _ _ _ h => absurd h hu
  · have hunit : dialect.unit? ['0', '0', Nat.digitChar (c.toNat / 16),
        Nat.digitChar (c.toNat % 16)] = some c.toNat := hexNumber?_control c.toNat hc
    have hencode : Utf16.encode [c] = [c.toNat] := by
      rw [Utf16.encode, List.flatMap_singleton]
      exact if_pos (by omega)
    simp only [h, List.cons_append, List.nil_append]
    rw [Quoted.units?, hunit, hencode]
    exact Option.map_eq_bind.symm

end

theorem body?_flatMap_escape (cs rest : List Char) :
    Quoted.body? '"' (cs.flatMap escape ++ '"' :: rest) = some (cs.flatMap escape) := by
  induction cs with
  | nil =>
    rw [List.flatMap_nil, List.nil_append, Quoted.body?.eq_def]
    exact if_pos rfl
  | cons c cs ih =>
    rw [List.flatMap_cons, List.append_assoc, body?_escape, ih, Option.map_some]

theorem units?_flatMap_escape (cs : List Char) :
    Quoted.units? dialect (cs.flatMap escape) = some (Utf16.encode cs) := by
  induction cs with
  | nil => rfl
  | cons c cs ih =>
    rw [List.flatMap_cons, units?_escape, ih, Option.map_some, ← Utf16.encode_cons]

theorem ge_of_mem_escape {c x : Char} (h : x ∈ escape c) : 0x20 ≤ x.toNat := by
  rcases escape_cases c with ⟨hc, -, -, hlarge⟩ | ⟨letter, hc, -, hlarge, -⟩ | ⟨hsmall, hc⟩
  · rw [hc, List.mem_singleton] at h
    rwa [h]
  · rw [hc, List.mem_cons, List.mem_singleton] at h
    rcases h with rfl | rfl
    · decide
    · exact hlarge
  · have hhigh := digitChar_plain (c.toNat / 16) (by omega)
    have hlow := digitChar_plain (c.toNat % 16) (by omega)
    simp only [hc, List.mem_cons, List.not_mem_nil, or_false] at h
    rcases h with rfl | rfl | rfl | rfl | rfl | rfl
    iterate 4 decide
    · exact hhigh.2.2
    · exact hlow.2.2

/-- A text between quotes is read as the text. -/
theorem scan?_quoted (s : String) (rest : List Char) :
    scan? '"' (s.toList.flatMap escape ++ '"' :: rest) =
      some (.scalar (.string s), (s.toList.flatMap escape).length + 1) := by
  have hclean : ((s.toList.flatMap escape).any fun c => c.toNat < 0x20) = false := by
    refine List.any_eq_false.mpr fun c hc => ?_
    obtain ⟨d, -, hd⟩ := List.mem_flatMap.mp hc
    simpa using ge_of_mem_escape hd
  have htext : readText? (s.toList.flatMap escape) = some s := by
    rw [readText?, hclean, if_neg Bool.false_ne_true, Quoted.decode?, units?_flatMap_escape,
      Option.bind_some, Utf16.decode?_encode, Option.map_some, String.ofList_toList]
  rw [scan?, body?_flatMap_escape, Option.bind_eq_bind, Option.bind_some, htext]
  rfl

/-! ### Literals -/

/-- A literal is not continued. -/
def Delimited (rest : List Char) : Prop := ∀ c ∈ rest.head?, c.isAlpha = false

theorem delimited_nil : Delimited [] := fun _ h => nomatch h

theorem delimited_cons {c : Char} (h : c.isAlpha = false) (rest : List Char) :
    Delimited (c :: rest) := by
  rintro _ ⟨⟩
  exact h

theorem toList_newline (level : Nat) :
    (newline level).toList = '\n' :: List.replicate (2 * level) ' ' := by
  rw [newline, String.toList_append, String.toList_ofList (l := List.replicate (2 * level) ' ')]
  rfl

theorem delimited_newline (level : Nat) (rest : List Char) :
    Delimited ((newline level).toList ++ rest) := by
  rw [toList_newline]
  exact delimited_cons rfl _

theorem scan?_word {c : Char} (hc : c ∈ ['n', 't', 'f']) {word rest : List Char}
    (hword : word.all Char.isAlpha = true) (hrest : Delimited rest) :
    scan? c (word ++ rest) = scan? c word := by
  have halpha := List.all_eq_true.mp hword
  have htake := Text.takeWhile_append_of_head? halpha hrest
  have hall := Text.takeWhile_append_of_head? halpha delimited_nil
  rw [List.append_nil] at hall
  simp only [List.mem_cons, List.not_mem_nil, or_false] at hc
  rcases hc with rfl | rfl | rfl
  · simp [scan?, show isNumeric 'n' = false from rfl, htake, hall]
  · simp [scan?, show isNumeric 't' = false from rfl, htake, hall]
  · simp [scan?, show isNumeric 'f' = false from rfl, htake, hall]

/-! ### The rest of a text -/

/-- The machine on the rest of a text. -/
def resume (state : State) (cs : List Char) : Option State :=
  (tokens? cs).bind (List.foldlM step state)

variable {state : State} {stack : List Frame} {rest : List Char}

theorem read?_eq (cs : List Char) : read? cs = (resume (.value []) cs).bind State.finish? := by
  rw [resume, Option.bind_assoc]
  rfl

theorem resume_blank {c : Char} (h : isBlank c = true) (state : State) (rest : List Char) :
    resume state (c :: rest) = resume state rest := by
  rw [resume, tokens?_blank h, resume]

theorem resume_scan {c : Char} {more : List Char} {t : Token} (hblank : isBlank c = false)
    (h : scan? c (more ++ rest) = some (t, more.length)) :
    resume state (c :: (more ++ rest)) = (step state t).bind (resume · rest) := by
  rw [resume, tokens?_scan hblank h]
  unfold resume
  cases tokens? rest with
  | none => cases step state t <;> rfl
  | some ts => exact List.foldlM_cons ..

theorem resume_blanks (state : State) (n : Nat) (rest : List Char) :
    resume state (List.replicate n ' ' ++ rest) = resume state rest := by
  induction n with
  | zero => rfl
  | succ n ih => rw [List.replicate_succ, List.cons_append, resume_blank rfl, ih]

theorem resume_newline (state : State) (level : Nat) (rest : List Char) :
    resume state ((newline level).toList ++ rest) = resume state rest := by
  rw [toList_newline, List.cons_append, resume_blank rfl, resume_blanks]

/-- A value may begin here. -/
def State.Awaits (state : State) (stack : List Frame) : Prop :=
  ∀ t, t ≠ .closeArray → step state t = startValue stack t

theorem awaits_value (stack : List Frame) : (State.value stack).Awaits stack := fun _ _ => rfl

theorem awaits_firstItem (stack : List Frame) :
    (State.firstItem stack).Awaits (.array [] :: stack) := by
  intro t ht
  cases t <;> first | rfl | exact absurd rfl ht

theorem resume_scalar {d : Document} {c : Char} {more : List Char} (hstate : state.Awaits stack)
    (hblank : isBlank c = false) (h : scan? c (more ++ rest) = some (.scalar d, more.length)) :
    resume state (c :: (more ++ rest)) = resume (.separator d stack) rest := by
  rw [resume_scan hblank h, hstate _ Token.noConfusion]
  rfl

/-- The literals that are words. -/
theorem resume_word {d : Document} {c : Char} {word : List Char} (hstate : state.Awaits stack)
    (hc : c ∈ ['n', 't', 'f']) (hword : word.all Char.isAlpha = true)
    (h : scan? c word = some (.scalar d, word.length)) (hrest : Delimited rest) :
    resume state (c :: (word ++ rest)) = resume (.separator d stack) rest := by
  have hblank : isBlank c = false := by
    simp only [List.mem_cons, List.not_mem_nil, or_false] at hc
    rcases hc with rfl | rfl | rfl <;> rfl
  exact resume_scalar hstate hblank ((scan?_word hc hword hrest).trans h)

theorem State.Awaits.openArray (hstate : state.Awaits stack) (h : stack.length + 1 < maxNesting) :
    step state .openArray = some (.firstItem stack) := by
  rw [hstate _ Token.noConfusion]
  exact if_pos h

theorem State.Awaits.openObject (hstate : state.Awaits stack) (h : stack.length + 1 < maxNesting) :
    step state .openObject = some (.firstKey stack) := by
  rw [hstate _ Token.noConfusion]
  exact if_pos h

/-- The name of a member may begin here. -/
def State.AwaitsKey (state : State) (done : List (String × Document)) (stack : List Frame) : Prop :=
  ∀ key, step state (.scalar (.string key)) = some (.colon done key stack)

theorem awaitsKey_firstKey (stack : List Frame) : (State.firstKey stack).AwaitsKey [] stack :=
  fun _ => rfl

theorem resume_mark {c : Char} {t : Token} (h : ∀ rest, scan? c rest = some (t, 0))
    (hblank : isBlank c = false) {state' : State} (hstep : step state t = some state') :
    resume state (c :: rest) = resume state' rest := by
  have hscan : resume state (c :: ([] ++ rest)) = _ := resume_scan hblank (h rest)
  rw [List.nil_append, hstep] at hscan
  exact hscan

theorem resume_quoted (s : String) {state' : State}
    (hstep : step state (.scalar (.string s)) = some state') (rest : List Char) :
    resume state ((quoted s).toList ++ rest) = resume state' rest := by
  have hscan : scan? '"' ((s.toList.flatMap escape ++ ['"']) ++ rest) =
      some (.scalar (.string s), (s.toList.flatMap escape ++ ['"']).length) := by
    rw [List.append_assoc, List.length_append]
    exact scan?_quoted s rest
  have hquoted : (quoted s).toList ++ rest =
      '"' :: ((s.toList.flatMap escape ++ ['"']) ++ rest) := by
    simp [quoted]
  rw [hquoted, resume_scan rfl hscan, hstep]
  rfl

theorem resume_member {done : List (String × Document)} {key text : String} {state' : State}
    (hstate : state.AwaitsKey done stack)
    (hvalue : resume (.value (.object done key :: stack)) (text.toList ++ rest) =
      resume state' rest) :
    resume state ((quoted key ++ ": " ++ text).toList ++ rest) = resume state' rest := by
  rw [String.toList_append, String.toList_append, List.append_assoc, List.append_assoc,
    resume_quoted key (hstate key)]
  refine (resume_mark (c := ':') (fun _ => rfl) rfl rfl).trans ?_
  exact (resume_blank (c := ' ') rfl _ _).trans hvalue

open Document (NumberlessAll NumberlessMembers itemDepth memberDepth)

/-! ### Lines -/

theorem toList_separator (level : Nat) :
    ("," ++ newline level).toList = ',' :: (newline level).toList := by
  rw [String.toList_append]
  rfl

theorem toList_intercalate_cons (level : Nat) (part : String) {parts : List String}
    (h : parts ≠ []) (rest : List Char) :
    (("," ++ newline level).intercalate (part :: parts)).toList ++ rest =
      part.toList ++ (',' :: ((newline level).toList ++
        ((("," ++ newline level).intercalate parts).toList ++ rest))) := by
  match parts with
  | next :: more =>
    rw [String.intercalate_cons_cons, String.toList_append, String.toList_append,
      toList_separator, List.append_assoc, List.append_assoc, List.cons_append]

theorem toList_laidOut_nil (level : Nat) (left right : String) :
    (laidOut level left right []).toList = left.toList ++ right.toList :=
  String.toList_append

theorem toList_laidOut (level : Nat) (left right : String) {parts : List String}
    (h : parts ≠ []) (rest : List Char) : (laidOut level left right parts).toList ++ rest =
      left.toList ++ ((newline (level + 1)).toList ++
        ((("," ++ newline (level + 1)).intercalate parts).toList ++
          ((newline level).toList ++ (right.toList ++ rest)))) := by
  rw [laidOut, if_neg (by simpa using h)]
  simp only [String.toList_append, List.append_assoc]

/-! ### Values -/

mutual

/-- The text of a value takes a state that awaits one to the state behind it. -/
theorem resume_prettyAt (level : Nat) {d : Document} (hd : d.Numberless) {state : State}
    {stack : List Frame} (hstate : state.Awaits stack)
    (hdepth : stack.length + d.depth < maxNesting) {rest : List Char} (hrest : Delimited rest) :
    resume state ((prettyAt level d).toList ++ rest) = resume (.separator d stack) rest := by
  match d with
  | .null =>
    simp only [prettyAt, compact]
    exact resume_word (c := 'n') hstate (by decide) rfl rfl hrest
  | .boolean true =>
    simp only [prettyAt, compact]
    exact resume_word (c := 't') hstate (by decide) rfl rfl hrest
  | .boolean false =>
    simp only [prettyAt, compact]
    exact resume_word (c := 'f') hstate (by decide) rfl rfl hrest
  | .string s =>
    simp only [prettyAt, compact]
    exact resume_quoted s (hstate _ Token.noConfusion) rest
  | .array [] =>
    have htext : (prettyAt level (.array [])).toList ++ rest = '[' :: ']' :: rest := by
      rw [prettyAt, prettyItems, toList_laidOut_nil]
      rfl
    rw [htext, resume_mark (fun _ => rfl) rfl (hstate.openArray hdepth),
      resume_mark (fun _ => rfl) rfl rfl]
  | .array (x :: xs) =>
    rw [Document.depth] at hdepth
    have hitems := resume_prettyItems (level + 1) level (List.cons_ne_nil x xs) hd
      (awaits_firstItem stack) (by omega) rest
    rw [prettyAt, toList_laidOut level "[" "]" (by simp [prettyItems])]
    refine (resume_mark (c := '[') (fun _ => rfl) rfl (hstate.openArray (by omega))).trans ?_
    exact (resume_newline _ _ _).trans hitems
  | .object [] =>
    have htext : (prettyAt level (.object [])).toList ++ rest = '\x7b' :: '\x7d' :: rest := by
      rw [prettyAt, prettyMembers, toList_laidOut_nil]
      rfl
    rw [htext, resume_mark (fun _ => rfl) rfl (hstate.openObject hdepth),
      resume_mark (fun _ => rfl) rfl rfl]
  | .object ((key, x) :: xs) =>
    rw [Document.depth] at hdepth
    have hmembers := resume_prettyMembers (level + 1) level (List.cons_ne_nil (key, x) xs) hd
      (awaitsKey_firstKey stack) (by omega) rest
    rw [prettyAt, toList_laidOut level "\x7b" "\x7d" (by simp [prettyMembers])]
    refine (resume_mark (c := '\x7b') (fun _ => rfl) rfl (hstate.openObject (by omega))).trans ?_
    exact (resume_newline _ _ _).trans hmembers
termination_by sizeOf d

/-- The items are added to those that are read, and the array is closed. -/
theorem resume_prettyItems (level outer : Nat) {items : List Document} (hne : items ≠ [])
    (hd : NumberlessAll items) {state : State} {done : List Document} {stack : List Frame}
    (hstate : state.Awaits (.array done :: stack))
    (hdepth : stack.length + 1 + itemDepth items < maxNesting) (rest : List Char) :
    resume state ((("," ++ newline level).intercalate (prettyItems level items)).toList ++
        ((newline outer).toList ++ ']' :: rest)) =
      resume (.separator (.array (done.reverse ++ items)) stack) rest := by
  match items with
  | [] => exact absurd rfl hne
  | [x] =>
    rw [itemDepth, itemDepth] at hdepth
    rw [prettyItems, prettyItems, String.intercalate_singleton,
      resume_prettyAt level hd.1 hstate (by simpa using hdepth) (delimited_newline outer _),
      resume_newline, resume_mark (fun _ => rfl) rfl rfl, List.reverse_cons]
  | x :: y :: ys =>
    rw [itemDepth] at hdepth
    have hx : (Frame.array done :: stack).length + x.depth < maxNesting := by
      rw [List.length_cons]
      omega
    have hmore := resume_prettyItems level outer (List.cons_ne_nil y ys) hd.2
      (awaits_value (.array (x :: done) :: stack)) (by omega) rest
    rw [prettyItems, toList_intercalate_cons level _ (by simp [prettyItems]),
      resume_prettyAt level hd.1 hstate hx (delimited_cons rfl _),
      resume_mark (fun _ => rfl) rfl rfl, resume_newline, hmore]
    simp
termination_by sizeOf items

/-- The members are added to those that are read, and the object is closed. -/
theorem resume_prettyMembers (level outer : Nat) {members : List (String × Document)}
    (hne : members ≠ []) (hd : NumberlessMembers members) {state : State}
    {done : List (String × Document)} {stack : List Frame} (hstate : state.AwaitsKey done stack)
    (hdepth : stack.length + 1 + memberDepth members < maxNesting) (rest : List Char) :
    resume state ((("," ++ newline level).intercalate (prettyMembers level members)).toList ++
        ((newline outer).toList ++ '\x7d' :: rest)) =
      resume (.separator (.object (done.reverse ++ members)) stack) rest := by
  match members with
  | [] => exact absurd rfl hne
  | [(key, x)] =>
    rw [memberDepth, memberDepth] at hdepth
    rw [prettyMembers, prettyMembers, String.intercalate_singleton,
      resume_member hstate (resume_prettyAt level hd.1 (awaits_value _) (by simpa using hdepth)
        (delimited_newline outer _)),
      resume_newline, resume_mark (fun _ => rfl) rfl rfl, List.reverse_cons]
  | (key, x) :: (key', y) :: ys =>
    rw [memberDepth] at hdepth
    have hx : (Frame.object done key :: stack).length + x.depth < maxNesting := by
      rw [List.length_cons]
      omega
    have hkey : (State.key ((key, x) :: done) stack).AwaitsKey ((key, x) :: done) stack :=
      fun _ => rfl
    have hmore := resume_prettyMembers level outer (List.cons_ne_nil (key', y) ys) hd.2 hkey
      (by omega) rest
    rw [prettyMembers, toList_intercalate_cons level _ (by simp [prettyMembers]),
      resume_member hstate (resume_prettyAt level hd.1 (awaits_value _) hx (delimited_cons rfl _)),
      resume_mark (fun _ => rfl) rfl rfl, resume_newline, hmore]
    simp
termination_by sizeOf members

end

/-- **Documents without numbers come back** from the text that people read, unless they are nested
too deeply to be read at all. -/
theorem read?_pretty {d : Document} (hd : d.Numberless) (hdepth : d.depth < maxNesting) :
    read? (pretty d).toList = some d := by
  have hresume := resume_prettyAt 0 hd (awaits_value []) (by simpa using hdepth) delimited_nil
  rw [List.append_nil] at hresume
  rw [read?_eq, pretty, hresume]
  rfl

end Json

end Formulary
