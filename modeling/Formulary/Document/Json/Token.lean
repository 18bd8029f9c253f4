import Formulary.Document.Basic
import Formulary.Text.Quoted

/-!
# JSON tokens

A JSON text is a sequence of tokens with blanks between them. Numbers are strict: no leading zeros,
no point without digits around it. Whole numbers stay whole as long as they fit; the others are
scaled in double arithmetic from a sixty-four bit significand, so that the last place of a very
long number may be off by one.

## Main definitions

* `Json.Token` — brackets, separators and scalars
* `Json.readNumber?` — the number written by a text
* `Json.tokens?` — the tokens of a text

## Main results

* `Json.tokens?_blank`, `Json.tokens?_scan` — the tokens of a text, from its first character on
-/

namespace Formulary.Json

open Number

/-- A token of a JSON text. -/
inductive Token
  | openArray
  | closeArray
  | openObject
  | closeObject
  | colon
  | comma
  /-- A literal, a number or a text. -/
  | scalar (d : Document)

/-! ### Numbers -/

/-- The value of the leading digits that fit sixty-four bits, after the digits of `n`, and how many
digits are left. -/
def accumulate (n : Nat) : List Char → Nat × Nat
  | [] => (n, 0)
  | c :: rest =>
    let m := 10 * n + digitValue c
    if m < 2 ^ 64 then accumulate m rest else (n, rest.length + 1)

/-- The largest power of ten that a double is multiplied or divided by in one step. -/
def maxPower : Int := 308

/-- A double times a power of ten, in steps; nothing when it grows too large. -/
def scale? (x : Float) (exponent : Int) : Option Float :=
  if exponent < -maxPower then
    if x == 0.0 then some x else scale? (x / Double.ofScientific 1 maxPower) (exponent + maxPower)
  else if exponent < 0 then some (x / Double.ofScientific 1 (-exponent))
  else if maxPower < exponent then if x == 0.0 then some x else none
  else
    let y := x * Double.ofScientific 1 exponent
    if Double.isFinite y then some y else none
termination_by (-exponent).toNat
decreasing_by simp only [maxPower] at *; omega

/-- The digits before the point, those after it if there is one, and the exponent if there is
one. -/
def splitNumber? (cs : List Char) : Option (List Char × Option (List Char) × Option Int) := do
  let whole := cs.takeWhile Char.isDigit
  let (fraction, rest) := match cs.dropWhile Char.isDigit with
    | '.' :: rest => (some (rest.takeWhile Char.isDigit), rest.dropWhile Char.isDigit)
    | rest => (none, rest)
  let exponent ← match rest with
    | [] => some none
    | c :: rest => if c == 'e' || c == 'E' then (readInteger? rest).map some else none
  return (whole, fraction, exponent)

/-- The number written by digits with an optional fraction and an optional exponent. -/
def readMagnitude? (negative : Bool) (cs : List Char) : Option Numeral := do
  let (whole, fraction, exponent) ← splitNumber? cs
  if whole.isEmpty || (whole.head? == some '0' && whole.length != 1) then none
  else if fraction == some [] then none
  else
    let n := signed negative (valueOf whole)
    if fraction.isNone && exponent.isNone && Numeral.isWhole n && !(negative && n == 0) then
      return .whole n
    else
      let (m, dropped) := accumulate 0 whole
      let (m, ignored) := accumulate m (fraction.getD [])
      let places := (fraction.getD []).length - ignored
      let x ← scale? (Double.ofInt m) (dropped - places + exponent.getD 0)
      return .real (Double.withSign negative x)

/-- The number written by a text. -/
def readNumber? : List Char → Option Numeral
  | '-' :: rest => readMagnitude? true rest
  | cs => readMagnitude? false cs

/-! ### Texts -/

/-- The unit of four hexadecimal digits. -/
def dialect : Text.Quoted.Dialect := ⟨Text.Quoted.escapedChar?, Text.Quoted.hexNumber?⟩

/-- The text of a quoted body, which holds no control characters. -/
def readText? (body : List Char) : Option String :=
  if body.any fun c => c.toNat < 0x20 then none
  else (Text.Quoted.decode? dialect body).map String.ofList

/-! ### Tokens -/

/-- Whether a character may be part of a number. -/
def isNumeric (c : Char) : Bool := c.isDigit || "+-.eE".toList.contains c

/-- A blank between tokens. -/
def isBlank (c : Char) : Bool := c == ' ' || c == '\n' || c == '\r' || c == '\t'

/-- The token that starts with a character, and how many more characters it takes. -/
def scan? (c : Char) (rest : List Char) : Option (Token × Nat) :=
  match c with
  | '[' => some (.openArray, 0)
  | ']' => some (.closeArray, 0)
  | '\x7b' => some (.openObject, 0)
  | '\x7d' => some (.closeObject, 0)
  | ':' => some (.colon, 0)
  | ',' => some (.comma, 0)
  | '"' => do
    let body ← Text.Quoted.body? '"' rest
    let text ← readText? body
    return (.scalar (.string text), body.length + 1)
  | _ =>
    if isNumeric c then do
      let more := rest.takeWhile isNumeric
      let n ← readNumber? (c :: more)
      return (.scalar (.number n), more.length)
    else
      let word := rest.takeWhile Char.isAlpha
      match String.ofList (c :: word) with
      | "null" => some (.scalar .null, word.length)
      | "true" => some (.scalar (.boolean true), word.length)
      | "false" => some (.scalar (.boolean false), word.length)
      | _ => none

/-- The tokens of a text, `skip` characters of which belong to the token before. -/
private def tokensFrom? (skip : Nat) (done : Array Token) : List Char → Option (List Token)
  | [] => some done.toList
  | c :: rest =>
    if 0 < skip then tokensFrom? (skip - 1) done rest
    else if isBlank c then tokensFrom? 0 done rest
    else
      match scan? c rest with
      | some (token, n) => tokensFrom? n (done.push token) rest
      | none => none

/-- The tokens of a text. -/
def tokens? (cs : List Char) : Option (List Token) := tokensFrom? 0 #[] cs

private theorem tokensFrom?_skip (done : Array Token) (taken rest : List Char) :
    tokensFrom? taken.length done (taken ++ rest) = tokensFrom? 0 done rest := by
  induction taken with
  | nil => rfl
  | cons c taken ih =>
    rw [List.length_cons, List.cons_append, tokensFrom?, if_pos (Nat.succ_pos _),
      Nat.add_sub_cancel, ih]

private theorem tokensFrom?_done (skip : Nat) (done : Array Token) (cs : List Char) :
    tokensFrom? skip done cs = (tokensFrom? skip #[] cs).map (done.toList ++ ·) := by
  induction cs generalizing skip done with
  | nil => simp [tokensFrom?]
  | cons c rest ih =>
    rw [tokensFrom?, tokensFrom?]
    split
    · exact ih _ _
    · split
      · exact ih _ _
      · split
        · next token n _ =>
          rw [ih n (done.push token), ih n (#[].push token), Option.map_map]
          congr 1
          funext ts
          simp
        · rfl

@[simp] theorem tokens?_nil : tokens? [] = some [] := rfl

/-- A blank is passed over. -/
theorem tokens?_blank {c : Char} (h : isBlank c = true) (rest : List Char) :
    tokens? (c :: rest) = tokens? rest := by
  rw [tokens?, tokensFrom?, if_neg (Nat.lt_irrefl 0), if_pos h, tokens?]

/-- A token is taken off. -/
theorem tokens?_scan {c : Char} {more rest : List Char} {t : Token} (hblank : isBlank c = false)
    (h : scan? c (more ++ rest) = some (t, more.length)) :
    tokens? (c :: (more ++ rest)) = (tokens? rest).map (t :: ·) := by
  rw [tokens?, tokensFrom?, if_neg (Nat.lt_irrefl 0), hblank, if_neg Bool.false_ne_true, h]
  dsimp only
  rw [tokensFrom?_skip, tokensFrom?_done, tokens?]
  rfl

section

variable {P : Token → Prop} {cs : List Char} {ts : List Token}

private theorem forall_mem_tokensFrom?
    (hscan : ∀ {c : Char} {rest : List Char} {t : Token} {n : Nat},
      scan? c rest = some (t, n) → P t)
    {skip : Nat} {done : Array Token} (hdone : ∀ t ∈ done, P t)
    (h : tokensFrom? skip done cs = some ts) : ∀ t ∈ ts, P t := by
  induction cs generalizing skip done with
  | nil =>
    obtain rfl := Option.some.inj h
    simpa using hdone
  | cons c rest ih =>
    rw [tokensFrom?] at h
    split at h
    · exact ih hdone h
    · split at h
      · exact ih hdone h
      · split at h
        · next token n htoken =>
          refine ih (fun t ht => ?_) h
          rcases Array.mem_push.mp ht with ht | rfl
          · exact hdone t ht
          · exact hscan htoken
        · cases h

/-- What holds of every token that starts somewhere holds of all tokens of a text. -/
theorem forall_mem_of_tokens?
    (hscan : ∀ {c : Char} {rest : List Char} {t : Token} {n : Nat},
      scan? c rest = some (t, n) → P t)
    (h : tokens? cs = some ts) : ∀ t ∈ ts, P t :=
  forall_mem_tokensFrom? hscan (by simp) h

end

end Formulary.Json
