import Formulary.Expr.Literal
import Formulary.Expr.Printer
import Formulary.Proofs.Syntax.Lexing
import Mathlib.Data.List.TakeDrop
import Mathlib.Data.List.TakeWhile

/-!
# Constants as literals

The constants whose printed text is a literal: texts, truth values, longs without a sign, finite
doubles without a sign, and whole decimals that are too wide for a long. Each of them is printed as
one token, and the value of that token is the constant.

A decimal is read back at the scale of its text, which has no digits after the point. It is the
same number, so equality of constants is equality of numbers for decimals. At most scales a whole
decimal is written with a point or with an exponent, however, and that is the text of a double.

Whether the shortest text of a double reads back as that double rests on the arithmetic of the
machine. It is a hypothesis here, about the doubles that are printed.

## Main definitions

* `Value.Printable` — the constants that have a literal
* `Value.Equal` — the same value, decimals being compared as numbers
* `Literal.kindOf` — the kind of the literal of a constant
* `Literal.IsRestored` — the constants that their literals are read as

## Main results

* `Literal.reads_constText` — the text of a constant is one literal
* `Literal.isRestored_of_printable` — and the value of that literal is the constant
* `Literal.decimal_isNumber` — the text of a decimal that is not written in its digits
-/

namespace Formulary

open Text Number

/-- A constant that is printed as a literal. Decimals are written as integers and lie beyond the
greatest long; with a point or an exponent in it the text would be that of a double. -/
def Value.Printable : Value → Prop
  | .string _ | .boolean _ => True
  | .long n => 0 ≤ n.toInt
  | .double x => ∃ parts, Double.parts? x = some parts ∧ parts.negative = false
  | .decimal d => Lexeme.Digits d.text.toList ∧ 2 ^ 63 - 1 < d.unscaledAt 0
  | _ => False

/-- The same value; decimals are the same when they are the same number. -/
def Value.Equal (v w : Value) : Prop :=
  v = w ∨ ∃ a b, v = .decimal a ∧ w = .decimal b ∧ a.equiv b = true

namespace Literal

/-- The kind of the literal that a constant is printed as. -/
def kindOf : Value → LiteralKind
  | .boolean _ => .boolean
  | .double _ => .real
  | .long _ | .decimal _ => .integer
  | _ => .string

/-! ### Quoted texts -/

/-- A character is written as itself, or as an escape that is read as it. -/
theorem quoteChar_cases (c : Char) : (Expr.quoteChar c = [c] ∧ c ≠ '\'' ∧ c ≠ '\\') ∨
    ∃ e, Expr.quoteChar c = ['\\', e] ∧ e ≠ 'u' ∧ letter? e = some c := by
  unfold Expr.quoteChar
  split
  · exact .inr ⟨'\'', rfl, by decide, rfl⟩
  · exact .inr ⟨'\\', rfl, by decide, rfl⟩
  · exact .inr ⟨'n', rfl, by decide, rfl⟩
  · exact .inr ⟨'r', rfl, by decide, rfl⟩
  · exact .inr ⟨'t', rfl, by decide, rfl⟩
  · next hquote hslash _ _ _ => exact .inl ⟨rfl, hquote, hslash⟩

/-- No quote of the text closes it. -/
theorem body?_quoteChar (cs rest : List Char) :
    Quoted.body? '\'' (cs.flatMap Expr.quoteChar ++ '\'' :: rest) =
      some (cs.flatMap Expr.quoteChar) := by
  induction cs with
  | nil =>
    rw [List.flatMap_nil, List.nil_append, Quoted.body?.eq_def]
    exact if_pos rfl
  | cons c cs ih =>
    rw [List.flatMap_cons, List.append_assoc]
    rcases quoteChar_cases c with ⟨h, hquote, hslash⟩ | ⟨e, h, -, -⟩
    · rw [h, List.singleton_append, Quoted.body?.eq_def]
      dsimp only
      rw [if_neg hquote, if_neg hslash, ih]
      rfl
    · rw [h, List.cons_append, List.singleton_append, Quoted.body?.eq_def]
      dsimp only
      rw [if_neg (by decide), if_pos rfl, ih]
      rfl

theorem units?_quoteChar (cs : List Char) :
    Quoted.units? dialect (cs.flatMap Expr.quoteChar) = some (Utf16.encode cs) := by
  induction cs with
  | nil => rfl
  | cons c cs ih =>
    rw [List.flatMap_cons, Utf16.encode_cons]
    rcases quoteChar_cases c with ⟨h, -, hslash⟩ | ⟨e, h, hu, hletter⟩
    · rw [h, List.singleton_append, Quoted.units?, if_neg hslash, ih]
      · rfl
      · exact fun _ _ _ _ _ h => absurd h hslash
      · exact fun _ _ h => absurd h hslash
    · rw [h, List.cons_append, List.singleton_append, Quoted.units?,
        show dialect.letter? e = some c from hletter, ih]
      · rfl
      · exact fun _ _ _ _ _ h => absurd h hu

theorem value_quote (s : String) : value .string (Expr.quote s) = .ok (.string s) := by
  have hbody : bodyOf (Expr.quote s) = s.toList.flatMap Expr.quoteChar := by
    rw [bodyOf, Expr.quote, String.toList_ofList, List.drop_one, List.tail_cons,
      List.dropLast_concat]
  rw [value, hbody, unescape?, Quoted.decode?, units?_quoteChar, Option.bind_some,
    Utf16.decode?_encode]
  dsimp only
  rw [String.ofList_toList]

/-! ### Whole numbers -/

/-- The text of a long without a sign. -/
theorem toList_text_long {n : Int64} (h : 0 ≤ n.toInt) :
    (Value.long n).text.toList = digitsOf n.toInt.toNat := by
  rw [Value.text, Int.toString_eq_repr, Int.repr_eq_if, if_pos h, Nat.toList_repr, digitsOf]

theorem value_long {n : Int64} (h : 0 ≤ n.toInt) :
    value .integer (Value.long n).text = .ok (.long n) := by
  have hread : readInt64? (digitsOf n.toInt.toNat) = some n := by
    rw [readInt64?, readInteger?_digits (digitsOf_ne_nil _) fun _ => isDigit_of_mem_digitsOf,
      valueOf_digitsOf, Int.toNat_of_nonneg h, Option.bind_some, within?, if_pos, Option.map_some,
      Int64.ofInt_toInt]
    exact ⟨n.le_toInt, Int.le_sub_one_of_lt n.toInt_lt⟩
  rw [value, toList_text_long h, hread]

theorem span_of_all {p : Char → Bool} {cs : List Char} (h : ∀ c ∈ cs, p c = true) :
    cs.span p = (cs, []) := by
  rw [List.span_eq_takeWhile_dropWhile, List.takeWhile_eq_self_iff.mpr h,
    List.dropWhile_eq_nil_iff.mpr h]

/-- A text of digits is a decimal without places. -/
theorem read?_digits {cs : List Char} (h : Lexeme.Digits cs) :
    Decimal.read? cs = some ⟨valueOf cs, 0⟩ := by
  have hne : ∀ d : Char, d.isDigit = false → ∀ c ∈ cs, c ≠ d := by
    rintro d hd c hc rfl
    rw [h.2 c hc] at hd
    exact nomatch hd
  have hexponent : cs.span (fun c => c != 'e' && c != 'E') = (cs, []) := by
    refine span_of_all fun c hc => ?_
    rw [Bool.and_eq_true]
    exact ⟨bne_iff_ne.mpr (hne 'e' rfl c hc), bne_iff_ne.mpr (hne 'E' rfl c hc)⟩
  have hpoint : cs.span (· != '.') = (cs, []) :=
    span_of_all fun c hc => bne_iff_ne.mpr (hne '.' rfl c hc)
  have hsign : splitSign cs = (false, cs) := by
    unfold splitSign
    split
    · exact absurd rfl (hne '-' rfl _ (List.mem_cons_self ..))
    · exact absurd rfl (hne '+' rfl _ (List.mem_cons_self ..))
    · rfl
  have hsigned : Decimal.readSigned? cs = some (valueOf cs : Int) := by
    rw [Decimal.readSigned?, hsign]
    dsimp only
    rw [Decimal.readGrouped?_digits h.1 h.2]
    rfl
  rw [Decimal.read?, Decimal.splitExponent, hexponent]
  simp only [Decimal.significand?, hpoint, hsigned]
  rfl

theorem unscaled_pos {d : Decimal} (h : 2 ^ 63 - 1 < d.unscaledAt 0) : 0 < d.unscaled := by
  rw [Decimal.unscaledAt_eq] at h
  by_contra hneg
  have := Int.mul_nonpos_of_nonpos_of_nonneg (Int.not_lt.mp hneg)
    (Int.le_of_lt (Decimal.tenPow_pos (0 - d.scale)))
  omega

/-- The digits of a whole decimal, those that the scale leaves out included. -/
def wholeDigits (d : Decimal) : List Char :=
  digitsOf d.unscaled.natAbs ++ List.replicate (-d.scale).toNat '0'

theorem digits_wholeDigits (d : Decimal) : Lexeme.Digits (wholeDigits d) := by
  refine ⟨fun h => digitsOf_ne_nil _ (List.append_eq_nil_iff.mp h).1, fun c hc => ?_⟩
  rcases List.mem_append.mp hc with hc | hc
  · exact isDigit_of_mem_digitsOf hc
  · rw [List.eq_of_mem_replicate hc]
    rfl

theorem toList_text_of_pos {d : Decimal} (hpos : 0 < d.unscaled) :
    d.text.toList = Decimal.magnitudeText (digitsOf d.unscaled.natAbs) d.scale := by
  rw [Decimal.text, if_neg (Int.ne_of_gt hpos)]
  dsimp only
  rw [String.toList_ofList, if_neg (Int.not_lt.mpr (Int.le_of_lt hpos))]

/-- Where neither a point nor an exponent is called for, a decimal is written in its digits. -/
theorem toList_text_of_scale {d : Decimal} (hpos : 0 < d.unscaled)
    (htrailing : -Decimal.maxTrailingZeros ≤ d.scale) (hscale : d.scale ≤ 0) :
    d.text.toList = wholeDigits d := by
  have hlen : 0 < (digitsOf d.unscaled.natAbs).length := digitCount_pos d.unscaled.natAbs
  rw [toList_text_of_pos hpos, Decimal.magnitudeText, if_neg, if_neg, if_pos hscale]
  · rfl
  · omega
  · rw [Decimal.maxLeadingZeros]
    omega

theorem mem_pointed {digits : List Char} {scale : Nat} (h : scale ≠ 0) :
    '.' ∈ Decimal.pointed digits scale := by
  rw [Decimal.pointed, if_neg h]
  split
  · exact List.mem_cons_of_mem _ (List.mem_cons_self ..)
  · exact List.mem_append_right _ (List.mem_cons_self ..)

/-- A decimal is written in digits only where neither a point nor an exponent is called for. -/
theorem scale_of_digits {d : Decimal} (hpos : 0 < d.unscaled) (h : Lexeme.Digits d.text.toList) :
    -Decimal.maxTrailingZeros ≤ d.scale ∧ d.scale ≤ 0 := by
  rw [toList_text_of_pos hpos, Decimal.magnitudeText] at h
  split at h
  · exact absurd (h.2 'E' (List.mem_append_right _ (List.mem_cons_self ..))) (by decide)
  · split at h
    · exact absurd (h.2 'e' (List.mem_append_right _ (List.mem_cons_self ..))) (by decide)
    · next htrailing =>
      split at h
      · next hscale => exact ⟨by omega, hscale⟩
      · next hscale =>
        exact absurd (h.2 '.' (mem_pointed (by omega))) (by decide)

/-- The text of a whole decimal is its digits. -/
theorem toList_text_decimal {d : Decimal} (h : (Value.decimal d).Printable) :
    d.text.toList = wholeDigits d ∧ d.scale ≤ 0 := by
  have hpos := unscaled_pos h.2
  obtain ⟨htrailing, hscale⟩ := scale_of_digits hpos h.1
  exact ⟨toList_text_of_scale hpos htrailing hscale, hscale⟩

theorem valueOf_wholeDigits {d : Decimal} (hpos : 0 < d.unscaled) :
    (valueOf (wholeDigits d) : Int) = d.unscaledAt 0 := by
  rw [wholeDigits, valueOf_append, valueOf_digitsOf, valueOf_replicate_zero, List.length_replicate,
    Nat.add_zero, Decimal.unscaledAt_eq, Int.zero_sub, Decimal.tenPow, Int.natCast_mul,
    Int.natAbs_of_nonneg (Int.le_of_lt hpos)]

/-- A whole decimal beyond the longs is read back as the same number. -/
theorem value_decimal {d : Decimal} (h : (Value.decimal d).Printable) :
    ∃ w, value .integer (Value.decimal d).text = .ok w ∧ w.Equal (.decimal d) := by
  have hdigits := digits_wholeDigits d
  have hvalue := valueOf_wholeDigits (unscaled_pos h.2)
  obtain ⟨htext, hscale⟩ := toList_text_decimal h
  have hlong : readInt64? (wholeDigits d) = none := by
    rw [readInt64?, readInteger?_digits hdigits.1 hdigits.2, hvalue, Option.bind_some, within?,
      if_neg fun hle => absurd hle.2 (Int.not_le.mpr h.2)]
    rfl
  refine ⟨.decimal ⟨valueOf (wholeDigits d), 0⟩, ?_, .inr ⟨_, _, rfl, rfl, ?_⟩⟩
  · rw [value, Value.text, htext, hlong, read?_digits hdigits]
  · have hmax : max (Decimal.scale ⟨d.unscaledAt 0, 0⟩) d.scale = 0 := Int.max_eq_left hscale
    have hself : Decimal.unscaledAt ⟨d.unscaledAt 0, 0⟩ 0 = d.unscaledAt 0 := by
      rw [Decimal.unscaledAt_eq, show Decimal.tenPow (0 - Decimal.scale ⟨_, 0⟩) = 1 from rfl,
        Int.mul_one]
    rw [hvalue, Decimal.equiv, Decimal.compare_eq, Decimal.compareAligned]
    simp only [hmax, hself]
    simp [Ord.compare, compareOfLessAndEq]

/-! ### Doubles -/

section

open Lexeme (Digits IsNumber)

theorem digits_digitsOf (n : Nat) : Digits (digitsOf n) :=
  ⟨digitsOf_ne_nil n, fun _ => isDigit_of_mem_digitsOf⟩

theorem isDigit_of_mem_zeros {n : Nat} {c : Char} (h : c ∈ List.replicate n '0') :
    c.isDigit = true := by
  rw [List.eq_of_mem_replicate h]
  rfl

/-- A number is read by the value of its digits and its exponent, from which the digits after the
point are taken off. -/
theorem readMagnitude?_of_isNumber {whole fraction exponent : List Char}
    (h : IsNumber whole fraction exponent) {e : Int}
    (he : Double.readExponent? exponent = some e) :
    Double.readMagnitude? (whole ++ (fraction ++ exponent)) =
      some (Double.ofScientific (valueOf (whole ++ fraction.tail)) (e - fraction.tail.length)) := by
  have hexponent : ∀ c ∈ exponent.head?, c.isDigit = false ∧ c ≠ '.' := by
    rcases h.exponent with rfl | ⟨sign, digits, rfl, -, -⟩
    · rintro _ ⟨⟩
    · rintro _ ⟨⟩
      decide
  have hne : ∀ cs : List Char, (whole ++ cs).isEmpty = false := fun cs =>
    List.isEmpty_eq_false_iff.mpr fun hnil => h.whole.1 (List.append_eq_nil_iff.mp hnil).1
  unfold Double.readMagnitude?
  rcases h.fraction with rfl | ⟨digits, rfl, hdigits⟩
  · have hhead := fun c hc => (hexponent c hc).1
    rw [List.nil_append, takeWhile_append_of_head? h.whole.2 hhead,
      dropWhile_append_of_head? h.whole.2 hhead]
    dsimp only
    split
    · exact absurd rfl (hexponent '.' rfl).2
    · simp only [he, Option.bind_eq_bind, Option.bind_some, List.tail_nil, hne, Bool.false_eq_true,
        if_false]
  · have hpoint : ∀ c ∈ ('.' :: digits ++ exponent).head?, c.isDigit = false := by
      rintro _ ⟨⟩
      rfl
    have hhead := fun c hc => (hexponent c hc).1
    rw [takeWhile_append_of_head? h.whole.2 hpoint,
      dropWhile_append_of_head? h.whole.2 hpoint]
    simp only [List.cons_append, takeWhile_append_of_head? hdigits.2 hhead,
      dropWhile_append_of_head? hdigits.2 hhead, he, Option.bind_eq_bind, Option.bind_some,
      hne, Bool.false_eq_true, if_false, List.tail_cons]

/-- Positional form has a point with digits on both sides. Zeros may stand before and after the
digits that were laid out. -/
theorem positional_isNumber {digits : List Char} (h : Digits digits) (e : Int) :
    ∃ whole fraction, ∃ zeros : Nat, Double.positional digits e = whole ++ '.' :: fraction ∧
      Digits whole ∧ Digits fraction ∧
      valueOf (whole ++ fraction) = valueOf digits * 10 ^ zeros ∧
      (fraction.length : Int) = digits.length - 1 - e + zeros := by
  unfold Double.positional
  split
  · refine ⟨['0'], _, 0, rfl, Lexeme.digits_zero,
      ⟨fun hnil => h.1 (List.append_eq_nil_iff.mp hnil).2, ?_⟩, ?_, ?_⟩
    · intro c hc
      rcases List.mem_append.mp hc with hc | hc
      · exact isDigit_of_mem_zeros hc
      · exact h.2 c hc
    · have hzeros : ['0'] ++ (List.replicate (-e - 1).toNat '0' ++ digits) =
          List.replicate ((-e - 1).toNat + 1) '0' ++ digits := rfl
      rw [hzeros, valueOf_append, valueOf_replicate_zero, Nat.zero_mul, Nat.zero_add, Nat.pow_zero,
        Nat.mul_one]
    · rw [List.length_append, List.length_replicate]
      omega
  · have hpadded : ∀ c ∈ digits ++ List.replicate (e.toNat + 1 - digits.length) '0',
        c.isDigit = true := by
      intro c hc
      rcases List.mem_append.mp hc with hc | hc
      · exact h.2 c hc
      · exact isDigit_of_mem_zeros hc
    have hvalue : valueOf (digits ++ List.replicate (e.toNat + 1 - digits.length) '0') =
        valueOf digits * 10 ^ (e.toNat + 1 - digits.length) := by
      rw [valueOf_append, valueOf_replicate_zero, List.length_replicate, Nat.add_zero]
    have hlength : (digits ++ List.replicate (e.toNat + 1 - digits.length) '0').length =
        digits.length + (e.toNat + 1 - digits.length) := by
      rw [List.length_append, List.length_replicate]
    have hwhole : Digits ((digits ++ List.replicate (e.toNat + 1 - digits.length) '0').take
        (e.toNat + 1)) := by
      refine ⟨?_, fun c hc => hpadded c (List.mem_of_mem_take hc)⟩
      obtain ⟨d, ds, hd⟩ := List.exists_cons_of_ne_nil h.1
      rw [hd, List.cons_append, List.take_succ_cons]
      exact List.cons_ne_nil _ _
    dsimp only
    split
    · next hempty =>
      have hle := List.drop_eq_nil_iff.mp (List.isEmpty_iff.mp hempty)
      refine ⟨_, _, e.toNat + 1 - digits.length + 1, rfl, hwhole, Lexeme.digits_zero, ?_, ?_⟩
      · rw [List.take_of_length_le hle, valueOf_append, hvalue, Nat.pow_succ, Nat.mul_assoc]
        rfl
      · rw [hlength] at hle
        show ((1 : Nat) : Int) = _
        omega
    · next hfraction =>
      refine ⟨_, _, e.toNat + 1 - digits.length, rfl, hwhole,
        ⟨fun hnil => hfraction (List.isEmpty_iff.mpr hnil),
          fun c hc => hpadded c (List.mem_of_mem_drop hc)⟩, ?_, ?_⟩
      · rw [List.take_append_drop, hvalue]
      · have hlt : ¬(digits ++ List.replicate (e.toNat + 1 - digits.length) '0').length ≤
            e.toNat + 1 := fun hle =>
          hfraction (List.isEmpty_iff.mpr (List.drop_eq_nil_iff.mpr hle))
        rw [List.length_drop, hlength]
        rw [hlength] at hlt
        omega

/-- An exponent is read with the sign it is written with. -/
theorem readExponent?_natAbs {sign : List Char} {e : Int}
    (hsign : (e < 0 ∧ sign = ['-']) ∨ (0 ≤ e ∧ (sign = [] ∨ sign = ['+']))) :
    Double.readExponent? ('e' :: (sign ++ digitsOf e.natAbs)) = some e := by
  have hdigits := digits_digitsOf e.natAbs
  have hread : readNatural? (digitsOf e.natAbs) = some e.natAbs := by
    rw [readNatural?, List.isEmpty_eq_false_iff.mpr hdigits.1, if_neg Bool.false_ne_true,
      if_pos (List.all_eq_true.mpr hdigits.2), valueOf_digitsOf]
  show readInteger? (sign ++ digitsOf e.natAbs) = some e
  rcases hsign with ⟨he, rfl⟩ | ⟨he, rfl | rfl⟩
  · show (readNatural? (digitsOf e.natAbs)).map (signed true) = some e
    rw [hread]
    exact congrArg some (by rw [signed, if_pos rfl]; omega)
  · rw [List.nil_append, readInteger?_digits hdigits.1 hdigits.2, valueOf_digitsOf]
    exact congrArg some (by omega)
  · show (readNatural? (digitsOf e.natAbs)).map (signed false) = some e
    rw [hread]
    exact congrArg some (by rw [signed, if_neg Bool.false_ne_true]; omega)

/-- Digits laid out in any style are a number with a fraction or an exponent, which has the value of
the digits. -/
theorem layOut_isNumber (style : Double.Style) (n : Nat) (k : Int) :
    ∃ whole fraction exponent, IsNumber whole fraction exponent ∧
      style.layOut n k = whole ++ (fraction ++ exponent) ∧ (fraction ≠ [] ∨ exponent ≠ []) ∧
      ∃ zeros : Nat, Double.readMagnitude? (style.layOut n k) =
        some (Double.ofScientific (n * 10 ^ zeros) (k - zeros)) := by
  have hdigits := digits_digitsOf n
  unfold Double.Style.layOut
  dsimp only
  generalize he : k + ((digitsOf n).length - 1 : Int) = e
  split
  · obtain ⟨whole, fraction, zeros, htext, hwhole, hfraction, hvalue, hlength⟩ :=
      positional_isNumber hdigits e
    have hnumber : IsNumber whole ('.' :: fraction) [] :=
      ⟨hwhole, .inr ⟨fraction, rfl, hfraction⟩, .inl rfl⟩
    have hread := readMagnitude?_of_isNumber hnumber rfl
    rw [List.tail_cons, hvalue, valueOf_digitsOf, hlength] at hread
    have hexponent : 0 - ((digitsOf n).length - 1 - e + zeros) = k - zeros := by omega
    rw [hexponent, List.append_nil, ← htext] at hread
    exact ⟨whole, '.' :: fraction, [], hnumber, by rw [htext, List.append_nil],
      .inl (List.cons_ne_nil _ _), zeros, hread⟩
  · generalize hsign : (if e < 0 then ['-'] else if style.plusSign = true then ['+'] else []) = sign
    have hsigns : (e < 0 ∧ sign = ['-']) ∨ (0 ≤ e ∧ (sign = [] ∨ sign = ['+'])) := by
      rw [← hsign]
      split
      · exact .inl ⟨‹_›, rfl⟩
      · refine .inr ⟨by omega, ?_⟩
        split
        · exact .inr rfl
        · exact .inl rfl
    have hread := readExponent?_natAbs hsigns
    have hsigns : sign = [] ∨ sign = ['-'] ∨ sign = ['+'] := by
      rcases hsigns with ⟨-, h⟩ | ⟨-, h | h⟩
      · exact .inr (.inl h)
      · exact .inl h
      · exact .inr (.inr h)
    obtain ⟨d, ds, hd⟩ := List.exists_cons_of_ne_nil hdigits.1
    have hvalue : valueOf (d :: ds) = n * 10 ^ 0 := by
      rw [← hd, valueOf_digitsOf, Nat.pow_zero, Nat.mul_one]
    rw [hd] at hdigits he ⊢
    have hone : Digits [d] := ⟨List.cons_ne_nil _ _, by simpa using hdigits.2 d⟩
    cases ds with
    | nil =>
      have hnumber : IsNumber [d] [] ('e' :: (sign ++ digitsOf e.natAbs)) :=
        ⟨hone, .inl rfl, .inr ⟨sign, _, rfl, hsigns, digits_digitsOf _⟩⟩
      have hexponent : e - (0 : Nat) = k - (0 : Nat) := by
        rw [List.length_singleton] at he
        omega
      refine ⟨_, _, _, hnumber, rfl, .inr (List.cons_ne_nil _ _), 0, ?_⟩
      rw [← hvalue, ← hexponent]
      exact readMagnitude?_of_isNumber hnumber hread
    | cons d' ds =>
      have hrest : Digits (d' :: ds) :=
        ⟨List.cons_ne_nil _ _, fun c hc => hdigits.2 c (List.mem_cons_of_mem _ hc)⟩
      have hnumber : IsNumber [d] ('.' :: d' :: ds) ('e' :: (sign ++ digitsOf e.natAbs)) :=
        ⟨hone, .inr ⟨_, rfl, hrest⟩, .inr ⟨sign, _, rfl, hsigns, digits_digitsOf _⟩⟩
      have hexponent : e - ((d' :: ds).length : Nat) = k - (0 : Nat) := by
        rw [List.length_cons] at he
        omega
      refine ⟨_, _, _, hnumber, rfl, .inl (List.cons_ne_nil _ _), 0, ?_⟩
      rw [← hvalue, ← hexponent]
      exact readMagnitude?_of_isNumber hnumber hread

/-- The text of a finite double without a sign is a number with a fraction or an exponent. -/
theorem text_isNumber {x : Float} {parts : Double.Parts} (hparts : Double.parts? x = some parts)
    (hsign : parts.negative = false) : ∃ whole fraction exponent, IsNumber whole fraction exponent ∧
      (Double.text x).toList = whole ++ (fraction ++ exponent) ∧
      (fraction ≠ [] ∨ exponent ≠ []) := by
  rw [Double.text, Double.render, hparts]
  dsimp only
  rw [hsign, if_neg Bool.false_ne_true, String.toList_ofList]
  split
  · refine ⟨['0'], ['.', '0'], [], ⟨Lexeme.digits_zero, .inr ⟨['0'], rfl, Lexeme.digits_zero⟩,
      .inl rfl⟩, ?_, .inl (List.cons_ne_nil _ _)⟩
    rfl
  · obtain ⟨whole, fraction, exponent, hnumber, htext, hreal, -⟩ := layOut_isNumber ..
    exact ⟨whole, fraction, exponent, hnumber, htext, hreal⟩

/-! ### Decimals with a point or an exponent -/

/-- The point stands between digits. -/
theorem pointed_isNumber {digits : List Char} (h : Digits digits) {scale : Nat}
    (hscale : scale ≠ 0) :
    ∃ whole fraction, Decimal.pointed digits scale = whole ++ '.' :: fraction ∧
      Digits whole ∧ Digits fraction := by
  have hpos : 0 < digits.length := List.length_pos_iff.mpr h.1
  rw [Decimal.pointed, if_neg hscale]
  split
  · refine ⟨['0'], _, rfl, Lexeme.digits_zero, ?_, fun c hc => ?_⟩
    · exact fun hnil => h.1 (List.append_eq_nil_iff.mp hnil).2
    · exact (List.mem_append.mp hc).elim isDigit_of_mem_zeros (h.2 c)
  · next hlength =>
    refine ⟨_, _, rfl, ⟨?_, fun c hc => h.2 c (List.mem_of_mem_take hc)⟩, ?_,
      fun c hc => h.2 c (List.mem_of_mem_drop hc)⟩
    · rw [← List.length_pos_iff, List.length_take]
      omega
    · rw [← List.length_pos_iff, List.length_drop]
      omega

/-- A decimal with its first digit before the point, or not far behind it, is a number with a
fraction or an exponent, unless it is written in its digits. -/
theorem decimal_isNumber {d : Decimal} (hpos : 0 < d.unscaled)
    (hleading : d.scale - digitCount d.unscaled.natAbs ≤ Decimal.maxLeadingZeros)
    (hscale : ¬(-Decimal.maxTrailingZeros ≤ d.scale ∧ d.scale ≤ 0)) :
    ∃ whole fraction exponent, IsNumber whole fraction exponent ∧
      d.text.toList = whole ++ (fraction ++ exponent) ∧ (fraction ≠ [] ∨ exponent ≠ []) ∧
      ∃ e, Double.readExponent? exponent = some e := by
  have hdigits := digits_digitsOf d.unscaled.natAbs
  have hlength : digitCount d.unscaled.natAbs = (digitsOf d.unscaled.natAbs).length := rfl
  rw [hlength] at hleading
  rw [toList_text_of_pos hpos, Decimal.magnitudeText, if_neg (Int.not_lt.mpr hleading)]
  split
  · next htrailing =>
    have hexponent : (-d.scale).toNat = (-d.scale).natAbs := by
      have : 0 ≤ Decimal.maxTrailingZeros := by decide
      omega
    refine ⟨_, [], _, ⟨hdigits, .inl rfl, .inr ⟨['+'], digitsOf (-d.scale).toNat, rfl,
      .inr (.inr rfl), digits_digitsOf _⟩⟩, rfl, .inr (List.cons_ne_nil _ _), -d.scale, ?_⟩
    rw [hexponent]
    exact readExponent?_natAbs (.inr ⟨by omega, .inr rfl⟩)
  · rw [if_neg (by omega)]
    obtain ⟨whole, fraction, htext, hwhole, hfraction⟩ :=
      pointed_isNumber hdigits (show d.scale.toNat ≠ 0 by omega)
    exact ⟨whole, _, [], ⟨hwhole, .inr ⟨fraction, rfl, hfraction⟩, .inl rfl⟩,
      by rw [htext, List.append_nil], .inl (List.cons_ne_nil _ _), 0, rfl⟩

/-- A decimal that is a positive integer has its first digit before the point. -/
theorem leading_of_equiv {d : Decimal} {n : Int} (hn : 0 < n) (h : d.equiv ⟨n, 0⟩ = true) :
    0 < d.unscaled ∧ d.scale - digitCount d.unscaled.natAbs ≤ Decimal.maxLeadingZeros ∧
      (d.scale ≤ 0 → d.unscaledAt 0 = n) := by
  have hzero : Decimal.scale ⟨n, 0⟩ = 0 := rfl
  have hfive : (0 : Int) ≤ Decimal.maxLeadingZeros := by decide
  rw [Decimal.equiv, Decimal.compare_eq, Decimal.compareAligned, beq_iff_eq, hzero,
    Std.LawfulEqCmp.compare_eq_iff_eq, Decimal.unscaledAt_eq, Decimal.unscaledAt_eq, hzero,
    Int.sub_zero] at h
  have hpos : 0 < d.unscaled := by
    have hright := Int.mul_pos hn (Decimal.tenPow_pos (max d.scale 0))
    rw [← h] at hright
    exact Int.pos_of_mul_pos_left hright (Decimal.tenPow_pos _)
  refine ⟨hpos, ?_, fun hscale => ?_⟩
  · by_cases hscale : d.scale ≤ 0
    · omega
    · have hone : Decimal.tenPow 0 = 1 := rfl
      rw [Int.max_eq_left (by omega), Int.sub_self, hone, Int.mul_one] at h
      have hle : Decimal.tenPow d.scale ≤ d.unscaled := by
        have hle : 1 * Decimal.tenPow d.scale ≤ n * Decimal.tenPow d.scale :=
          Int.mul_le_mul_of_nonneg_right hn (Int.le_of_lt (Decimal.tenPow_pos _))
        rw [h]
        rwa [Int.one_mul] at hle
      have hle : 10 ^ d.scale.toNat ≤ d.unscaled.natAbs := by
        rw [Decimal.tenPow] at hle
        omega
      have hcount : d.scale.toNat < digitCount d.unscaled.natAbs :=
        (Nat.pow_lt_pow_iff_right (by decide)).mp (Nat.lt_of_le_of_lt hle (lt_pow_digitCount _))
      omega
  · rw [Int.max_eq_right hscale, show Decimal.tenPow 0 = 1 from rfl, Int.mul_one] at h
    rw [Decimal.unscaledAt_eq, h]

end

/-! ### Every constant -/

section

open Lexeme (Digits IsNumber Reads Delimited)

theorem reads_digits {cs : List Char} (h : Digits cs) :
    Reads Delimited cs [.literal .integer (String.ofList cs)] := by
  have hreal : Lexeme.isReal cs = false := by
    rw [Lexeme.isReal, List.any_eq_false]
    intro c hc hmark
    have hdigit := h.2 c hc
    simp only [Bool.or_eq_true, beq_iff_eq] at hmark
    rcases hmark with (rfl | rfl) | rfl <;> exact absurd hdigit (by decide)
  have hreads := IsNumber.reads ⟨h, .inl rfl, .inl rfl⟩
  rwa [List.append_nil, List.append_nil, hreal, if_neg Bool.false_ne_true] at hreads

theorem isReal_of_isNumber {whole fraction exponent : List Char}
    (h : IsNumber whole fraction exponent) (hreal : fraction ≠ [] ∨ exponent ≠ []) :
    Lexeme.isReal (whole ++ (fraction ++ exponent)) = true := by
  rw [Lexeme.isReal, List.any_append, List.any_append]
  rcases hreal with hne | hne
  · rcases h.fraction with rfl | ⟨digits, rfl, -⟩
    · exact absurd rfl hne
    · simp
  · rcases h.exponent with rfl | ⟨sign, digits, rfl, -, -⟩
    · exact absurd rfl hne
    · simp

/-- The text of a constant is one literal. -/
theorem reads_constText {v : Value} (h : v.Printable) :
    Reads Delimited (Expr.constText v).toList [.literal (kindOf v) (Expr.constText v)] := by
  cases v with
  | boolean b =>
    cases b
    · exact Lexeme.reads_word (c := 'f') rfl rfl rfl (forall_mem_of_all (by decide))
    · exact Lexeme.reads_word (c := 't') rfl rfl rfl (forall_mem_of_all (by decide))
  | long n =>
    have hreads := reads_digits (digits_digitsOf n.toInt.toNat)
    rwa [← toList_text_long h, String.ofList_toList] at hreads
  | decimal d =>
    have hreads := reads_digits (digits_wholeDigits d)
    rwa [← (toList_text_decimal h).1, String.ofList_toList] at hreads
  | double x =>
    obtain ⟨parts, hparts, hsign⟩ := h
    obtain ⟨whole, fraction, exponent, hnumber, htext, hreal⟩ := text_isNumber hparts hsign
    have hreads := hnumber.reads
    rw [isReal_of_isNumber hnumber hreal, if_pos rfl, ← htext, String.ofList_toList] at hreads
    exact hreads
  | string s =>
    have hreads := Lexeme.reads_quoted fun rest => body?_quoteChar s.toList rest
    refine Reads.mono ?_ fun _ _ => trivial
    rw [Expr.constText, Expr.quote, String.toList_ofList]
    exact hreads
  | _ => exact h.elim

/-- The literal that a constant is printed as has the constant for its value. -/
def IsRestored (v : Value) : Prop :=
  ∃ w, value (kindOf v) (Expr.constText v) = .ok w ∧ w.Equal v

/-- Printable constants are restored, as long as the texts of doubles are read back. -/
theorem isRestored_of_printable {v : Value} (h : v.Printable)
    (hdouble : ∀ x, v = .double x → Double.read? (Double.text x).toList = some x) :
    IsRestored v := by
  cases v with
  | boolean b => cases b <;> exact ⟨_, rfl, .inl rfl⟩
  | long n => exact ⟨.long n, value_long h, .inl rfl⟩
  | decimal d => exact value_decimal h
  | double x =>
    refine ⟨.double x, ?_, .inl rfl⟩
    rw [kindOf, value, show Expr.constText (.double x) = Double.text x from rfl, hdouble x rfl]
  | string s => exact ⟨.string s, value_quote s, .inl rfl⟩
  | _ => exact h.elim

end

end Literal

end Formulary
