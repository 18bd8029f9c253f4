import Formulary.Proofs.Number.ReadBack
import Formulary.Proofs.Syntax.Printing
import Formulary.Proofs.Syntax.Soundness

/-!
# The leaves of what is read

Which constants and names an expression can have that was read from a source. Names are read as
names again. Constants are texts, truth values, and numbers without a sign: signs are operators. A
whole number that is too wide for a long is a decimal without places. A number with a fraction or an
exponent is a double, and beyond the largest of them it is the infinite one, which is the only
constant without a literal.

## Main definitions

* `Token.Lexed` — what the lexer makes names and numbers from
* `Tree.leaves` — the names and literals of a parse tree
* `Value.Legible` — the values that literals have
* `Expr.LegibleLeaves` — constants that literals have, and names

## Main results

* `Lexeme.lexed_of_ofSource` — the tokens of a source
* `Grammar.Derives.leaves_sublist` — the leaves of a tree are tokens it is derived from
* `Literal.legible_value` — the values of literals
* `Expr.legibleLeaves_of_ofSource` — the leaves of expressions that are read, and their height
-/

namespace Formulary

open Text Number

/-! ### Tokens -/

/-- What the lexer makes names and numbers from. A whole number has nothing but digits, of any
script after the first of them. -/
def Token.Lexed : Token → Prop
  | .identifier name => Lexeme.IsName name
  | .literal .integer text =>
    ∃ c digits, text.toList = c :: digits ∧ c.isDigit = true ∧ ∀ d ∈ digits, isDecimalDigit d = true
  | .literal .real text => ∃ c rest, text.toList = c :: rest ∧ (c.isDigit = true ∨ c = '.')
  | _ => True

namespace Lexeme

/-- A word that is a name is read as one. -/
theorem isName_of_word {c : Char} {text : List Char} {name : String} (hblank : isBlank c = false)
    (hdigit : c.isDigit = false) (hstart : isIdentifierStart c = true)
    (htext : ∀ d ∈ text, isIdentifierContinue d = true) (hname : name = String.ofList (c :: text))
    (hword : wordToken name = .identifier name) : IsName name := by
  have hreads := reads_word hblank hdigit hstart htext
  rw [← hname, hword, ← String.toList_ofList (l := c :: text), ← hname] at hreads
  obtain ⟨lexemes, hsource, htokens⟩ := hreads.ofSource nofun
  rw [IsName, hsource, Except.map, htokens]

theorem fractionPart_cases (cs : List Char) :
    fractionPart cs = [] ∨ ∃ digits, fractionPart cs = '.' :: digits := by
  unfold fractionPart
  split
  · dsimp only
    split
    · exact .inl rfl
    · exact .inr ⟨_, rfl⟩
  · exact .inl rfl

theorem exponentPart_cases (cs : List Char) : exponentPart cs = [] ∨
    ∃ c digits, exponentPart cs = c :: digits ∧ (c = 'e' ∨ c = 'E') := by
  unfold exponentPart
  split
  · dsimp only
    split
    · next hc =>
      split
      · exact .inl rfl
      · exact .inr ⟨_, _, rfl, by simpa using hc⟩
    · exact .inl rfl
  · exact .inl rfl

/-- A number without a fraction and an exponent has nothing but digits. -/
theorem numberText_of_not_isReal {cs : List Char} (h : isReal (numberText cs) = false) :
    numberText cs = cs.takeWhile isDecimalDigit := by
  simp only [numberText, isReal, List.any_append, Bool.or_eq_false_iff] at h ⊢
  obtain ⟨⟨-, hfraction⟩, hexponent⟩ := h
  have hfraction : fractionPart (cs.drop (cs.takeWhile isDecimalDigit).length) = [] := by
    rcases fractionPart_cases (cs.drop (cs.takeWhile isDecimalDigit).length) with hnil | ⟨_, hcons⟩
    · exact hnil
    · simp [hcons] at hfraction
  rw [hfraction] at hexponent ⊢
  rcases exponentPart_cases (cs.drop ((cs.takeWhile isDecimalDigit).length + [].length)) with
    hnil | ⟨c, _, hcons, hc⟩
  · rw [hnil, List.append_nil, List.append_nil]
  · rw [hcons, List.any_cons] at hexponent
    rcases hc with rfl | rfl <;> simp at hexponent

/-- A number begins with the character that it is found at. -/
theorem numberText_cons {c : Char} {rest : List Char} (h : startsNumber c rest.head? = true) :
    ∃ text, numberText (c :: rest) = c :: text ∧ (c.isDigit = true ∨ c = '.') := by
  rw [startsNumber, Bool.or_eq_true, Bool.and_eq_true, beq_iff_eq] at h
  rcases h with hdigit | ⟨rfl, hnext⟩
  · rw [numberText, List.takeWhile_cons_of_pos (isDecimalDigit_of_isDigit hdigit)]
    exact ⟨_, rfl, .inl hdigit⟩
  · cases rest with
    | nil => simp at hnext
    | cons d rest =>
      have hdigit : isDecimalDigit d = true := isDecimalDigit_of_isDigit hnext
      have hpoint : ¬isDecimalDigit '.' = true := by decide
      have hfraction : fractionPart ('.' :: d :: rest) =
          '.' :: (d :: rest).takeWhile isDecimalDigit := by
        rw [fractionPart, List.takeWhile_cons_of_pos hdigit]
        rfl
      rw [numberText, List.takeWhile_cons_of_neg hpoint, List.length_nil, List.drop_zero, hfraction]
      exact ⟨_, rfl, .inr rfl⟩

theorem lexed_number (offset : Nat) {c : Char} {rest : List Char}
    (h : startsNumber c rest.head? = true) {l : Lexeme}
    (hl : (number offset (c :: rest)).1 = .ok l) : l.token.Lexed := by
  obtain ⟨text, htext, hc⟩ := numberText_cons h
  cases hl
  dsimp only
  split
  · exact ⟨c, text, by rw [String.toList_ofList, htext], hc⟩
  · next hreal =>
    have hdigits := numberText_of_not_isReal (Bool.not_eq_true _ ▸ hreal)
    have hall : ∀ d ∈ c :: text, isDecimalDigit d = true := by
      rw [← htext, hdigits]
      exact List.all_eq_true.mp List.all_takeWhile
    refine ⟨c, text, by rw [String.toList_ofList, htext], ?_,
      fun d hd => hall d (List.mem_cons_of_mem _ hd)⟩
    rcases hc with hc | rfl
    · exact hc
    · exact absurd (hall '.' (List.mem_cons_self ..)) (by decide)

/-- What an item that is no blank is made from. -/
theorem lexed_of_item {offset : Nat} {c : Char} {rest : List Char} (hblank : isBlank c = false)
    {l : Lexeme} (h : (item offset c rest).1 = .ok l) : l.token.Lexed := by
  by_cases hname : ∃ name, l.token = .identifier name
  · obtain ⟨name, hname⟩ := hname
    obtain ⟨hdigit, hstart, hword, htoken⟩ := name_of_item h hname
    rw [hname]
    exact isName_of_word hblank hdigit hstart (List.all_eq_true.mp List.all_takeWhile) hword htoken
  · unfold item at h
    split at h
    · next hnumber => exact lexed_number offset hnumber h
    · split at h
      · unfold quotedText at h
        split at h <;> cases h
        trivial
      · split at h
        · cases h
          dsimp only [made] at hname ⊢
          unfold wordToken at hname ⊢
          split at hname
          case h_10 => exact absurd ⟨_, rfl⟩ hname
          all_goals trivial
        · split at h
          · next token hpair =>
            cases h
            obtain ⟨d, -, hd⟩ := Option.bind_eq_some_iff.mp hpair
            unfold pairToken? at hd
            split at hd <;> cases hd <;> trivial
          · split at h
            · next token hsingle =>
              cases h
              unfold singleToken? at hsingle
              split at hsingle <;> cases hsingle <;> trivial
            · exact nomatch h

theorem lexed_of_mem_itemsFrom {offset skip : Nat} {cs : List Char} {l : Lexeme}
    (h : .ok l ∈ itemsFrom offset skip cs) : l.token.Lexed := by
  induction cs generalizing offset skip with
  | nil => exact nomatch h
  | cons c rest ih =>
    unfold itemsFrom at h
    split at h
    · exact ih h
    · split at h
      · exact ih h
      · next hblank =>
        rcases List.mem_cons.mp h with h | h
        · exact lexed_of_item (Bool.not_eq_true _ ▸ hblank) h.symm
        · exact ih h

/-- The tokens of a source. -/
theorem lexed_of_ofSource {source : String} {lexemes : List Lexeme}
    (h : ofSource source = .ok lexemes) : ∀ token ∈ lexemes.map Lexeme.token, token.Lexed := by
  intro token htoken
  obtain ⟨l, hl, rfl⟩ := List.mem_map.mp htoken
  have hitems : itemsFrom 0 0 source.toList = lexemes.map Except.ok := eq_map_ok_of_mapM h
  have hmem : .ok l ∈ itemsFrom 0 0 source.toList := hitems ▸ List.mem_map_of_mem hl
  exact lexed_of_mem_itemsFrom hmem

end Lexeme

/-! ### Trees -/

mutual

/-- The names and literals of a tree, from left to right. -/
def Tree.leaves : Tree → List Token
  | .literal kind text _ => [.literal kind text]
  | .var name _ => [.identifier name]
  | .call name args _ => .identifier name :: leavesAll args
  | .index base i _ => leaves base ++ leaves i
  | .member base name _ => leaves base ++ [.identifier name]
  | .unary _ operand _ => leaves operand
  | .binary _ l r _ => leaves l ++ leaves r

/-- The names and literals of trees. -/
def Tree.leavesAll : List Tree → List Token
  | [] => []
  | t :: rest => leaves t ++ leavesAll rest

end

namespace Tree

theorem leavesAll_append (ts us : List Tree) :
    leavesAll (ts ++ us) = leavesAll ts ++ leavesAll us := by
  induction ts with
  | nil => rfl
  | cons t rest ih => rw [List.cons_append, leavesAll, leavesAll, ih, List.append_assoc]

mutual

@[simp] theorem leaves_bare : (t : Tree) → t.bare.leaves = t.leaves
  | literal .. | var .. => rfl
  | call _ args _ => by rw [bare, leaves, leaves, leavesAll_bareAll args]
  | index base i _ => by rw [bare, leaves, leaves, leaves_bare base, leaves_bare i]
  | member base _ _ => by rw [bare, leaves, leaves, leaves_bare base]
  | unary _ operand _ => by rw [bare, leaves, leaves, leaves_bare operand]
  | binary _ l r _ => by rw [bare, leaves, leaves, leaves_bare l, leaves_bare r]

@[simp] theorem leavesAll_bareAll : (ts : List Tree) → leavesAll (bareAll ts) = leavesAll ts
  | [] => rfl
  | t :: rest => by rw [bareAll, leavesAll, leavesAll, leaves_bare t, leavesAll_bareAll rest]

end

end Tree

namespace Grammar

mutual

/-- The leaves of a tree are tokens that it is derived from. -/
theorem Derives.leaves_sublist : ∀ {c : Category} {ts : List Token} {t : Tree} {d : Nat},
    Derives c ts t d → t.leaves.Sublist ts
  | _, _, _, _, .operand _ h => h.leaves_sublist
  | _, _, _, _, .link _ _ hl hr => hl.leaves_sublist.append (hr.leaves_sublist.cons _)
  | _, _, _, _, .not h => h.leaves_sublist.cons _
  | _, _, _, _, .unnegated h => h.leaves_sublist
  | _, _, _, _, .positive h => h.leaves_sublist.cons _
  | _, _, _, _, .negative h => h.leaves_sublist.cons _
  | _, _, _, _, .unsigned h => h.leaves_sublist
  | _, _, _, _, .base h => h.leaves_sublist
  | _, _, _, _, .index hbase hi =>
    hbase.leaves_sublist.append
      ((hi.leaves_sublist.trans (List.sublist_append_left _ _)).cons _)
  | _, _, _, _, .member name hbase => hbase.leaves_sublist.append ((List.Sublist.refl _).cons _)
  | _, _, _, _, .literal kind text => List.Sublist.refl _
  | _, _, _, _, .var name => List.Sublist.refl _
  | _, _, _, _, .nullary name => (List.nil_sublist _).cons_cons _
  | _, _, _, _, .call name h =>
    ((h.leaves_sublist.trans (List.sublist_append_left _ _)).cons _).cons_cons _
  | _, _, _, _, .parens h => (h.leaves_sublist.trans (List.sublist_append_left _ _)).cons _

theorem DerivesArguments.leaves_sublist : ∀ {ts : List Token} {args : List Tree} {d : Nat},
    DerivesArguments ts args d → (Tree.leavesAll args).Sublist ts
  | _, _, _, .one h => by
    rw [Tree.leavesAll, Tree.leavesAll, List.append_nil]
    exact h.leaves_sublist
  | _, _, _, .more h₁ h₂ => by
    rw [Tree.leavesAll_append, Tree.leavesAll, Tree.leavesAll, List.append_nil]
    exact h₁.leaves_sublist.append (h₂.leaves_sublist.cons _)

end

end Grammar

/-! ### Values of literals -/

/-- A value that a literal has. -/
def Value.Legible : Value → Prop
  | .string _ | .boolean _ => True
  | .long n => 0 ≤ n.toInt
  | .double x =>
    x = Double.infinity ∨ ∃ parts, Double.parts? x = some parts ∧ parts.negative = false
  | .decimal d => d.scale = 0 ∧ 2 ^ 63 - 1 < d.unscaled
  | _ => False

/-- All values of literals have a literal, except for the infinite double. -/
theorem Value.Legible.printable {v : Value} (h : v.Legible) (hv : v ≠ .double Double.infinity) :
    v.Printable := by
  cases v with
  | string | boolean => trivial
  | long n => exact h
  | double x => exact h.resolve_left fun hx => hv (hx ▸ rfl)
  | decimal d =>
    obtain ⟨hscale, hlarge⟩ := h
    have htext : d.text.toList = Literal.wholeDigits d :=
      Literal.toList_text_of_scale (by omega) (by rw [hscale]; decide) (Int.le_of_eq hscale)
    refine ⟨htext ▸ Literal.digits_wholeDigits d, ?_⟩
    rw [Decimal.unscaledAt_eq, hscale, show Decimal.tenPow (0 - 0) = 1 from rfl, Int.mul_one]
    exact hlarge
  | _ => exact h.elim

namespace Literal

/-- Only decimal digits of ASCII are read as a decimal. -/
theorem digits_of_read? {c : Char} {digits : List Char} (hc : c.isDigit = true)
    (hdigits : ∀ d ∈ digits, isDecimalDigit d = true) {d : Decimal}
    (h : Decimal.read? (c :: digits) = some d) : Lexeme.Digits (c :: digits) := by
  have hall : ∀ d ∈ c :: digits, isDecimalDigit d = true :=
    List.forall_mem_cons.mpr ⟨isDecimalDigit_of_isDigit hc, hdigits⟩
  have hne : ∀ mark : Char, isDecimalDigit mark = false → ∀ d ∈ c :: digits, d ≠ mark := by
    rintro mark hmark d hd rfl
    rw [hall d hd] at hmark
    cases hmark
  have hexponent : (c :: digits).span (fun c => c != 'e' && c != 'E') = (c :: digits, []) := by
    refine span_of_all fun d hd => ?_
    rw [Bool.and_eq_true]
    exact ⟨bne_iff_ne.mpr (hne 'e' (by decide) d hd), bne_iff_ne.mpr (hne 'E' (by decide) d hd)⟩
  have hpoint : (c :: digits).span (· != '.') = (c :: digits, []) :=
    span_of_all fun d hd => bne_iff_ne.mpr (hne '.' (by decide) d hd)
  rw [Decimal.read?, Decimal.splitExponent, hexponent] at h
  obtain ⟨_, -, h⟩ := Option.bind_eq_some_iff.mp h
  obtain ⟨significand, hsignificand, -⟩ := Option.bind_eq_some_iff.mp h
  rw [Decimal.significand?, hpoint] at hsignificand
  obtain ⟨n, hn, -⟩ := Option.map_eq_some_iff.mp hsignificand
  rw [Decimal.readSigned?, splitSign_of_isDigit digits hc] at hn
  obtain ⟨m, hm, -⟩ := Option.map_eq_some_iff.mp hn
  rw [Decimal.readGrouped?.eq_def] at hm
  split at hm
  · cases hm
  · cases hm
  · obtain ⟨hgrouped, -⟩ := Option.ite_none_right_eq_some.mp hm
    refine ⟨List.cons_ne_nil _ _, fun d hd => ?_⟩
    have := List.all_eq_true.mp hgrouped d hd
    rw [Bool.or_eq_true, beq_iff_eq] at this
    exact this.resolve_right (hne '_' (by decide) d hd)

theorem legible_integer {text : String} (htext : (Token.literal .integer text).Lexed) {v : Value}
    (h : value .integer text = .ok v) : v.Legible := by
  obtain ⟨c, digits, htext, hc, hdigits⟩ := htext
  rw [value, htext] at h
  cases hlong : readInt64? (c :: digits) with
  | some n =>
    rw [hlong] at h
    cases h
    obtain ⟨i, hi, rfl⟩ := Option.map_eq_some_iff.mp hlong
    obtain ⟨j, hj, hi⟩ := Option.bind_eq_some_iff.mp hi
    rw [readInteger?, splitSign_of_isDigit digits hc] at hj
    obtain ⟨k, -, rfl⟩ := Option.map_eq_some_iff.mp hj
    obtain ⟨hbounds, hi⟩ := Option.ite_none_right_eq_some.mp hi
    obtain rfl := Option.some.inj hi
    have hk : signed false k = (k : Int) := rfl
    show 0 ≤ (Int64.ofInt (signed false k)).toInt
    rw [Int64.toInt_ofInt_of_le hbounds.1 (by omega)]
    omega
  | none =>
    rw [hlong] at h
    cases hdecimal : Decimal.read? (c :: digits) with
    | none =>
      rw [hdecimal] at h
      cases h
    | some d =>
      rw [hdecimal] at h
      cases h
      have hall := digits_of_read? hc hdigits hdecimal
      rw [read?_digits hall] at hdecimal
      cases hdecimal
      rw [readInt64?, readInteger?_digits hall.1 hall.2, Option.bind_some, Option.map_eq_none_iff,
        within?] at hlong
      split at hlong
      · cases hlong
      · exact ⟨rfl, by show _ < (valueOf (c :: digits) : Int); omega⟩

theorem legible_real {text : String} (htext : (Token.literal .real text).Lexed) {v : Value}
    (h : value .real text = .ok v) : v.Legible := by
  obtain ⟨c, rest, htext, hc⟩ := htext
  rw [value, htext, show c :: rest = if false then '-' :: c :: rest else c :: rest from rfl,
    Double.read?_of_head hc] at h
  cases hdouble : Double.readMagnitude? (c :: rest) with
  | none =>
    rw [hdouble] at h
    cases h
  | some x =>
    rw [hdouble] at h
    cases h
    exact Double.unsigned_of_readMagnitude? hdouble

/-- The values of literals. -/
theorem legible_value {kind : LiteralKind} {text : String} (htext : (Token.literal kind text).Lexed)
    {v : Value} (h : value kind text = .ok v) : v.Legible := by
  cases kind with
  | boolean =>
    cases h
    trivial
  | integer => exact legible_integer htext h
  | real => exact legible_real htext h
  | string =>
    rw [value] at h
    split at h
    · cases h
      trivial
    · cases h

end Literal

/-! ### Expressions -/

namespace Expr

open Lexeme (IsName)

/-- Constants that literals have, and names. -/
structure LegibleLeaves (consts : List Value) (names : List String) : Prop where
  /-- Every constant is the value of a literal. -/
  consts : ∀ v ∈ consts, v.Legible
  /-- Every name is read as one. -/
  names : ∀ name ∈ names, IsName name

section

variable {cs ds : List Value} {ms ns : List String}

theorem LegibleLeaves.append (h : LegibleLeaves cs ms) (h' : LegibleLeaves ds ns) :
    LegibleLeaves (cs ++ ds) (ms ++ ns) :=
  ⟨List.forall_mem_append.mpr ⟨h.consts, h'.consts⟩,
    List.forall_mem_append.mpr ⟨h.names, h'.names⟩⟩

theorem LegibleLeaves.cons {name : String} (hname : IsName name) (h : LegibleLeaves cs ms) :
    LegibleLeaves cs (name :: ms) :=
  ⟨h.consts, List.forall_mem_cons.mpr ⟨hname, h.names⟩⟩

theorem LegibleLeaves.nil : LegibleLeaves [] [] := ⟨nofun, nofun⟩

theorem LegibleLeaves.const {v : Value} (h : v.Legible) : LegibleLeaves [v] [] :=
  ⟨List.forall_mem_singleton.mpr h, nofun⟩

end

mutual

/-- The leaves of an expression come from those of its tree. -/
theorem legibleLeaves_of_ofTree : (t : Tree) → (∀ token ∈ t.leaves, token.Lexed) → {e : Expr} →
    ofTree t = .ok e → LegibleLeaves e.consts e.names
  | .literal kind text span, ht, e, h => by
    rw [ofTree] at h
    split at h
    · next v hv =>
      cases h
      exact .const (Literal.legible_value (ht _ (List.mem_singleton_self _)) hv)
    · exact nomatch h
  | .var name span, ht, e, h => by
    cases h
    exact .cons (ht _ (List.mem_singleton_self _)) .nil
  | .call name args span, ht, e, h => by
    obtain ⟨hname, hargs⟩ := List.forall_mem_cons.mp ht
    obtain ⟨es, hes, h⟩ := bind_eq_ok_iff.mp h
    cases h
    exact .cons hname (legibleLeaves_of_ofTrees args hargs hes)
  | .index base i span, ht, e, h => by
    obtain ⟨htbase, hti⟩ := List.forall_mem_append.mp ht
    obtain ⟨ebase, hbase, h⟩ := bind_eq_ok_iff.mp h
    obtain ⟨ei, hi, h⟩ := bind_eq_ok_iff.mp h
    cases h
    exact (legibleLeaves_of_ofTree base htbase hbase).append (legibleLeaves_of_ofTree i hti hi)
  | .member base name span, ht, e, h => by
    obtain ⟨htbase, -⟩ := List.forall_mem_append.mp ht
    obtain ⟨ebase, hbase, h⟩ := bind_eq_ok_iff.mp h
    cases h
    exact (legibleLeaves_of_ofTree base htbase hbase).append (.const trivial)
  | .unary op operand span, ht, e, h => by
    obtain ⟨eoperand, hoperand, h⟩ := bind_eq_ok_iff.mp h
    cases h
    have hleaves := legibleLeaves_of_ofTree operand ht hoperand
    exact hleaves
  | .binary op l r span, ht, e, h => by
    obtain ⟨htl, htr⟩ := List.forall_mem_append.mp ht
    obtain ⟨el, hl, h⟩ := bind_eq_ok_iff.mp h
    obtain ⟨er, hr, h⟩ := bind_eq_ok_iff.mp h
    cases h
    exact (legibleLeaves_of_ofTree l htl hl).append (legibleLeaves_of_ofTree r htr hr)

theorem legibleLeaves_of_ofTrees : (ts : List Tree) →
    (∀ token ∈ Tree.leavesAll ts, token.Lexed) → {es : List Expr} → ofTrees ts = .ok es →
    LegibleLeaves (constsAll es) (namesAll es)
  | [], _, es, h => by
    cases h
    exact .nil
  | t :: rest, ht, es, h => by
    obtain ⟨htree, hrest⟩ := List.forall_mem_append.mp ht
    obtain ⟨e, he, h⟩ := bind_eq_ok_iff.mp h
    obtain ⟨es', hes, h⟩ := bind_eq_ok_iff.mp h
    cases h
    exact (legibleLeaves_of_ofTree t htree he).append (legibleLeaves_of_ofTrees rest hrest hes)

end

mutual

/-- An expression is as high as its tree: a member has no place for its name below it. -/
theorem height_of_ofTree : (t : Tree) → {e : Expr} → ofTree t = .ok e → e.height = t.height
  | .literal kind text span, e, h => by
    rw [ofTree] at h
    split at h
    · cases h
      rfl
    · exact nomatch h
  | .var name span, e, h => by
    cases h
    rfl
  | .call name args span, e, h => by
    obtain ⟨es, hes, h⟩ := bind_eq_ok_iff.mp h
    cases h
    rw [height, Tree.height, heights_of_ofTrees args hes]
  | .index base i span, e, h => by
    obtain ⟨ebase, hbase, h⟩ := bind_eq_ok_iff.mp h
    obtain ⟨ei, hi, h⟩ := bind_eq_ok_iff.mp h
    cases h
    rw [height, Tree.height, height_of_ofTree base hbase, height_of_ofTree i hi]
  | .member base name span, e, h => by
    obtain ⟨ebase, hbase, h⟩ := bind_eq_ok_iff.mp h
    cases h
    rw [height, height, Tree.height, height_of_ofTree base hbase,
      Nat.max_eq_left base.height_pos]
  | .unary op operand span, e, h => by
    obtain ⟨eoperand, hoperand, h⟩ := bind_eq_ok_iff.mp h
    cases h
    rw [height, Tree.height, height_of_ofTree operand hoperand]
  | .binary op l r span, e, h => by
    obtain ⟨el, hl, h⟩ := bind_eq_ok_iff.mp h
    obtain ⟨er, hr, h⟩ := bind_eq_ok_iff.mp h
    cases h
    rw [height, Tree.height, height_of_ofTree l hl, height_of_ofTree r hr]

theorem heights_of_ofTrees : (ts : List Tree) → {es : List Expr} → ofTrees ts = .ok es →
    heights es = Tree.heights ts
  | [], es, h => by
    cases h
    rfl
  | t :: rest, es, h => by
    obtain ⟨e, he, h⟩ := bind_eq_ok_iff.mp h
    obtain ⟨es', hes, h⟩ := bind_eq_ok_iff.mp h
    cases h
    rw [heights, Tree.heights, height_of_ofTree t he, heights_of_ofTrees rest hes]

end

/-- **The leaves of expressions that are read**, which also keep the bound on heights. -/
theorem legibleLeaves_of_ofSource {source : String} {e : Expr} (h : ofSource source = .ok e) :
    LegibleLeaves e.consts e.names ∧ e.height ≤ maxDepth := by
  obtain ⟨t, ht, htree⟩ := exists_tree_of_ofSource h
  obtain ⟨lexemes, hlex, hread⟩ := bind_eq_ok_iff.mp ht
  obtain ⟨⟨d, hd⟩, hheight⟩ := Grammar.derives_of_ofLexemes hread
  have hlexed := Lexeme.lexed_of_ofSource hlex
  refine ⟨legibleLeaves_of_ofTree t (fun token htoken => ?_) htree, ?_⟩
  · exact hlexed token (hd.leaves_sublist.subset (t.leaves_bare ▸ htoken))
  · rw [height_of_ofTree t htree]
    exact hheight

end Expr

end Formulary
