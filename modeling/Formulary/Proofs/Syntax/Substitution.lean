import Formulary.Proofs.Syntax.Printing

/-!
# Texts in the place of names

Names of a source can be replaced by the texts of expressions, in parentheses. What is read then is
the expression with these expressions in the place of its variables, or the text is refused as too
deep.

## Scope

The sources here are templates: variables under operators. In others a name need not be that of a
variable, as it can stand before an argument list or behind a point.

## Implementation notes

Parentheses end by themselves, whatever follows them, and nothing that stands before one is
prolonged by it. So the texts do not run into what is around them, and each lexeme of the source is
either kept or replaced by the lexemes of a text.

## Main definitions

* `Lexeme.replaceNames` — a source with texts in the place of its names
* `Expr.IsTemplate` — variables under operators
* `Expr.substitute` — expressions in the place of variables

## Main results

* `Lexeme.lexed_replaceNamesFrom` — names are replaced lexeme by lexeme
* `Grammar.Derives.substitute` — tokens of atoms in the place of names derive the substituted tree
* `Expr.ofSource_replaceNames` — what is read from the text is the substituted expression
-/

namespace Formulary

/-! ### Texts -/

namespace Lexeme

open Text

/-- What stands for the item that begins with a character: the text of a name, and else the
characters of the item. -/
def replaced (text : String → String) (c : Char) (rest : List Char) : List Char :=
  match (item 0 c rest).1 with
  | .ok ⟨.identifier name, _, _⟩ => (text name).toList
  | _ => c :: rest.take (item 0 c rest).2

/-- A text with others in the place of its names, after `skip` characters that belong to the item
before. -/
def replaceNamesFrom (text : String → String) : (skip : Nat) → List Char → List Char
  | _, [] => []
  | skip + 1, _ :: rest => replaceNamesFrom text skip rest
  | 0, c :: rest =>
    if isBlank c then c :: replaceNamesFrom text 0 rest
    else replaced text c rest ++ replaceNamesFrom text (item 0 c rest).2 rest

/-- A source with texts in the place of its names. -/
def replaceNames (text : String → String) (source : String) : String :=
  String.ofList (replaceNamesFrom text 0 source.toList)

end Lexeme

/-! ### Tokens -/

namespace Token

/-- The tokens that templates are made of. -/
def Plain : Token → Prop
  | identifier _ | operator _ | not | leftParen | rightParen => True
  | _ => False

/-- Tokens in the place of a name. -/
def replaceName (tokens : String → List Token) : Token → List Token
  | identifier name => tokens name
  | token => [token]

end Token

namespace Lexeme

open Text

section

variable {offset : Nat} {c : Char} {rest : List Char} {l : Lexeme}

/-- A plain item is a word, as long as it goes on, or two characters that are a token together, or
one that is a token alone. -/
theorem item_cases (h : (item offset c rest).1 = .ok l) (hplain : l.token.Plain) :
    (c.isDigit = false ∧ isIdentifierStart c = true ∧
      l.token = wordToken (String.ofList (c :: rest.takeWhile isIdentifierContinue)) ∧
      (item offset c rest).2 = (rest.takeWhile isIdentifierContinue).length) ∨
    (∃ d tail, rest = d :: tail ∧ pairToken? c d = some l.token ∧ (item offset c rest).2 = 1) ∨
    (rest.head?.bind (pairToken? c) = none ∧ singleToken? c = some l.token ∧ c ≠ '.' ∧
      (item offset c rest).2 = 0) := by
  unfold item at h ⊢
  split at h
  · cases h
    exact hplain.elim
  · next hnumber =>
    rw [if_neg hnumber]
    split at h
    · unfold quotedText at h
      split at h
      · cases h
        exact hplain.elim
      · cases h
    · next hquote =>
      rw [if_neg hquote]
      split at h
      · next hstart =>
        rw [if_pos hstart]
        cases h
        simp only [startsNumber, Bool.or_eq_true, not_or, Bool.not_eq_true] at hnumber
        exact .inl ⟨hnumber.1, hstart, rfl, rfl⟩
      · next hstart =>
        rw [if_neg hstart]
        split at h
        · next token hpair =>
          cases h
          obtain ⟨d, hd, hpair'⟩ := Option.bind_eq_some_iff.mp hpair
          obtain ⟨tail, rfl⟩ := List.head?_eq_some_iff.mp hd
          rw [hpair]
          exact .inr (.inl ⟨d, tail, rfl, hpair', rfl⟩)
        · next hpair =>
          split at h
          · next token hsingle =>
            cases h
            rw [hpair, hsingle]
            refine .inr (.inr ⟨rfl, rfl, ?_, rfl⟩)
            rintro rfl
            cases hsingle
            exact hplain.elim
          · cases h

/-- What an item is does not depend on where it stands. -/
theorem item_offset (offset offset' : Nat) (c : Char) (rest : List Char) :
    (item offset' c rest).2 = (item offset c rest).2 ∧
      (item offset' c rest).1.toOption.map Lexeme.token =
        (item offset c rest).1.toOption.map Lexeme.token := by
  unfold item
  by_cases hnumber : startsNumber c rest.head? = true
  · rw [if_pos hnumber, if_pos hnumber]
    exact ⟨rfl, rfl⟩
  rw [if_neg hnumber, if_neg hnumber]
  by_cases hquote : (c == '\'' || c == '"') = true
  · rw [if_pos hquote, if_pos hquote, quotedText, quotedText]
    cases Quoted.body? c rest <;> exact ⟨rfl, rfl⟩
  rw [if_neg hquote, if_neg hquote]
  by_cases hstart : isIdentifierStart c = true
  · rw [if_pos hstart, if_pos hstart]
    exact ⟨rfl, rfl⟩
  rw [if_neg hstart, if_neg hstart]
  cases rest.head?.bind (pairToken? c) with
  | some token => exact ⟨rfl, rfl⟩
  | none => cases singleToken? c <;> exact ⟨rfl, rfl⟩

end

section

variable {text : String → String} {tokens : String → List Token}

theorem replaceNamesFrom_eq (text : String → String) (skip : Nat) (cs : List Char) :
    replaceNamesFrom text skip cs = replaceNamesFrom text 0 (cs.drop skip) := by
  induction cs generalizing skip with
  | nil => cases skip <;> rfl
  | cons c rest ih =>
    cases skip with
    | zero => rfl
    | succ skip => exact ih skip

/-- A text in the place of a name begins with a parenthesis; all else is kept. -/
theorem head?_replaceNamesFrom (hparen : ∀ name, (text name).toList.head? = some '(')
    (cs : List Char) : ∀ d ∈ (replaceNamesFrom text 0 cs).head?, d ∈ cs.head? ∨ d = '(' := by
  intro d hd
  cases cs with
  | nil => exact nomatch hd
  | cons c rest =>
    rw [replaceNamesFrom] at hd
    split at hd
    · exact .inl hd
    · unfold replaced at hd
      split at hd
      · next name _ _ _ =>
        obtain ⟨tail, htext⟩ := List.head?_eq_some_iff.mp (hparen name)
        rw [htext] at hd
        exact .inr (Option.some.inj hd).symm
      · exact .inl hd

/-- Nothing makes a token with a parenthesis. -/
theorem pairToken?_paren (c : Char) : pairToken? c '(' = none := by
  unfold pairToken?
  split <;> first | rfl | simp_all

/-- What follows a word does not continue it. -/
theorem not_continue_of_head? (cs : List Char) :
    ∀ d ∈ (cs.drop (cs.takeWhile isIdentifierContinue).length).head?,
      isIdentifierContinue d = false := by
  have hdrop : cs.drop (cs.takeWhile isIdentifierContinue).length =
      cs.dropWhile isIdentifierContinue := by
    have hsplit := congrArg (List.drop (cs.takeWhile isIdentifierContinue).length)
      (List.takeWhile_append_dropWhile (p := isIdentifierContinue) (l := cs))
    rw [List.drop_left] at hsplit
    exact hsplit.symm
  rw [hdrop]
  intro d hd
  have hhead := List.head?_dropWhile_not isIdentifierContinue cs
  rw [Option.mem_def.mp hd] at hhead
  exact hhead

/-- An item is replaced where its token is a name, and else kept. -/
theorem replaced_cases (text : String → String) (tokens : String → List Token) {offset : Nat}
    {c : Char} {rest : List Char} {l : Lexeme} (hitem : (item offset c rest).1 = .ok l) :
    (∃ name, replaced text c rest = (text name).toList ∧
        l.token.replaceName tokens = tokens name) ∨
      (replaced text c rest = c :: rest.take (item offset c rest).2 ∧
        l.token.replaceName tokens = [l.token]) := by
  obtain ⟨hskip, htoken⟩ := item_offset offset 0 c rest
  rw [hitem] at htoken
  rw [replaced, hskip]
  cases hitem₀ : (item 0 c rest).1 with
  | error fault =>
    rw [hitem₀] at htoken
    cases htoken
  | ok l₀ =>
    rw [hitem₀] at htoken
    obtain ⟨token₀, start, stop⟩ := l₀
    obtain rfl : token₀ = l.token := Option.some.inj htoken
    cases l.token with
    | identifier name => exact .inl ⟨name, rfl, rfl⟩
    | _ => exact .inr ⟨rfl, rfl⟩

/-- A plain item is read as its token also before a parenthesis, in the place of what follows it. -/
theorem reads_kept {offset : Nat} {c : Char} {rest after : List Char} {l : Lexeme}
    (hblank : isBlank c = false) (hitem : (item offset c rest).1 = .ok l) (hplain : l.token.Plain)
    (hafter : ∀ d ∈ after.head?, d ∈ (rest.drop (item offset c rest).2).head? ∨ d = '(') :
    ∃ next, Reads next (c :: rest.take (item offset c rest).2) [l.token] ∧ next after := by
  rcases item_cases hitem hplain with ⟨hdigit, hstart, htoken, hlength⟩ |
    ⟨d, tail, rfl, hpair, hlength⟩ | ⟨hnone, hsingle, hdot, hlength⟩
  · have hword : rest.take (rest.takeWhile isIdentifierContinue).length =
        rest.takeWhile isIdentifierContinue :=
      (List.prefix_iff_eq_take.mp (List.takeWhile_prefix _)).symm
    rw [hlength] at hafter ⊢
    rw [hword, htoken]
    refine ⟨_, reads_word_before hblank hdigit hstart (List.all_eq_true.mp List.all_takeWhile), ?_⟩
    intro d hd
    rcases hafter d hd with hd | rfl
    · exact not_continue_of_head? rest d hd
    · decide
  · rw [hlength]
    exact ⟨Anything, reads_pair hpair, trivial⟩
  · rw [hlength] at hafter ⊢
    refine ⟨_, reads_single hsingle hdot fun rest h => h, ?_⟩
    cases hhead : after.head? with
    | none => rfl
    | some d =>
      rcases hafter d hhead with hd | rfl
      · rw [List.drop_zero] at hd
        rwa [Option.mem_def.mp hd] at hnone
      · exact pairToken?_paren c

/-- What stands for a plain item is read as what stands for its token, before what follows it. -/
theorem reads_replaced (hparen : ∀ name, (text name).toList.head? = some '(')
    (htext : ∀ name, Reads Anything (text name).toList (tokens name)) {offset : Nat} {c : Char}
    {rest : List Char} {l : Lexeme} (hblank : isBlank c = false)
    (hitem : (item offset c rest).1 = .ok l) (hplain : l.token.Plain) :
    ∃ next, Reads next (replaced text c rest) (l.token.replaceName tokens) ∧
      next (replaceNamesFrom text (item offset c rest).2 rest) := by
  rcases replaced_cases text tokens hitem with ⟨name, hreplaced, htokens⟩ | ⟨hkept, htokens⟩
  · rw [hreplaced, htokens]
    exact ⟨Anything, htext name, trivial⟩
  · rw [hkept, htokens, replaceNamesFrom_eq]
    exact reads_kept hblank hitem hplain (head?_replaceNamesFrom hparen _)

/-- **Names are replaced lexeme by lexeme.** -/
theorem lexed_replaceNamesFrom (hparen : ∀ name, (text name).toList.head? = some '(')
    (htext : ∀ name, Reads Anything (text name).toList (tokens name)) (cs : List Char) :
    ∀ {skip offset : Nat} {ls : List Lexeme}, itemsFrom offset skip cs = ls.map Except.ok →
      (∀ l ∈ ls, l.token.Plain) → ∀ offset', ∃ ls' : List Lexeme,
        ls'.map Lexeme.token = (ls.map Lexeme.token).flatMap (Token.replaceName tokens) ∧
        itemsFrom offset' 0 (replaceNamesFrom text skip cs) = ls'.map Except.ok := by
  -- by characters, as the lexer goes; the offsets in the two texts part at the first name
  induction cs with
  | nil =>
    intro skip offset ls h _ offset'
    obtain rfl := List.map_eq_nil_iff.mp h.symm
    refine ⟨[], rfl, ?_⟩
    cases skip <;> rfl
  | cons c rest ih =>
    intro skip offset ls h hplain offset'
    cases skip with
    | succ skip => exact ih h hplain offset'
    | zero =>
      rw [itemsFrom] at h
      rw [replaceNamesFrom]
      split at h
      · next hblank =>
        rw [if_pos hblank, itemsFrom, if_pos hblank]
        exact ih h hplain _
      · next hblank =>
        rw [if_neg hblank]
        cases ls with
        | nil => exact absurd h (List.cons_ne_nil _ _)
        | cons l ls =>
          rw [List.map_cons] at h
          obtain ⟨hitem, hrest⟩ := List.cons.inj h
          rw [List.forall_mem_cons] at hplain
          rw [(item_offset offset 0 c rest).1]
          obtain ⟨next, hreads, hnext⟩ := reads_replaced hparen htext (by simpa using hblank) hitem
            hplain.1
          obtain ⟨lexemes, hlexemes, hread⟩ := hreads offset' _ hnext
          obtain ⟨ls', htokens, hitems⟩ := ih hrest hplain.2 _
          refine ⟨lexemes ++ ls', ?_, ?_⟩
          · rw [List.map_append, hlexemes, htokens, List.map_cons, List.flatMap_cons]
          · rw [hread, hitems, List.map_append]

/-- So the text is lexed where the source is. -/
theorem ofSource_replaceNames_eq_ok (hparen : ∀ name, (text name).toList.head? = some '(')
    (htext : ∀ name, Reads Anything (text name).toList (tokens name)) {source : String}
    {ls : List Lexeme} (h : Lexeme.ofSource source = .ok ls) (hplain : ∀ l ∈ ls, l.token.Plain) :
    ∃ ls', Lexeme.ofSource (replaceNames text source) = .ok ls' ∧
      ls'.map Lexeme.token = (ls.map Lexeme.token).flatMap (Token.replaceName tokens) := by
  have hitems : itemsFrom 0 0 source.toList = ls.map Except.ok := eq_map_ok_of_mapM h
  obtain ⟨ls', htokens, hitems'⟩ := lexed_replaceNamesFrom hparen htext _ hitems hplain 0
  refine ⟨ls', ?_, htokens⟩
  rw [Lexeme.ofSource, items, replaceNames, String.toList_ofList, hitems', mapM_map_ok]

end

end Lexeme

/-! ### Trees -/

namespace Tree

/-- Variables under operators. -/
def IsTemplate : Tree → Prop
  | var .. => True
  | unary _ operand _ => IsTemplate operand
  | binary _ l r _ => IsTemplate l ∧ IsTemplate r
  | _ => False

/-- Trees in the place of the variables of a template. -/
def substitute (leaf : String → Tree) : Tree → Tree
  | var name _ => leaf name
  | unary op operand span => unary op (substitute leaf operand) span
  | binary op l r span => binary op (substitute leaf l) (substitute leaf r) span
  | t => t

end Tree

namespace Grammar

/-- The tokens of a template are plain. -/
theorem Derives.plain : ∀ {c : Category} {ts : List Token} {t : Tree} {d : Nat},
    Derives c ts t d → t.IsTemplate → ∀ token ∈ ts, token.Plain
  | _, _, _, _, .operand _ h, ht | _, _, _, _, .unnegated h, ht | _, _, _, _, .unsigned h, ht
  | _, _, _, _, .base h, ht => h.plain ht
  | _, _, _, _, .link _ _ hl hr, ht => by
    rw [List.forall_mem_append, List.forall_mem_cons]
    exact ⟨hl.plain ht.1, trivial, hr.plain ht.2⟩
  | _, _, _, _, .not h, ht | _, _, _, _, .positive h, ht | _, _, _, _, .negative h, ht =>
    List.forall_mem_cons.mpr ⟨trivial, h.plain ht⟩
  | _, _, _, _, .var _, _ => List.forall_mem_singleton.mpr trivial
  | _, _, _, _, .parens h, ht => by
    rw [List.forall_mem_cons, List.forall_mem_append, List.forall_mem_singleton]
    exact ⟨trivial, h.plain ht, trivial⟩
  | _, _, _, _, .index _ _, ht | _, _, _, _, .member _ _, ht | _, _, _, _, .literal _ _, ht
  | _, _, _, _, .nullary _, ht | _, _, _, _, .call _ _, ht => ht.elim

/-- With the tokens of atoms in the place of its names, a template derives the tree with these atoms
in the place of its variables. -/
theorem Derives.substitute {tokens : String → List Token} {leaf : String → Tree}
    (hleaf : ∀ name, ∃ d, Derives .atom (tokens name) (leaf name) d) :
    ∀ {c : Category} {ts : List Token} {t : Tree} {d : Nat}, Derives c ts t d → t.IsTemplate →
      ∃ d', Derives c (ts.flatMap (Token.replaceName tokens)) (t.substitute leaf) d'
  | _, _, _, _, .operand hc h, ht => by
    obtain ⟨d', hd⟩ := h.substitute hleaf ht
    exact ⟨d', .operand hc hd⟩
  | _, _, _, _, .link hc hop hl hr, ht => by
    obtain ⟨d₁, hd₁⟩ := hl.substitute hleaf ht.1
    obtain ⟨d₂, hd₂⟩ := hr.substitute hleaf ht.2
    rw [List.flatMap_append, List.flatMap_cons]
    exact ⟨max d₁ d₂, .link hc hop hd₁ hd₂⟩
  | _, _, _, _, .not h, ht => by
    obtain ⟨d', hd⟩ := h.substitute hleaf ht
    exact ⟨d' + 1, .not hd⟩
  | _, _, _, _, .unnegated h, ht => by
    obtain ⟨d', hd⟩ := h.substitute hleaf ht
    exact ⟨d', .unnegated hd⟩
  | _, _, _, _, .positive h, ht => by
    obtain ⟨d', hd⟩ := h.substitute hleaf ht
    exact ⟨d' + 1, .positive hd⟩
  | _, _, _, _, .negative h, ht => by
    obtain ⟨d', hd⟩ := h.substitute hleaf ht
    exact ⟨d' + 1, .negative hd⟩
  | _, _, _, _, .unsigned h, ht => by
    obtain ⟨d', hd⟩ := h.substitute hleaf ht
    exact ⟨d', .unsigned hd⟩
  | _, _, _, _, .base h, ht => by
    obtain ⟨d', hd⟩ := h.substitute hleaf ht
    exact ⟨d', .base hd⟩
  | _, _, _, _, .var name, _ => by
    rw [List.flatMap_singleton]
    exact hleaf name
  | _, _, _, _, .parens h, ht => by
    obtain ⟨d', hd⟩ := h.substitute hleaf ht
    rw [List.flatMap_cons, List.flatMap_append, List.flatMap_singleton]
    exact ⟨d' + 1, .parens hd⟩
  | _, _, _, _, .index _ _, ht | _, _, _, _, .member _ _, ht | _, _, _, _, .literal _ _, ht
  | _, _, _, _, .nullary _, ht | _, _, _, _, .call _ _, ht => ht.elim

end Grammar

/-! ### Expressions -/

namespace Expr

open Lexeme (Reads Anything Delimited replaceNames)
open Grammar

/-- Variables under operators. -/
def IsTemplate : Expr → Prop
  | var .. => True
  | unary _ operand _ => IsTemplate operand
  | binary _ l r _ => IsTemplate l ∧ IsTemplate r
  | _ => False

/-- Expressions in the place of the variables of a template. -/
def substitute (leaf : String → Expr) : Expr → Expr
  | var name _ => leaf name
  | unary op operand span => unary op (substitute leaf operand) span
  | binary op l r span => binary op (substitute leaf l) (substitute leaf r) span
  | e => e

/-- The text of an expression in parentheses. -/
def parenthesized (e : Expr) : String := "(" ++ e.print ++ ")"

/-- The tokens of that text. -/
def parenthesizedTokens (e : Expr) : List Token := .leftParen :: (e.tokens ++ [.rightParen])

section

variable {leaf : String → Expr}

theorem head?_parenthesized (e : Expr) : e.parenthesized.toList.head? = some '(' := by
  rw [parenthesized, String.toList_append, String.toList_append]
  rfl

theorem reads_parenthesized {e : Expr} (h : PrintableLeaves e.consts e.names) :
    Reads Anything e.parenthesized.toList e.parenthesizedTokens := by
  have hparens := reads_parens (reads_print e h)
  simp only [parenthesized, String.toList_append, List.append_assoc]
  exact hparens

theorem derives_parenthesized (e : Expr) : ∃ d, Derives .atom e.parenthesizedTokens e.tree d := by
  obtain ⟨d, hd⟩ := derives_tokens e
  exact ⟨d + 1, .parens (derives_looser hd (Nat.zero_le _))⟩

/-- The constants of what is substituted. -/
theorem mem_consts_substitute {v : Value} : (e : Expr) → e.IsTemplate →
    v ∈ (e.substitute leaf).consts → ∃ name, v ∈ (leaf name).consts
  | .var name _, _, hv => ⟨name, hv⟩
  | .unary _ operand _, h, hv => mem_consts_substitute operand h hv
  | .binary _ l r _, h, hv =>
    (List.mem_append.mp hv).elim (mem_consts_substitute l h.1) (mem_consts_substitute r h.2)

/-- A tree that stands for a template is the tree of it. -/
theorem tree_of_ofTree : (t : Tree) → {e : Expr} → ofTree t = .ok e → e.IsTemplate →
    t.bare = e.tree
  | .literal kind text span, e, h, he => by
    rw [ofTree] at h
    split at h
    · cases h
      exact he.elim
    · cases h
  | .var name span, e, h, _ => by
    cases h
    rfl
  | .call name args span, e, h, he => by
    obtain ⟨args', -, h⟩ := bind_eq_ok_iff.mp h
    cases h
    exact he.elim
  | .index base i span, e, h, he => by
    obtain ⟨base', -, h⟩ := bind_eq_ok_iff.mp h
    obtain ⟨i', -, h⟩ := bind_eq_ok_iff.mp h
    cases h
    exact he.elim
  | .member base name span, e, h, he => by
    obtain ⟨base', -, h⟩ := bind_eq_ok_iff.mp h
    cases h
    exact he.elim
  | .unary op operand span, e, h, he => by
    obtain ⟨operand', hoperand, h⟩ := bind_eq_ok_iff.mp h
    cases h
    rw [Tree.bare, tree, tree_of_ofTree operand hoperand he]
  | .binary op l r span, e, h, he => by
    obtain ⟨l', hl, h⟩ := bind_eq_ok_iff.mp h
    obtain ⟨r', hr, h⟩ := bind_eq_ok_iff.mp h
    cases h
    rw [Tree.bare, tree, tree_of_ofTree l hl he.1, tree_of_ofTree r hr he.2]

/-- The tree of a template is one. -/
theorem isTemplate_tree : (e : Expr) → e.IsTemplate → e.tree.IsTemplate
  | .var .., _ => trivial
  | .unary _ operand _, he => isTemplate_tree operand he
  | .binary _ l r _, he => ⟨isTemplate_tree l he.1, isTemplate_tree r he.2⟩

/-- The tree of the substituted expression is the substituted tree. -/
theorem tree_substitute : (e : Expr) → e.IsTemplate →
    (e.substitute leaf).tree = e.tree.substitute fun name => (leaf name).tree
  | .var .., _ => rfl
  | .unary _ operand _, he => by
    rw [substitute, tree, tree, Tree.substitute, tree_substitute operand he]
  | .binary _ l r _, he => by
    rw [substitute, tree, tree, Tree.substitute, tree_substitute l he.1, tree_substitute r he.2]

/-- **Texts in the place of names.** A template in which names are replaced by the texts of
expressions, in parentheses, is refused as too deep or read as the expression with these expressions
in the place of its variables. -/
theorem ofSource_replaceNames (hleaf : ∀ name, PrintableLeaves (leaf name).consts (leaf name).names)
    (hconsts : ∀ name, ∀ v ∈ (leaf name).consts, Literal.IsRestored v) {source : String} {e : Expr}
    (h : ofSource source = .ok e) (he : e.IsTemplate) :
    (∃ fault, ofSource (replaceNames (fun name => (leaf name).parenthesized) source) =
        .error (.located fault) ∧ fault.code = .expressionTooDeep) ∨
      ∃ e', ofSource (replaceNames (fun name => (leaf name).parenthesized) source) = .ok e' ∧
        e'.Equal (e.substitute leaf) := by
  obtain ⟨t, ht, htree⟩ := exists_tree_of_ofSource h
  obtain ⟨ls, hlex, hparse⟩ := bind_eq_ok_iff.mp ht
  obtain ⟨⟨d, hd⟩, -⟩ := derives_of_ofLexemes hparse
  rw [tree_of_ofTree t htree he] at hd
  have htemplate := isTemplate_tree e he
  have hplain : ∀ l ∈ ls, l.token.Plain := fun l hl =>
    hd.plain htemplate l.token (List.mem_map_of_mem hl)
  obtain ⟨ls', hlex', htokens⟩ := Lexeme.ofSource_replaceNames_eq_ok
    (fun name => head?_parenthesized (leaf name)) (fun name => reads_parenthesized (hleaf name))
    hlex hplain
  obtain ⟨d', hd'⟩ := hd.substitute (fun name => derives_parenthesized (leaf name)) htemplate
  rw [← htokens, ← tree_substitute e he] at hd'
  have hrestored : ∀ v ∈ (e.substitute leaf).consts, Literal.IsRestored v := by
    intro v hv
    obtain ⟨name, hv⟩ := mem_consts_substitute e he hv
    exact hconsts name v hv
  rcases ofSource_of_derives hlex' hd' hrestored with ⟨-, -, hread⟩ | ⟨-, hdeep⟩
  · exact .inr hread
  · exact .inl hdeep

end

end Expr

end Formulary
