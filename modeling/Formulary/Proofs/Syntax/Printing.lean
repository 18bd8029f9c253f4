import Formulary.Proofs.Number.ReadBack
import Formulary.Proofs.Syntax.Completeness

/-!
# What is printed is read back

An expression that is printed and read again is the same expression, places aside, unless it is too
deep to be read at all.

## Scope

A decimal is read back where its text is digits only. The scale of a decimal is part of what is
printed, and a positive decimal whose text has a point or an exponent is read as a double, also
where it is a whole number.

## Implementation notes

The printed text is followed through the three stages of reading. It is lexed into the tokens that
`Expr.tokens` lists, parentheses included. These derive the parse tree `Expr.tree`: an expression
has a nonterminal of its own, `Expr.category`, and a child stands without parentheses just where its
nonterminal is at least as tight as the one its place asks for. The value of every literal is the
constant it was printed from.

## Main definitions

* `Expr.consts`, `Expr.names` — the constants and the names of an expression
* `Expr.Equal` — the same expression up to places
* `Expr.tokens`, `Expr.tree`, `Expr.category`, `Expr.nesting` — the tokens, the parse tree, the
  nonterminal and the depth of nesting of the printed text

## Main results

* `Expr.reads_print` — the text is lexed into the tokens
* `Expr.derives_nesting` — the tokens derive the tree, at the depth of nesting
* `Expr.ofTree_of_bare` — the tree stands for the expression
* `Expr.ofSource_print_decimal` — a decimal whose text has a point or an exponent is read as a double
* `Expr.ofSource_print` — what is printed is read back
-/

namespace Formulary.Expr

open Grammar
open Lexeme (Reads Delimited Anything IsName)

/-! ### Leaves and equality -/

mutual

/-- The constants of an expression. -/
def consts : Expr → List Value
  | const v _ => [v]
  | var .. => []
  | call _ args _ => constsAll args
  | index base i _ => consts base ++ consts i
  | unary _ operand _ => consts operand
  | binary _ l r _ => consts l ++ consts r

/-- The constants of expressions. -/
def constsAll : List Expr → List Value
  | [] => []
  | e :: rest => consts e ++ constsAll rest

end

mutual

/-- The names of the variables and functions of an expression. -/
def names : Expr → List String
  | const .. => []
  | var name _ => [name]
  | call name args _ => name :: namesAll args
  | index base i _ => names base ++ names i
  | unary _ operand _ => names operand
  | binary _ l r _ => names l ++ names r

/-- The names of expressions. -/
def namesAll : List Expr → List String
  | [] => []
  | e :: rest => names e ++ namesAll rest

end

/-- Constants and names that the lexer reads as they are printed. -/
structure PrintableLeaves (consts : List Value) (names : List String) : Prop where
  /-- Every constant has a literal. -/
  consts : ∀ v ∈ consts, v.Printable
  /-- Every name is read as one. -/
  names : ∀ name ∈ names, IsName name

section

variable {cs ds : List Value} {ms ns : List String}

theorem PrintableLeaves.left (h : PrintableLeaves (cs ++ ds) (ms ++ ns)) : PrintableLeaves cs ms :=
  ⟨fun v hv => h.consts v (List.mem_append_left _ hv),
    fun name hn => h.names name (List.mem_append_left _ hn)⟩

theorem PrintableLeaves.right (h : PrintableLeaves (cs ++ ds) (ms ++ ns)) :
    PrintableLeaves ds ns :=
  ⟨fun v hv => h.consts v (List.mem_append_right _ hv),
    fun name hn => h.names name (List.mem_append_right _ hn)⟩

theorem PrintableLeaves.head {name : String} (h : PrintableLeaves cs (name :: ns)) : IsName name :=
  h.names name (List.mem_cons_self ..)

theorem PrintableLeaves.tail {name : String} (h : PrintableLeaves cs (name :: ns)) :
    PrintableLeaves cs ns :=
  ⟨h.consts, fun n hn => h.names n (List.mem_cons_of_mem _ hn)⟩

end

mutual

/-- The same expression up to places. -/
def Equal : Expr → Expr → Prop
  | const v _, const w _ => v.Equal w
  | var name _, var name' _ => name = name'
  | call name args _, call name' args' _ => name = name' ∧ EqualAll args args'
  | index base i _, index base' i' _ => Equal base base' ∧ Equal i i'
  | unary op operand _, unary op' operand' _ => op = op' ∧ Equal operand operand'
  | binary op l r _, binary op' l' r' _ => op = op' ∧ Equal l l' ∧ Equal r r'
  | _, _ => False

/-- The same expressions up to places. -/
def EqualAll : List Expr → List Expr → Prop
  | [], [] => True
  | e :: es, e' :: es' => Equal e e' ∧ EqualAll es es'
  | _, _ => False

end

/-! ### Tokens and trees of printed texts -/

/-- Tokens, in parentheses or not. -/
def enclosedTokens (parens : Bool) (ts : List Token) : List Token :=
  if parens then .leftParen :: (ts ++ [.rightParen]) else ts

/-- The token of an operator before an operand. -/
def unaryToken : UnaryOp → Token
  | .positive => .operator .add
  | .negative => .operator .sub
  | .not => .not

mutual

/-- The tokens of the printed text. -/
def tokens : Expr → List Token
  | const v _ => [.literal (Literal.kindOf v) (constText v)]
  | var name _ => [.identifier name]
  | call name args _ =>
    .identifier name :: .leftParen :: ([Token.comma].intercalate (tokensAll args) ++ [.rightParen])
  | index base i _ =>
    enclosedTokens base.isOperation (tokens base) ++
      .leftBracket :: (tokens i ++ [.rightBracket])
  | unary op operand _ =>
    unaryToken op :: enclosedTokens (unaryNeedsParens op operand) (tokens operand)
  | binary op l r _ =>
    enclosedTokens (binaryNeedsParens op l) (tokens l) ++
      .operator op :: enclosedTokens (rightNeedsParens op r) (tokens r)

/-- The tokens of several printed texts. -/
def tokensAll : List Expr → List (List Token)
  | [] => []
  | e :: rest => tokens e :: tokensAll rest

end

mutual

/-- The parse tree of the printed text, without places. -/
def tree : Expr → Tree
  | const v _ => .literal (Literal.kindOf v) (constText v) default
  | var name _ => .var name default
  | call name args _ => .call name (trees args) default
  | index base i _ => .index (tree base) (tree i) default
  | unary op operand _ => .unary op (tree operand) default
  | binary op l r _ => .binary op (tree l) (tree r) default

/-- The parse trees of several printed texts. -/
def trees : List Expr → List Tree
  | [] => []
  | e :: rest => tree e :: trees rest

end

/-- The depth of nesting of tokens that stand in parentheses or not. -/
def enclosedNesting (parens : Bool) (d : Nat) : Nat := if parens then d + 1 else d

mutual

/-- How many levels the printed text nests below its own: for brackets, arguments, operators before
an operand, and for the parentheses that are printed. -/
def nesting : Expr → Nat
  | const .. | var .. => 0
  | call _ args _ => nestingAll args
  | index base i _ => max (enclosedNesting base.isOperation (nesting base)) (nesting i + 1)
  | unary op operand _ => enclosedNesting (unaryNeedsParens op operand) (nesting operand) + 1
  | binary op l r _ =>
    max (enclosedNesting (binaryNeedsParens op l) (nesting l))
      (enclosedNesting (rightNeedsParens op r) (nesting r))

/-- How many levels the printed texts of arguments nest, their own being the first. -/
def nestingAll : List Expr → Nat
  | [] => 0
  | e :: rest => max (nesting e + 1) (nestingAll rest)

end

/-! ### Lexing -/

theorem delimited_cons {c : Char} (rest : List Char) (h : c ∈ Lexeme.delimiters) :
    Delimited (c :: rest) := by
  rintro _ ⟨⟩
  exact h

theorem reads_mark {c : Char} {token : Token} (h : Lexeme.singleToken? c = some token)
    (hdot : c ≠ '.') (hpair : ∀ d, Lexeme.pairToken? c d = none) : Reads Anything [c] [token] :=
  Lexeme.reads_single h hdot fun rest _ => by
    cases rest with
    | nil => rfl
    | cons d rest => exact hpair d

/-- A text between two marks, the second of which ends it. -/
theorem reads_between {l r : Char} {first last : Token} {text : List Char} {ts : List Token}
    (hl : Reads Anything [l] [first]) (hr : Reads Anything [r] [last])
    (hmark : r ∈ Lexeme.delimiters) (h : Reads Delimited text ts) :
    Reads Anything ([l] ++ (text ++ [r])) ([first] ++ (ts ++ [last])) := by
  have hinner := h.append hr fun rest _ => delimited_cons rest hmark
  exact hl.append hinner fun _ _ => trivial

theorem reads_parens {text : List Char} {ts : List Token} (h : Reads Delimited text ts) :
    Reads Anything (['('] ++ (text ++ [')'])) (.leftParen :: (ts ++ [.rightParen])) :=
  reads_between (reads_mark rfl (by decide) fun _ => rfl) (reads_mark rfl (by decide) fun _ => rfl)
    (by decide) h

theorem reads_brackets {text : List Char} {ts : List Token} (h : Reads Delimited text ts) :
    Reads Anything (['['] ++ (text ++ [']'])) (.leftBracket :: (ts ++ [.rightBracket])) :=
  reads_between (reads_mark rfl (by decide) fun _ => rfl) (reads_mark rfl (by decide) fun _ => rfl)
    (by decide) h

theorem reads_enclosed {text : String} {ts : List Token} (parens : Bool)
    (h : Reads Delimited text.toList ts) :
    Reads Delimited (enclosed parens text).toList (enclosedTokens parens ts) := by
  cases parens with
  | false => exact h
  | true =>
    simp only [enclosed, enclosedTokens, if_true, String.toList_append]
    exact (reads_parens h).mono fun _ _ => trivial

theorem reads_symbol (op : BinaryOp) : Reads Delimited op.symbol.toList [.operator op] := by
  have alone : ∀ {c : Char} {token : Token}, Lexeme.singleToken? c = some token → c ≠ '.' →
      (∀ d ∈ Lexeme.delimiters, Lexeme.pairToken? c d = none) → Reads Delimited [c] [token] := by
    intro c token h hdot hpair
    refine Lexeme.reads_single h hdot fun rest hrest => ?_
    cases rest with
    | nil => rfl
    | cons d rest => exact hpair d (hrest d rfl)
  have two : ∀ {c d : Char} {token : Token}, Lexeme.pairToken? c d = some token →
      Reads Delimited [c, d] [token] :=
    fun h => (Lexeme.reads_pair h).mono fun _ _ => trivial
  have word : ∀ (c : Char) {text : List Char}, Text.isBlank c = false → c.isDigit = false →
      Text.isIdentifierStart c = true → text.all Text.isIdentifierContinue = true →
      Reads Delimited (c :: text) [Lexeme.wordToken (String.ofList (c :: text))] :=
    fun _ _ hblank hdigit hstart htext =>
      Lexeme.reads_word hblank hdigit hstart (List.all_eq_true.mp htext)
  cases op with
  | add | sub | mul | div | lt | gt =>
    exact alone rfl (by decide) (Text.forall_mem_of_all (by decide))
  | le | eq | ne | ge | and | or => exact two rfl
  | startsWith => exact word 's' rfl rfl rfl (by decide)
  | endsWith => exact word 'e' rfl rfl rfl (by decide)
  | contains => exact word 'c' rfl rfl rfl (by decide)
  | fullMatch => exact word 'm' rfl rfl rfl (by decide)

/-- The text does not begin with an equals sign, which would make a token with an operator before
it. -/
def Unglued (text : List Char) : Prop := ∃ c rest, text = c :: rest ∧ c ≠ '='

theorem Unglued.append {text : List Char} (h : Unglued text) (text' : List Char) :
    Unglued (text ++ text') := by
  obtain ⟨c, rest, rfl, hc⟩ := h
  exact ⟨c, rest ++ text', rfl, hc⟩

theorem unglued_enclosed {text : String} (parens : Bool) (h : Unglued text.toList) :
    Unglued (enclosed parens text).toList := by
  cases parens with
  | false => exact h
  | true =>
    simp only [enclosed, if_true, String.toList_append]
    exact ⟨'(', _, rfl, by decide⟩

theorem unglued_digits {digits : List Char} (h : Lexeme.Digits digits) : Unglued digits := by
  obtain ⟨c, rest, rfl⟩ := List.exists_cons_of_ne_nil h.1
  refine ⟨c, rest, rfl, ?_⟩
  rintro rfl
  exact absurd (h.2 '=' (List.mem_cons_self ..)) (by decide)

theorem unglued_constText {v : Value} (h : v.Printable) : Unglued (constText v).toList := by
  cases v with
  | boolean b => cases b <;> exact ⟨_, _, rfl, by decide⟩
  | long n =>
    rw [constText, Literal.toList_text_long h]
    · exact unglued_digits (Literal.digits_digitsOf _)
    · simp
  | decimal d =>
    rw [constText, Value.text, (Literal.toList_text_decimal h).1]
    · exact unglued_digits (Literal.digits_wholeDigits d)
    · simp
  | double x =>
    obtain ⟨parts, hparts, hsign⟩ := h
    obtain ⟨whole, fraction, exponent, hnumber, htext, -⟩ := Literal.text_isNumber hparts hsign
    rw [constText, Value.text, htext]
    · exact (unglued_digits hnumber.whole).append _
    · simp
  | string s =>
    rw [constText, quote, String.toList_ofList]
    exact ⟨'\'', _, rfl, by decide⟩
  | _ => exact h.elim

theorem unglued_name {name : String} (h : IsName name) : Unglued name.toList := by
  obtain ⟨c, text, hname, -, -, hstart, -, -⟩ := h.spec
  refine ⟨c, text, hname, ?_⟩
  rintro rfl
  exact absurd hstart (by decide)

theorem unglued_print : (e : Expr) → PrintableLeaves e.consts e.names → Unglued e.print.toList
  | const v _, h => unglued_constText (h.consts v (List.mem_singleton_self v))
  | var name _, h => unglued_name h.head
  | call name args _, h => by
    simp only [print, String.toList_append, List.append_assoc]
    exact (unglued_name (PrintableLeaves.head h)).append _
  | index base i _, h => by
    simp only [print, String.toList_append, List.append_assoc]
    exact (unglued_enclosed _ (unglued_print base (PrintableLeaves.left h))).append _
  | unary op operand _, _ => by
    simp only [print, String.toList_append]
    cases op <;> exact ⟨_, _, rfl, by decide⟩
  | binary op l r _, h => by
    simp only [print, String.toList_append, List.append_assoc]
    exact (unglued_enclosed _ (unglued_print l (PrintableLeaves.left h))).append _

theorem pairToken?_not {d : Char} (h : d ≠ '=') : Lexeme.pairToken? '!' d = none := by
  unfold Lexeme.pairToken?
  split <;> simp_all

theorem reads_unarySymbol (op : UnaryOp) {text : String} {ts : List Token}
    (hglue : Unglued text.toList) (h : Reads Delimited text.toList ts) :
    Reads Delimited (op.symbol ++ text).toList (unaryToken op :: ts) := by
  have hsymbol : Reads (fun rest => rest.head? ≠ some '=') op.symbol.toList [unaryToken op] := by
    cases op with
    | positive => exact (reads_mark rfl (by decide) fun _ => rfl).mono fun _ _ => trivial
    | negative => exact (reads_mark rfl (by decide) fun _ => rfl).mono fun _ _ => trivial
    | not =>
      refine Lexeme.reads_single rfl (by decide) fun rest hrest => ?_
      cases rest with
      | nil => rfl
      | cons d rest =>
        have hd : d ≠ '=' := fun h => hrest (congrArg some h)
        exact pairToken?_not hd
  rw [String.toList_append]
  refine hsymbol.append h fun rest _ => ?_
  obtain ⟨c, text', htext, hc⟩ := hglue
  rw [htext]
  exact fun h => hc (Option.some.inj h)

mutual

/-- The printed text is lexed into its tokens. -/
theorem reads_print : (e : Expr) → PrintableLeaves e.consts e.names →
    Reads Delimited e.print.toList e.tokens
  | const v _, h => Literal.reads_constText (h.consts v (List.mem_singleton_self v))
  | var name _, h => (PrintableLeaves.head h).reads
  | call name args _, h => by
    have hparens := reads_parens (reads_printAll args (PrintableLeaves.tail h))
    have hcall := (PrintableLeaves.head h).reads.append hparens fun rest _ =>
      delimited_cons _ (by decide)
    simp only [print, String.toList_append, List.append_assoc]
    exact hcall.mono fun _ _ => trivial
  | index base i _, h => by
    have hbase := reads_enclosed base.isOperation (reads_print base (PrintableLeaves.left h))
    have hbrackets := reads_brackets (reads_print i (PrintableLeaves.right h))
    have hindex := hbase.append hbrackets fun rest _ => delimited_cons _ (by decide)
    simp only [print, String.toList_append, List.append_assoc]
    exact hindex.mono fun _ _ => trivial
  | unary op operand _, h =>
    reads_unarySymbol op (unglued_enclosed _ (unglued_print operand h))
      (reads_enclosed _ (reads_print operand h))
  | binary op l r _, h => by
    have hblank : Reads Anything [' '] [] := Lexeme.reads_blank rfl
    have hl := reads_enclosed (binaryNeedsParens op l) (reads_print l (PrintableLeaves.left h))
    have hr := reads_enclosed (rightNeedsParens op r) (reads_print r (PrintableLeaves.right h))
    have hright := hblank.append hr fun _ _ => trivial
    have hsymbol := (reads_symbol op).append hright fun rest _ => delimited_cons _ (by decide)
    have hmiddle := hblank.append hsymbol fun _ _ => trivial
    have hbinary := hl.append hmiddle fun rest _ => delimited_cons _ (by decide)
    simp only [print, String.toList_append, List.append_assoc]
    exact hbinary

theorem reads_printAll : (args : List Expr) → PrintableLeaves (constsAll args) (namesAll args) →
    Reads Delimited (", ".intercalate (printAll args)).toList
      ([Token.comma].intercalate (tokensAll args))
  | [], _ => Reads.nil.mono fun _ _ => trivial
  | [e], h => by
    simp only [printAll, tokensAll, String.intercalate_singleton, List.intercalate_singleton]
    exact reads_print e (PrintableLeaves.left h)
  | e :: e' :: rest, h => by
    have hblank : Reads Anything [' '] [] := Lexeme.reads_blank rfl
    have hcomma : Reads Anything [','] [.comma] := reads_mark rfl (by decide) fun _ => rfl
    have he := reads_print e (PrintableLeaves.left h)
    have hrest := reads_printAll (e' :: rest) (PrintableLeaves.right h)
    have hafter := hblank.append hrest fun _ _ => trivial
    have hmore := hcomma.append hafter fun _ _ => trivial
    have hall := he.append hmore fun rest _ => delimited_cons _ (by decide)
    simp only [printAll, tokensAll, String.intercalate_cons_cons, List.intercalate_cons_cons,
      String.toList_append, List.append_assoc]
    exact hall

end

/-! ### Derivations -/

/-- The nonterminals by tightness. -/
def rank : Category → Nat
  | .disjunction => 0
  | .conjunction => 1
  | .negation => 2
  | .relation => 3
  | .sum => 4
  | .product => 5
  | .signed => 6
  | .access => 7
  | .atom => 8

/-- A tree of one nonterminal is a tree of every looser one. -/
theorem derives_looser {c c' : Category} {ts : List Token} {t : Tree} {d : Nat}
    (h : Derives c ts t d) (hrank : rank c' ≤ rank c) : Derives c' ts t d := by
  obtain ⟨n, hn⟩ : ∃ n, rank c = rank c' + n := Nat.exists_eq_add_of_le hrank
  induction n generalizing c' with
  | zero =>
    have heq : c = c' := by cases c <;> cases c' <;> first | rfl | exact absurd hn (by decide)
    exact heq ▸ h
  | succ n ih =>
    -- one step: the nonterminal that is next in tightness
    have step : ∀ next, rank next = rank c' + 1 → Derives next ts t d :=
      fun next hnext => ih (by omega) (by omega)
    cases c' with
    | disjunction => exact .operand rfl (step .conjunction rfl)
    | conjunction => exact .operand rfl (step .negation rfl)
    | negation => exact .unnegated (step .relation rfl)
    | relation => exact .operand rfl (step .sum rfl)
    | sum => exact .operand rfl (step .product rfl)
    | product => exact .operand rfl (step .signed rfl)
    | signed => exact .unsigned (step .access rfl)
    | access => exact .base (step .atom rfl)
    | atom => cases c <;> exact absurd hn (by simp only [rank]; omega)

/-- The nonterminal of the trees of an operator. -/
def chainOf : BinaryOp → Category
  | .or => .disjunction
  | .and => .conjunction
  | .add | .sub => .sum
  | .mul | .div => .product
  | _ => .relation

/-- The nonterminal of the printed text. -/
def category : Expr → Category
  | const .. | var .. | call .. => .atom
  | index .. => .access
  | unary .not _ _ => .negation
  | unary .. => .signed
  | binary op _ _ _ => chainOf op

/-- Tightness follows precedence, except that negations come between. -/
theorem rank_chainOf (op : BinaryOp) :
    (op.precedence < 3 ∧ rank (chainOf op) + 1 = op.precedence) ∨
      (3 ≤ op.precedence ∧ op.precedence ≤ 5 ∧ rank (chainOf op) = op.precedence) := by
  cases op <;> decide

/-- The nonterminal of the right operands of an operator is next in tightness. -/
theorem chain?_chainOf (op : BinaryOp) : ∃ ops operand, (chainOf op).chain? = some (ops, operand) ∧
    op ∈ ops ∧ rank operand = rank (chainOf op) + 1 := by
  cases op <;> exact ⟨_, _, rfl, by decide, rfl⟩

theorem derives_enclosed (c' : Category) {c : Category} {ts : List Token} {t : Tree} {d : Nat}
    {parens : Bool} (h : Derives c ts t d) (hparens : parens = false → rank c' ≤ rank c) :
    Derives c' (enclosedTokens parens ts) t (enclosedNesting parens d) := by
  cases parens with
  | false => exact derives_looser h (hparens rfl)
  | true =>
    have hwhole : Derives .disjunction ts t d := derives_looser h (Nat.zero_le _)
    exact derives_looser (.parens hwhole) (by cases c' <;> decide)

/-- The nonterminal of the operands of an operator before them. -/
def operandOf : UnaryOp → Category
  | .not => .negation
  | _ => .signed

theorem derives_unary (op : UnaryOp) {ts : List Token} {t : Tree} {d : Nat}
    (h : Derives (operandOf op) ts t d) :
    Derives (operandOf op) (unaryToken op :: ts) (.unary op t default) (d + 1) := by
  cases op with
  | positive => exact .positive h
  | negative => exact .negative h
  | not => exact .not h

theorem rank_operand {op : UnaryOp} {e : Expr} (h : unaryNeedsParens op e = false) :
    rank (operandOf op) ≤ rank e.category := by
  cases e with
  | binary => exact nomatch h
  | unary child operand s =>
    cases child with
    | not =>
      cases op with
      | not => exact Nat.le_refl 2
      | positive | negative => exact nomatch h
    | positive | negative =>
      show rank (operandOf op) ≤ 6
      cases op <;> decide
  | const | var | call | index => cases op <;> simp [category, operandOf, rank]

theorem rank_le_of_not_isOperation {e : Expr} (h : e.isOperation = false) :
    7 ≤ rank e.category := by
  cases e with
  | unary | binary => exact nomatch h
  | const | var | call | index => simp [category, rank]

/-- What is no chain itself is tighter than a chain that it stands in without parentheses. -/
theorem rank_lt_of_not_binary {op : BinaryOp} {e : Expr} (h : binaryNeedsParens op e = false)
    (hbinary : ∀ child l r s, e ≠ binary child l r s) : rank (chainOf op) < rank e.category := by
  have hop := rank_chainOf op
  cases e with
  | binary child l r s => exact absurd rfl (hbinary child l r s)
  | unary child operand s =>
    cases child with
    | not =>
      have hloose : ¬3 ≤ op.precedence := of_decide_eq_false h
      show rank (chainOf op) < 2
      omega
    | positive | negative =>
      show rank (chainOf op) < 6
      omega
  | index base i s =>
    show rank (chainOf op) < 7
    omega
  | const | var | call =>
    show rank (chainOf op) < 8
    omega

theorem rank_left {op : BinaryOp} {e : Expr} (h : binaryNeedsParens op e = false) :
    rank (chainOf op) ≤ rank e.category := by
  cases e with
  | binary child l r s =>
    simp only [binaryNeedsParens, BinaryOp.relational, Bool.or_eq_false_iff,
      decide_eq_false_iff_not, Bool.and_eq_false_iff, beq_eq_false_iff_ne] at h
    have hop := rank_chainOf op
    have hchild := rank_chainOf child
    rw [category]
    omega
  | const | var | call | index | unary => exact Nat.le_of_lt (rank_lt_of_not_binary h (by simp))

theorem rank_right {op : BinaryOp} {e : Expr} (h : rightNeedsParens op e = false) :
    rank (chainOf op) < rank e.category := by
  cases e with
  | binary child l r s =>
    simp only [rightNeedsParens, binaryNeedsParens, BinaryOp.relational, Bool.or_eq_false_iff,
      decide_eq_false_iff_not, beq_eq_false_iff_ne] at h
    have hop := rank_chainOf op
    have hchild := rank_chainOf child
    rw [category]
    omega
  | const | var | call | index | unary => exact rank_lt_of_not_binary h (by simp)

/-- Arguments after a first one. -/
theorem derivesArguments_cons {ts : List Token} {t : Tree} {d : Nat}
    (h : Derives .disjunction ts t d) {us : List Token} {args : List Tree} {d' : Nat}
    (hargs : DerivesArguments us args d') :
    DerivesArguments (ts ++ .comma :: us) (t :: args) (max (d + 1) d') := by
  cases hargs with
  | one h' => exact (DerivesArguments.one h).more h'
  | more h₁ h₂ =>
    have hmore := (derivesArguments_cons h h₁).more h₂
    rwa [List.append_assoc, List.cons_append, Nat.max_assoc] at hmore
termination_by args.length
decreasing_by simp

mutual

/-- The tokens of the printed text derive its tree, at the depth of its nesting. -/
theorem derives_nesting : (e : Expr) → Derives e.category e.tokens e.tree e.nesting
  | const v _ => .literal _ _
  | var name _ => .var name
  | call name args _ => by
    rcases derives_nestingAll args with rfl | hargs
    · exact .nullary name
    · exact .call name hargs
  | index base i _ => by
    have hbase := derives_enclosed .access (derives_nesting base) rank_le_of_not_isOperation
    exact .index hbase (derives_looser (derives_nesting i) (Nat.zero_le _))
  | unary op operand _ => by
    have h := derives_enclosed (operandOf op) (derives_nesting operand) rank_operand
    have hunary := derives_unary op h
    cases op <;> exact hunary
  | binary op l r _ => by
    obtain ⟨ops, operand, hc, hop, hrank⟩ := chain?_chainOf op
    have hl := derives_enclosed (chainOf op) (derives_nesting l) rank_left
    have hr := derives_enclosed operand (derives_nesting r) fun h => hrank ▸ rank_right h
    exact .link hc hop hl hr

theorem derives_nestingAll : (args : List Expr) → args = [] ∨
    DerivesArguments ([Token.comma].intercalate (tokensAll args)) (trees args) (nestingAll args)
  | [] => .inl rfl
  | [e] => by
    have h : Derives .disjunction (tokens e) (tree e) (nesting e) :=
      derives_looser (derives_nesting e) (Nat.zero_le _)
    rw [tokensAll, tokensAll, List.intercalate_singleton, nestingAll, nestingAll, Nat.max_zero]
    exact .inr (.one h)
  | e :: e' :: rest => by
    have h : Derives .disjunction (tokens e) (tree e) (nesting e) :=
      derives_looser (derives_nesting e) (Nat.zero_le _)
    rcases derives_nestingAll (e' :: rest) with hnil | hrest
    · exact nomatch hnil
    · rw [tokensAll, tokensAll, List.intercalate_cons_cons, List.append_assoc]
      exact .inr (derivesArguments_cons h hrest)

end

theorem derives_tokens (e : Expr) : ∃ d, Derives e.category e.tokens e.tree d :=
  ⟨_, derives_nesting e⟩

/-! ### From trees to expressions -/

mutual

/-- A tree that is the expression's up to places stands for the expression. -/
theorem ofTree_of_bare : (e : Expr) → {t : Tree} → t.bare = e.tree →
    (∀ v ∈ e.consts, Literal.IsRestored v) → ∃ e', ofTree t = .ok e' ∧ e'.Equal e
  | const v _, t, ht, h => by
    cases t with
    | literal kind text span =>
      cases ht
      obtain ⟨w, hw, hequal⟩ := h v (List.mem_singleton_self v)
      exact ⟨const w span, by rw [ofTree, hw], hequal⟩
    | _ => exact nomatch ht
  | var name _, t, ht, _ => by
    cases t with
    | var name' span =>
      cases ht
      exact ⟨var name span, rfl, rfl⟩
    | _ => exact nomatch ht
  | call name args _, t, ht, h => by
    cases t with
    | call name' ts span =>
      injection ht with hname hts
      obtain ⟨args', hargs, hequal⟩ := ofTrees_of_bare args hts h
      refine ⟨call name' args' span, ?_, hname, hequal⟩
      rw [ofTree, hargs]
      rfl
    | _ => exact nomatch ht
  | index base i _, t, ht, h => by
    cases t with
    | index tbase ti span =>
      injection ht with hbase hi
      obtain ⟨hconsts, hconsts'⟩ := List.forall_mem_append.mp h
      obtain ⟨base', hbase', hequal⟩ := ofTree_of_bare base hbase hconsts
      obtain ⟨i', hi', hequal'⟩ := ofTree_of_bare i hi hconsts'
      refine ⟨index base' i' span, ?_, hequal, hequal'⟩
      rw [ofTree, hbase', hi']
      rfl
    | _ => exact nomatch ht
  | unary op operand _, t, ht, h => by
    cases t with
    | unary op' ti span =>
      injection ht with hop hi
      obtain ⟨operand', hoperand, hequal⟩ := ofTree_of_bare operand hi h
      refine ⟨unary op' operand' span, ?_, hop, hequal⟩
      rw [ofTree, hoperand]
      rfl
    | _ => exact nomatch ht
  | binary op l r _, t, ht, h => by
    cases t with
    | binary op' tl tr span =>
      injection ht with hop hl hr
      obtain ⟨hconsts, hconsts'⟩ := List.forall_mem_append.mp h
      obtain ⟨l', hl', hequal⟩ := ofTree_of_bare l hl hconsts
      obtain ⟨r', hr', hequal'⟩ := ofTree_of_bare r hr hconsts'
      refine ⟨binary op' l' r' span, ?_, hop, hequal, hequal'⟩
      rw [ofTree, hl', hr']
      rfl
    | _ => exact nomatch ht

theorem ofTrees_of_bare : (es : List Expr) → {ts : List Tree} → Tree.bareAll ts = trees es →
    (∀ v ∈ constsAll es, Literal.IsRestored v) → ∃ es', ofTrees ts = .ok es' ∧ EqualAll es' es
  | [], ts, hts, _ => by
    cases ts with
    | nil => exact ⟨[], rfl, trivial⟩
    | cons => exact nomatch hts
  | e :: rest, ts, hts, h => by
    cases ts with
    | nil => exact nomatch hts
    | cons t ts =>
      injection hts with ht hts
      obtain ⟨hconsts, hconsts'⟩ := List.forall_mem_append.mp h
      obtain ⟨e', he, hequal⟩ := ofTree_of_bare e ht hconsts
      obtain ⟨rest', hrest, hequal'⟩ := ofTrees_of_bare rest hts hconsts'
      refine ⟨e' :: rest', ?_, hequal, hequal'⟩
      rw [ofTrees, he, hrest]
      rfl

end

/-! ### Reading back -/

/-- An expression that is read stands for the tree of its source. -/
theorem exists_tree_of_ofSource {source : String} {e : Expr} (h : ofSource source = .ok e) :
    ∃ t, Tree.ofSource source = .ok (some t) ∧ ofTree t = .ok e := by
  rw [ofSource] at h
  split at h
  · cases h
  · cases h
  · next t ht =>
    cases htree : ofTree t with
    | error fault =>
      rw [htree] at h
      cases h
    | ok e' =>
      rw [htree] at h
      cases h
      exact ⟨t, ht, htree⟩

/-- A source that derives the tree of an expression is read as the expression, or refused as too
deep. -/
theorem ofSource_of_derives {e : Expr} {source : String} {ls : List Lexeme} {d : Nat}
    (hlex : Lexeme.ofSource source = .ok ls)
    (hderives : Derives .disjunction (ls.map Lexeme.token) e.tree d)
    (hconsts : ∀ v ∈ e.consts, Literal.IsRestored v) :
    (d < maxDepth ∧ e.tree.height ≤ maxDepth ∧ ∃ e', ofSource source = .ok e' ∧ e'.Equal e) ∨
      (¬(d < maxDepth ∧ e.tree.height ≤ maxDepth) ∧
        ∃ fault, ofSource source = .error (.located fault) ∧ fault.code = .expressionTooDeep) := by
  rw [ofSource, Tree.ofSource, hlex]
  rcases hderives.ofLexemes with ⟨hdepth, hheight, t, ht, hread⟩ | ⟨hfits, fault, hread, hcode⟩
  · obtain ⟨e', he, hequal⟩ := ofTree_of_bare e ht hconsts
    refine .inl ⟨hdepth, hheight, e', ?_, hequal⟩
    simp only [ok_bind, hread, he]
    rfl
  · refine .inr ⟨hfits, fault, ?_, hcode⟩
    simp only [ok_bind, hread]

/-- An expression whose leaves are printable is refused as too deep or read back. -/
theorem ofSource_print_of_printable (e : Expr) (hconsts : ∀ v ∈ e.consts, v.Printable)
    (hnames : ∀ name ∈ e.names, IsName name)
    (hdoubles : ∀ x, .double x ∈ e.consts → Double.read? (Double.text x).toList = some x) :
    (∃ fault, Expr.ofSource e.print = .error fault ∧ fault.stage = .parse ∧
      fault.code = .expressionTooDeep) ∨
    ∃ e', Expr.ofSource e.print = .ok e' ∧ e'.Equal e := by
  have hend : Delimited [] := nofun
  obtain ⟨lexemes, hlex, htokens⟩ := (reads_print e ⟨hconsts, hnames⟩).ofSource hend
  obtain ⟨d, hd⟩ := derives_tokens e
  have hwhole : Derives .disjunction (lexemes.map Lexeme.token) e.tree d :=
    htokens ▸ derives_looser hd (Nat.zero_le _)
  rw [ofSource, Tree.ofSource, hlex]
  rcases hwhole.ofLexemes with ⟨-, -, t, ht, hread⟩ | ⟨-, fault, hread, hcode⟩
  · obtain ⟨e', he, hequal⟩ := ofTree_of_bare e ht fun v hv =>
      Literal.isRestored_of_printable (hconsts v hv) fun x hx => hdoubles x (hx ▸ hv)
    refine .inr ⟨e', ?_, hequal⟩
    simp only [ok_bind, hread, he]
    rfl
  · refine .inl ⟨.located fault, ?_, rfl, hcode⟩
    simp only [ok_bind, hread]

/-! ### Large decimals -/

/-- A source that is one literal is read as its value. -/
theorem ofSource_of_reads_literal {source : String} {kind : LiteralKind} {v : Value}
    (hreads : Reads Delimited source.toList [.literal kind source])
    (hv : Literal.value kind source = .ok v) : ∃ span, ofSource source = .ok (const v span) := by
  obtain ⟨lexemes, hlex, htokens⟩ := hreads.ofSource nofun
  have hderives : Derives .disjunction (lexemes.map Lexeme.token)
      (.literal kind source default) 0 :=
    htokens ▸ derives_looser (.literal kind source) (Nat.zero_le _)
  rw [ofSource, Tree.ofSource, hlex]
  rcases hderives.ofLexemes with ⟨-, -, t, ht, hread⟩ | ⟨hfits, -⟩
  · cases t with
    | literal kind' text span =>
      obtain ⟨rfl, rfl⟩ : kind' = kind ∧ text = source := by
        injection ht with hkind htext
        exact ⟨hkind, htext⟩
      refine ⟨span, ?_⟩
      simp only [ok_bind, hread, ofTree, hv]
      rfl
    | _ => exact nomatch ht
  · have hheight : Tree.height (.literal kind source default) ≤ maxDepth := by
      rw [Tree.height]
      decide
    exact absurd ⟨by decide, hheight⟩ hfits

/-- With a point or an exponent, the text of a decimal is that of a double. -/
theorem ofSource_print_decimal {d : Decimal} (hpos : 0 < d.unscaled)
    (hleading : d.scale - Number.digitCount d.unscaled.natAbs ≤ Decimal.maxLeadingZeros)
    (hscale : ¬(-Decimal.maxTrailingZeros ≤ d.scale ∧ d.scale ≤ 0)) (span : Span) :
    ∃ x place, ofSource (const (.decimal d) span).print = .ok (const (.double x) place) := by
  obtain ⟨whole, fraction, exponent, hnumber, htext, hreal, e, he⟩ :=
    Literal.decimal_isNumber hpos hleading hscale
  have hreads := hnumber.reads
  rw [Literal.isReal_of_isNumber hnumber hreal, if_pos rfl, ← htext, String.ofList_toList]
    at hreads
  have hmagnitude := Literal.readMagnitude?_of_isNumber hnumber he
  obtain ⟨c, cs, rfl⟩ := List.exists_cons_of_ne_nil hnumber.whole.1
  have hdigit : c.isDigit = true := hnumber.whole.2 c (List.mem_cons_self ..)
  have hvalue : Literal.value .real d.text = .ok (.double (Double.ofScientific
      (Number.valueOf (c :: cs ++ fraction.tail)) (e - fraction.tail.length))) := by
    have hread := Double.read?_of_head (.inl hdigit) false (cs ++ (fraction ++ exponent))
    rw [if_neg Bool.false_ne_true, ← List.cons_append, hmagnitude] at hread
    rw [Literal.value, htext, hread]
    rfl
  exact ⟨_, ofSource_of_reads_literal hreads hvalue⟩

/-- A whole decimal beyond the longs is printable just where neither a point nor an exponent is
called for. -/
theorem printable_decimal_iff {d : Decimal} {n : Int} (hn : 2 ^ 63 - 1 < n)
    (h : d.equiv ⟨n, 0⟩ = true) :
    (Value.decimal d).Printable ↔ -Decimal.maxTrailingZeros ≤ d.scale ∧ d.scale ≤ 0 := by
  obtain ⟨hpos, -, hwhole⟩ := Literal.leading_of_equiv (by omega) h
  constructor
  · intro hd
    exact Literal.scale_of_digits hpos hd.1
  · rintro ⟨htrailing, hscale⟩
    refine ⟨?_, hwhole hscale ▸ hn⟩
    rw [Literal.toList_text_of_scale hpos htrailing hscale]
    exact Literal.digits_wholeDigits d

/-! ### Reading back as a whole -/

/-- **What is printed is read back.** An expression whose leaves are printable is either refused as
too deep or read back as the same expression, places aside. The texts of its doubles are assumed to
read back as these doubles. Of the whole decimals beyond the longs those of certain scales are
printable, and all others are read back as doubles. -/
theorem ofSource_print :
    (∀ e : Expr, (∀ v ∈ e.consts, v.Printable) → (∀ name ∈ e.names, IsName name) →
      (∀ x, .double x ∈ e.consts → Double.read? (Double.text x).toList = some x) →
      (∃ fault, Expr.ofSource e.print = .error fault ∧ fault.stage = .parse ∧
        fault.code = .expressionTooDeep) ∨
      ∃ e', Expr.ofSource e.print = .ok e' ∧ e'.Equal e) ∧
    ∀ (d : Decimal) (n : Int) (span : Span), 2 ^ 63 - 1 < n → d.equiv ⟨n, 0⟩ = true →
      ((Value.decimal d).Printable ↔ -Decimal.maxTrailingZeros ≤ d.scale ∧ d.scale ≤ 0) ∧
      (¬ (Value.decimal d).Printable →
        ∃ x place, ofSource (const (.decimal d) span).print = .ok (const (.double x) place)) := by
  refine ⟨ofSource_print_of_printable, fun d n span hn h => ?_⟩
  have hiff := printable_decimal_iff hn h
  refine ⟨hiff, fun hd => ?_⟩
  obtain ⟨hpos, hleading, -⟩ := Literal.leading_of_equiv (by omega) h
  exact ofSource_print_decimal hpos hleading (fun hscale => hd (hiff.mpr hscale)) span

/-- A difference inside a difference, with a call, an escaped quote and a number beyond the longs:
it is printed with one pair of parentheses of its own. -/
def nestedDifference : Expr :=
  .binary .sub (.var "a" default)
    (.binary .sub (.call "f" [.const (.string "it's") default] default)
      (.const (.decimal ⟨9223372036854775808, 0⟩) default) default) default

/-- The difference is read back. A number beyond the longs that is printed with a point is not. -/
theorem ofSource_print_nestedDifference :
    ((∃ fault, Expr.ofSource nestedDifference.print = .error fault ∧ fault.stage = .parse ∧
      fault.code = .expressionTooDeep) ∨
    ∃ e', Expr.ofSource nestedDifference.print = .ok e' ∧ e'.Equal nestedDifference) ∧
    ∃ x place, ofSource (const (.decimal ⟨92233720368547758080, 1⟩) default).print =
      .ok (const (.double x) place) := by
  have hconsts : nestedDifference.consts =
      [.string "it's", .decimal ⟨9223372036854775808, 0⟩] := rfl
  have hnames : nestedDifference.names = ["a", "f"] := rfl
  refine ⟨ofSource_print.1 nestedDifference ?_ ?_ ?_, ?_⟩
  · rw [hconsts]
    intro v hv
    simp only [List.mem_cons, List.not_mem_nil, or_false] at hv
    rcases hv with rfl | rfl
    · trivial
    · have hiff := printable_decimal_iff (d := ⟨9223372036854775808, 0⟩)
        (n := 9223372036854775808) (by decide) (by decide)
      exact hiff.mpr ⟨by decide, by decide⟩
  · rw [hnames]
    intro name hn
    simp only [List.mem_cons, List.not_mem_nil, or_false] at hn
    unfold IsName
    rcases hn with rfl | rfl <;> decide
  · rw [hconsts]
    intro x hx
    simp only [List.mem_cons, List.not_mem_nil, or_false] at hx
    rcases hx with hx | hx <;> exact nomatch hx
  · obtain ⟨hiff, hread⟩ := ofSource_print.2 ⟨92233720368547758080, 1⟩ 9223372036854775808 default
      (by decide) (by decide)
    exact hread fun hd => absurd (hiff.mp hd) (by decide)

/-- **Not every whole decimal beyond the longs is read back.** A one with thirty zeros that are left
to the scale is printed with an exponent, and read as a double. -/
theorem not_ofSource_print_exponent :
    (2 ^ 63 - 1 : Int) < 10 ^ 30 ∧ Decimal.equiv ⟨1, -30⟩ ⟨10 ^ 30, 0⟩ = true ∧
      ∃ e, ofSource (const (.decimal ⟨1, -30⟩) default).print = .ok e ∧
        ¬ e.Equal (const (.decimal ⟨1, -30⟩) default) := by
  obtain ⟨x, place, hread⟩ := ofSource_print_decimal (d := ⟨1, -30⟩) (by decide) (by decide)
    (by decide) default
  refine ⟨by decide, by decide, _, hread, ?_⟩
  rintro (h | ⟨a, b, h, -⟩) <;> exact nomatch h

end Formulary.Expr
