import Formulary.Proofs.Syntax.Leaves

/-!
# Printing what was read

An expression that was read from a source is printed, and the printed text is read. Nothing is
assumed of the source but that it is accepted. There are two ways in which the text may not be read
as the expression.

The printed text may be refused. It is nested as deeply as `Expr.nesting` says, which can be more
than the source was: operands of `not` and of relations are printed in parentheses that the source
did not need. And a number beyond the largest double is the infinite double, which has no literal.
It is printed as `inf`, and that is the name of a variable.

Beside these the text is read as the same expression.

## Main definitions

* `Expr.replaceConsts`, `Expr.bare` — other leaves in the place of constants, and no places
* `Expr.reread` — what is read from the printed text, as long as it is not refused
* `Mention`, `Expr.mentions` — the variables and functions that an expression mentions

## Main results

* `Expr.print_replaceConsts` — leaves with the same texts make the same text
* `Expr.bare_of_equal` — equal expressions that were read differ in places only
* `Expr.ofSource_print_ofSource` — what the printed text of an accepted source is read as
-/

namespace Formulary

/-- Values of literals are equal only if they are the same, since decimals have no places. -/
theorem Value.Legible.eq_of_equal {v w : Value} (hv : v.Legible) (hw : w.Legible)
    (h : v.Equal w) : v = w := by
  rcases h with h | ⟨a, b, rfl, rfl, h⟩
  · exact h
  · obtain ⟨hscale, -⟩ := hv
    obtain ⟨hscale', -⟩ := hw
    have hone : Decimal.tenPow (max 0 0 - 0) = 1 := rfl
    rw [Decimal.equiv, Decimal.compare_eq, Decimal.compareAligned, Decimal.unscaledAt_eq,
      Decimal.unscaledAt_eq, hscale, hscale', hone, Int.mul_one, Int.mul_one, beq_iff_eq,
      Std.LawfulEqCmp.compare_eq_iff_eq] at h
    rw [Decimal.eq_of_scale_eq h (hscale.trans hscale'.symm)]

/-- A name, as that of a variable or of a function. -/
inductive Mention
  | var (name : String)
  | call (name : String)
  deriving DecidableEq, Repr

/-- The name alone. -/
def Mention.name : Mention → String
  | var name | call name => name

namespace Expr

open Lexeme (Reads Delimited Anything IsName)

/-! ### Other leaves for constants -/

mutual

/-- The expression with other leaves in the place of its constants, and without its places. -/
def replaceConsts (leaf : Value → Expr) : Expr → Expr
  | const v _ => leaf v
  | var name _ => var name default
  | call name args _ => call name (replaceConstsAll leaf args) default
  | index base i _ => index (replaceConsts leaf base) (replaceConsts leaf i) default
  | unary op operand _ => unary op (replaceConsts leaf operand) default
  | binary op l r _ => binary op (replaceConsts leaf l) (replaceConsts leaf r) default

/-- The expressions with other leaves in the place of their constants. -/
def replaceConstsAll (leaf : Value → Expr) : List Expr → List Expr
  | [] => []
  | e :: rest => replaceConsts leaf e :: replaceConstsAll leaf rest

end

/-- The expression without its places. -/
def bare (e : Expr) : Expr := e.replaceConsts (const · default)

/-- The expressions without their places. -/
def bareAll (es : List Expr) : List Expr := replaceConstsAll (const · default) es

/-- The name that the printed text of the infinite double is read as. -/
def infinityName : String := "inf"

/-- What is read from the printed text of a constant. -/
def rereadConst : Value → Expr
  | .double x => if Double.isFinite x then const (.double x) default else var infinityName default
  | v => const v default

/-- What is read from the printed text, places aside: infinite doubles have become variables. -/
def reread (e : Expr) : Expr := e.replaceConsts rereadConst

/-- The expression is a constant or a variable. -/
def IsLeaf (e : Expr) : Prop := (∃ v s, e = const v s) ∨ ∃ name s, e = var name s

theorem isLeaf_const (v : Value) : (const v default).IsLeaf := .inl ⟨v, _, rfl⟩

theorem isLeaf_rereadConst (v : Value) : (rereadConst v).IsLeaf := by
  cases v with
  | double x =>
    rw [rereadConst]
    split
    · exact isLeaf_const _
    · exact .inr ⟨_, _, rfl⟩
  | _ => exact isLeaf_const _

section

variable {leaf : Value → Expr}

theorem isOperation_replaceConsts (hleaf : ∀ v, (leaf v).IsLeaf) (e : Expr) :
    (e.replaceConsts leaf).isOperation = e.isOperation := by
  cases e with
  | const v s => rcases hleaf v with ⟨_, _, h⟩ | ⟨_, _, h⟩ <;> rw [replaceConsts, h] <;> rfl
  | _ => rfl

theorem unaryNeedsParens_replaceConsts (hleaf : ∀ v, (leaf v).IsLeaf) (op : UnaryOp) (e : Expr) :
    unaryNeedsParens op (e.replaceConsts leaf) = unaryNeedsParens op e := by
  cases e with
  | const v s => rcases hleaf v with ⟨_, _, h⟩ | ⟨_, _, h⟩ <;> rw [replaceConsts, h] <;> rfl
  | unary child => cases child <;> rfl
  | _ => rfl

theorem binaryNeedsParens_replaceConsts (hleaf : ∀ v, (leaf v).IsLeaf) (op : BinaryOp) (e : Expr) :
    binaryNeedsParens op (e.replaceConsts leaf) = binaryNeedsParens op e := by
  cases e with
  | const v s => rcases hleaf v with ⟨_, _, h⟩ | ⟨_, _, h⟩ <;> rw [replaceConsts, h] <;> rfl
  | unary child => cases child <;> rfl
  | _ => rfl

theorem rightNeedsParens_replaceConsts (hleaf : ∀ v, (leaf v).IsLeaf) (op : BinaryOp) (e : Expr) :
    rightNeedsParens op (e.replaceConsts leaf) = rightNeedsParens op e := by
  cases e with
  | const v s => rcases hleaf v with ⟨_, _, h⟩ | ⟨_, _, h⟩ <;> rw [replaceConsts, h] <;> rfl
  | unary child => cases child <;> rfl
  | _ => rfl

mutual

/-- Leaves with the texts of the constants make the text of the expression. -/
theorem print_replaceConsts (hleaf : ∀ v, (leaf v).IsLeaf) : (e : Expr) →
    (∀ v ∈ e.consts, (leaf v).print = constText v) → (e.replaceConsts leaf).print = e.print
  | const v _, h => h v (List.mem_singleton_self v)
  | var name _, _ => rfl
  | call name args _, h => by
    rw [replaceConsts, print, print, printAll_replaceConsts hleaf args h]
  | index base i _, h => by
    obtain ⟨hbase, hi⟩ := List.forall_mem_append.mp h
    rw [replaceConsts, print, print, isOperation_replaceConsts hleaf,
      print_replaceConsts hleaf base hbase, print_replaceConsts hleaf i hi]
  | unary op operand _, h => by
    rw [replaceConsts, print, print, unaryNeedsParens_replaceConsts hleaf,
      print_replaceConsts hleaf operand h]
  | binary op l r _, h => by
    obtain ⟨hl, hr⟩ := List.forall_mem_append.mp h
    rw [replaceConsts, print, print, binaryNeedsParens_replaceConsts hleaf,
      rightNeedsParens_replaceConsts hleaf, print_replaceConsts hleaf l hl,
      print_replaceConsts hleaf r hr]

theorem printAll_replaceConsts (hleaf : ∀ v, (leaf v).IsLeaf) : (es : List Expr) →
    (∀ v ∈ constsAll es, (leaf v).print = constText v) →
    printAll (replaceConstsAll leaf es) = printAll es
  | [], _ => rfl
  | e :: rest, h => by
    obtain ⟨he, hrest⟩ := List.forall_mem_append.mp h
    rw [replaceConstsAll, printAll, printAll, print_replaceConsts hleaf e he,
      printAll_replaceConsts hleaf rest hrest]

end

mutual

theorem nesting_replaceConsts (hleaf : ∀ v, (leaf v).IsLeaf) : (e : Expr) →
    (e.replaceConsts leaf).nesting = e.nesting
  | const v _ => by
    rcases hleaf v with ⟨_, _, h⟩ | ⟨_, _, h⟩ <;> rw [replaceConsts, h, nesting, nesting]
  | var name _ => rfl
  | call name args _ => nestingAll_replaceConsts hleaf args
  | index base i _ => by
    rw [replaceConsts, nesting, nesting, isOperation_replaceConsts hleaf,
      nesting_replaceConsts hleaf base, nesting_replaceConsts hleaf i]
  | unary op operand _ => by
    rw [replaceConsts, nesting, nesting, unaryNeedsParens_replaceConsts hleaf,
      nesting_replaceConsts hleaf operand]
  | binary op l r _ => by
    rw [replaceConsts, nesting, nesting, binaryNeedsParens_replaceConsts hleaf,
      rightNeedsParens_replaceConsts hleaf, nesting_replaceConsts hleaf l,
      nesting_replaceConsts hleaf r]

theorem nestingAll_replaceConsts (hleaf : ∀ v, (leaf v).IsLeaf) : (es : List Expr) →
    nestingAll (replaceConstsAll leaf es) = nestingAll es
  | [] => rfl
  | e :: rest => by
    rw [replaceConstsAll, nestingAll, nestingAll, nesting_replaceConsts hleaf e,
      nestingAll_replaceConsts hleaf rest]

end

mutual

theorem height_replaceConsts (hleaf : ∀ v, (leaf v).IsLeaf) : (e : Expr) →
    (e.replaceConsts leaf).height = e.height
  | const v _ => by
    rcases hleaf v with ⟨_, _, h⟩ | ⟨_, _, h⟩ <;> rw [replaceConsts, h, height, height]
  | var name _ => rfl
  | call name args _ => by rw [replaceConsts, height, height, heights_replaceConsts hleaf args]
  | index base i _ => by
    rw [replaceConsts, height, height, height_replaceConsts hleaf base,
      height_replaceConsts hleaf i]
  | unary op operand _ => by rw [replaceConsts, height, height, height_replaceConsts hleaf operand]
  | binary op l r _ => by
    rw [replaceConsts, height, height, height_replaceConsts hleaf l, height_replaceConsts hleaf r]

theorem heights_replaceConsts (hleaf : ∀ v, (leaf v).IsLeaf) : (es : List Expr) →
    heights (replaceConstsAll leaf es) = heights es
  | [] => rfl
  | e :: rest => by
    rw [replaceConstsAll, heights, heights, height_replaceConsts hleaf e,
      heights_replaceConsts hleaf rest]

end

mutual

theorem replaceConsts_replaceConsts (leaf leaf' : Value → Expr) : (e : Expr) →
    (e.replaceConsts leaf).replaceConsts leaf' =
      e.replaceConsts fun v => (leaf v).replaceConsts leaf'
  | const .. | var .. => rfl
  | call name args _ => congrArg (call name · default) (replaceConstsAll_replaceConstsAll _ _ args)
  | index base i _ => congrArg₂ (index · · default) (replaceConsts_replaceConsts _ _ base)
    (replaceConsts_replaceConsts _ _ i)
  | unary op operand _ => congrArg (unary op · default) (replaceConsts_replaceConsts _ _ operand)
  | binary op l r _ => congrArg₂ (binary op · · default) (replaceConsts_replaceConsts _ _ l)
    (replaceConsts_replaceConsts _ _ r)

theorem replaceConstsAll_replaceConstsAll (leaf leaf' : Value → Expr) : (es : List Expr) →
    replaceConstsAll leaf' (replaceConstsAll leaf es) =
      replaceConstsAll (fun v => (leaf v).replaceConsts leaf') es
  | [] => rfl
  | e :: rest => congrArg₂ List.cons (replaceConsts_replaceConsts _ _ e)
    (replaceConstsAll_replaceConstsAll _ _ rest)

end

/-- What is read again has no places of its own. -/
theorem bare_reread (e : Expr) : e.reread.bare = e.reread := by
  rw [bare, reread, replaceConsts_replaceConsts]
  congr 1
  funext v
  cases v with
  | double x =>
    rw [rereadConst]
    split <;> rfl
  | _ => rfl

end

/-! ### Names -/

mutual

/-- The variables and functions of an expression. -/
def mentions : Expr → List Mention
  | const .. => []
  | var name _ => [.var name]
  | call name args _ => .call name :: mentionsAll args
  | index base i _ => mentions base ++ mentions i
  | unary _ operand _ => mentions operand
  | binary _ l r _ => mentions l ++ mentions r

/-- The variables and functions of expressions. -/
def mentionsAll : List Expr → List Mention
  | [] => []
  | e :: rest => mentions e ++ mentionsAll rest

end

mutual

theorem names_eq_map_mentions : (e : Expr) → e.names = e.mentions.map Mention.name
  | const .. | var .. => rfl
  | call name args _ => by
    rw [names, mentions, List.map_cons, namesAll_eq_map_mentionsAll args]
    rfl
  | index base i _ => by
    rw [names, mentions, List.map_append, names_eq_map_mentions base, names_eq_map_mentions i]
  | unary op operand _ => names_eq_map_mentions operand
  | binary op l r _ => by
    rw [names, mentions, List.map_append, names_eq_map_mentions l, names_eq_map_mentions r]

theorem namesAll_eq_map_mentionsAll : (es : List Expr) →
    namesAll es = (mentionsAll es).map Mention.name
  | [] => rfl
  | e :: rest => by
    rw [namesAll, mentionsAll, List.map_append, names_eq_map_mentions e,
      namesAll_eq_map_mentionsAll rest]

end

section

variable {leaf : Value → Expr}

mutual

/-- The constants of the other leaves. -/
theorem consts_replaceConsts : (e : Expr) →
    (e.replaceConsts leaf).consts = e.consts.flatMap fun v => (leaf v).consts
  | const v _ => by rw [replaceConsts, consts, List.flatMap_singleton]
  | var name _ => rfl
  | call name args _ => constsAll_replaceConsts args
  | index base i _ => by
    rw [replaceConsts, consts, consts, List.flatMap_append, consts_replaceConsts base,
      consts_replaceConsts i]
  | unary op operand _ => consts_replaceConsts operand
  | binary op l r _ => by
    rw [replaceConsts, consts, consts, List.flatMap_append, consts_replaceConsts l,
      consts_replaceConsts r]

theorem constsAll_replaceConsts : (es : List Expr) →
    constsAll (replaceConstsAll leaf es) = (constsAll es).flatMap fun v => (leaf v).consts
  | [] => rfl
  | e :: rest => by
    rw [replaceConstsAll, constsAll, constsAll, List.flatMap_append, consts_replaceConsts e,
      constsAll_replaceConsts rest]

end

/-- Names on either side, or of either of two lots of constants. -/
theorem mention_append_iff {m : Mention} {ms ns ms' ns' : List Mention} {cs ds : List Value}
    (h : m ∈ ms' ↔ m ∈ ms ∨ ∃ v ∈ cs, m ∈ (leaf v).mentions)
    (h' : m ∈ ns' ↔ m ∈ ns ∨ ∃ v ∈ ds, m ∈ (leaf v).mentions) :
    m ∈ ms' ++ ns' ↔ m ∈ ms ++ ns ∨ ∃ v ∈ cs ++ ds, m ∈ (leaf v).mentions := by
  rw [List.mem_append, List.mem_append, h, h']
  simp only [List.mem_append, or_and_right, exists_or]
  exact or_or_or_comm

mutual

/-- The names of the expression, and those of the other leaves. -/
theorem mem_mentions_replaceConsts {m : Mention} : (e : Expr) →
    (m ∈ (e.replaceConsts leaf).mentions ↔
      m ∈ e.mentions ∨ ∃ v ∈ e.consts, m ∈ (leaf v).mentions)
  | const v _ => by simp [replaceConsts, mentions, consts]
  | var name _ => by simp [replaceConsts, mentions, consts]
  | call name args _ => by
    rw [replaceConsts, mentions, mentions, consts, List.mem_cons, List.mem_cons,
      mem_mentionsAll_replaceConsts args, or_assoc]
  | index base i _ =>
    mention_append_iff (mem_mentions_replaceConsts base) (mem_mentions_replaceConsts i)
  | unary op operand _ => mem_mentions_replaceConsts operand
  | binary op l r _ =>
    mention_append_iff (mem_mentions_replaceConsts l) (mem_mentions_replaceConsts r)

theorem mem_mentionsAll_replaceConsts {m : Mention} : (es : List Expr) →
    (m ∈ mentionsAll (replaceConstsAll leaf es) ↔
      m ∈ mentionsAll es ∨ ∃ v ∈ constsAll es, m ∈ (leaf v).mentions)
  | [] => by simp [replaceConstsAll, mentionsAll, constsAll]
  | e :: rest =>
    mention_append_iff (mem_mentions_replaceConsts e) (mem_mentionsAll_replaceConsts rest)

end

end

/-! ### Expressions that were read -/

mutual

/-- Of expressions that were read, those that are equal differ in places only. -/
theorem bare_of_equal : {e e' : Expr} → (∀ v ∈ e.consts, v.Legible) → (∀ v ∈ e'.consts, v.Legible) →
    e'.Equal e → e'.bare = e.bare
  | const v _, e', h, h', hequal => by
    cases e' with
    | const w _ =>
      have hw : w = v := (h' w (List.mem_singleton_self w)).eq_of_equal
        (h v (List.mem_singleton_self v)) hequal
      rw [hw]
      rfl
    | _ => exact hequal.elim
  | var name _, e', _, _, hequal => by
    cases e' with
    | var name' _ =>
      obtain rfl : name' = name := hequal
      rfl
    | _ => exact hequal.elim
  | call name args _, e', h, h', hequal => by
    cases e' with
    | call name' args' _ =>
      obtain ⟨rfl, hargs⟩ := hequal
      rw [bare, bare, replaceConsts, replaceConsts]
      exact congrArg (call name' · default) (bareAll_of_equal h h' hargs)
    | _ => exact hequal.elim
  | index base i _, e', h, h', hequal => by
    cases e' with
    | index base' i' _ =>
      obtain ⟨hbase, hi⟩ := List.forall_mem_append.mp h
      obtain ⟨hbase', hi'⟩ := List.forall_mem_append.mp h'
      exact congrArg₂ (index · · default) (bare_of_equal hbase hbase' hequal.1)
        (bare_of_equal hi hi' hequal.2)
    | _ => exact hequal.elim
  | unary op operand _, e', h, h', hequal => by
    cases e' with
    | unary op' operand' _ =>
      obtain ⟨rfl, hoperand⟩ := hequal
      exact congrArg (unary op' · default) (bare_of_equal h h' hoperand)
    | _ => exact hequal.elim
  | binary op l r _, e', h, h', hequal => by
    cases e' with
    | binary op' l' r' _ =>
      obtain ⟨hl, hr⟩ := List.forall_mem_append.mp h
      obtain ⟨hl', hr'⟩ := List.forall_mem_append.mp h'
      obtain ⟨rfl, hleft, hright⟩ := hequal
      exact congrArg₂ (binary op' · · default) (bare_of_equal hl hl' hleft)
        (bare_of_equal hr hr' hright)
    | _ => exact hequal.elim

theorem bareAll_of_equal : {es es' : List Expr} → (∀ v ∈ constsAll es, v.Legible) →
    (∀ v ∈ constsAll es', v.Legible) → EqualAll es' es → bareAll es' = bareAll es
  | [], es', _, _, hequal => by
    cases es' with
    | nil => rfl
    | cons => exact hequal.elim
  | e :: rest, es', h, h', hequal => by
    cases es' with
    | nil => exact hequal.elim
    | cons e' rest' =>
      obtain ⟨he, hrest⟩ := List.forall_mem_append.mp h
      obtain ⟨he', hrest'⟩ := List.forall_mem_append.mp h'
      exact congrArg₂ List.cons (bare_of_equal he he' hequal.1)
        (bareAll_of_equal hrest hrest' hequal.2)

end

theorem print_bare (e : Expr) : e.bare.print = e.print :=
  print_replaceConsts isLeaf_const e fun _ _ => rfl

theorem mem_mentions_bare {m : Mention} (e : Expr) : m ∈ e.bare.mentions ↔ m ∈ e.mentions := by
  rw [bare, mem_mentions_replaceConsts]
  simp [mentions]

/-! ### What printed texts are read as -/

mutual

theorem height_tree : (e : Expr) → e.tree.height = e.height
  | const .. | var .. => rfl
  | call name args _ => by rw [tree, Tree.height, height, heights_trees args]
  | index base i _ => by rw [tree, Tree.height, height, height_tree base, height_tree i]
  | unary op operand _ => by rw [tree, Tree.height, height, height_tree operand]
  | binary op l r _ => by rw [tree, Tree.height, height, height_tree l, height_tree r]

theorem heights_trees : (es : List Expr) → Tree.heights (trees es) = heights es
  | [] => rfl
  | e :: rest => by rw [trees, Tree.heights, heights, height_tree e, heights_trees rest]

end

/-- A text of an expression, whether it is the printed one or not, is read as the expression or
refused, as its depth and the height of the expression have it. -/
theorem ofSource_cases {e : Expr} {source : String} {ts : List Token} {d : Nat}
    (hreads : Reads Delimited source.toList ts)
    (hderives : Grammar.Derives .disjunction ts e.tree d) (hheight : e.height ≤ maxDepth)
    (hconsts : ∀ v ∈ e.consts, Literal.IsRestored v) :
    (maxDepth ≤ d ∧ ∃ fault, ofSource source = .error fault ∧ fault.stage = .parse ∧
      fault.code = .expressionTooDeep) ∨
    (d < maxDepth ∧ ∃ e', ofSource source = .ok e' ∧ e'.Equal e) := by
  obtain ⟨lexemes, hlex, rfl⟩ := hreads.ofSource nofun
  rcases ofSource_of_derives hlex hderives hconsts with ⟨hdepth, -, hread⟩ |
    ⟨hfits, fault, hread, hcode⟩
  · exact .inr ⟨hdepth, hread⟩
  · have hdepth : maxDepth ≤ d := by
      rw [height_tree] at hfits
      omega
    exact .inl ⟨hdepth, .located fault, hread, rfl, hcode⟩

/-- The text of the infinite double is a name. -/
theorem print_rereadConst {v : Value} (h : v.Legible) : (rereadConst v).print = constText v := by
  cases v with
  | double x =>
    rw [rereadConst]
    split
    · rfl
    · next hx =>
      rcases h with rfl | ⟨parts, hparts, -⟩
      · rfl
      · rw [Double.isFinite, hparts] at hx
        exact absurd rfl hx
  | _ => rfl

/-- The constants that stay have a literal. -/
theorem consts_rereadConst {v w : Value} (h : v.Legible) (hw : w ∈ (rereadConst v).consts) :
    w = v ∧ v.Printable := by
  cases v with
  | double x =>
    rw [rereadConst] at hw
    split at hw
    · next hx =>
      refine ⟨List.mem_singleton.mp hw, h.printable fun hinf => ?_⟩
      cases hinf
      rw [Double.isFinite_infinity] at hx
      cases hx
    · cases hw
  | _ => exact ⟨List.mem_singleton.mp hw, h.printable nofun⟩

theorem mem_mentions_rereadConst {v : Value} (h : v.Legible) {m : Mention} :
    m ∈ (rereadConst v).mentions ↔ m = .var infinityName ∧ v = .double Double.infinity := by
  cases v with
  | double x =>
    rcases h with rfl | ⟨parts, hparts, hsign⟩
    · simp [rereadConst, Double.isFinite_infinity, mentions]
    · have hfinite : Double.isFinite x = true := by rw [Double.isFinite, hparts, Option.isSome_some]
      have hne : x ≠ Double.infinity := by
        rintro rfl
        rw [Double.isFinite_infinity] at hfinite
        cases hfinite
      simp [rereadConst, hfinite, mentions, hne]
  | _ => simp [rereadConst, mentions]

section

variable {e : Expr} (h : LegibleLeaves e.consts e.names)

include h

theorem print_reread : e.reread.print = e.print :=
  print_replaceConsts isLeaf_rereadConst e fun v hv => print_rereadConst (h.consts v hv)

theorem mem_mentions_reread {m : Mention} : m ∈ e.reread.mentions ↔
    m ∈ e.mentions ∨ m = .var infinityName ∧ .double Double.infinity ∈ e.consts := by
  rw [reread, mem_mentions_replaceConsts]
  refine or_congr_right ⟨?_, ?_⟩
  · rintro ⟨v, hv, hm⟩
    obtain ⟨rfl, rfl⟩ := (mem_mentions_rereadConst (h.consts v hv)).mp hm
    exact ⟨rfl, hv⟩
  · rintro ⟨rfl, hv⟩
    exact ⟨_, hv, (mem_mentions_rereadConst (h.consts _ hv)).mpr ⟨rfl, rfl⟩⟩

theorem consts_reread {v : Value} (hv : v ∈ e.reread.consts) : v ∈ e.consts ∧ v.Printable := by
  rw [reread, consts_replaceConsts] at hv
  obtain ⟨w, hw, hv⟩ := List.mem_flatMap.mp hv
  obtain ⟨rfl, hprintable⟩ := consts_rereadConst (h.consts w hw) hv
  exact ⟨hw, hprintable⟩

/-- What is read from the printed text is printable, infinite doubles being names. -/
theorem printableLeaves_reread : PrintableLeaves e.reread.consts e.reread.names := by
  refine ⟨fun v hv => (consts_reread h hv).2, fun name hname => ?_⟩
  rw [names_eq_map_mentions] at hname
  obtain ⟨m, hm, rfl⟩ := List.mem_map.mp hname
  rcases (mem_mentions_reread h).mp hm with hm | ⟨rfl, -⟩
  · refine h.names _ ?_
    rw [names_eq_map_mentions]
    exact List.mem_map_of_mem hm
  · unfold IsName
    decide

end

/-- What the printed text of an expression is read as that has the leaves of one that was read. -/
theorem ofSource_print_of_legibleLeaves {e : Expr} (h : LegibleLeaves e.consts e.names)
    (hheight : e.height ≤ maxDepth) :
    (maxDepth ≤ e.nesting ∧ ∃ fault, ofSource e.print = .error fault ∧ fault.stage = .parse ∧
      fault.code = .expressionTooDeep) ∨
    (e.nesting < maxDepth ∧ ∃ e', ofSource e.print = .ok e' ∧ e'.bare = e.reread ∧
      e'.print = e.print ∧ ∀ m, m ∈ e'.mentions ↔
        m ∈ e.mentions ∨ m = .var infinityName ∧ .double Double.infinity ∈ e.consts) := by
  have hnesting : e.reread.nesting = e.nesting := nesting_replaceConsts isLeaf_rereadConst e
  have hconsts : ∀ v ∈ e.reread.consts, Literal.IsRestored v := by
    intro v hv
    obtain ⟨-, hprintable⟩ := consts_reread h hv
    refine Literal.isRestored_of_printable hprintable fun x hx => ?_
    subst hx
    obtain ⟨parts, hparts, -⟩ := hprintable
    exact Double.read?_render Double.console (by rw [Double.isFinite, hparts]; rfl)
  have hcases := ofSource_cases (reads_print _ (printableLeaves_reread h))
    (derives_looser (derives_nesting _) (Nat.zero_le _))
    ((height_replaceConsts isLeaf_rereadConst e).trans_le hheight) hconsts
  rw [hnesting, print_reread h] at hcases
  rcases hcases with hdeep | ⟨hfits, e', hread, hequal⟩
  · exact .inl hdeep
  have hbare : e'.bare = e.reread.bare :=
    bare_of_equal (fun v hv => h.consts v (consts_reread h hv).1)
      (legibleLeaves_of_ofSource hread).1.consts hequal
  refine .inr ⟨hfits, e', hread, ?_, ?_, fun m => ?_⟩
  · rw [hbare, bare_reread]
  · rw [← print_bare, hbare, print_bare, print_reread h]
  · rw [← mem_mentions_bare, hbare, mem_mentions_bare, mem_mentions_reread h]

/-- **What the printed text of an accepted source is read as.** It is refused as too deep just
where it nests as many levels as there may be. Otherwise it is read as the expression with a
variable for each infinite double, places aside. This is printed the same, and mentions the same
variables and functions, but for the variable of the infinite doubles. -/
theorem ofSource_print_ofSource {source : String} {e : Expr} (h : ofSource source = .ok e) :
    (maxDepth ≤ e.nesting ∧ ∃ fault, ofSource e.print = .error fault ∧ fault.stage = .parse ∧
      fault.code = .expressionTooDeep) ∨
    (e.nesting < maxDepth ∧ ∃ e', ofSource e.print = .ok e' ∧ e'.bare = e.reread ∧
      e'.print = e.print ∧ ∀ m, m ∈ e'.mentions ↔
        m ∈ e.mentions ∨ m = .var infinityName ∧ .double Double.infinity ∈ e.consts) := by
  obtain ⟨hleaves, hheight⟩ := legibleLeaves_of_ofSource h
  exact ofSource_print_of_legibleLeaves hleaves hheight

/-- A number beyond the largest double becomes a variable. -/
theorem ofSource_print_ofSource_hugeReal : ∃ e e', ofSource "1e400" = .ok e ∧ e.mentions = [] ∧
    ofSource e.print = .ok e' ∧ .var "inf" ∈ e'.mentions := by
  have hread : ofSource "1e400" = .ok (const (.double Double.infinity) ⟨0, 5⟩) := rfl
  rcases ofSource_print_ofSource hread with ⟨hdeep, -⟩ | ⟨-, e', hprinted, -, -, hmentions⟩
  · exact absurd hdeep (by decide)
  · exact ⟨_, e', hread, rfl, hprinted,
      (hmentions _).mpr (Or.inr ⟨rfl, List.mem_singleton_self _⟩)⟩

/-! ### Sources that are nested deeper when printed -/

/-- The name `a`, or the negation that it is less than another one of these. -/
def nestedNegation : Nat → Expr
  | 0 => var "a" default
  | n + 1 => unary .not (binary .lt (var "a" default) (nestedNegation n) default) default

/-- A text for it that has parentheses around the right operands only. -/
def nestedText : Nat → List Char
  | 0 => ['a']
  | n + 1 => "not".toList ++ (' ' :: 'a' :: ' ' :: '<' :: ' ' :: '(' :: (nestedText n ++ [')']))

/-- The tokens of the text. -/
def nestedTokens : Nat → List Token
  | 0 => [.identifier "a"]
  | n + 1 =>
    .not :: .identifier "a" :: .operator .lt :: .leftParen :: (nestedTokens n ++ [.rightParen])

theorem isName_a : IsName "a" := by
  unfold IsName
  decide

theorem reads_nestedText (n : Nat) : Reads Delimited (nestedText n) (nestedTokens n) := by
  induction n with
  | zero => exact isName_a.reads
  | succ n ih =>
    have hblank : Reads Anything [' '] [] := Lexeme.reads_blank rfl
    have hnot : Reads Delimited "not".toList [.not] :=
      Lexeme.reads_word (c := 'n') rfl rfl rfl (Text.forall_mem_of_all (by decide))
    have hparens := hblank.append (reads_parens ih) fun _ _ => trivial
    have hless := (reads_symbol .lt).append hparens fun _ _ => delimited_cons _ (by decide)
    have hright := hblank.append hless fun _ _ => trivial
    have hname := isName_a.reads.append hright fun _ _ => delimited_cons _ (by decide)
    have hinner := hblank.append hname fun _ _ => trivial
    exact (hnot.append hinner fun _ _ => delimited_cons _ (by decide)).mono fun _ _ => trivial

theorem derives_nestedTokens (n : Nat) :
    Grammar.Derives .negation (nestedTokens n) (nestedNegation n).tree (2 * n) := by
  have hname : Grammar.Derives .relation [.identifier "a"] (.var "a" default) 0 :=
    derives_looser (.var "a") (by decide)
  induction n with
  | zero => exact .unnegated hname
  | succ n ih =>
    have hwhole : Grammar.Derives .disjunction _ _ _ := derives_looser ih (Nat.zero_le _)
    have hparens := Grammar.Derives.parens hwhole
    have hright : Grammar.Derives .sum _ _ _ := derives_looser hparens (by decide)
    have hmem : BinaryOp.lt ∈ [BinaryOp.lt, .le, .eq, .ne, .gt, .ge, .startsWith, .endsWith,
      .contains, .fullMatch] := by decide
    have hnot := Grammar.Derives.not (.unnegated (.link rfl hmem hname hright))
    rw [Nat.zero_max] at hnot
    exact hnot

theorem nesting_nestedNegation (n : Nat) : (nestedNegation (n + 1)).nesting = 3 * n + 2 := by
  induction n with
  | zero => rfl
  | succ n ih =>
    have hparens : rightNeedsParens .lt (nestedNegation (n + 1)) = true := rfl
    rw [nestedNegation, nesting, nesting, nesting, ih, hparens]
    simp only [unaryNeedsParens, binaryNeedsParens, enclosedNesting, if_true, Bool.false_eq_true,
      if_false]
    omega

theorem height_nestedNegation (n : Nat) : (nestedNegation n).height = 2 * n + 1 := by
  induction n with
  | zero => rfl
  | succ n ih =>
    rw [nestedNegation, height, height, height, ih]
    omega

theorem consts_nestedNegation (n : Nat) : (nestedNegation n).consts = [] := by
  induction n with
  | zero => rfl
  | succ n ih => exact ih

theorem bare_nestedNegation (n : Nat) : (nestedNegation n).bare = nestedNegation n := by
  induction n with
  | zero => rfl
  | succ n ih =>
    have hbare : (nestedNegation (n + 1)).bare =
        unary .not (binary .lt (var "a" default) (nestedNegation n).bare default) default := rfl
    rw [hbare, ih, nestedNegation]

/-- The text is read as long as it is not too deep itself. -/
theorem ofSource_nestedText {n : Nat} (h : n < 64) :
    ∃ e, ofSource (String.ofList (nestedText n)) = .ok e ∧ e.bare = nestedNegation n := by
  have hreads := reads_nestedText n
  rw [← String.toList_ofList (l := nestedText n)] at hreads
  have hcases := ofSource_cases hreads (derives_looser (derives_nestedTokens n) (Nat.zero_le _))
    (by rw [height_nestedNegation, maxDepth]; omega)
    (by rw [consts_nestedNegation]; exact nofun)
  rcases hcases with ⟨hdepth, -⟩ | ⟨-, e, he, hequal⟩
  · rw [maxDepth] at hdepth
    omega
  · refine ⟨e, he, ?_⟩
    rw [← bare_nestedNegation]
    exact bare_of_equal (by rw [consts_nestedNegation]; exact nofun)
      (legibleLeaves_of_ofSource he).1.consts hequal

/-- **Printing can take a source out of the language.** The text is accepted, and printed with
parentheses around every operand of `not` and of `<`, it is too deep. -/
theorem exists_print_tooDeep {n : Nat} (h : 42 ≤ n) (h' : n < 63) :
    ∃ e fault, ofSource (String.ofList (nestedText (n + 1))) = .ok e ∧
      ofSource e.print = .error fault ∧ fault.code = .expressionTooDeep := by
  obtain ⟨e, he, hbare⟩ := ofSource_nestedText (n := n + 1) (by omega)
  obtain ⟨hleaves, hheight⟩ := legibleLeaves_of_ofSource he
  have hnesting : e.nesting = 3 * n + 2 := by
    rw [← nesting_nestedNegation, ← hbare]
    exact (nesting_replaceConsts isLeaf_const e).symm
  rcases ofSource_print_of_legibleLeaves hleaves hheight with
    ⟨-, fault, hfault, -, hcode⟩ | ⟨hfits, -⟩
  · exact ⟨e, fault, he, hfault, hcode⟩
  · rw [hnesting, maxDepth] at hfits
    omega

/-- Not every accepted source is still one when printed. -/
theorem not_forall_ofSource_print : ¬∀ (source : String) (e : Expr), ofSource source = .ok e →
    ∃ e', ofSource e.print = .ok e' ∧ (∀ m, m ∈ e'.mentions ↔ m ∈ e.mentions) ∧
      e'.print = e.print := by
  intro h
  obtain ⟨e, fault, he, hfault, -⟩ := exists_print_tooDeep (n := 42) (by decide) (by decide)
  obtain ⟨e', hread, -⟩ := h _ e he
  rw [hfault] at hread
  cases hread

end Expr

end Formulary
