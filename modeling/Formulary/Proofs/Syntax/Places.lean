import Formulary.Expr.Literal
import Formulary.Proofs.Syntax.Coverage
import Formulary.Proofs.Syntax.Soundness

/-!
# Where the nodes of an expression stand

The place of a node is found in a different way in every production: a chain takes the least place
around its operands, an operator before an operand goes from its own sign to the end of the operand,
an access from the start of its base to the closing bracket or the end of the name. Parentheses
leave no node. All of this comes out the same: a node stands around its parts, and the parts stand
one after the other.

The proof has two halves. The first is about the parsers, and says which lexemes a tree was read
from and how its places were made of theirs. The second is about offsets only: lexemes stand one
after the other, so every part of a tree stands between the lexemes around it.

## Scope

Offsets saturate, so the places are right only in sources that are short enough for every offset to
be named.

The name behind a point becomes a constant, and its place is found by counting its bytes back from
the end of the access. Blanks may stand between the point and the name.

## Main definitions

* `Text.StandsAt` — the text between two offsets of a source
* `Span.Frames` — a place around the places of the parts of a node
* `Token.Written` — a token of a source in its place
* `Expr.Faithful` — an expression whose places are those of its text
* `Tree.Placed` — the places that a tree gets from the lexemes that it is read from
* `Tree.FaithfulOn` — a tree whose expression has faithful places where its lexemes stand

## Main results

* `Descent.places_levels` — the parsers give every node its place
* `Tree.Placed.faithful` — such places are faithful where lexemes follow one another
* `Expr.faithful_of_ofSource` — the places of an expression that is read from a source
-/

namespace Formulary

open Text

/-! ### Faithful places -/

/-- The text stands in the source between the two offsets, which are counted in bytes. -/
def Text.StandsAt (source text : String) (place : Span) : Prop :=
  ∃ before after, source = before ++ text ++ after ∧ before.utf8ByteSize = place.start ∧
    place.start + text.utf8ByteSize = place.stop

/-- The place of a node, in a source of `size` bytes, around the places of its parts. -/
structure Span.Frames (size : Nat) (whole : Span) (parts : List Span) : Prop where
  /-- The node has some text. -/
  nonempty : whole.start < whole.stop
  /-- It stands within the source. -/
  inside : whole.stop ≤ size
  /-- Every part stands within the node. -/
  within : ∀ part ∈ parts, whole.start ≤ part.start ∧ part.stop ≤ whole.stop
  /-- Every part ends before those after it start. -/
  inOrder : parts.Pairwise fun part part' => part.stop ≤ part'.start

/-- The token is one of those of the source, and its text is what stands at its place. -/
structure Token.Written (source : String) (token : Token) (text : String) (place : Span) :
    Prop where
  /-- The lexer finds the token at the place. -/
  found : ∃ lexemes, Lexeme.ofSource source = .ok lexemes ∧
    ⟨token, place.start, place.stop⟩ ∈ lexemes
  /-- The text at the place is that of the token. -/
  standsAt : StandsAt source text place

/-- The places of an expression are those of its text: every node is framed, and every constant and
variable stands exactly where its token is written. -/
inductive Expr.Faithful (source : String) : Expr → Prop
  | literal {kind : LiteralKind} {text : String} {value : Value} {place : Span} :
    Literal.value kind text = .ok value → Token.Written source (.literal kind text) text place →
    place.Frames source.utf8ByteSize [] → Faithful source (.const value place)
  | var {name : String} {place : Span} :
    Token.Written source (.identifier name) name place → place.Frames source.utf8ByteSize [] →
    Faithful source (.var name place)
  | call {name : String} {args : List Expr} {place : Span} :
    (∀ arg ∈ args, Faithful source arg) →
    place.Frames source.utf8ByteSize (args.map Expr.span) → Faithful source (.call name args place)
  | index {base index : Expr} {place : Span} :
    Faithful source base → Faithful source index →
    place.Frames source.utf8ByteSize [base.span, index.span] →
    Faithful source (.index base index place)
  /-- The name of a member is a constant whose place is that of the name alone. -/
  | member {base : Expr} {name : String} {namePlace place : Span} :
    Faithful source base → Token.Written source (.identifier name) name namePlace →
    namePlace.Frames source.utf8ByteSize [] →
    place.Frames source.utf8ByteSize [base.span, namePlace] →
    Faithful source (.index base (.const (.string name) namePlace) place)
  | unary {op : UnaryOp} {operand : Expr} {place : Span} :
    Faithful source operand → place.Frames source.utf8ByteSize [operand.span] →
    Faithful source (.unary op operand place)
  | binary {op : BinaryOp} {left right : Expr} {place : Span} :
    Faithful source left → Faithful source right →
    place.Frames source.utf8ByteSize [left.span, right.span] →
    Faithful source (.binary op left right place)

namespace Span.Frames

variable {size : Nat} {whole part part' : Span}

theorem leaf (hnonempty : whole.start < whole.stop) (hinside : whole.stop ≤ size) :
    whole.Frames size [] :=
  ⟨hnonempty, hinside, List.forall_mem_nil _, .nil⟩

theorem one (hnonempty : whole.start < whole.stop) (hinside : whole.stop ≤ size)
    (hstart : whole.start ≤ part.start) (hstop : part.stop ≤ whole.stop) :
    whole.Frames size [part] :=
  ⟨hnonempty, hinside, List.forall_mem_singleton.mpr ⟨hstart, hstop⟩, List.pairwise_singleton ..⟩

/-- Two parts are in order when the first starts with the node, the second ends in it and both have
some text. -/
theorem two (hinside : whole.stop ≤ size) (hpart : part.start < part.stop)
    (hpart' : part'.start < part'.stop) (hstart : whole.start ≤ part.start)
    (horder : part.stop ≤ part'.start) (hstop : part'.stop ≤ whole.stop) :
    whole.Frames size [part, part'] := by
  refine ⟨by omega, hinside, ?_, List.pairwise_pair.mpr horder⟩
  refine List.forall_mem_cons.mpr ⟨⟨hstart, by omega⟩, ?_⟩
  exact List.forall_mem_singleton.mpr ⟨by omega, hstop⟩

end Span.Frames

/-- Every node of a faithful expression has some text, within the source. -/
theorem Expr.Faithful.bounds {source : String} {e : Expr} (h : e.Faithful source) :
    e.span.start < e.span.stop ∧ e.span.stop ≤ source.utf8ByteSize := by
  cases h with
  | literal _ _ hframes | var _ hframes | call _ hframes | index _ _ hframes
  | member _ _ _ hframes | unary _ hframes | binary _ _ hframes =>
    exact ⟨hframes.nonempty, hframes.inside⟩

/-! ### The texts of tokens -/

/-- The text of a token that stands for its own text. -/
def Token.text? : Token → Option String
  | .identifier text | .literal _ text => some text
  | _ => none

theorem Token.Spelled.eq_toList {token : Token} {chars : List Char} {text : String}
    (h : token.Spelled chars) (htext : token.text? = some text) : chars = text.toList := by
  cases h with
  | literal kind chars =>
    obtain rfl := Option.some.inj htext
    rw [String.toList_ofList]
  | word chars =>
    have hword : ∀ word, (Lexeme.wordToken word).text? = some text → word = text := by
      intro word hword
      unfold Lexeme.wordToken at hword
      split at hword <;> first | exact Option.some.inj hword | exact nomatch hword
    rw [← hword _ htext, String.toList_ofList]
  | pair hpair =>
    unfold Lexeme.pairToken? at hpair
    split at hpair <;> cases hpair <;> exact nomatch htext
  | single hsingle =>
    unfold Lexeme.singleToken? at hsingle
    split at hsingle <;> cases hsingle <;> exact nomatch htext

namespace Lexeme

/-- Every lexeme stands at its offsets, spelled as its token is. -/
theorem Laid.standsAt {offset : Nat} {cs : List Char} {lexemes : List Lexeme}
    (h : Laid offset cs lexemes) : ∀ l ∈ lexemes, ∃ before text after,
      cs = before ++ text ++ after ∧ l.token.Spelled text ∧ offset + byteLength before = l.start ∧
        l.start + byteLength text = l.stop := by
  induction h with
  | done => exact fun _ hl => nomatch hl
  | @blank _ c _ _ _ _ ih =>
    intro l hl
    obtain ⟨before, text, after, rfl, hspelled, hstart, hstop⟩ := ih l hl
    refine ⟨c :: before, text, after, rfl, hspelled, ?_, hstop⟩
    rw [byteLength_cons, ← Nat.add_assoc, hstart]
  | @lexeme offset token text rest _ hspelled _ ih =>
    intro l hl
    rcases List.mem_cons.mp hl with rfl | hl
    · exact ⟨[], text, rest, rfl, hspelled, rfl, rfl⟩
    · obtain ⟨before, text', after, hrest, hspelled', hstart, hstop⟩ := ih l hl
      refine ⟨text ++ rest.take token.overrun ++ before, text', after, ?_, hspelled', ?_, hstop⟩
      · calc
          text ++ rest = text ++ (rest.take token.overrun ++ rest.drop token.overrun) := by
            rw [List.take_append_drop]
          _ = text ++ rest.take token.overrun ++ before ++ text' ++ after := by
            rw [hrest]
            simp only [List.append_assoc]
      · rw [byteLength_append, byteLength_append, ← hstart]
        omega

/-- A token that stands for its own text is written at its place. -/
theorem written_of_ofSource {source : String} {lexemes : List Lexeme} {token : Token}
    {text : String} {place : Span} (h : ofSource source = .ok lexemes)
    (hl : ⟨token, place.start, place.stop⟩ ∈ lexemes) (htext : token.text? = some text) :
    Token.Written source token text place := by
  refine ⟨⟨lexemes, h, hl⟩, ?_⟩
  obtain ⟨before, chars, after, hcs, hspelled, hstart, hstop⟩ :=
    (laid_of_ofSource h).standsAt _ hl
  obtain rfl := hspelled.eq_toList htext
  rw [Nat.zero_add] at hstart
  refine ⟨String.ofList before, String.ofList after, ?_, ?_, ?_⟩
  · rw [← String.toList_inj, hcs]
    simp only [String.toList_append, String.toList_ofList]
  · rw [← byteLength_toList, String.toList_ofList, hstart]
  · rw [← byteLength_toList, hstop]

/-! ### Lexemes between two offsets -/

/-- The lexemes follow one another between two offsets, each of them with some text. -/
def Between (lo : Nat) : List Lexeme → (hi : Nat) → Prop
  | [], hi => lo ≤ hi
  | l :: rest, hi => lo ≤ l.start ∧ l.start < l.stop ∧ Between l.stop rest hi

theorem Between.le {lo hi : Nat} {ls : List Lexeme} (h : Between lo ls hi) : lo ≤ hi := by
  induction ls generalizing lo with
  | nil => exact h
  | cons l rest ih =>
    obtain ⟨hstart, hsome, hrest⟩ := h
    have := ih hrest
    omega

theorem Between.of_le {lo lo' hi : Nat} {ls : List Lexeme} (h : Between lo ls hi)
    (hlo : lo' ≤ lo) : Between lo' ls hi := by
  cases ls with
  | nil => exact Nat.le_trans hlo h
  | cons l rest => exact ⟨Nat.le_trans hlo h.1, h.2⟩

theorem between_append {lo hi : Nat} {as bs : List Lexeme} :
    Between lo (as ++ bs) hi ↔ ∃ mid, Between lo as mid ∧ Between mid bs hi := by
  induction as generalizing lo with
  | nil =>
    constructor
    · intro h
      exact ⟨lo, Nat.le_refl lo, h⟩
    · rintro ⟨mid, hlo, h⟩
      exact h.of_le hlo
  | cons l as ih =>
    constructor
    · rintro ⟨hstart, hsome, hrest⟩
      obtain ⟨mid, has, hbs⟩ := ih.mp hrest
      exact ⟨mid, ⟨hstart, hsome, has⟩, hbs⟩
    · rintro ⟨mid, ⟨hstart, hsome, has⟩, hbs⟩
      exact ⟨hstart, hsome, ih.mpr ⟨mid, has, hbs⟩⟩

theorem between_singleton {lo hi : Nat} {l : Lexeme} :
    Between lo [l] hi ↔ lo ≤ l.start ∧ l.start < l.stop ∧ l.stop ≤ hi :=
  Iff.rfl

theorem Laid.between {offset : Nat} {cs : List Char} {lexemes : List Lexeme}
    (h : Laid offset cs lexemes) (hsome : ∀ l ∈ lexemes, l.start < l.stop) :
    Between offset lexemes (offset + byteLength cs) := by
  induction h with
  | done offset => exact Nat.le_refl offset
  | blank _ _ ih =>
    have hrest := ih hsome
    rw [Nat.add_assoc, ← byteLength_cons] at hrest
    exact hrest.of_le (Nat.le_add_right ..)
  | @lexeme offset token text rest _ _ _ ih =>
    have htext : byteLength (text ++ rest) = byteLength text +
        (byteLength (rest.take token.overrun) + byteLength (rest.drop token.overrun)) := by
      rw [← byteLength_append, List.take_append_drop, byteLength_append]
    have hrest := ih (List.forall_mem_cons.mp hsome).2
    rw [show offset + byteLength (text ++ rest) = offset + byteLength text +
      byteLength (rest.take token.overrun) + byteLength (rest.drop token.overrun) by omega]
    exact ⟨Nat.le_refl offset, (List.forall_mem_cons.mp hsome).1,
      hrest.of_le (Nat.le_add_right ..)⟩

end Lexeme

/-! ### The places of trees -/

namespace Tree

mutual

/-- `Placed ls t`: the tree `t` is read from the lexemes `ls`, and every node has the place that its
production makes from theirs. -/
inductive Placed : List Lexeme → Tree → Prop
  | literal (kind : LiteralKind) (text : String) (start stop : Nat) :
    Placed [⟨.literal kind text, start, stop⟩] (.literal kind text (.of start stop))
  | var (name : String) (start stop : Nat) :
    Placed [⟨.identifier name, start, stop⟩] (.var name (.of start stop))
  | parens {ls : List Lexeme} {t : Tree} (left right : Lexeme) (h : Placed ls t) :
    Placed (left :: (ls ++ [right])) t
  | call {ls : List Lexeme} {args : List Tree} (name left right : Lexeme) (text : String)
    (h : PlacedArguments ls args) :
    Placed (name :: left :: (ls ++ [right])) (.call text args (.of name.start right.stop))
  | index {ls ls' : List Lexeme} {base i : Tree} (left right : Lexeme) (hbase : Placed ls base)
    (hi : Placed ls' i) :
    Placed (ls ++ left :: (ls' ++ [right])) (.index base i (.of base.span.start right.stop))
  | member {ls : List Lexeme} {base : Tree} (dot : Lexeme) (name : String) (start stop : Nat)
    (hbase : Placed ls base) :
    Placed (ls ++ [dot, ⟨.identifier name, start, stop⟩])
      (.member base name (.of base.span.start stop))
  | unary {ls : List Lexeme} {t : Tree} (sign : Lexeme) (op : UnaryOp) (h : Placed ls t) :
    Placed (sign :: ls) (.unary op t (.of sign.start t.span.stop))
  | binary {ls ls' : List Lexeme} {l r : Tree} (link : Lexeme) (op : BinaryOp) (hl : Placed ls l)
    (hr : Placed ls' r) : Placed (ls ++ link :: ls') (.binary op l r (l.span.union r.span))

/-- `PlacedArguments ls args`: the trees `args` are read from the lexemes `ls`, one after the other,
with any lexemes before each. -/
inductive PlacedArguments : List Lexeme → List Tree → Prop
  | nil : PlacedArguments [] []
  | cons {ls ls' : List Lexeme} {t : Tree} {args : List Tree} (before : List Lexeme)
    (h : Placed ls t) (hrest : PlacedArguments ls' args) :
    PlacedArguments (before ++ (ls ++ ls')) (t :: args)

end

end Tree

/-! ### The parsers -/

namespace Descent

/-- What is read from `ls`, when `taken` was taken before it, is in a relation with all that is
taken. -/
def ReadsAfter {α : Type} (R : List Lexeme → α → Prop) (taken ls : List Lexeme)
    (outcome : Except SyntaxFault (α × List Lexeme)) : Prop :=
  ∀ a rest, outcome = .ok (a, rest) → ∃ more, ls = more ++ rest ∧ R (taken ++ more) a

/-- Whatever the parser accepts is in a relation with the lexemes that it took. -/
def Reads {α : Type} (R : List Lexeme → α → Prop) (p : Parser α) : Prop :=
  ∀ ls, ReadsAfter R [] ls (p ls)

namespace ReadsAfter

variable {α β : Type} {R : List Lexeme → α → Prop} {S : List Lexeme → β → Prop}
  {taken ls : List Lexeme}

theorem ok {a : α} (h : R taken a) : ReadsAfter R taken ls (.ok (a, ls)) := by
  rintro _ _ ⟨⟩
  exact ⟨[], rfl, by rwa [List.append_nil]⟩

theorem error {fault : SyntaxFault} : ReadsAfter R taken ls (.error fault) :=
  nofun

/-- Some lexemes are taken, and the rest is read after them. -/
theorem take (more : List Lexeme) {outcome : Except SyntaxFault (α × List Lexeme)}
    (h : ReadsAfter R (taken ++ more) ls outcome) : ReadsAfter R taken (more ++ ls) outcome := by
  intro a rest hrun
  obtain ⟨more', rfl, ha⟩ := h a rest hrun
  exact ⟨more ++ more', (List.append_assoc ..).symm, by rwa [← List.append_assoc]⟩

/-- A parser runs, and the rest is read after what it took. -/
theorem bind {p : Parser β} {next : β × List Lexeme → Except SyntaxFault (α × List Lexeme)}
    (hp : Reads S p)
    (hnext : ∀ b more rest, S more b → ReadsAfter R (taken ++ more) rest (next (b, rest))) :
    ReadsAfter R taken ls (p ls >>= next) := by
  intro a rest hrun
  obtain ⟨⟨b, ls'⟩, hb, hrest⟩ := bind_eq_ok_iff.mp hrun
  obtain ⟨more, rfl, hmore⟩ := hp ls b ls' hb
  exact take more (hnext b more ls' hmore) a rest hrest

theorem checked {limit : Nat} {node : Tree}
    {next : Tree → Except SyntaxFault (α × List Lexeme)}
    (h : ReadsAfter R taken ls (next node)) :
    ReadsAfter R taken ls (Descent.checked limit node >>= next) := by
  intro a rest hrun
  obtain ⟨node', hchecked, hrest⟩ := bind_eq_ok_iff.mp hrun
  obtain ⟨-, rfl⟩ := Grammar.checked_eq_ok_iff.mp hchecked
  exact h a rest hrest

end ReadsAfter

variable {eof limit : Nat}

theorem reads_expect (token : Token) :
    Reads (fun ls stop => ∃ l : Lexeme, ls = [l] ∧ l.stop = stop) (expect eof token) := by
  intro ls stop rest h
  obtain ⟨start, rfl⟩ := Grammar.expect_eq_ok_iff.mp h
  exact ⟨[⟨token, start, stop⟩], rfl, _, rfl, rfl⟩

theorem reads_memberName :
    Reads (fun ls name => ∃ start, ls = [⟨.identifier name.1, start, name.2⟩])
      (memberName eof) := by
  rintro ls ⟨name, stop⟩ rest h
  obtain ⟨start, rfl⟩ := Grammar.memberName_eq_ok_iff.mp h
  exact ⟨[⟨.identifier name, start, stop⟩], rfl, start, rfl⟩

/-- Whatever the parser accepts has its places from the lexemes that the parser took. -/
abbrev Places (p : Parser Tree) : Prop := Reads (fun ls t => t.Placed ls) p

theorem places_prefixed {p : Parser Tree} (hp : Places p) (op : UnaryOp) (sign : Lexeme)
    (ls : List Lexeme) :
    ReadsAfter (fun ls t => t.Placed ls) [] (sign :: ls) (prefixed limit op sign.start p ls) := by
  refine .take [sign] (.bind hp fun inner more rest hinner => .checked (.ok ?_))
  exact .unary sign op hinner

/-- The loop of a chain goes on after the lexemes of the chain so far. -/
theorem places_chain {p : Parser Tree} (hp : Places p) (level fuel : Nat) {left : Tree}
    {taken ls : List Lexeme} (hleft : left.Placed taken) :
    ReadsAfter (fun ls t => t.Placed ls) taken ls (chain limit p level fuel left ls) := by
  induction fuel generalizing left taken ls with
  | zero => exact .ok hleft
  | succ fuel ih =>
    unfold chain
    split
    · next op start stop ls =>
      split
      · refine .take [⟨.operator op, start, stop⟩] (.bind hp fun right more rest hright => ?_)
        refine .checked (ih ?_)
        rw [List.append_assoc]
        exact .binary _ op hleft hright
      · exact .ok hleft
    · exact .ok hleft

theorem places_chained {p : Parser Tree} (hp : Places p) (level : Nat) :
    Places (chained limit p level) := by
  intro ls
  exact .bind hp fun left more rest hleft => places_chain hp level _ hleft

section

variable {deeper : Levels}

theorem places_moreArguments (hexpr : Places deeper.expr) (fuel : Nat) :
    Reads Tree.PlacedArguments (moreArguments deeper fuel) := by
  induction fuel with
  | zero => exact fun ls => .ok .nil
  | succ fuel ih =>
    intro ls
    unfold moreArguments
    split
    · next start stop ls =>
      refine .take [⟨.comma, start, stop⟩] (.bind hexpr fun arg more rest harg => ?_)
      refine .bind ih fun args more' rest hargs => .ok ?_
      exact .cons [_] harg hargs
    · exact .ok .nil

theorem places_arguments (hexpr : Places deeper.expr) :
    Reads Tree.PlacedArguments (arguments deeper) := by
  intro ls
  unfold arguments
  split
  · exact .ok .nil
  · refine .bind hexpr fun arg more rest harg => ?_
    refine .bind (places_moreArguments hexpr _) fun args more' rest hargs => .ok ?_
    exact .cons [] harg hargs

theorem places_atom (hexpr : Places deeper.expr) : Places (atom eof limit deeper) := by
  intro ls
  unfold atom
  split
  · next kind text start stop ls =>
    exact .take [_] (.ok (.literal kind text start stop))
  · next name start stop start' stop' ls =>
    refine .take [⟨.identifier name, start, stop⟩, ⟨.leftParen, start', stop'⟩] ?_
    refine .bind (places_arguments hexpr) fun args more rest hargs => ?_
    refine .bind (reads_expect _) fun last closing rest hclosing => .checked (.ok ?_)
    obtain ⟨right, rfl, rfl⟩ := hclosing
    rw [List.nil_append, List.append_assoc]
    exact .call _ _ right name hargs
  · next name start stop ls _ =>
    exact .take [_] (.ok (.var name start stop))
  · next start stop ls =>
    refine .take [⟨.leftParen, start, stop⟩] (.bind hexpr fun inner more rest hinner => ?_)
    refine .bind (reads_expect _) fun last closing rest hclosing => .ok ?_
    obtain ⟨right, rfl, -⟩ := hclosing
    rw [List.nil_append, List.append_assoc]
    exact .parens _ right hinner
  · exact .error

/-- The loop of the accesses goes on after the lexemes of the base so far. -/
theorem places_accesses (hexpr : Places deeper.expr) (fuel : Nat) {base : Tree}
    {taken ls : List Lexeme} (hbase : base.Placed taken) :
    ReadsAfter (fun ls t => t.Placed ls) taken ls (accesses eof limit deeper fuel base ls) := by
  induction fuel generalizing base taken ls with
  | zero => exact .ok hbase
  | succ fuel ih =>
    unfold accesses
    split
    · next start stop ls =>
      refine .take [⟨.leftBracket, start, stop⟩] (.bind hexpr fun i more rest hi => ?_)
      refine .bind (reads_expect _) fun last closing rest hclosing => .checked (ih ?_)
      obtain ⟨right, rfl, rfl⟩ := hclosing
      rw [List.append_assoc, List.append_assoc]
      exact .index _ right hbase hi
    · next start stop ls =>
      refine .take [⟨.dot, start, stop⟩] ?_
      refine .bind reads_memberName fun name more rest hname => .checked (ih ?_)
      obtain ⟨first, rfl⟩ := hname
      rw [List.append_assoc]
      exact .member _ name.1 first name.2 hbase
    · exact .ok hbase

theorem places_accessed (hexpr : Places deeper.expr) : Places (accessed eof limit deeper) := by
  intro ls
  exact .bind (places_atom hexpr) fun base more rest hbase => places_accesses hexpr _ hbase

theorem places_signed (hexpr : Places deeper.expr) (hsigned : Places deeper.signed) :
    Places (signed eof limit deeper) := by
  intro ls
  unfold signed
  split
  · next op start stop ls =>
    split
    · next sign _ => exact places_prefixed hsigned sign ⟨.operator op, start, stop⟩ ls
    · exact places_accessed hexpr _
  · exact places_accessed hexpr ls

theorem places_negated (hexpr : Places deeper.expr) (hsigned : Places deeper.signed)
    (hnegated : Places deeper.negated) : Places (negated eof limit deeper) := by
  intro ls
  unfold negated
  split
  · next start stop ls => exact places_prefixed hnegated .not ⟨.not, start, stop⟩ ls
  · exact places_chained (places_chained (places_chained (places_signed hexpr hsigned) 5) 4) 3 ls

end

/-- **The parsers** of every level give each node its place. -/
theorem places_levels (budget : Nat) :
    Places (levels eof limit budget).expr ∧ Places (levels eof limit budget).negated ∧
      Places (levels eof limit budget).signed := by
  induction budget with
  | zero => exact ⟨fun _ => .error, fun _ => .error, fun _ => .error⟩
  | succ budget ih =>
    obtain ⟨hexpr, hnegated, hsigned⟩ := ih
    have hdeeper : Places (negated eof limit (levels eof limit budget)) :=
      places_negated hexpr hsigned hnegated
    exact ⟨places_chained (places_chained hdeeper 2) 1, hdeeper, places_signed hexpr hsigned⟩

end Descent

theorem Tree.placed_of_ofLexemes {ls : List Lexeme} {t : Tree}
    (h : Tree.ofLexemes ls = .ok (some t)) : t.Placed ls := by
  unfold Tree.ofLexemes at h
  split at h
  · exact nomatch h
  · obtain ⟨⟨tree, rest⟩, hrun, hrest⟩ := bind_eq_ok_iff.mp h
    cases rest with
    | cons l rest => exact nomatch hrest
    | nil =>
      cases hrest
      obtain ⟨taken, rfl, hplaced⟩ := (Descent.places_levels maxDepth).1 ls t [] hrun
      rwa [List.append_nil]

/-! ### From places to faithful expressions -/

/-- The place of an expression is that of its tree. -/
theorem Expr.span_of_ofTree {t : Tree} {e : Expr} (h : Expr.ofTree t = .ok e) :
    e.span = t.span := by
  cases t with
  | literal kind text place =>
    rw [Expr.ofTree] at h
    split at h <;> cases h
    rfl
  | var name place =>
    rw [Expr.ofTree] at h
    cases h
    rfl
  | call name args place =>
    rw [Expr.ofTree] at h
    obtain ⟨args', -, hnode⟩ := bind_eq_ok_iff.mp h
    cases hnode
    rfl
  | index base i place =>
    rw [Expr.ofTree] at h
    obtain ⟨base', -, hrest⟩ := bind_eq_ok_iff.mp h
    obtain ⟨i', -, hnode⟩ := bind_eq_ok_iff.mp hrest
    cases hnode
    rfl
  | member base name place =>
    rw [Expr.ofTree] at h
    obtain ⟨base', -, hnode⟩ := bind_eq_ok_iff.mp h
    cases hnode
    rfl
  | unary op operand place =>
    rw [Expr.ofTree] at h
    obtain ⟨operand', -, hnode⟩ := bind_eq_ok_iff.mp h
    cases hnode
    rfl
  | binary op l r place =>
    rw [Expr.ofTree] at h
    obtain ⟨l', -, hrest⟩ := bind_eq_ok_iff.mp h
    obtain ⟨r', -, hnode⟩ := bind_eq_ok_iff.mp hrest
    cases hnode
    rfl

/-- The expression has faithful places, and stands between two offsets. -/
structure Expr.FaithfulBetween (source : String) (lo : Nat) (e : Expr) (hi : Nat) : Prop where
  /-- The places are those of the text. -/
  faithful : e.Faithful source
  /-- The expression starts at the first offset or behind it. -/
  le_start : lo ≤ e.span.start
  /-- It ends at the second offset or before it. -/
  stop_le : e.span.stop ≤ hi

/-- The place of a name that is written at the end of an access. -/
theorem Expr.nameSpan_of_written {source name : String} {start start' stop : Nat}
    (h : Token.Written source (.identifier name) name ⟨start, stop⟩)
    (hstop : stop ≤ Span.maxOffset) : Expr.nameSpan name ⟨start', stop⟩ = ⟨start, stop⟩ := by
  obtain ⟨before, after, -, -, hname⟩ := h.standsAt
  dsimp only at hname
  rw [Expr.nameSpan, Span.of_eq (by dsimp only; omega) hstop]
  congr 1
  dsimp only
  omega

theorem Expr.FaithfulBetween.mono {source : String} {lo lo' hi hi' : Nat} {e : Expr}
    (h : e.FaithfulBetween source lo hi) (hlo : lo' ≤ lo) (hhi : hi ≤ hi') :
    e.FaithfulBetween source lo' hi' :=
  ⟨h.faithful, Nat.le_trans hlo h.le_start, Nat.le_trans h.stop_le hhi⟩

namespace Expr.FaithfulBetween

variable {source : String} {lo mid mid' hi start stop : Nat}

theorem call {name : String} {args : List Expr}
    (hargs : ∀ arg ∈ args, arg.FaithfulBetween source mid mid')
    (horder : (args.map Expr.span).Pairwise fun part part' => part.stop ≤ part'.start)
    (hsome : start < stop) (hstart : start ≤ mid) (hstop : mid' ≤ stop)
    (hsize : stop ≤ source.utf8ByteSize) :
    (Expr.call name args ⟨start, stop⟩).FaithfulBetween source start stop := by
  have hframes : (Span.mk start stop).Frames source.utf8ByteSize (args.map Expr.span) := by
    refine ⟨hsome, hsize, List.forall_mem_map.mpr fun arg harg => ?_, horder⟩
    exact ⟨Nat.le_trans hstart (hargs arg harg).le_start,
      Nat.le_trans (hargs arg harg).stop_le hstop⟩
  exact ⟨.call (fun arg harg => (hargs arg harg).faithful) hframes, Nat.le_refl _, Nat.le_refl _⟩

theorem index {base i : Expr} (hbase : base.FaithfulBetween source lo mid)
    (hindex : i.FaithfulBetween source mid' hi) (hmid : mid ≤ mid') (hstop : hi ≤ stop)
    (hsize : stop ≤ source.utf8ByteSize) :
    (Expr.index base i ⟨base.span.start, stop⟩).FaithfulBetween source lo stop := by
  have horder := Nat.le_trans hbase.stop_le (Nat.le_trans hmid hindex.le_start)
  have hframes : (Span.mk base.span.start stop).Frames source.utf8ByteSize [base.span, i.span] :=
    .two hsize hbase.faithful.bounds.1 hindex.faithful.bounds.1 (Nat.le_refl _) horder
      (Nat.le_trans hindex.stop_le hstop)
  exact ⟨.index hbase.faithful hindex.faithful hframes, hbase.le_start, Nat.le_refl _⟩

theorem member {base : Expr} {name : String} (hbase : base.FaithfulBetween source lo mid)
    (hname : Token.Written source (.identifier name) name ⟨start, stop⟩) (hmid : mid ≤ start)
    (hsome : start < stop) (hsize : stop ≤ source.utf8ByteSize) :
    (Expr.index base (.const (.string name) ⟨start, stop⟩)
      ⟨base.span.start, stop⟩).FaithfulBetween source lo stop := by
  have hframes : (Span.mk base.span.start stop).Frames source.utf8ByteSize
      [base.span, ⟨start, stop⟩] :=
    .two hsize hbase.faithful.bounds.1 hsome (Nat.le_refl _) (Nat.le_trans hbase.stop_le hmid)
      (Nat.le_refl _)
  exact ⟨.member hbase.faithful hname (.leaf hsome hsize) hframes, hbase.le_start, Nat.le_refl _⟩

theorem unary {op : UnaryOp} {operand : Expr} (h : operand.FaithfulBetween source mid hi)
    (hstart : start ≤ mid) :
    (Expr.unary op operand ⟨start, operand.span.stop⟩).FaithfulBetween source start hi := by
  have hle := Nat.le_trans hstart h.le_start
  have hbounds := h.faithful.bounds
  have hframes : (Span.mk start operand.span.stop).Frames source.utf8ByteSize [operand.span] :=
    .one (Nat.lt_of_le_of_lt hle hbounds.1) hbounds.2 hle (Nat.le_refl _)
  exact ⟨.unary h.faithful hframes, Nat.le_refl _, h.stop_le⟩

theorem binary {op : BinaryOp} {l r : Expr} (hl : l.FaithfulBetween source lo mid)
    (hr : r.FaithfulBetween source mid' hi) (hmid : mid ≤ mid') :
    (Expr.binary op l r (l.span.union r.span)).FaithfulBetween source lo hi := by
  have horder := Nat.le_trans hl.stop_le (Nat.le_trans hmid hr.le_start)
  obtain ⟨hsome, hsize⟩ := hl.faithful.bounds
  obtain ⟨hsome', hsize'⟩ := hr.faithful.bounds
  have hunion : l.span.union r.span = ⟨l.span.start, r.span.stop⟩ := by
    rw [Span.union, Nat.min_eq_left (by omega), Nat.max_eq_right (by omega)]
  rw [hunion]
  have hframes : (Span.mk l.span.start r.span.stop).Frames source.utf8ByteSize [l.span, r.span] :=
    .two hsize' hsome hsome' (Nat.le_refl _) horder (Nat.le_refl _)
  exact ⟨.binary hl.faithful hr.faithful hframes, hl.le_start, hr.stop_le⟩

end Expr.FaithfulBetween

namespace Tree

open Lexeme

variable {source : String} {lexemes : List Lexeme}

/-- An expression of the tree has faithful places between any two offsets that the lexemes `ls` of
the source follow one another between. -/
def FaithfulOn (source : String) (lexemes ls : List Lexeme) (t : Tree) : Prop :=
  ∀ ⦃lo hi : Nat⦄ ⦃e : Expr⦄, Between lo ls hi → (∀ l ∈ ls, l ∈ lexemes) →
    hi ≤ source.utf8ByteSize → Expr.ofTree t = .ok e → e.FaithfulBetween source lo hi

/-- The expressions of several trees have faithful places there, one after the other. -/
def FaithfulArguments (source : String) (lexemes ls : List Lexeme) (args : List Tree) : Prop :=
  ∀ ⦃lo hi : Nat⦄ ⦃es : List Expr⦄, Between lo ls hi → (∀ l ∈ ls, l ∈ lexemes) →
    hi ≤ source.utf8ByteSize → Expr.ofTrees args = .ok es →
    (∀ e ∈ es, e.FaithfulBetween source lo hi) ∧
      (es.map Expr.span).Pairwise fun part part' => part.stop ≤ part'.start

namespace FaithfulOn

variable {ls ls' : List Lexeme} {base i l r t : Tree} {args : List Tree}

section

variable (hsource : Lexeme.ofSource source = .ok lexemes)
  (hsize : source.utf8ByteSize ≤ Span.maxOffset)

include hsource hsize

theorem literal (kind : LiteralKind) (text : String) (start stop : Nat) :
    FaithfulOn source lexemes [⟨.literal kind text, start, stop⟩]
      (.literal kind text (.of start stop)) := by
  intro lo hi e hbetween hfound hhi he
  obtain ⟨hstart, hsome, hstop⟩ := between_singleton.mp hbetween
  have hstop' := Nat.le_trans hstop hhi
  dsimp only at hstart hsome hstop'
  rw [Expr.ofTree, Span.of_eq (by omega) (by omega)] at he
  split at he
  · next value hvalue =>
    cases he
    have hwritten : Token.Written source (.literal kind text) text ⟨start, stop⟩ :=
      written_of_ofSource hsource (List.forall_mem_singleton.mp hfound) rfl
    exact ⟨.literal hvalue hwritten (.leaf hsome hstop'), hstart, hstop⟩
  · cases he

theorem var (name : String) (start stop : Nat) :
    FaithfulOn source lexemes [⟨.identifier name, start, stop⟩] (.var name (.of start stop)) := by
  intro lo hi e hbetween hfound hhi he
  obtain ⟨hstart, hsome, hstop⟩ := between_singleton.mp hbetween
  have hstop' := Nat.le_trans hstop hhi
  dsimp only at hstart hsome hstop'
  rw [Expr.ofTree, Span.of_eq (by omega) (by omega)] at he
  cases he
  have hwritten : Token.Written source (.identifier name) name ⟨start, stop⟩ :=
    written_of_ofSource hsource (List.forall_mem_singleton.mp hfound) rfl
  exact ⟨.var hwritten (.leaf hsome hstop'), hstart, hstop⟩

/-- The name behind a point is a constant that ends where the access ends. -/
theorem member (dot : Lexeme) (name : String) (start stop : Nat)
    (hbase : FaithfulOn source lexemes ls base) :
    FaithfulOn source lexemes (ls ++ [dot, ⟨.identifier name, start, stop⟩])
      (.member base name (.of base.span.start stop)) := by
  intro lo hi e hbetween hfound hhi he
  obtain ⟨mid, hls, hdot, hsome, hlast⟩ := between_append.mp hbetween
  obtain ⟨hstart, hsome', hstop⟩ := between_singleton.mp hlast
  dsimp only at hstart hsome' hstop
  obtain ⟨hfound, hfound'⟩ := List.forall_mem_append.mp hfound
  obtain ⟨-, hname⟩ := List.forall_mem_cons.mp hfound'
  have hwritten : Token.Written source (.identifier name) name ⟨start, stop⟩ :=
    written_of_ofSource hsource (List.forall_mem_singleton.mp hname) rfl
  rw [Expr.ofTree] at he
  obtain ⟨base, hbaseTree, hnode⟩ := bind_eq_ok_iff.mp he
  cases hnode
  have hb := hbase hls hfound (by omega) hbaseTree
  have hbounds := hb.faithful.bounds
  -- The access ends with the name, so counting its bytes back from there finds where it starts.
  rw [← Expr.span_of_ofTree hbaseTree, Span.of_eq (by omega) (by omega),
    Expr.nameSpan_of_written hwritten (by omega)]
  exact (hb.member hwritten (by omega) hsome' (by omega)).mono (Nat.le_refl _) hstop

end

/-- Parentheses leave no node: the tree keeps its place and stands between their offsets too. -/
theorem parens (left right : Lexeme) (h : FaithfulOn source lexemes ls t) :
    FaithfulOn source lexemes (left :: (ls ++ [right])) t := by
  intro lo hi e hbetween hfound hhi he
  obtain ⟨hstart, hsome, hrest⟩ := hbetween
  obtain ⟨mid, hls, hright⟩ := between_append.mp hrest
  have hmid := hright.le
  have hinner := h hls (List.forall_mem_append.mp (List.forall_mem_cons.mp hfound).2).1
    (by omega) he
  exact hinner.mono (by omega) hmid

section

variable (hsize : source.utf8ByteSize ≤ Span.maxOffset)

include hsize

theorem call (name left right : Lexeme) (text : String)
    (h : FaithfulArguments source lexemes ls args) :
    FaithfulOn source lexemes (name :: left :: (ls ++ [right]))
      (.call text args (.of name.start right.stop)) := by
  intro lo hi e hbetween hfound hhi he
  obtain ⟨hstart, hsome, hleft, hsome', hrest⟩ := hbetween
  obtain ⟨mid, hls, hlast⟩ := between_append.mp hrest
  obtain ⟨hright, hsome'', hstop⟩ := between_singleton.mp hlast
  have hmid := hls.le
  rw [Expr.ofTree, Span.of_eq (by omega) (by omega)] at he
  obtain ⟨args, hargs, hnode⟩ := bind_eq_ok_iff.mp he
  cases hnode
  obtain ⟨-, hfound⟩ := List.forall_mem_cons.mp hfound
  obtain ⟨-, hfound⟩ := List.forall_mem_cons.mp hfound
  obtain ⟨heach, horder⟩ := h hls (List.forall_mem_append.mp hfound).1 (by omega) hargs
  refine (Expr.FaithfulBetween.call heach horder ?_ ?_ ?_ ?_).mono hstart hstop <;> omega

theorem index (left right : Lexeme) (hbase : FaithfulOn source lexemes ls base)
    (hi : FaithfulOn source lexemes ls' i) :
    FaithfulOn source lexemes (ls ++ left :: (ls' ++ [right]))
      (.index base i (.of base.span.start right.stop)) := by
  intro lo hi' e hbetween hfound hhi he
  obtain ⟨mid, hls, hleft, hsome, hrest⟩ := between_append.mp hbetween
  obtain ⟨mid', hls', hlast⟩ := between_append.mp hrest
  obtain ⟨hright, hsome', hstop⟩ := between_singleton.mp hlast
  have hmid := hls'.le
  obtain ⟨hfound, hfound'⟩ := List.forall_mem_append.mp hfound
  obtain ⟨-, hfound'⟩ := List.forall_mem_cons.mp hfound'
  rw [Expr.ofTree] at he
  obtain ⟨base, hbaseTree, hrest⟩ := bind_eq_ok_iff.mp he
  obtain ⟨i, hiTree, hnode⟩ := bind_eq_ok_iff.mp hrest
  cases hnode
  have hb := hbase hls hfound (by omega) hbaseTree
  have hindex := hi hls' (List.forall_mem_append.mp hfound').1 (by omega) hiTree
  have hbounds := hb.faithful.bounds
  rw [← Expr.span_of_ofTree hbaseTree, Span.of_eq (by omega) (by omega)]
  exact (hb.index hindex (by omega) (by omega) (by omega)).mono (Nat.le_refl _) hstop

theorem unary (sign : Lexeme) (op : UnaryOp) (h : FaithfulOn source lexemes ls t) :
    FaithfulOn source lexemes (sign :: ls) (.unary op t (.of sign.start t.span.stop)) := by
  intro lo hi e hbetween hfound hhi he
  obtain ⟨hstart, hsome, hls⟩ := hbetween
  rw [Expr.ofTree] at he
  obtain ⟨operand, htree, hnode⟩ := bind_eq_ok_iff.mp he
  cases hnode
  have hoperand := h hls (List.forall_mem_cons.mp hfound).2 hhi htree
  have hbounds := hoperand.faithful.bounds
  have hle := hls.le
  rw [← Expr.span_of_ofTree htree, Span.of_eq (by omega) (by omega)]
  exact (hoperand.unary (Nat.le_of_lt hsome)).mono hstart (Nat.le_refl _)

end

/-- A chain has the least place around its operands, and needs no bound on the source. -/
theorem binary (link : Lexeme) (op : BinaryOp) (hl : FaithfulOn source lexemes ls l)
    (hr : FaithfulOn source lexemes ls' r) :
    FaithfulOn source lexemes (ls ++ link :: ls') (.binary op l r (l.span.union r.span)) := by
  intro lo hi e hbetween hfound hhi he
  obtain ⟨mid, hls, hlink, hsome, hls'⟩ := between_append.mp hbetween
  have hle := hls'.le
  obtain ⟨hfound, hfound'⟩ := List.forall_mem_append.mp hfound
  rw [Expr.ofTree] at he
  obtain ⟨l, hlTree, hrest⟩ := bind_eq_ok_iff.mp he
  obtain ⟨r, hrTree, hnode⟩ := bind_eq_ok_iff.mp hrest
  cases hnode
  have hleft := hl hls hfound (by omega) hlTree
  have hright := hr hls' (List.forall_mem_cons.mp hfound').2 hhi hrTree
  rw [← Expr.span_of_ofTree hlTree, ← Expr.span_of_ofTree hrTree]
  exact hleft.binary hright (by omega)

end FaithfulOn

namespace FaithfulArguments

variable {ls ls' : List Lexeme} {t : Tree} {args : List Tree}

theorem nil : FaithfulArguments source lexemes [] [] := by
  intro lo hi es _ _ _ hes
  rw [Expr.ofTrees] at hes
  cases hes
  exact ⟨List.forall_mem_nil _, .nil⟩

theorem cons (before : List Lexeme) (h : FaithfulOn source lexemes ls t)
    (hrest : FaithfulArguments source lexemes ls' args) :
    FaithfulArguments source lexemes (before ++ (ls ++ ls')) (t :: args) := by
  intro lo hi es hbetween hfound hhi hes
  obtain ⟨mid, hbefore, hbetween⟩ := between_append.mp hbetween
  obtain ⟨mid', hls, hls'⟩ := between_append.mp hbetween
  have hmid := hbefore.le
  have hmid' := hls.le
  have hle := hls'.le
  obtain ⟨-, hfound⟩ := List.forall_mem_append.mp hfound
  obtain ⟨hfound, hfound'⟩ := List.forall_mem_append.mp hfound
  rw [Expr.ofTrees] at hes
  obtain ⟨e, hTree, hmore⟩ := bind_eq_ok_iff.mp hes
  obtain ⟨es, hTrees, hcons⟩ := bind_eq_ok_iff.mp hmore
  cases hcons
  have hfirst := h hls hfound (by omega) hTree
  obtain ⟨heach, horder⟩ := hrest hls' hfound' hhi hTrees
  refine ⟨List.forall_mem_cons.mpr ⟨hfirst.mono hmid hle, fun e' he' => ?_⟩, ?_⟩
  · exact (heach e' he').mono (Nat.le_trans hmid hmid') (Nat.le_refl _)
  · refine .cons (List.forall_mem_map.mpr fun e' he' => ?_) horder
    exact Nat.le_trans hfirst.stop_le (heach e' he').le_start

end FaithfulArguments

mutual

/-- **Places are faithful** where the lexemes of the tree follow one another in the source. -/
theorem Placed.faithful (hsource : Lexeme.ofSource source = .ok lexemes)
    (hsize : source.utf8ByteSize ≤ Span.maxOffset) : ∀ {ls : List Lexeme} {t : Tree},
    t.Placed ls → FaithfulOn source lexemes ls t
  | _, _, .literal kind text start stop => .literal hsource hsize kind text start stop
  | _, _, .var name start stop => .var hsource hsize name start stop
  | _, _, .parens left right h => .parens left right (h.faithful hsource hsize)
  | _, _, .call name left right text h =>
    .call hsize name left right text (h.faithful hsource hsize)
  | _, _, .index left right hbase hi =>
    .index hsize left right (hbase.faithful hsource hsize) (hi.faithful hsource hsize)
  | _, _, .member dot name start stop hbase =>
    .member hsource hsize dot name start stop (hbase.faithful hsource hsize)
  | _, _, .unary sign op h => .unary hsize sign op (h.faithful hsource hsize)
  | _, _, .binary link op hl hr =>
    .binary link op (hl.faithful hsource hsize) (hr.faithful hsource hsize)

/-- Arguments between two offsets stand there one after the other. -/
theorem PlacedArguments.faithful (hsource : Lexeme.ofSource source = .ok lexemes)
    (hsize : source.utf8ByteSize ≤ Span.maxOffset) : ∀ {ls : List Lexeme} {args : List Tree},
    PlacedArguments ls args → FaithfulArguments source lexemes ls args
  | _, _, .nil => .nil
  | _, _, .cons before h hrest =>
    .cons before (h.faithful hsource hsize) (hrest.faithful hsource hsize)

end

end Tree

/-- **Places are faithful.** In a source that is short enough for its offsets to be named, every
node of the expression stands around its parts, which stand one after the other, and every constant,
variable and name stands exactly where it is written. -/
theorem Expr.faithful_of_ofSource {source : String} {e : Expr}
    (h : Expr.ofSource source = .ok e) (hsize : source.utf8ByteSize ≤ Span.maxOffset) :
    e.Faithful source := by
  unfold Expr.ofSource at h
  split at h
  · exact nomatch h
  · exact nomatch h
  · next tree htree =>
    obtain ⟨lexemes, hsource, hlexemes⟩ := bind_eq_ok_iff.mp htree
    have he : Expr.ofTree tree = .ok e := by
      cases hresult : Expr.ofTree tree with
      | ok e' =>
        rw [hresult] at h
        rw [Except.ok.inj h]
      | error fault =>
        rw [hresult] at h
        exact nomatch h
    have hbetween := (Lexeme.laid_of_ofSource hsource).between fun l hl =>
      Lexeme.start_lt_stop_of_ofSource hsource hl
    rw [Nat.zero_add, byteLength_toList] at hbetween
    have hfaithful := (Tree.placed_of_ofLexemes hlexemes).faithful hsource hsize
    exact (hfaithful hbetween (fun _ hl => hl) (Nat.le_refl _) he).faithful

/-- A call in which a name has blanks before it and a text has a character of two bytes. -/
def Expr.negatedCall : Expr :=
  .unary .negative
    (.call "f"
      [.const (.string "é") ⟨3, 7⟩,
        .index (.var "b" ⟨10, 11⟩) (.const (.string "c") ⟨14, 15⟩) ⟨10, 15⟩] ⟨1, 17⟩) ⟨0, 17⟩

/-- The places of the call are faithful, the parentheses around the access among them. -/
theorem Expr.faithful_of_ofSource_negatedCall :
    (Expr.ofSource "-f('é', (b . c))" = .ok negatedCall ∧
      "-f('é', (b . c))".utf8ByteSize ≤ Span.maxOffset) ∧
      negatedCall.Faithful "-f('é', (b . c))" := by
  have hlexemes : Lexeme.ofSource "-f('é', (b . c))" = .ok
      [⟨.operator .sub, 0, 1⟩, ⟨.identifier "f", 1, 2⟩, ⟨.leftParen, 2, 3⟩,
        ⟨.literal .string "'é'", 3, 7⟩, ⟨.comma, 7, 8⟩, ⟨.leftParen, 9, 10⟩,
        ⟨.identifier "b", 10, 11⟩, ⟨.dot, 12, 13⟩, ⟨.identifier "c", 14, 15⟩,
        ⟨.rightParen, 15, 16⟩, ⟨.rightParen, 16, 17⟩] :=
    toOption_eq_some_iff.mp (by decide +kernel)
  have hread : Expr.ofSource "-f('é', (b . c))" = .ok negatedCall := by
    rw [Expr.ofSource, Tree.ofSource, hlexemes]
    rfl
  have hsize : "-f('é', (b . c))".utf8ByteSize ≤ Span.maxOffset := by decide
  exact ⟨⟨hread, hsize⟩, faithful_of_ofSource hread hsize⟩

end Formulary
