import Formulary.Proofs.Syntax.Lookahead
import Formulary.Proofs.Syntax.Printing

/-!
# What the parsers have taken begins an expression

An invariant of the parsers, for runs that come to nothing: whatever a parser took before it refused
a lexeme begins a tree of its nonterminal. The loops, which carry a tree, can still come to an end
behind it; a parser that is in the middle of a tree goes on with any tree of the nonterminal that it
is about to read.

The proof is one induction on the budget, like the one for what is accepted, and it runs beside it:
that the loops can still come to an end is what the soundness of the parsers says.

## Main definitions

* `Grammar.Viable`, `Grammar.Sentence` — tokens that begin a tree, and that are an expression
* `Grammar.Reads` — a parser keeps to its nonterminal, in what it accepts and in what it refuses

## Main results

* `Grammar.reads_levels` — the parsers of every level do
-/

namespace Formulary

namespace Grammar

open Descent

/-! ### Beginnings -/

/-- The tokens begin a tree of the nonterminal. -/
def Viable (c : Category) (ts : List Token) : Prop := ∃ more t d, Derives c (ts ++ more) t d

/-- The tokens are an expression. -/
def Sentence (ts : List Token) : Prop := ∃ t d, Derives .disjunction ts t d

/-- What a tree begins with is viable. -/
theorem Derives.viable {c : Category} {ts us : List Token} {t : Tree} {d : Nat}
    (h : Derives c ts t d) (more : List Token) (hts : ts = us ++ more) : Viable c us :=
  ⟨more, t, d, hts ▸ h⟩

/-- Every nonterminal has a tree. -/
theorem viable_nil (c : Category) : Viable c [] := by
  have hrank : Expr.rank c ≤ Expr.rank .atom := by cases c <;> decide
  exact (Expr.derives_looser (.var "") hrank).viable _ rfl

section

variable {ts us : List Token} {t : Tree} {d : Nat}

theorem Viable.operand {c operand : Category} {ops : List BinaryOp}
    (hc : c.chain? = some (ops, operand)) (h : Viable operand us) : Viable c us := by
  obtain ⟨more, t, d, hd⟩ := h
  exact ⟨more, t, d, .operand hc hd⟩

theorem Viable.link {c operand : Category} {ops : List BinaryOp} {op : BinaryOp}
    (hc : c.chain? = some (ops, operand)) (hop : op ∈ ops) (hl : Derives c ts t d)
    (h : Viable operand us) : Viable c (ts ++ .operator op :: us) := by
  obtain ⟨more, r, d', hr⟩ := h
  exact (Derives.link hc hop hl hr).viable more (by simp)

theorem Viable.not (h : Viable .negation us) : Viable .negation (.not :: us) := by
  obtain ⟨more, t, d, hd⟩ := h
  exact hd.not.viable _ rfl

theorem Viable.unnegated (h : Viable .relation us) : Viable .negation us := by
  obtain ⟨more, t, d, hd⟩ := h
  exact ⟨more, t, d, .unnegated hd⟩

theorem Viable.sign {op : BinaryOp} {sign : UnaryOp} (hsign : sign? op = some sign)
    (h : Viable .signed us) : Viable .signed (.operator op :: us) := by
  obtain ⟨more, t, d, hd⟩ := h
  cases op <;> cases hsign
  · exact hd.positive.viable _ rfl
  · exact hd.negative.viable _ rfl

theorem Viable.unsigned (h : Viable .access us) : Viable .signed us := by
  obtain ⟨more, t, d, hd⟩ := h
  exact ⟨more, t, d, .unsigned hd⟩

theorem Viable.base (h : Viable .atom us) : Viable .access us := by
  obtain ⟨more, t, d, hd⟩ := h
  exact ⟨more, t, d, .base hd⟩

theorem Viable.index (hbase : Derives .access ts t d) (h : Viable .disjunction us) :
    Viable .access (ts ++ .leftBracket :: us) := by
  obtain ⟨more, i, d', hi⟩ := h
  exact (hbase.index hi).viable (more ++ [.rightBracket]) (by simp)

theorem Viable.dot (hbase : Derives .access ts t d) : Viable .access (ts ++ [.dot]) :=
  (hbase.member "").viable [.identifier ""] (by simp)

theorem Viable.parens (h : Viable .disjunction us) : Viable .atom (.leftParen :: us) := by
  obtain ⟨more, t, d, hd⟩ := h
  exact hd.parens.viable (more ++ [.rightParen]) (by simp)

/-- The tokens are the arguments of a call, or none. -/
def Listed (ts : List Token) : Prop := ts = [] ∨ ∃ args d, DerivesArguments ts args d

theorem Listed.viable (name : String) (h : Listed ts) :
    Viable .atom (.identifier name :: .leftParen :: ts) := by
  rcases h with rfl | ⟨args, d, hd⟩
  · exact (Derives.nullary name).viable _ rfl
  · exact (Derives.call name hd).viable _ rfl

theorem Viable.firstArgument (name : String) (h : Viable .disjunction us) :
    Viable .atom (.identifier name :: .leftParen :: us) := by
  obtain ⟨more, t, d, hd⟩ := h
  exact (Derives.call name (.one hd)).viable (more ++ [.rightParen]) (by simp)

theorem Viable.nextArgument {args : List Tree} (name : String) (hargs : DerivesArguments ts args d)
    (h : Viable .disjunction us) :
    Viable .atom (.identifier name :: .leftParen :: (ts ++ .comma :: us)) := by
  obtain ⟨more, t, d', hd⟩ := h
  exact (Derives.call name (hargs.more hd)).viable (more ++ [.rightParen]) (by simp)

end

/-! ### Parsers that keep to a nonterminal -/

/-- A run of parsers accepts trees of a nonterminal, and refuses a lexeme where it could not take it
behind what begins such a tree. -/
structure Reads (limit : Nat) (p : Nat → Parser Tree) (c : Category) (n : Nat) : Prop where
  /-- What is accepted is derived. -/
  sound : ∀ eof, Sound limit (p eof) c n
  /-- What is taken is settled by the next lexeme, and begins a tree. -/
  onLine : ∀ ls, OnLine p (Viable c) ls

section

variable {limit n : Nat} {p : Nat → Parser Tree} {c operand : Category} {ops : List BinaryOp}
  {good : List Token → Prop} {ls : List Lexeme}

/-- What was taken is derived. -/
theorem Reads.derives (h : Reads limit p c n) {eof : Nat} {t : Tree} {taken rest : List Lexeme}
    (hrun : p eof (taken ++ rest) = .ok (t, rest)) :
    ∃ d < n, Derives c (taken.map Lexeme.token) t.bare d := by
  obtain ⟨taken', d, hls, hd, hdn, -⟩ := h.sound eof _ _ _ hrun
  rw [List.append_cancel_right hls]
  exact ⟨d, hdn, hd⟩

/-- One run after the other, the first of which reads a tree. -/
theorem Reads.bind {β : Type} (h : Reads limit p c n) {q : Tree → Nat → Parser β}
    (hgood : ∀ ts, Viable c ts → good ts)
    (hq : ∀ t taken rest, ls = taken ++ rest →
      (∃ d < n, Derives c (taken.map Lexeme.token) t.bare d) →
      OnLine (q t) (fun ts => good (taken.map Lexeme.token ++ ts)) rest) :
    OnLine (fun eof ls => p eof ls >>= fun x => q x.1 eof x.2) good ls := by
  refine ((h.onLine ls).mono hgood).bind ?_
  rintro eof t taken rest rfl hrun
  exact hq t taken rest rfl (h.derives hrun)

theorem Reads.shortens (h : Reads limit p c n) (eof : Nat) : Shortens (p eof) := by
  intro ls t rest hrun
  obtain ⟨taken, d, rfl, -⟩ := h.sound eof _ _ _ hrun
  rw [List.length_append]
  exact Nat.le_add_left _ _

theorem onLine_expect {token : Token} (hgood : good []) :
    OnLine (fun eof => expect eof token) good ls := by
  have hrefuse : (∀ l ∈ ls.head?, l.token ≠ token) →
      OnLine (fun eof => expect eof token) good ls := by
    intro hhead
    refine (OnLine.refuse hgood ls).congr fun eof ls' hls' => ?_
    have hhead' := hls'.forall_head hhead
    cases ls' with
    | nil => rfl
    | cons l ls' => exact if_neg (hhead' l rfl)
  cases ls with
  | nil => exact hrefuse nofun
  | cons l ls =>
    by_cases htoken : l.token = token
    · exact (OnLine.pure l.stop ls).cons fun eof rest => if_pos htoken
    · exact hrefuse (by rintro _ ⟨⟩; exact htoken)

/-! #### Operators -/

theorem onLine_prefixed (hp : Reads limit p c n) {op : UnaryOp} {start : Nat}
    (hgood : ∀ ts, Viable c ts → good ts) :
    OnLine (fun eof => prefixed limit op start (p eof)) good ls := by
  refine hp.bind (q := fun inner eof rest =>
    checked limit (.unary op inner (.of start inner.span.stop)) >>= fun node => .ok (node, rest))
    hgood fun inner taken rest _ _ => ?_
  exact OnLine.checked fun _ => OnLine.pure _ rest

/-- The loop of a chain, behind what begins a tree already. -/
theorem onLine_chain (hp : Reads limit p operand n) (hc : c.chain? = some (ops, operand)) :
    ∀ {ts : List Token} {left : Tree} {d : Nat}, Derives c ts left.bare d →
      OnLine (fun eof ls => chain limit (p eof) c.level ls.length left ls)
        (fun us => Viable c (ts ++ us)) ls := by
  induction hlength : ls.length using Nat.strong_induction_on generalizing ls with
  | _ k ih =>
    subst hlength
    intro ts left d hd
    have hend : (∀ l ∈ ls.head?, ∀ op, l.token = .operator op → op.precedence ≠ c.level) →
        OnLine (fun eof ls => chain limit (p eof) c.level ls.length left ls)
          (fun us => Viable c (ts ++ us)) ls := fun hhead =>
      (OnLine.pure left ls).congr fun eof ls' hls' => chain_end _ _ (hls'.forall_head hhead)
    cases ls with
    | nil => exact hend nofun
    | cons l rest =>
      by_cases hop : ∃ op, l.token = .operator op ∧ op.precedence = c.level
      · obtain ⟨token, start, stop⟩ := l
        obtain ⟨op, rfl, hop⟩ := hop
        have hmem := (Category.mem_ops_iff hc op).mpr hop
        refine OnLine.cons ?_ fun eof rest => chain_cons (hp.shortens eof) hop start stop left rest
        refine hp.bind (q := fun right eof rest =>
          checked limit (.binary op left right (left.span.union right.span)) >>= fun node =>
            chain limit (p eof) c.level rest.length node rest)
          (fun us hus => .link hc hmem hd hus) ?_
        rintro right taken rest rfl ⟨d', -, hd'⟩
        refine OnLine.checked fun _ => (ih _ ?_ rfl (.link hc hmem hd hd')).mono fun us hus => ?_
        · rw [List.length_cons, List.length_append]
          omega
        · simpa using hus
      · refine hend ?_
        rintro _ ⟨⟩ op htoken hprec
        exact hop ⟨op, htoken, hprec⟩

theorem Reads.chained (hp : Reads limit p operand n) (hc : c.chain? = some (ops, operand)) :
    Reads limit (fun eof => chained limit (p eof) c.level) c n where
  sound eof := (hp.sound eof).chained hc
  onLine ls := by
    refine hp.bind (q := fun left eof rest => chain limit (p eof) c.level rest.length left rest)
      (fun us hus => hus.operand hc) ?_
    rintro left taken rest rfl ⟨d, hdn, hd⟩
    exact onLine_chain hp hc (.operand hc hd)

end

section

variable {limit n : Nat} {deeper : Nat → Levels} {ls : List Lexeme}

/-! #### Atoms -/

/-- The loop of the arguments, behind those that are read already. -/
theorem onLine_moreArguments (hexpr : Reads limit (fun eof => (deeper eof).expr) .disjunction n)
    (name : String) : ∀ {ts : List Token} {before : List Tree} {d : Nat},
      DerivesArguments ts before d →
      OnLine (fun eof ls => moreArguments (deeper eof) ls.length ls)
        (fun us => Viable .atom (.identifier name :: .leftParen :: (ts ++ us))) ls := by
  induction hlength : ls.length using Nat.strong_induction_on generalizing ls with
  | _ k ih =>
    subst hlength
    intro ts before d hd
    have hend : (∀ l ∈ ls.head?, l.token ≠ .comma) →
        OnLine (fun eof ls => moreArguments (deeper eof) ls.length ls)
          (fun us => Viable .atom (.identifier name :: .leftParen :: (ts ++ us))) ls := fun hhead =>
      (OnLine.pure [] ls).congr fun eof ls' hls' =>
        moreArguments_of_stops _ (hls'.forall_head hhead)
    cases ls with
    | nil => exact hend nofun
    | cons l rest =>
      by_cases hcomma : l.token = .comma
      · obtain ⟨token, start, stop⟩ := l
        obtain rfl := hcomma
        refine OnLine.cons ?_ fun eof rest =>
          moreArguments_cons (hexpr.shortens eof) start stop rest
        refine hexpr.bind (q := fun arg eof rest =>
          moreArguments (deeper eof) rest.length rest >>= fun y => .ok (arg :: y.1, y.2))
          (fun us hus => .nextArgument name hd hus) ?_
        rintro arg taken rest rfl ⟨d', -, hd'⟩
        refine OnLine.bind (q := fun args _ rest => .ok (arg :: args, rest))
          ((ih _ ?_ rfl (.more hd hd')).mono fun us hus => ?_) fun _ args _ rest _ _ => .pure _ rest
        · rw [List.length_cons, List.length_append]
          omega
        · simpa using hus
      · exact hend (by rintro _ ⟨⟩; exact hcomma)

/-- The end of a call, behind its arguments. -/
def closed (limit : Nat) (name : String) (start : Nat) (args : List Tree) (eof : Nat) :
    Parser Tree := fun ls =>
  expect eof .rightParen ls >>= fun x =>
    checked limit (.call name args (.of start x.1)) >>= fun node => .ok (node, x.2)

theorem onLine_closed {good : List Token → Prop} (name : String) (start : Nat) (args : List Tree)
    (hgood : good []) : OnLine (closed limit name start args) good ls := by
  refine OnLine.bind (q := fun stop _ rest =>
    checked limit (.call name args (.of start stop)) >>= fun node => .ok (node, rest))
    (onLine_expect hgood) fun _ stop _ rest _ _ => ?_
  exact OnLine.checked fun _ => OnLine.pure _ rest

theorem arguments_some {deeper : Levels} (h : ∀ l ∈ ls.head?, l.token ≠ .rightParen) :
    arguments deeper ls = deeper.expr ls >>= fun x =>
      moreArguments deeper x.2.length x.2 >>= fun y => .ok (x.1 :: y.1, y.2) := by
  unfold arguments
  split
  · exact absurd rfl (h _ rfl)
  · rfl

/-- A call, behind its name and the parenthesis. -/
theorem onLine_call (hexpr : Reads limit (fun eof => (deeper eof).expr) .disjunction n)
    (name : String) (start : Nat) :
    OnLine
      (fun eof ls => arguments (deeper eof) ls >>= fun x => closed limit name start x.1 eof x.2)
      (fun us => Viable .atom (.identifier name :: .leftParen :: us)) ls := by
  have hsome : (∀ l ∈ ls.head?, l.token ≠ .rightParen) →
      OnLine
        (fun eof ls => arguments (deeper eof) ls >>= fun x => closed limit name start x.1 eof x.2)
        (fun us => Viable .atom (.identifier name :: .leftParen :: us)) ls := by
    intro hhead
    refine OnLine.congr (p := fun eof ls => (deeper eof).expr ls >>= fun x =>
      moreArguments (deeper eof) x.2.length x.2 >>= fun y =>
        closed limit name start (x.1 :: y.1) eof y.2) ?_ fun eof ls' hls' => ?_
    · refine hexpr.bind (q := fun arg eof rest =>
        moreArguments (deeper eof) rest.length rest >>= fun y =>
          closed limit name start (arg :: y.1) eof y.2) (fun us hus => hus.firstArgument name) ?_
      rintro arg taken rest rfl ⟨d, hdn, hd⟩
      refine OnLine.bind (q := fun args => closed limit name start (arg :: args))
        (onLine_moreArguments hexpr name (.one hd)) ?_
      rintro eof args taken' rest rfl hrun
      refine onLine_closed name start (arg :: args) ?_
      obtain ⟨taken'', d', hls, hd', -⟩ := sound_moreArguments (hexpr.sound eof) _ _ _ _ _ _ _
        (.one hd) (Nat.succ_lt_succ hdn) hrun
      rw [List.append_cancel_right hls]
      exact List.append_nil _ ▸ Listed.viable name (.inr ⟨_, d', hd'⟩)
    · rw [arguments_some (hls'.forall_head hhead), bind_assoc]
      refine bind_congr fun x _ => ?_
      rw [bind_assoc]
      rfl
  cases ls with
  | nil => exact hsome nofun
  | cons l rest =>
    by_cases hclose : l.token = .rightParen
    · obtain ⟨token, first, stop⟩ := l
      obtain rfl := hclose
      refine OnLine.cons (p := fun _ rest =>
        checked limit (.call name [] (.of start stop)) >>= fun node => .ok (node, rest))
        (OnLine.checked fun _ => OnLine.pure _ rest) fun eof rest => ?_
      rfl
    · exact hsome (by rintro _ ⟨⟩; exact hclose)

theorem atom_var {deeper : Levels} {eof start stop : Nat} {name : String} {rest : List Lexeme}
    (h : ∀ l ∈ rest.head?, l.token ≠ .leftParen) :
    atom eof limit deeper (⟨.identifier name, start, stop⟩ :: rest) =
      .ok (.var name (.of start stop), rest) := by
  unfold atom
  split
  · next heq => cases heq
  · next heq =>
    cases heq
    exact absurd rfl (h _ rfl)
  · next heq =>
    cases heq
    rfl
  · next heq => cases heq
  · next hvar _ => exact absurd rfl (hvar _ _ _ _)

/-- What stands behind a name: a call, or nothing that belongs to the atom. -/
theorem onLine_named (hexpr : Reads limit (fun eof => (deeper eof).expr) .disjunction n)
    (name : String) (start stop : Nat) :
    OnLine
      (fun eof rest => atom eof limit (deeper eof) (⟨.identifier name, start, stop⟩ :: rest))
      (fun us => Viable .atom (.identifier name :: us)) ls := by
  have hvar : (∀ l ∈ ls.head?, l.token ≠ .leftParen) →
      OnLine
        (fun eof rest => atom eof limit (deeper eof) (⟨.identifier name, start, stop⟩ :: rest))
        (fun us => Viable .atom (.identifier name :: us)) ls := fun hhead =>
    (OnLine.pure (Tree.var name (.of start stop)) ls).congr fun eof ls' hls' =>
      atom_var (hls'.forall_head hhead)
  cases ls with
  | nil => exact hvar nofun
  | cons l rest =>
    by_cases hcall : l.token = .leftParen
    · obtain ⟨token, start', stop'⟩ := l
      obtain rfl := hcall
      exact (onLine_call hexpr name start).cons fun _ _ => rfl
    · exact hvar (by rintro _ ⟨⟩; exact hcall)

/-- What stands behind an opening parenthesis. -/
theorem onLine_parens (hexpr : Reads limit (fun eof => (deeper eof).expr) .disjunction n) :
    OnLine
      (fun eof ls => (deeper eof).expr ls >>= fun x =>
        expect eof .rightParen x.2 >>= fun y => .ok (x.1, y.2))
      (fun us => Viable .atom (.leftParen :: us)) ls := by
  refine hexpr.bind (q := fun inner eof rest =>
    expect eof .rightParen rest >>= fun y => .ok (inner, y.2)) (fun us hus => hus.parens) ?_
  rintro inner taken rest rfl ⟨d, -, hd⟩
  refine OnLine.bind (q := fun _ _ rest => .ok (inner, rest)) (onLine_expect ?_)
    fun _ _ _ rest _ _ => .pure _ rest
  exact hd.parens.viable [.rightParen] (by simp)

theorem atom_refuses {deeper : Levels} {eof : Nat}
    (h : ∀ l ∈ ls.head?, Category.atom.starts l.token = false) :
    atom eof limit deeper ls = .error (unexpected eof ls) := by
  unfold atom
  split
  · exact nomatch h _ rfl
  · exact nomatch h _ rfl
  · exact nomatch h _ rfl
  · exact nomatch h _ rfl
  · rfl

theorem onLine_atom (hexpr : Reads limit (fun eof => (deeper eof).expr) .disjunction n) :
    OnLine (fun eof => atom eof limit (deeper eof)) (Viable .atom) ls := by
  have hrefuse : (∀ l ∈ ls.head?, Category.atom.starts l.token = false) →
      OnLine (fun eof => atom eof limit (deeper eof)) (Viable .atom) ls := fun hhead =>
    (OnLine.refuse (viable_nil _) ls).congr fun eof ls' hls' =>
      atom_refuses (hls'.forall_head hhead)
  cases ls with
  | nil => exact hrefuse nofun
  | cons l rest =>
    obtain ⟨token, start, stop⟩ := l
    cases token with
    | literal kind text =>
      exact (OnLine.pure (Tree.literal kind text (.of start stop)) rest).cons fun _ _ => rfl
    | identifier name => exact (onLine_named hexpr name start stop).cons fun _ _ => rfl
    | leftParen => exact (onLine_parens hexpr).cons fun _ _ => rfl
    | operator op => exact hrefuse (by rintro _ ⟨⟩; simp [Category.starts])
    | _ => exact hrefuse (by rintro _ ⟨⟩; rfl)

/-! #### Indexes and members -/

theorem onLine_memberName {good : List Token → Prop} (hgood : good []) :
    OnLine memberName good ls := by
  have hrefuse : (∀ l ∈ ls.head?, ∀ name, l.token ≠ .identifier name) →
      OnLine memberName good ls := by
    intro hhead
    refine (OnLine.refuse hgood ls).congr fun eof ls' hls' => ?_
    have hhead' := hls'.forall_head hhead
    unfold memberName
    split
    · exact absurd rfl (hhead' _ rfl _)
    · rfl
  cases ls with
  | nil => exact hrefuse nofun
  | cons l rest =>
    obtain ⟨token, start, stop⟩ := l
    cases token with
    | identifier name => exact (OnLine.pure (name, stop) rest).cons fun _ _ => rfl
    | _ => exact hrefuse (by rintro _ ⟨⟩; exact nofun)

/-- The loop of the indexes and members, behind what begins a tree already. -/
theorem onLine_accesses (hexpr : Reads limit (fun eof => (deeper eof).expr) .disjunction n) :
    ∀ {ts : List Token} {base : Tree} {d : Nat}, Derives .access ts base.bare d →
      OnLine (fun eof ls => accesses eof limit (deeper eof) ls.length base ls)
        (fun us => Viable .access (ts ++ us)) ls := by
  induction hlength : ls.length using Nat.strong_induction_on generalizing ls with
  | _ k ih =>
    subst hlength
    intro ts base d hd
    have hend : (∀ l ∈ ls.head?, l.token ≠ .leftBracket ∧ l.token ≠ .dot) →
        OnLine (fun eof ls => accesses eof limit (deeper eof) ls.length base ls)
          (fun us => Viable .access (ts ++ us)) ls := fun hhead =>
      (OnLine.pure base ls).congr fun eof ls' hls' => accesses_end _ _ (hls'.forall_head hhead)
    cases ls with
    | nil => exact hend nofun
    | cons l rest =>
      obtain ⟨token, start, stop⟩ := l
      cases token with
      | leftBracket =>
        refine OnLine.cons ?_ fun eof rest =>
          accesses_bracket (hexpr.shortens eof) start stop base rest
        refine hexpr.bind (q := fun i eof rest => expect eof .rightBracket rest >>= fun y =>
          checked limit (.index base i (.of base.span.start y.1)) >>= fun node =>
            accesses eof limit (deeper eof) y.2.length node y.2) (fun us hus => .index hd hus) ?_
        rintro i taken rest rfl ⟨d', -, hi⟩
        have hindex := hd.index hi
        refine OnLine.bind (q := fun last eof rest =>
          checked limit (.index base i (.of base.span.start last)) >>= fun node =>
            accesses eof limit (deeper eof) rest.length node rest) (onLine_expect ?_) ?_
        · exact hindex.viable [.rightBracket] (by simp)
        · rintro eof last taken' rest rfl hrun
          obtain ⟨first, hclose⟩ := expect_eq_ok_iff.mp hrun
          obtain rfl : taken' = [⟨.rightBracket, first, last⟩] := List.append_cancel_right hclose
          refine OnLine.checked fun _ => (ih _ ?_ rfl hindex).mono fun us hus => ?_
          · simp only [List.length_cons, List.length_append]
            omega
          · simpa using hus
      | dot =>
        refine OnLine.cons ?_ fun eof rest => accesses_dot (hexpr.shortens eof) start stop base rest
        refine OnLine.bind (q := fun x eof rest =>
          checked limit (.member base x.1 (.of base.span.start x.2)) >>= fun node =>
            accesses eof limit (deeper eof) rest.length node rest) (onLine_memberName ?_) ?_
        · exact Viable.dot hd
        rintro eof ⟨name, last⟩ taken rest rfl hrun
        obtain ⟨first, hname⟩ := memberName_eq_ok_iff.mp hrun
        obtain rfl : taken = [⟨.identifier name, first, last⟩] := List.append_cancel_right hname
        refine OnLine.checked fun _ => (ih _ ?_ rfl (hd.member name)).mono fun us hus => ?_
        · simp only [List.length_cons, List.length_append]
          omega
        · simpa using hus
      | _ => exact hend (by rintro _ ⟨⟩; exact ⟨nofun, nofun⟩)

theorem reads_accessed (hlimit : 0 < limit)
    (hexpr : Reads limit (fun eof => (deeper eof).expr) .disjunction n) :
    Reads limit (fun eof => accessed eof limit (deeper eof)) .access (n + 1) where
  sound eof := sound_accessed hlimit (hexpr.sound eof)
  onLine ls := by
    have hatom : Reads limit (fun eof => atom eof limit (deeper eof)) .atom (n + 1) :=
      ⟨fun eof => sound_atom hlimit (hexpr.sound eof), fun ls => onLine_atom hexpr⟩
    refine hatom.bind (q := fun base eof rest =>
      accesses eof limit (deeper eof) rest.length base rest) (fun us hus => hus.base) ?_
    rintro base taken rest rfl ⟨d, -, hd⟩
    exact onLine_accesses hexpr (.base hd)

/-! #### Levels -/

theorem reads_signed (hlimit : 0 < limit)
    (hexpr : Reads limit (fun eof => (deeper eof).expr) .disjunction n)
    (hsigned : Reads limit (fun eof => (deeper eof).signed) .signed n) :
    Reads limit (fun eof => signed eof limit (deeper eof)) .signed (n + 1) where
  sound eof := sound_signed hlimit (hexpr.sound eof) (hsigned.sound eof)
  onLine ls := by
    have hplain : (∀ l ∈ ls.head?, ∀ op, l.token = .operator op → sign? op = none) →
        OnLine (fun eof => signed eof limit (deeper eof)) (Viable .signed) ls := by
      intro hhead
      have haccessed := ((reads_accessed hlimit hexpr).onLine ls).mono fun us hus => hus.unsigned
      refine haccessed.congr fun eof ls' hls' => ?_
      have hhead' := hls'.forall_head hhead
      unfold signed
      split
      · rw [hhead' _ rfl _ rfl]
      · rfl
    cases ls with
    | nil => exact hplain nofun
    | cons l rest =>
      obtain ⟨token, start, stop⟩ := l
      cases token with
      | operator op =>
        cases hsign : sign? op with
        | none => exact hplain (by rintro _ ⟨⟩ _ ⟨⟩; exact hsign)
        | some sign =>
          refine OnLine.cons (p := fun eof => prefixed limit sign start (deeper eof).signed)
            (onLine_prefixed hsigned fun us hus => .sign hsign hus) fun eof rest => ?_
          rw [signed, hsign]
      | _ => exact hplain (by rintro _ ⟨⟩; exact nofun)

theorem reads_relation (hlimit : 0 < limit)
    (hexpr : Reads limit (fun eof => (deeper eof).expr) .disjunction n)
    (hsigned : Reads limit (fun eof => (deeper eof).signed) .signed n) :
    Reads limit (fun eof => relation eof limit (deeper eof)) .relation (n + 1) := by
  have hproduct := (reads_signed hlimit hexpr hsigned).chained (c := .product) rfl
  exact (hproduct.chained (c := .sum) rfl).chained (c := .relation) rfl

theorem reads_negated (hlimit : 0 < limit)
    (hexpr : Reads limit (fun eof => (deeper eof).expr) .disjunction n)
    (hsigned : Reads limit (fun eof => (deeper eof).signed) .signed n)
    (hnegated : Reads limit (fun eof => (deeper eof).negated) .negation n) :
    Reads limit (fun eof => negated eof limit (deeper eof)) .negation (n + 1) where
  sound eof := sound_negated hlimit (hexpr.sound eof) (hsigned.sound eof) (hnegated.sound eof)
  onLine ls := by
    have hplain : (∀ l ∈ ls.head?, l.token ≠ .not) →
        OnLine (fun eof => negated eof limit (deeper eof)) (Viable .negation) ls := by
      intro hhead
      have hrelation :=
        ((reads_relation hlimit hexpr hsigned).onLine ls).mono fun us hus => hus.unnegated
      refine hrelation.congr fun eof ls' hls' => ?_
      have hhead' := hls'.forall_head hhead
      unfold negated
      split
      · exact absurd rfl (hhead' _ rfl)
      · rfl
    cases ls with
    | nil => exact hplain nofun
    | cons l rest =>
      obtain ⟨token, start, stop⟩ := l
      cases token with
      | not =>
        exact (onLine_prefixed hnegated fun us hus => .not hus).cons fun _ _ => rfl
      | _ => exact hplain (by rintro _ ⟨⟩; exact nofun)

/-- **The parsers of every level keep to their nonterminals.** -/
theorem reads_levels (hlimit : 0 < limit) (budget : Nat) {c : Category}
    {offer : Levels → Parser Tree} (hc : c.offer? = some offer) :
    Reads limit (fun eof => offer (levels eof limit budget)) c budget := by
  induction budget generalizing c offer with
  | zero =>
    refine ⟨fun eof => sound_levels hlimit 0 hc, fun ls => OnLine.tooDeep fun eof ls => ?_⟩
    exact ⟨_, refuse_of_offer? ls hc, by cases ls <;> rfl⟩
  | succ budget ih =>
    have hexpr := ih (c := .disjunction) rfl
    have hsigned := ih (c := .signed) rfl
    have hnegation := reads_negated hlimit hexpr hsigned (ih (c := .negation) rfl)
    simp only [parser_of_offer? budget hc]
    cases c <;> cases hc
    · exact (hnegation.chained (c := .conjunction) rfl).chained (c := .disjunction) rfl
    · exact hnegation
    · exact reads_signed hlimit hexpr hsigned

end

end Grammar

end Formulary
