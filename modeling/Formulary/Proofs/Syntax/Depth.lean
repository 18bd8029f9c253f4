import Formulary.Proofs.Plan.Heights
import Formulary.Proofs.Syntax.Leaves

/-!
# How deep a source can lead

What is read recursively later on is bounded while a source is parsed, in two ways. Every tree that
the parser accepts is low, and so are the expression and the plan that are made from it. And while
the parser runs it is never inside too many groups, calls, indexes and operators before an operand,
whether it comes to a tree or not.

## Implementation notes

The levels of `Descent` are built one from the other, so that a parser cannot go too deep in the
first place. In this file the parser is written once more, with a counter in its state. The counter
is compared with the bound when a level is entered, raised, and lowered again when the level is
left, with a tree or with a fault. Independently of the counter the parser is told inside how many
constructs it runs, and keeps the greatest such number.

The parsers with a counter call each other recursively, as many times as there are lexemes to read;
`Watched.levels` unrolls them some number of times and has anything below. That nothing depends on
what is there says that it is never reached.

## Main definitions

* `Descent.Watch`, `Descent.Watched` — the state of a run, and parsers with a counter
* `Watched.nested`, `Watched.within` — a level of the counter, and a construct
* `Watched.levels`, `Watched.whole` — the parsers with a counter
* `Descent.Follows` — a parser with a counter does what another parser does, within the bound

## Main results

* `Descent.follows_levels` — the counter does what the levels do
* `Descent.follows_whole` — runs with a counter, and how deep they get
* `Expr.depth_bounded` — the bounds on trees, expressions, plans and runs
-/

namespace Formulary

namespace Descent

/-! ### Parsers with a counter -/

/-- The state of a run. -/
structure Watch where
  /-- The lexemes that are left. -/
  rest : List Lexeme
  /-- The counter of the parser. -/
  depth : Nat
  /-- The greatest number of constructs that the run was inside of. -/
  deepest : Nat

/-- A parser with a counter. It is told inside how many constructs it runs. -/
def Watched (α : Type) : Type := (inside : Nat) → Watch → Except SyntaxFault α × Watch

namespace Watched

variable {α β : Type}

/-- One parser after the other, up to the first fault. -/
def andThen (p : Watched α) (next : α → Watched β) : Watched β := fun inside w =>
  match p inside w with
  | (.ok a, w) => next a inside w
  | (.error fault, w) => (.error fault, w)

instance : Monad Watched where
  pure a := fun _ w => (.ok a, w)
  bind := andThen

/-- A fault. -/
def fail (fault : SyntaxFault) : Watched α := fun _ w => (.error fault, w)

/-- Look at what is left. -/
def look (next : List Lexeme → Watched α) : Watched α := fun inside w => next w.rest inside w

/-- Take the next lexeme. -/
def advance : Watched Unit := fun _ w => (.ok (), { w with rest := w.rest.tail })

/-- A parser that enters no level. -/
def flat (p : Parser α) : Watched α := fun _ w =>
  match p w.rest with
  | .ok (a, rest) => (.ok a, { w with rest })
  | .error fault => (.error fault, w)

/-- A node, unless it is too high. -/
def check (limit : Nat) (t : Tree) : Watched Tree := fun _ w => (checked limit t, w)

/-- One level deeper, unless the counter is at the bound. The counter is lowered again however the
level is left. -/
def nested (eof limit : Nat) (p : Watched α) : Watched α := fun inside w =>
  if limit ≤ w.depth then (.error (tooDeep eof w.rest), w)
  else
    let (outcome, w) := p inside { w with depth := w.depth + 1 }
    (outcome, { w with depth := w.depth - 1 })

/-- Inside one more construct. -/
def within (p : Watched α) : Watched α := fun inside w =>
  p (inside + 1) { w with deepest := max w.deepest (inside + 1) }

/-- The parsers of a level, each of which enters it. -/
structure Levels where
  /-- A whole expression. -/
  expr : Watched Tree
  /-- An operand of `not`. -/
  negated : Watched Tree
  /-- An operand of a sign. -/
  signed : Watched Tree

section

variable (eof limit : Nat)

/-- What stands before a closing lexeme, with the end of that lexeme. -/
def closed (token : Token) (p : Watched α) : Watched (α × Nat) := within do
  let a ← p
  let stop ← flat (expect eof token)
  return (a, stop)

/-- The rest of a chain of operators of one precedence, folded to the left. -/
def chain (operand : Watched Tree) (level : Nat) : (fuel : Nat) → Tree → Watched Tree
  | 0, left => pure left
  | fuel + 1, left => look fun
    | ⟨.operator op, _, _⟩ :: _ =>
      if op.precedence = level then do
        advance
        let right ← operand
        let node ← check limit (.binary op left right (left.span.union right.span))
        chain operand level fuel node
      else pure left
    | _ => pure left

/-- A chain of operators of one precedence. -/
def chained (operand : Watched Tree) (level : Nat) : Watched Tree := do
  let left ← operand
  look fun ts => chain limit operand level ts.length left

/-- The arguments after the first one. -/
def moreArguments (deeper : Levels) : (fuel : Nat) → Watched (List Tree)
  | 0 => pure []
  | fuel + 1 => look fun
    | ⟨.comma, _, _⟩ :: _ => do
      advance
      let arg ← deeper.expr
      let args ← moreArguments deeper fuel
      return arg :: args
    | _ => pure []

/-- The arguments of a call, up to the closing parenthesis. -/
def arguments (deeper : Levels) : Watched (List Tree) := look fun
  | ⟨.rightParen, _, _⟩ :: _ => pure []
  | _ => do
    let arg ← deeper.expr
    let args ← look fun ts => moreArguments deeper ts.length
    return arg :: args

/-- A literal, a variable, a call or an expression in parentheses. -/
def atom (deeper : Levels) : Watched Tree := look fun
  | ⟨.literal kind text, start, stop⟩ :: _ => do
    advance
    return .literal kind text (.of start stop)
  | ⟨.identifier name, start, _⟩ :: ⟨.leftParen, _, _⟩ :: _ => do
    advance
    advance
    let (args, stop) ← closed eof .rightParen (arguments deeper)
    check limit (.call name args (.of start stop))
  | ⟨.identifier name, start, stop⟩ :: _ => do
    advance
    return .var name (.of start stop)
  | ⟨.leftParen, _, _⟩ :: _ => do
    advance
    let (inner, _) ← closed eof .rightParen deeper.expr
    return inner
  | ts => fail (unexpected eof ts)

/-- The indexes and members after a base. -/
def accesses (deeper : Levels) : (fuel : Nat) → Tree → Watched Tree
  | 0, base => pure base
  | fuel + 1, base => look fun
    | ⟨.leftBracket, _, _⟩ :: _ => do
      advance
      let (index, stop) ← closed eof .rightBracket deeper.expr
      let node ← check limit (.index base index (.of base.span.start stop))
      accesses deeper fuel node
    | ⟨.dot, _, _⟩ :: _ => do
      advance
      let (name, stop) ← flat (memberName eof)
      let node ← check limit (.member base name (.of base.span.start stop))
      accesses deeper fuel node
    | _ => pure base

/-- An atom with its indexes and members. -/
def accessed (deeper : Levels) : Watched Tree := do
  let base ← atom eof limit deeper
  look fun ts => accesses eof limit deeper ts.length base

/-- An operator before an operand. -/
def prefixed (op : UnaryOp) (start : Nat) (operand : Watched Tree) : Watched Tree := do
  advance
  let inner ← within operand
  check limit (.unary op inner (.of start inner.span.stop))

/-- An operand with an optional sign. -/
def signed (deeper : Levels) : Watched Tree := look fun
  | ⟨.operator op, start, _⟩ :: _ =>
    match sign? op with
    | some sign => prefixed limit sign start deeper.signed
    | none => accessed eof limit deeper
  | _ => accessed eof limit deeper

/-- A relation, a sum, a product or less. -/
def relation (deeper : Levels) : Watched Tree :=
  chained limit (chained limit (chained limit (signed eof limit deeper) 5) 4) 3

/-- A relation with an optional `not`. -/
def negated (deeper : Levels) : Watched Tree := look fun
  | ⟨.not, start, _⟩ :: _ => prefixed limit .not start deeper.negated
  | _ => relation eof limit deeper

/-- An expression. -/
def disjunction (deeper : Levels) : Watched Tree :=
  chained limit (chained limit (negated eof limit deeper) 2) 1

/-- The parsers, unrolled a number of times above any others. -/
def levels (below : Levels) : (fuel : Nat) → Levels
  | 0 => below
  | fuel + 1 =>
    let deeper := levels below fuel
    ⟨nested eof limit (disjunction eof limit deeper), nested eof limit (negated eof limit deeper),
      nested eof limit (signed eof limit deeper)⟩

/-- A whole source, nothing for the empty one. -/
def whole (below : Levels) (fuel : Nat) : Watched (Option Tree) := look fun ts =>
  if ts.isEmpty then pure none
  else do
    let tree ← (levels eof limit below fuel).expr
    look fun
      | [] => pure (some tree)
      | l :: _ => fail (.of l.start l.stop .extraToken)

end

end Watched

/-! ### Following a parser -/

variable {α β : Type} {eof limit inside depth : Nat} {ls : List Lexeme}

/-- Inside so many constructs, with the counter at `depth`, the parser comes from the lexemes to the
same outcome and leaves the same lexemes. The counter is where it was, and the run was never inside
of more constructs than the bound. -/
def FollowsOn (limit inside depth : Nat) (ls : List Lexeme)
    (outcome : Except SyntaxFault (α × List Lexeme)) (q : Watched α) : Prop :=
  ∀ deepest ≤ limit, ∃ rest, ∃ deepest' ≤ limit,
    q inside ⟨ls, depth, deepest⟩ = (outcome.map (·.1), ⟨rest, depth, deepest'⟩) ∧
      ∀ a rest', outcome = .ok (a, rest') → rest = rest'

/-- The parser with a counter does what the other parser does. -/
def Follows (limit inside depth : Nat) (p : Parser α) (q : Watched α) : Prop :=
  ∀ ls, FollowsOn limit inside depth ls (p ls) q

namespace FollowsOn

theorem ok (a : α) : FollowsOn limit inside depth ls (.ok (a, ls)) (pure a) :=
  fun deepest h => ⟨ls, deepest, h, rfl, by rintro _ _ ⟨⟩; rfl⟩

theorem error (fault : SyntaxFault) :
    FollowsOn (α := α) limit inside depth ls (.error fault) (.fail fault) :=
  fun deepest h => ⟨ls, deepest, h, rfl, nofun⟩

theorem look {outcome : Except SyntaxFault (α × List Lexeme)} {next : List Lexeme → Watched α}
    (h : FollowsOn limit inside depth ls outcome (next ls)) :
    FollowsOn limit inside depth ls outcome (.look next) :=
  h

theorem advance {l : Lexeme} {outcome : Except SyntaxFault (α × List Lexeme)} {q : Watched α}
    (h : FollowsOn limit inside depth ls outcome q) :
    FollowsOn limit inside depth (l :: ls) outcome (Watched.advance >>= fun _ => q) :=
  h

/-- One parser after the other. -/
theorem bind {outcome : Except SyntaxFault (α × List Lexeme)} {q : Watched α}
    {next : α × List Lexeme → Except SyntaxFault (β × List Lexeme)} {next' : α → Watched β}
    (h : FollowsOn limit inside depth ls outcome q)
    (hnext : ∀ a rest, FollowsOn limit inside depth rest (next (a, rest)) (next' a)) :
    FollowsOn limit inside depth ls (outcome >>= next) (q >>= next') := by
  intro deepest hdeepest
  obtain ⟨rest, deepest', hdeepest', hq, hrest⟩ := h deepest hdeepest
  have hrun : (q >>= next') inside ⟨ls, depth, deepest⟩ =
      match q inside ⟨ls, depth, deepest⟩ with
      | (.ok a, w) => next' a inside w
      | (.error fault, w) => (.error fault, w) := rfl
  rw [hrun, hq]
  cases outcome with
  | error fault => exact ⟨rest, deepest', hdeepest', rfl, nofun⟩
  | ok found =>
    obtain ⟨a, rest'⟩ := found
    obtain rfl := hrest a rest' rfl
    exact hnext a rest deepest' hdeepest'

theorem checked {node : Tree} {next : Tree → Except SyntaxFault (α × List Lexeme)}
    {next' : Tree → Watched α}
    (h : FollowsOn limit inside depth ls (next node) (next' node)) :
    FollowsOn limit inside depth ls (Descent.checked limit node >>= next)
      (Watched.check limit node >>= next') := by
  intro deepest hdeepest
  have hrun : (Watched.check limit node >>= next') inside ⟨ls, depth, deepest⟩ =
      match Descent.checked limit node with
      | .ok t => next' t inside ⟨ls, depth, deepest⟩
      | .error fault => (.error fault, ⟨ls, depth, deepest⟩) := by
    cases hnode : Descent.checked limit node <;>
      simp only [Bind.bind, Watched.andThen, Watched.check, hnode]
  rw [hrun]
  cases hnode : Descent.checked limit node with
  | error fault => exact ⟨ls, deepest, hdeepest, rfl, nofun⟩
  | ok t =>
    obtain ⟨-, rfl⟩ := Grammar.checked_eq_ok_iff.mp hnode
    exact h deepest hdeepest

/-- A node that is the last thing to be read. -/
theorem node (t : Tree) :
    FollowsOn limit inside depth ls (Descent.checked limit t >>= fun t => .ok (t, ls))
      (.check limit t) := by
  intro deepest hdeepest
  rw [Watched.check]
  cases Descent.checked limit t with
  | error fault => exact ⟨ls, deepest, hdeepest, rfl, nofun⟩
  | ok t => exact ⟨ls, deepest, hdeepest, rfl, by rintro _ _ ⟨⟩; rfl⟩

theorem flat (p : Parser α) : FollowsOn limit inside depth ls (p ls) (.flat p) := by
  intro deepest hdeepest
  rw [Watched.flat]
  cases p ls with
  | error fault => exact ⟨ls, deepest, hdeepest, rfl, nofun⟩
  | ok found => exact ⟨found.2, deepest, hdeepest, rfl, by rintro _ _ ⟨⟩; rfl⟩

/-- Inside one more construct, as long as the bound admits one. -/
theorem within {outcome : Except SyntaxFault (α × List Lexeme)} {q : Watched α}
    (hinside : inside < limit) (h : FollowsOn limit (inside + 1) depth ls outcome q) :
    FollowsOn limit inside depth ls outcome q.within :=
  fun deepest hdeepest => h (max deepest (inside + 1)) (Nat.max_le.mpr ⟨hdeepest, hinside⟩)

/-- Inside a construct that a lexeme closes. -/
theorem closed {token : Token} {outcome : Except SyntaxFault (α × List Lexeme)} {q : Watched α}
    {next : α × List Lexeme → Except SyntaxFault (β × List Lexeme)}
    {after : α → Nat × List Lexeme → Except SyntaxFault (β × List Lexeme)}
    {next' : α × Nat → Watched β} (hinside : inside < limit)
    (h : FollowsOn limit (inside + 1) depth ls outcome q)
    (hclose : ∀ a rest, next (a, rest) = expect eof token rest >>= after a)
    (hnext : ∀ a stop rest,
      FollowsOn limit inside depth rest (after a (stop, rest)) (next' (a, stop))) :
    FollowsOn limit inside depth ls (outcome >>= next)
      (Watched.closed eof token q >>= next') := by
  -- what is read inside of the construct, and what is read behind it
  let reads : Except SyntaxFault ((α × Nat) × List Lexeme) := outcome >>= fun found =>
    expect eof token found.2 >>= fun closing => .ok ((found.1, closing.1), closing.2)
  have hreads : FollowsOn limit inside depth ls reads (Watched.closed eof token q) :=
    .within hinside (.bind h fun a rest => .bind (.flat (expect eof token)) fun stop rest =>
      .ok (a, stop))
  have hall : FollowsOn limit inside depth ls
      (reads >>= fun found => after found.1.1 (found.1.2, found.2))
      (Watched.closed eof token q >>= next') :=
    .bind hreads fun found rest => hnext found.1 found.2 rest
  have heq : outcome >>= next = reads >>= fun found => after found.1.1 (found.1.2, found.2) := by
    cases outcome with
    | error fault => rfl
    | ok found =>
      rw [ok_bind, hclose]
      dsimp only [reads]
      rw [ok_bind]
      cases expect eof token found.2 <;> rfl
  rw [heq]
  exact hall

end FollowsOn

theorem Follows.nested {p : Parser α} {q : Watched α} (hdepth : depth < limit)
    (h : Follows limit inside (depth + 1) p q) :
    Follows limit inside depth p (q.nested eof limit) := by
  intro ls deepest hdeepest
  obtain ⟨rest, deepest', hdeepest', hq, hrest⟩ := h ls deepest hdeepest
  refine ⟨rest, deepest', hdeepest', ?_, hrest⟩
  rw [Watched.nested, if_neg (Nat.not_le.mpr hdepth), hq]
  rfl

/-- At the bound a level is refused. -/
theorem follows_refused (q : Watched α) :
    Follows limit inside limit (fun ls => .error (tooDeep eof ls)) (q.nested eof limit) := by
  intro ls deepest hdeepest
  refine ⟨ls, deepest, hdeepest, ?_, nofun⟩
  rw [Watched.nested, if_pos (Nat.le_refl limit)]
  rfl

/-! ### The parsers -/

theorem follows_chain {p : Parser Tree} {q : Watched Tree} (h : Follows limit inside depth p q)
    (level fuel : Nat) (left : Tree) :
    Follows limit inside depth (chain limit p level fuel left)
      (Watched.chain limit q level fuel left) := by
  induction fuel generalizing left with
  | zero => exact fun ls => .ok left
  | succ fuel ih =>
    intro ls
    cases ls with
    | nil => exact .ok left
    | cons l ls =>
      obtain ⟨token, start, stop⟩ := l
      cases token with
      | operator op =>
        rw [chain, Watched.chain]
        refine .look ?_
        dsimp only
        split
        · exact .advance (.bind (h ls) fun right rest => .checked (ih _ rest))
        · exact .ok left
      | _ => exact .ok left

theorem follows_chained {p : Parser Tree} {q : Watched Tree} (h : Follows limit inside depth p q)
    (level : Nat) :
    Follows limit inside depth (chained limit p level) (Watched.chained limit q level) :=
  fun ls => .bind (h ls) fun left rest => .look (follows_chain h level rest.length left rest)

/-- The parsers of a level do what those of another one do. -/
structure FollowsLevels (limit inside depth : Nat) (d : Levels) (d' : Watched.Levels) : Prop where
  /-- A whole expression. -/
  expr : Follows limit inside depth d.expr d'.expr
  /-- An operand of `not`. -/
  negated : Follows limit inside depth d.negated d'.negated
  /-- An operand of a sign. -/
  signed : Follows limit inside depth d.signed d'.signed

section

variable {d : Levels} {d' : Watched.Levels}

theorem follows_moreArguments (h : Follows limit inside depth d.expr d'.expr) (fuel : Nat) :
    Follows limit inside depth (moreArguments d fuel) (Watched.moreArguments d' fuel) := by
  induction fuel with
  | zero => exact fun ls => .ok []
  | succ fuel ih =>
    intro ls
    cases ls with
    | nil => exact .ok []
    | cons l ls =>
      obtain ⟨token, start, stop⟩ := l
      cases token with
      | comma =>
        refine .advance (.bind (h ls) fun arg rest => ?_)
        exact .bind (ih rest) fun args rest => .ok (arg :: args)
      | _ => exact .ok []

theorem follows_arguments (h : Follows limit inside depth d.expr d'.expr) :
    Follows limit inside depth (arguments d) (Watched.arguments d') := by
  have hsome : ∀ ls, FollowsOn limit inside depth ls
      (d.expr ls >>= fun x => moreArguments d x.2.length x.2 >>= fun y => .ok (x.1 :: y.1, y.2))
      (d'.expr >>= fun arg =>
        (Watched.look fun ts => Watched.moreArguments d' ts.length) >>= fun args =>
          pure (arg :: args)) := by
    refine fun ls => .bind (h ls) fun arg rest => ?_
    exact .bind (.look (follows_moreArguments h rest.length rest)) fun args rest =>
      .ok (arg :: args)
  intro ls
  cases ls with
  | nil => exact hsome []
  | cons l ls =>
    obtain ⟨token, start, stop⟩ := l
    cases token with
    | rightParen => exact .ok []
    | _ => exact hsome _

variable (hinside : inside < limit)
include hinside

theorem follows_atom (h : Follows limit (inside + 1) depth d.expr d'.expr) :
    Follows limit inside depth (atom eof limit d) (Watched.atom eof limit d') := by
  have hrefused : ∀ ls, FollowsOn limit inside depth ls (.error (unexpected eof ls))
      (Watched.fail (α := Tree) (unexpected eof ls)) := fun ls => .error _
  intro ls
  cases ls with
  | nil => exact hrefused []
  | cons l ls =>
    obtain ⟨token, start, stop⟩ := l
    cases token with
    | literal kind text => exact .advance (.ok _)
    | identifier name =>
      cases ls with
      | nil => exact .advance (.ok _)
      | cons l ls =>
        obtain ⟨token, start', stop'⟩ := l
        cases token with
        | leftParen =>
          refine .advance (.advance (.closed hinside (follows_arguments h ls) (fun _ _ => rfl) ?_))
          exact fun args stop rest => .node _
        | _ => exact .advance (.ok _)
    | leftParen =>
      refine .advance (.closed hinside (h ls) (fun _ _ => rfl) ?_)
      exact fun inner stop rest => .ok inner
    | _ => exact hrefused _

theorem follows_accesses (h : Follows limit (inside + 1) depth d.expr d'.expr) (fuel : Nat)
    (base : Tree) :
    Follows limit inside depth (accesses eof limit d fuel base)
      (Watched.accesses eof limit d' fuel base) := by
  induction fuel generalizing base with
  | zero => exact fun ls => .ok base
  | succ fuel ih =>
    intro ls
    cases ls with
    | nil => exact .ok base
    | cons l ls =>
      obtain ⟨token, start, stop⟩ := l
      cases token with
      | leftBracket =>
        refine .advance (.closed hinside (h ls) (fun _ _ => rfl) ?_)
        exact fun index stop rest => .checked (ih _ rest)
      | dot =>
        refine .advance (.bind (.flat (memberName eof)) fun name rest => ?_)
        exact .checked (ih _ rest)
      | _ => exact .ok base

theorem follows_accessed (h : Follows limit (inside + 1) depth d.expr d'.expr) :
    Follows limit inside depth (accessed eof limit d) (Watched.accessed eof limit d') :=
  fun ls => .bind (follows_atom hinside h ls) fun base rest =>
    .look (follows_accesses hinside h rest.length base rest)

theorem follows_prefixed {p : Parser Tree} {q : Watched Tree}
    (h : Follows limit (inside + 1) depth p q) (op : UnaryOp) (l : Lexeme) (ls : List Lexeme) :
    FollowsOn limit inside depth (l :: ls) (prefixed limit op l.start p ls)
      (Watched.prefixed limit op l.start q) :=
  .advance (.bind (.within hinside (h ls)) fun _ _ => .node _)

theorem follows_signed (h : FollowsLevels limit (inside + 1) depth d d') :
    Follows limit inside depth (signed eof limit d) (Watched.signed eof limit d') := by
  have haccessed : Follows limit inside depth (accessed eof limit d)
      (Watched.accessed eof limit d') := follows_accessed hinside h.expr
  intro ls
  cases ls with
  | nil => exact haccessed []
  | cons l ls =>
    obtain ⟨token, start, stop⟩ := l
    cases token with
    | operator op =>
      rw [signed, Watched.signed]
      refine .look ?_
      dsimp only
      cases sign? op with
      | some sign => exact follows_prefixed hinside h.signed sign ⟨.operator op, start, stop⟩ ls
      | none => exact haccessed _
    | _ => exact haccessed _

theorem follows_negated (h : FollowsLevels limit (inside + 1) depth d d') :
    Follows limit inside depth (negated eof limit d) (Watched.negated eof limit d') := by
  have hrelation : Follows limit inside depth (relation eof limit d)
      (Watched.relation eof limit d') :=
    follows_chained (follows_chained (follows_chained (follows_signed hinside h) 5) 4) 3
  intro ls
  cases ls with
  | nil => exact hrelation []
  | cons l ls =>
    obtain ⟨token, start, stop⟩ := l
    cases token with
    | not => exact follows_prefixed hinside h.negated .not ⟨.not, start, stop⟩ ls
    | _ => exact hrelation _

theorem follows_disjunction (h : FollowsLevels limit (inside + 1) depth d d') :
    Follows limit inside depth (disjunction eof limit d) (Watched.disjunction eof limit d') :=
  follows_chained (follows_chained (follows_negated hinside h) 2) 1

end

/-- **The counter does what the levels do**: inside as many constructs as the counter says, the
parsers with a counter do what those of the levels that are left do. -/
theorem follows_levels (below : Watched.Levels) {fuel depth : Nat} (hdepth : depth ≤ limit)
    (hfuel : limit < depth + fuel) :
    FollowsLevels limit depth depth (levels eof limit (limit - depth))
      (Watched.levels eof limit below fuel) := by
  induction fuel generalizing depth with
  | zero => omega
  | succ fuel ih =>
    rcases Nat.eq_or_lt_of_le hdepth with rfl | hdepth
    · rw [Nat.sub_self, levels, Watched.levels]
      refine ⟨?_, ?_, ?_⟩ <;> dsimp only <;> exact follows_refused _
    · have hdeeper := ih hdepth (by omega)
      obtain ⟨budget, hbudget⟩ := Nat.exists_eq_add_of_lt hdepth
      rw [show limit - (depth + 1) = budget by omega] at hdeeper
      rw [show limit - depth = budget + 1 by omega]
      exact ⟨.nested hdepth (follows_disjunction hdepth hdeeper),
        .nested hdepth (follows_negated hdepth hdeeper),
        .nested hdepth (follows_signed hdepth hdeeper)⟩

/-- **A whole run** with a counter comes to the tree of the lexemes, or to the same fault. The
counter is back at zero, and the run was never inside of too many constructs. -/
theorem follows_whole (below : Watched.Levels) {fuel : Nat} (hfuel : maxDepth < fuel)
    (ls : List Lexeme) : ∃ rest, ∃ deepest ≤ maxDepth,
      Watched.whole (Tree.endOf ls) maxDepth below fuel 0 ⟨ls, 0, 0⟩ =
        (Tree.ofLexemes ls, ⟨rest, 0, deepest⟩) := by
  have hrun : FollowsOn maxDepth 0 0 ls
      (if ls.isEmpty then .ok (none, ls)
      else (levels (Tree.endOf ls) maxDepth maxDepth).expr ls >>= fun found =>
        match found.2 with
        | [] => .ok (some found.1, [])
        | l :: _ => .error (.of l.start l.stop .extraToken))
      (Watched.whole (Tree.endOf ls) maxDepth below fuel) := by
    rw [Watched.whole]
    refine .look ?_
    split
    · exact .ok none
    · have hlevels : FollowsLevels maxDepth 0 0 (levels (Tree.endOf ls) maxDepth maxDepth)
          (Watched.levels (Tree.endOf ls) maxDepth below fuel) :=
        follows_levels below (Nat.zero_le maxDepth) ((Nat.zero_add fuel).symm ▸ hfuel)
      refine .bind (hlevels.expr ls) fun tree rest => .look ?_
      cases rest with
      | nil => exact .ok (some tree)
      | cons l rest => exact .error _
  obtain ⟨rest, deepest, hdeepest, hwhole, -⟩ := hrun 0 (Nat.zero_le maxDepth)
  refine ⟨rest, deepest, hdeepest, ?_⟩
  rw [hwhole]
  congr 1
  unfold Tree.ofLexemes
  split
  · rfl
  · cases (levels (Tree.endOf ls) maxDepth maxDepth).expr ls with
    | error fault => rfl
    | ok found =>
      obtain ⟨tree, rest⟩ := found
      cases rest <;> rfl

end Descent

/-- The tree of a source that is accepted is low. -/
theorem Tree.height_of_ofSource {source : String} {t : Tree} (h : ofSource source = .ok (some t)) :
    t.height ≤ maxDepth := by
  obtain ⟨lexemes, -, hread⟩ := bind_eq_ok_iff.mp h
  exact (Grammar.derives_of_ofLexemes hread).2

/-- **How deep a source can lead.** The tree of a source that is accepted is no higher than the
bound, its expression is no higher than the tree, and no plan is higher than the expression,
whatever it is bound against. And no run of the parser, with whatever outcome, is inside of more
constructs than the bound. -/
theorem Expr.depth_bounded (source : String) :
    (∀ tree, Tree.ofSource source = .ok (some tree) → tree.height ≤ maxDepth ∧
      ∀ e, Expr.ofTree tree = .ok e → e.height ≤ tree.height ∧
        (∀ (Part : Type) (view : View Part) (registry : Registry) (p : Plan),
          view.compile registry e = .ok p → p.height ≤ e.height) ∧
        ∀ (s : Scope) (p : Plan), e.compile s = .ok p → p.height ≤ e.height) ∧
    ∀ lexemes, Lexeme.ofSource source = .ok lexemes →
      ∀ (below : Descent.Watched.Levels) (fuel : Nat), maxDepth < fuel →
        ∃ rest, ∃ deepest ≤ maxDepth,
          Descent.Watched.whole (Tree.endOf lexemes) maxDepth below fuel 0 ⟨lexemes, 0, 0⟩ =
            (Tree.ofSource source, ⟨rest, 0, deepest⟩) := by
  constructor
  · intro tree htree
    refine ⟨Tree.height_of_ofSource htree, fun e he => ⟨?_, ?_, ?_⟩⟩
    · exact Nat.le_of_eq (Expr.height_of_ofTree tree he)
    · exact fun _ _ _ _ hp => View.height_compile hp
    · intro s p hp
      rw [← View.compile_ofLayout] at hp
      exact View.height_compile hp
  · intro lexemes hlexemes below fuel hfuel
    have hsource : Tree.ofSource source = Tree.ofLexemes lexemes := by
      rw [Tree.ofSource, hlexemes, ok_bind]
    rw [hsource]
    exact Descent.follows_whole below hfuel lexemes

/-- The tree of an element of the record, in parentheses. -/
def Tree.firstElement : Tree :=
  .index (.var "$" ⟨1, 2⟩) (.literal .integer "0" ⟨3, 4⟩) ⟨1, 5⟩

/-- The expression of that tree. -/
def Expr.firstElement : Expr :=
  .index (.var "$" ⟨1, 2⟩) (.const (.long 0) ⟨3, 4⟩) ⟨1, 5⟩

/-- A scope whose record is a tuple of one element. -/
def Scope.oneElement : Scope := ⟨some (.tuple [.leaf .long 0]), ⟨[], [], []⟩⟩

/-- The element is bound to a variable, which is lower than the access to it. -/
theorem Expr.depth_bounded_firstElement :
    ((Tree.ofSource "($[0])" = .ok (some Tree.firstElement) ∧
      Expr.ofTree Tree.firstElement = .ok firstElement ∧
        firstElement.compile Scope.oneElement = .ok (.var 0 .long)) ∧
      Tree.firstElement.height ≤ maxDepth ∧ firstElement.height ≤ Tree.firstElement.height ∧
        (Plan.var 0 .long).height ≤ firstElement.height) ∧
    ∃ lexemes, Lexeme.ofSource "($[0])" = .ok lexemes ∧
      ∀ below : Descent.Watched.Levels, ∃ rest, ∃ deepest ≤ maxDepth,
        Descent.Watched.whole (Tree.endOf lexemes) maxDepth below (maxDepth + 1) 0
          ⟨lexemes, 0, 0⟩ = (Tree.ofSource "($[0])", ⟨rest, 0, deepest⟩) := by
  have htree : Tree.ofSource "($[0])" = .ok (some Tree.firstElement) := rfl
  have hexpr : Expr.ofTree Tree.firstElement = .ok firstElement := rfl
  have hplan : firstElement.compile Scope.oneElement = .ok (.var 0 .long) := rfl
  obtain ⟨lexemes, hlexemes, -⟩ := bind_eq_ok_iff.mp htree
  obtain ⟨htrees, hruns⟩ := Expr.depth_bounded "($[0])"
  obtain ⟨hheight, hexprs⟩ := htrees _ htree
  obtain ⟨hle, -, hplans⟩ := hexprs _ hexpr
  refine ⟨⟨⟨htree, hexpr, hplan⟩, hheight, hle, hplans _ _ hplan⟩, lexemes, hlexemes, ?_⟩
  exact fun below => hruns lexemes hlexemes below (maxDepth + 1) (Nat.lt_succ_self maxDepth)

end Formulary
