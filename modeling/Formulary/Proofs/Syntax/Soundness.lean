import Formulary.Proofs.Syntax.Grammar

/-!
# What the parser accepts is derived

Each parser of the descent belongs to a nonterminal. Whatever it accepts is derived by that
nonterminal, within the two bounds of the descent.

The proof is one induction on the budget: whatever parsers the deeper level offers, if these are
sound then so is every parser of the level. The parsers with a loop carry the tree so far, and what
the loop keeps is that the tokens behind it derive that tree.

## Main definitions

* `Grammar.parser`, `Grammar.Category.offer?` — the parser of a nonterminal on one level, and the
  parser that the level offers to the level around it
* `Grammar.Sound` — what a parser accepts is derived within the bounds

## Main results

* `Grammar.Category.mem_ops_iff` — the operators of a chain are those of its precedence
* `Grammar.sound_levels` — what a level accepts is derived
-/

namespace Formulary

namespace Grammar

open Descent

variable {eof limit : Nat}

/-! ### Parsers by nonterminal -/

/-- How tightly the operators of a nonterminal bind. -/
def Category.level : Category → Nat
  | .disjunction => 1
  | .conjunction => 2
  | .negation | .relation => 3
  | .sum => 4
  | .product => 5
  | .signed | .access | .atom => 6

theorem Category.mem_ops_iff {c operand : Category} {ops : List BinaryOp}
    (hc : c.chain? = some (ops, operand)) (op : BinaryOp) :
    op ∈ ops ↔ op.precedence = c.level := by
  cases c <;> cases hc <;> cases op <;> decide

/-- The parser of a nonterminal. -/
def parser (eof limit : Nat) (deeper : Levels) : Category → Parser Tree
  | .disjunction => disjunction eof limit deeper
  | .conjunction => chained limit (negated eof limit deeper) 2
  | .negation => negated eof limit deeper
  | .relation => relation eof limit deeper
  | .sum => chained limit (chained limit (signed eof limit deeper) 5) 4
  | .product => chained limit (signed eof limit deeper) 5
  | .signed => signed eof limit deeper
  | .access => accessed eof limit deeper
  | .atom => atom eof limit deeper

theorem parser_of_chain? {c operand : Category} {ops : List BinaryOp} (deeper : Levels)
    (hc : c.chain? = some (ops, operand)) :
    parser eof limit deeper c = chained limit (parser eof limit deeper operand) c.level := by
  cases c <;> cases hc <;> rfl

/-- The parser that a level offers for a nonterminal to the level around it. -/
def Category.offer? : Category → Option (Levels → Parser Tree)
  | .disjunction => some Levels.expr
  | .negation => some Levels.negated
  | .signed => some Levels.signed
  | _ => none

theorem parser_of_offer? {c : Category} {offer : Levels → Parser Tree} (budget : Nat)
    (hc : c.offer? = some offer) :
    offer (levels eof limit (budget + 1)) = parser eof limit (levels eof limit budget) c := by
  cases c <;> cases hc <;> rfl

theorem refuse_of_offer? {c : Category} {offer : Levels → Parser Tree} (ls : List Lexeme)
    (hc : c.offer? = some offer) : offer (levels eof limit 0) ls = .error (tooDeep eof ls) := by
  cases c <;> cases hc <;> rfl

/-! ### Soundness -/

/-- Whatever the parser accepts is derived from the lexemes it took, on fewer than `n` levels, and
is not too high. -/
def Sound (limit : Nat) (p : Parser Tree) (c : Category) (n : Nat) : Prop :=
  ∀ ls t rest, p ls = .ok (t, rest) → ∃ taken d, ls = taken ++ rest ∧
    Derives c (taken.map Lexeme.token) t.bare d ∧ d < n ∧ t.height ≤ limit

theorem checked_eq_ok_iff {t node : Tree} :
    checked limit t = .ok node ↔ t.height ≤ limit ∧ node = t := by
  rw [checked]
  split
  · next h => exact ⟨fun ht => ⟨h, (Except.ok.inj ht).symm⟩, fun ht => by rw [ht.2]⟩
  · next h => exact ⟨nofun, fun ht => absurd ht.1 h⟩

theorem expect_eq_ok_iff {token : Token} {ls rest : List Lexeme} {stop : Nat} :
    expect eof token ls = .ok (stop, rest) ↔ ∃ start, ls = ⟨token, start, stop⟩ :: rest := by
  cases ls with
  | nil => exact ⟨nofun, nofun⟩
  | cons l ls =>
    obtain ⟨tok, start, stop'⟩ := l
    rw [expect]
    split
    · next h =>
      dsimp only at h
      subst h
      simp only [Except.ok.injEq, Prod.mk.injEq, List.cons.injEq, Lexeme.mk.injEq, true_and]
      constructor
      · rintro ⟨rfl, rfl⟩
        exact ⟨start, ⟨rfl, rfl⟩, rfl⟩
      · rintro ⟨_, ⟨-, rfl⟩, rfl⟩
        exact ⟨rfl, rfl⟩
    · next h => exact ⟨nofun, fun ⟨_, hl⟩ => absurd (congrArg Lexeme.token (List.cons.inj hl).1) h⟩

theorem expect_self (token : Token) (start stop : Nat) (rest : List Lexeme) :
    expect eof token (⟨token, start, stop⟩ :: rest) = .ok (stop, rest) :=
  if_pos rfl

theorem memberName_eq_ok_iff {ls rest : List Lexeme} {name : String} {stop : Nat} :
    memberName eof ls = .ok ((name, stop), rest) ↔
      ∃ start, ls = ⟨.identifier name, start, stop⟩ :: rest := by
  constructor
  · intro h
    unfold memberName at h
    split at h
    · next start _ _ =>
      cases h
      exact ⟨start, rfl⟩
    · exact nomatch h
  · rintro ⟨start, rfl⟩
    rfl

theorem sound_prefixed {p : Parser Tree} {c : Category} {n : Nat} (hp : Sound limit p c n)
    {op : UnaryOp} {start : Nat} {ls rest : List Lexeme} {t : Tree}
    (h : prefixed limit op start p ls = .ok (t, rest)) :
    ∃ inner d taken, ls = taken ++ rest ∧ Derives c (taken.map Lexeme.token) (Tree.bare inner) d ∧
      d < n ∧ t.height ≤ limit ∧ t = .unary op inner (.of start inner.span.stop) := by
  unfold prefixed at h
  obtain ⟨⟨inner, ls'⟩, hinner, hnode⟩ := bind_eq_ok_iff.mp h
  obtain ⟨node, hchecked, hnil⟩ := bind_eq_ok_iff.mp hnode
  cases hnil
  obtain ⟨hheight, rfl⟩ := checked_eq_ok_iff.mp hchecked
  obtain ⟨taken, d, rfl, hd, hdn, -⟩ := hp _ _ _ hinner
  exact ⟨inner, d, taken, rfl, hd, hdn, hheight, rfl⟩

/-- The loop of a chain keeps what it was started with. -/
theorem Sound.chain {p : Parser Tree} {c operand : Category} {ops : List BinaryOp} {n : Nat}
    (hp : Sound limit p operand n) (hc : c.chain? = some (ops, operand)) :
    ∀ (fuel : Nat) (left : Tree) (ls : List Lexeme) (t : Tree) (rest : List Lexeme)
      (ts : List Token) (d : Nat), Derives c ts left.bare d → d < n → left.height ≤ limit →
      chain limit p c.level fuel left ls = .ok (t, rest) →
      ∃ taken d', ls = taken ++ rest ∧ Derives c (ts ++ taken.map Lexeme.token) t.bare d' ∧ d' < n ∧
        t.height ≤ limit := by
  intro fuel
  induction fuel with
  | zero =>
    rintro left ls t rest ts d hd hdn hleft ⟨⟩
    exact ⟨[], d, rfl, by simpa using hd, hdn, hleft⟩
  | succ fuel ih =>
    intro left ls t rest ts d hd hdn hleft h
    unfold Descent.chain at h
    split at h
    · next op start stop ls =>
      split at h
      · next hop =>
        obtain ⟨⟨right, ls'⟩, hright, hnode⟩ := bind_eq_ok_iff.mp h
        obtain ⟨node, hchecked, hloop⟩ := bind_eq_ok_iff.mp hnode
        obtain ⟨hheight, rfl⟩ := checked_eq_ok_iff.mp hchecked
        obtain ⟨taken, dr, rfl, hdr, hdrn, -⟩ := hp _ _ _ hright
        have hlink := Derives.link hc ((Category.mem_ops_iff hc op).mpr hop) hd hdr
        obtain ⟨taken', d', rfl, hd', hdn', ht⟩ :=
          ih _ _ _ _ _ _ hlink (Nat.max_lt.mpr ⟨hdn, hdrn⟩) hheight hloop
        refine ⟨⟨.operator op, start, stop⟩ :: (taken ++ taken'), d', by simp, ?_, hdn', ht⟩
        simpa using hd'
      · cases h
        exact ⟨[], d, rfl, by simpa using hd, hdn, hleft⟩
    · cases h
      exact ⟨[], d, rfl, by simpa using hd, hdn, hleft⟩

theorem Sound.chained {p : Parser Tree} {c operand : Category} {ops : List BinaryOp} {n : Nat}
    (hp : Sound limit p operand n) (hc : c.chain? = some (ops, operand)) :
    Sound limit (chained limit p c.level) c n := by
  intro ls t rest h
  unfold Descent.chained at h
  obtain ⟨⟨left, ls'⟩, hleft, hloop⟩ := bind_eq_ok_iff.mp h
  obtain ⟨taken, d, rfl, hd, hdn, hheight⟩ := hp _ _ _ hleft
  obtain ⟨taken', d', rfl, hd', hdn', ht⟩ :=
    hp.chain hc _ _ _ _ _ _ _ (.operand hc hd) hdn hheight hloop
  exact ⟨taken ++ taken', d', by simp, by simpa using hd', hdn', ht⟩

section

variable {deeper : Levels} {n : Nat}

/-- The loop of the arguments keeps the arguments that are read already. -/
theorem sound_moreArguments (hexpr : Sound limit deeper.expr .disjunction n) :
    ∀ (fuel : Nat) (ls : List Lexeme) (args : List Tree) (rest : List Lexeme) (ts : List Token)
      (before : List Tree) (d : Nat), DerivesArguments ts before d → d < n + 1 →
      moreArguments deeper fuel ls = .ok (args, rest) →
      ∃ taken d', ls = taken ++ rest ∧
        DerivesArguments (ts ++ taken.map Lexeme.token) (before ++ Tree.bareAll args) d' ∧
        d' < n + 1 := by
  intro fuel
  induction fuel with
  | zero =>
    rintro ls args rest ts before d hd hdn ⟨⟩
    exact ⟨[], d, rfl, by simpa [Tree.bareAll] using hd, hdn⟩
  | succ fuel ih =>
    intro ls args rest ts before d hd hdn h
    unfold moreArguments at h
    split at h
    · next start stop ls =>
      obtain ⟨⟨arg, ls'⟩, harg, hargs⟩ := bind_eq_ok_iff.mp h
      obtain ⟨⟨args', ls''⟩, hmore, hnil⟩ := bind_eq_ok_iff.mp hargs
      cases hnil
      obtain ⟨taken, da, rfl, hda, hdan, -⟩ := hexpr _ _ _ harg
      obtain ⟨taken', d', rfl, hd', hdn'⟩ :=
        ih _ _ _ _ _ _ (.more hd hda) (Nat.max_lt.mpr ⟨hdn, Nat.succ_lt_succ hdan⟩) hmore
      refine ⟨⟨.comma, start, stop⟩ :: (taken ++ taken'), d', by simp, ?_, hdn'⟩
      simpa [Tree.bareAll] using hd'
    · cases h
      exact ⟨[], d, rfl, by simpa [Tree.bareAll] using hd, hdn⟩

theorem sound_arguments (hexpr : Sound limit deeper.expr .disjunction n) {ls rest : List Lexeme}
    {args : List Tree} (h : arguments deeper ls = .ok (args, rest)) :
    (args = [] ∧ ls = rest) ∨ ∃ taken d, ls = taken ++ rest ∧
      DerivesArguments (taken.map Lexeme.token) (Tree.bareAll args) d ∧ d < n + 1 := by
  unfold arguments at h
  split at h
  · cases h
    exact .inl ⟨rfl, rfl⟩
  · obtain ⟨⟨arg, ls'⟩, harg, hargs⟩ := bind_eq_ok_iff.mp h
    obtain ⟨⟨args', ls''⟩, hmore, hnil⟩ := bind_eq_ok_iff.mp hargs
    cases hnil
    obtain ⟨taken, d, rfl, hd, hdn, -⟩ := hexpr _ _ _ harg
    obtain ⟨taken', d', rfl, hd', hdn'⟩ :=
      sound_moreArguments hexpr _ _ _ _ _ _ _ (.one hd) (Nat.succ_lt_succ hdn) hmore
    exact .inr ⟨taken ++ taken', d', by simp, by simpa [Tree.bareAll] using hd', hdn'⟩

theorem sound_atom (hlimit : 0 < limit) (hexpr : Sound limit deeper.expr .disjunction n) :
    Sound limit (atom eof limit deeper) .atom (n + 1) := by
  intro ls t rest h
  unfold atom at h
  split at h
  · next kind text start stop ls =>
    cases h
    exact ⟨[⟨.literal kind text, start, stop⟩], 0, rfl, .literal kind text, n.succ_pos, hlimit⟩
  · next name start stop start' stop' ls =>
    obtain ⟨⟨args, ls'⟩, hargs, hclose⟩ := bind_eq_ok_iff.mp h
    obtain ⟨⟨last, ls''⟩, hexpect, hnode⟩ := bind_eq_ok_iff.mp hclose
    obtain ⟨node, hchecked, hnil⟩ := bind_eq_ok_iff.mp hnode
    cases hnil
    obtain ⟨first, rfl⟩ := expect_eq_ok_iff.mp hexpect
    obtain ⟨hheight, rfl⟩ := checked_eq_ok_iff.mp hchecked
    rcases sound_arguments hexpr hargs with ⟨rfl, rfl⟩ | ⟨taken, d, rfl, hd, hdn⟩
    · exact ⟨[⟨.identifier name, start, stop⟩, ⟨.leftParen, start', stop'⟩,
        ⟨.rightParen, first, last⟩], 0, rfl, .nullary name, n.succ_pos, hheight⟩
    · refine ⟨⟨.identifier name, start, stop⟩ :: ⟨.leftParen, start', stop'⟩ ::
        (taken ++ [⟨.rightParen, first, last⟩]), d, by simp, ?_, hdn, hheight⟩
      simpa [Tree.bare] using Derives.call name hd
  · next name start stop ls _ =>
    cases h
    exact ⟨[⟨.identifier name, start, stop⟩], 0, rfl, .var name, n.succ_pos, hlimit⟩
  · next start stop ls =>
    obtain ⟨⟨inner, ls'⟩, hinner, hclose⟩ := bind_eq_ok_iff.mp h
    obtain ⟨⟨last, ls''⟩, hexpect, hnil⟩ := bind_eq_ok_iff.mp hclose
    cases hnil
    obtain ⟨first, rfl⟩ := expect_eq_ok_iff.mp hexpect
    obtain ⟨taken, d, rfl, hd, hdn, hheight⟩ := hexpr _ _ _ hinner
    refine ⟨⟨.leftParen, start, stop⟩ :: (taken ++ [⟨.rightParen, first, last⟩]), d + 1,
      by simp, ?_, Nat.succ_lt_succ hdn, hheight⟩
    simpa using Derives.parens hd
  · exact nomatch h

/-- The loop of the indexes and members keeps what it was started with. -/
theorem sound_accesses (hexpr : Sound limit deeper.expr .disjunction n) :
    ∀ (fuel : Nat) (base : Tree) (ls : List Lexeme) (t : Tree) (rest : List Lexeme)
      (ts : List Token) (d : Nat), Derives .access ts base.bare d → d < n + 1 →
      base.height ≤ limit → accesses eof limit deeper fuel base ls = .ok (t, rest) →
      ∃ taken d', ls = taken ++ rest ∧ Derives .access (ts ++ taken.map Lexeme.token) t.bare d' ∧
        d' < n + 1 ∧ t.height ≤ limit := by
  intro fuel
  induction fuel with
  | zero =>
    rintro base ls t rest ts d hd hdn hbase ⟨⟩
    exact ⟨[], d, rfl, by simpa using hd, hdn, hbase⟩
  | succ fuel ih =>
    intro base ls t rest ts d hd hdn hbase h
    unfold accesses at h
    split at h
    · next start stop ls =>
      obtain ⟨⟨i, ls'⟩, hi, hclose⟩ := bind_eq_ok_iff.mp h
      obtain ⟨⟨last, ls''⟩, hexpect, hnode⟩ := bind_eq_ok_iff.mp hclose
      obtain ⟨node, hchecked, hloop⟩ := bind_eq_ok_iff.mp hnode
      obtain ⟨first, rfl⟩ := expect_eq_ok_iff.mp hexpect
      obtain ⟨hheight, rfl⟩ := checked_eq_ok_iff.mp hchecked
      obtain ⟨taken, di, rfl, hdi, hdin, -⟩ := hexpr _ _ _ hi
      obtain ⟨taken', d', rfl, hd', hdn', ht⟩ := ih _ _ _ _ _ _ (Derives.index hd hdi)
        (Nat.max_lt.mpr ⟨hdn, Nat.succ_lt_succ hdin⟩) hheight hloop
      refine ⟨⟨.leftBracket, start, stop⟩ :: (taken ++ ⟨.rightBracket, first, last⟩ :: taken'), d',
        by simp, ?_, hdn', ht⟩
      simpa using hd'
    · next start stop ls =>
      obtain ⟨⟨⟨name, last⟩, ls'⟩, hname, hnode⟩ := bind_eq_ok_iff.mp h
      obtain ⟨node, hchecked, hloop⟩ := bind_eq_ok_iff.mp hnode
      obtain ⟨hheight, rfl⟩ := checked_eq_ok_iff.mp hchecked
      obtain ⟨first, rfl⟩ := memberName_eq_ok_iff.mp hname
      obtain ⟨taken', d', rfl, hd', hdn', ht⟩ :=
        ih _ _ _ _ _ _ (Derives.member name hd) hdn hheight hloop
      refine ⟨⟨.dot, start, stop⟩ :: ⟨.identifier name, first, last⟩ :: taken', d', rfl, ?_, hdn',
        ht⟩
      simpa using hd'
    · cases h
      exact ⟨[], d, rfl, by simpa using hd, hdn, hbase⟩

theorem sound_accessed (hlimit : 0 < limit) (hexpr : Sound limit deeper.expr .disjunction n) :
    Sound limit (accessed eof limit deeper) .access (n + 1) := by
  intro ls t rest h
  unfold accessed at h
  obtain ⟨⟨base, ls'⟩, hbase, hloop⟩ := bind_eq_ok_iff.mp h
  obtain ⟨taken, d, rfl, hd, hdn, hheight⟩ := sound_atom hlimit hexpr _ _ _ hbase
  obtain ⟨taken', d', rfl, hd', hdn', ht⟩ :=
    sound_accesses hexpr _ _ _ _ _ _ _ (.base hd) hdn hheight hloop
  exact ⟨taken ++ taken', d', by simp, by simpa using hd', hdn', ht⟩

theorem sound_signed (hlimit : 0 < limit) (hexpr : Sound limit deeper.expr .disjunction n)
    (hsigned : Sound limit deeper.signed .signed n) :
    Sound limit (signed eof limit deeper) .signed (n + 1) := by
  have unsigned : Sound limit (accessed eof limit deeper) .signed (n + 1) := by
    intro ls t rest h
    obtain ⟨taken, d, hls, hd, hdn, hheight⟩ := sound_accessed hlimit hexpr ls t rest h
    exact ⟨taken, d, hls, .unsigned hd, hdn, hheight⟩
  intro ls t rest h
  unfold signed at h
  split at h
  · next op start stop ls =>
    split at h
    · next sign hsign =>
      obtain ⟨inner, d, taken, rfl, hd, hdn, hheight, rfl⟩ := sound_prefixed hsigned h
      refine ⟨⟨.operator op, start, stop⟩ :: taken, d + 1, rfl, ?_, Nat.succ_lt_succ hdn, hheight⟩
      cases op <;> cases hsign
      · exact .positive hd
      · exact .negative hd
    · exact unsigned _ _ _ h
  · exact unsigned _ _ _ h

theorem sound_relation (hlimit : 0 < limit) (hexpr : Sound limit deeper.expr .disjunction n)
    (hsigned : Sound limit deeper.signed .signed n) :
    Sound limit (relation eof limit deeper) .relation (n + 1) := by
  have hproduct : Sound limit (chained limit (signed eof limit deeper) 5) .product (n + 1) :=
    (sound_signed hlimit hexpr hsigned).chained (c := .product) rfl
  exact (hproduct.chained (c := .sum) rfl).chained (c := .relation) rfl

theorem sound_negated (hlimit : 0 < limit) (hexpr : Sound limit deeper.expr .disjunction n)
    (hsigned : Sound limit deeper.signed .signed n)
    (hnegated : Sound limit deeper.negated .negation n) :
    Sound limit (negated eof limit deeper) .negation (n + 1) := by
  intro ls t rest h
  unfold negated at h
  split at h
  · next start stop ls =>
    obtain ⟨inner, d, taken, rfl, hd, hdn, hheight, rfl⟩ := sound_prefixed hnegated h
    exact ⟨⟨.not, start, stop⟩ :: taken, d + 1, rfl, .not hd, Nat.succ_lt_succ hdn, hheight⟩
  · obtain ⟨taken, d, hls, hd, hdn, hheight⟩ := sound_relation hlimit hexpr hsigned _ _ _ h
    exact ⟨taken, d, hls, .unnegated hd, hdn, hheight⟩

end

/-- **Soundness.** What a level offers derives what it accepts, on fewer levels than its budget. -/
theorem sound_levels (hlimit : 0 < limit) (budget : Nat) {c : Category}
    {offer : Levels → Parser Tree} (hc : c.offer? = some offer) :
    Sound limit (offer (levels eof limit budget)) c budget := by
  induction budget generalizing c offer with
  | zero =>
    intro ls t rest h
    rw [refuse_of_offer? ls hc] at h
    exact nomatch h
  | succ budget ih =>
    have hexpr : Sound limit _ .disjunction budget := ih rfl
    have hsigned : Sound limit _ .signed budget := ih rfl
    have hnegation : Sound limit (negated eof limit _) .negation (budget + 1) :=
      sound_negated hlimit hexpr hsigned (ih rfl)
    rw [parser_of_offer? budget hc]
    cases c <;> cases hc
    · exact (hnegation.chained (c := .conjunction) rfl).chained (c := .disjunction) rfl
    · exact hnegation
    · exact sound_signed hlimit hexpr hsigned

/-- A sequence of lexemes that has a tree derives it, within the bounds. -/
theorem derives_of_ofLexemes {ls : List Lexeme} {t : Tree} (h : Tree.ofLexemes ls = .ok (some t)) :
    (∃ d, Derives .disjunction (ls.map Lexeme.token) t.bare d) ∧ t.height ≤ maxDepth := by
  unfold Tree.ofLexemes at h
  split at h
  · exact nomatch h
  · obtain ⟨⟨tree, rest⟩, hrun, hrest⟩ := bind_eq_ok_iff.mp h
    cases rest with
    | cons l rest => exact nomatch hrest
    | nil =>
      cases hrest
      have hlimit : 0 < maxDepth := by decide
      obtain ⟨taken, d, rfl, hd, -, hheight⟩ :=
        sound_levels hlimit maxDepth (c := .disjunction) rfl _ _ _ hrun
      rw [List.append_nil]
      exact ⟨⟨d, hd⟩, hheight⟩

end Grammar

end Formulary
