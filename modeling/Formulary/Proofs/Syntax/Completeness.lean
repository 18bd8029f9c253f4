import Formulary.Proofs.Syntax.Soundness

/-!
# What is derived, the parser accepts

One induction on derivations. It says a little more than that the parser succeeds: on the tokens of
a derivation the parser either builds the tree or runs into one of the bounds, and it never reports
anything else. That second half is what printing needs.

A chain is read by a loop that carries the tree so far. A derivation that leans to the left is
followed by saying that the whole loop equals the rest of it, started at the tree so far; the loop
ends where the next token does not continue the chain.

## Main definitions

* `Grammar.Category.continues`, `Grammar.Stops` — the tokens that a tree can go on with
* `Grammar.resume` — the rest of the loop of a nonterminal
* `Grammar.TooDeep` — a run that ran into a bound
* `Grammar.Resumes` — on a tree of the nonterminal its parser goes on with the loop, or is too deep

## Main results

* `Grammar.Derives.resumes` — every derivation is followed, or refused as too deep
* `Grammar.Derives.ofLexemes` — what is derived is accepted as a whole, or refused as too deep
-/

namespace Formulary

namespace Grammar

open Descent

variable {eof limit : Nat}

/-! ### Tokens that continue a tree -/

/-- The tokens that a tree of the nonterminal goes on with when they follow it. -/
def Category.continues (c : Category) : Token → Bool
  | .operator op => c.level ≤ op.precedence
  | .leftParen => true
  | .leftBracket | .dot => c != .atom
  | _ => false

/-- A tree of the nonterminal ends before these lexemes. -/
def Stops (c : Category) (rest : List Lexeme) : Prop :=
  ∀ l ∈ rest.head?, c.continues l.token = false

theorem Stops.cons {c : Category} {l : Lexeme} (rest : List Lexeme)
    (h : c.continues l.token = false) : Stops c (l :: rest) := by
  rintro _ ⟨⟩
  exact h

theorem Category.level_lt {c operand : Category} {ops : List BinaryOp}
    (hc : c.chain? = some (ops, operand)) : c.level < operand.level := by
  cases c <;> cases hc <;> decide

theorem Category.continues_of_chain? {c operand : Category} {ops : List BinaryOp} {token : Token}
    (hc : c.chain? = some (ops, operand)) (h : operand.continues token = true) :
    c.continues token = true := by
  cases token with
  | operator op =>
    simp only [Category.continues, decide_eq_true_eq] at h ⊢
    cases c <;> cases hc <;> exact Nat.le_trans (by decide) h
  | leftBracket | dot => cases c <;> cases hc <;> rfl
  | _ => exact h

theorem Stops.of_chain? {c operand : Category} {ops : List BinaryOp} {rest : List Lexeme}
    (hc : c.chain? = some (ops, operand)) (h : Stops c rest) : Stops operand rest := by
  intro l hl
  cases hcont : operand.continues l.token with
  | false => rfl
  | true => exact absurd (Category.continues_of_chain? hc hcont) (by simp [h l hl])

/-! ### Loops that go on -/

/-- The nonterminal whose trees a loop puts together. -/
def Category.inner : Category → Category
  | .disjunction => .conjunction
  | .conjunction => .negation
  | .relation => .sum
  | .sum => .product
  | .product => .signed
  | .access => .atom
  | c => c

theorem Category.inner_of_chain? {c operand : Category} {ops : List BinaryOp}
    (hc : c.chain? = some (ops, operand)) : c.inner = operand := by
  cases c <;> cases hc <;> rfl

theorem Stops.inner {c : Category} {rest : List Lexeme} (h : Stops c rest) :
    Stops c.inner rest := by
  cases c with
  | negation | signed | atom => exact h
  | access =>
    intro l hl
    have hcont := h l hl
    revert hcont
    cases l.token with
    | operator op => exact id
    | leftBracket | dot => exact nofun
    | _ => exact id
  | disjunction | conjunction | relation | sum | product => exact h.of_chain? rfl

/-- The rest of the loop of a nonterminal, with the tree so far. -/
def resume (eof limit : Nat) (deeper : Levels) (c : Category) (fuel : Nat) (t : Tree) :
    Parser Tree :=
  match c.chain? with
  | some (_, operand) => chain limit (parser eof limit deeper operand) c.level fuel t
  | none => if c = .access then accesses eof limit deeper fuel t else fun rest => .ok (t, rest)

theorem resume_of_chain? {c operand : Category} {ops : List BinaryOp} (deeper : Levels) (fuel : Nat)
    (t : Tree) (hc : c.chain? = some (ops, operand)) :
    resume eof limit deeper c fuel t =
      chain limit (parser eof limit deeper operand) c.level fuel t := by
  rw [resume, hc]

theorem resume_access (deeper : Levels) (fuel : Nat) (t : Tree) :
    resume eof limit deeper .access fuel t = accesses eof limit deeper fuel t :=
  rfl

/-- A chain ends before a token that is none of its operators. -/
theorem chain_of_stops {p : Parser Tree} {c : Category} {rest : List Lexeme} (fuel : Nat)
    (t : Tree) (h : Stops c rest) : chain limit p c.level fuel t rest = .ok (t, rest) := by
  cases fuel with
  | zero => rfl
  | succ fuel =>
    unfold chain
    split
    · next op start stop rest =>
      have hop : ¬c.level ≤ op.precedence := by
        simpa [Category.continues] using h _ rfl
      rw [if_neg]
      intro heq
      exact hop (Nat.le_of_eq heq.symm)
    · rfl

/-- The indexes and members end before a token that starts neither. -/
theorem accesses_of_stops {deeper : Levels} {rest : List Lexeme} (fuel : Nat) (t : Tree)
    (h : Stops .access rest) : accesses eof limit deeper fuel t rest = .ok (t, rest) := by
  cases fuel with
  | zero => rfl
  | succ fuel =>
    unfold accesses
    split
    · exact nomatch h _ rfl
    · exact nomatch h _ rfl
    · rfl

theorem resume_of_stops {deeper : Levels} {c : Category} {rest : List Lexeme} (fuel : Nat)
    (t : Tree) (h : Stops c rest) : resume eof limit deeper c fuel t rest = .ok (t, rest) := by
  unfold resume
  cases c.chain? with
  | some link => exact chain_of_stops fuel t h
  | none =>
    by_cases hc : c = .access
    · subst hc
      exact accesses_of_stops fuel t h
    · simp only [if_neg hc]

/-! ### Completeness -/

/-- The run runs into one of the bounds. -/
def TooDeep {α : Type} (run : Except SyntaxFault α) : Prop :=
  ∃ fault, run = .error fault ∧ fault.code = .expressionTooDeep

theorem TooDeep.bind {α β : Type} {run : Except SyntaxFault α} (h : TooDeep run)
    (next : α → Except SyntaxFault β) : TooDeep (run >>= next) := by
  obtain ⟨fault, rfl, hcode⟩ := h
  exact ⟨fault, rfl, hcode⟩

theorem checked_bare (t : Tree) : (t.bare.height ≤ limit ∧ checked limit t = .ok t) ∨
    (¬t.bare.height ≤ limit ∧ TooDeep (checked limit t)) := by
  rw [Tree.height_bare]
  by_cases h : t.height ≤ limit
  · exact .inl ⟨h, if_pos h⟩
  · exact .inr ⟨h, _, if_neg h, rfl⟩

theorem tooDeep_of_offer? {c : Category} {offer : Levels → Parser Tree} (ls : List Lexeme)
    (hc : c.offer? = some offer) : TooDeep (offer (levels eof limit 0) ls) :=
  ⟨_, refuse_of_offer? ls hc, by cases ls <;> rfl⟩

/-- On the lexemes of a tree the parser of the nonterminal goes on with the loop, at that tree, when
the tree keeps the bounds, and otherwise refuses it as too deep. -/
def Resumes (eof limit : Nat) (c : Category) (ts : List Token) (t : Tree) (d : Nat) : Prop :=
  ∀ (budget : Nat) {ls rest : List Lexeme}, ls.map Lexeme.token = ts → Stops c.inner rest →
    (d ≤ budget ∧ t.height ≤ limit ∧ ∃ t' fuel, t'.bare = t ∧ rest.length ≤ fuel ∧
      parser eof limit (levels eof limit budget) c (ls ++ rest) =
        resume eof limit (levels eof limit budget) c fuel t' rest) ∨
    (¬(d ≤ budget ∧ t.height ≤ limit) ∧
      TooDeep (parser eof limit (levels eof limit budget) c (ls ++ rest)))

/-- The lexemes after a token and a tree are fewer than those from the token on. -/
theorem length_le {l : Lexeme} {ls rest : List Lexeme} {fuel : Nat}
    (h : (l :: (ls ++ rest)).length ≤ fuel + 1) : rest.length ≤ fuel := by
  rw [List.length_cons, List.length_append] at h
  omega

/-- The same for the arguments of a call, whose loop prepends what is read already. -/
def ResumesArguments (eof limit : Nat) (ts : List Token) (args : List Tree) (d : Nat) : Prop :=
  ∀ (budget : Nat) {ls rest : List Lexeme}, ls.map Lexeme.token = ts → Stops .disjunction rest →
    (d ≤ budget ∧ Tree.heights args ≤ limit ∧ ∃ args' fuel, Tree.bareAll args' = args ∧
      rest.length ≤ fuel ∧
      arguments (levels eof limit budget) (ls ++ rest) =
        moreArguments (levels eof limit budget) fuel rest >>= fun (more, rest) =>
          .ok (args' ++ more, rest)) ∨
    (¬(d ≤ budget ∧ Tree.heights args ≤ limit) ∧
      TooDeep (arguments (levels eof limit budget) (ls ++ rest)))

/-- Where the tree ends, so does the loop. -/
theorem Resumes.stop {c : Category} {ts : List Token} {t : Tree} {d : Nat}
    (h : Resumes eof limit c ts t d) (budget : Nat) {ls rest : List Lexeme}
    (hls : ls.map Lexeme.token = ts) (hrest : Stops c rest) :
    (d ≤ budget ∧ t.height ≤ limit ∧ ∃ t', t'.bare = t ∧
      parser eof limit (levels eof limit budget) c (ls ++ rest) = .ok (t', rest)) ∨
    (¬(d ≤ budget ∧ t.height ≤ limit) ∧
      TooDeep (parser eof limit (levels eof limit budget) c (ls ++ rest))) := by
  rcases h budget hls hrest.inner with ⟨hd, hheight, t', fuel, hbare, -, hrun⟩ | hdeep
  · rw [resume_of_stops fuel t' hrest] at hrun
    exact .inl ⟨hd, hheight, t', hbare, hrun⟩
  · exact .inr hdeep

/-- The same for what a level offers, which counts as one level. -/
theorem Resumes.offer {c : Category} {ts : List Token} {t : Tree} {d : Nat}
    (h : Resumes eof limit c ts t d) {offer : Levels → Parser Tree} (hc : c.offer? = some offer)
    (budget : Nat) {ls rest : List Lexeme} (hls : ls.map Lexeme.token = ts) (hrest : Stops c rest) :
    (d + 1 ≤ budget ∧ t.height ≤ limit ∧ ∃ t', t'.bare = t ∧
      offer (levels eof limit budget) (ls ++ rest) = .ok (t', rest)) ∨
    (¬(d + 1 ≤ budget ∧ t.height ≤ limit) ∧
      TooDeep (offer (levels eof limit budget) (ls ++ rest))) := by
  cases budget with
  | zero =>
    exact .inr ⟨fun hfits => absurd hfits.1 (Nat.not_succ_le_zero d), tooDeep_of_offer? _ hc⟩
  | succ budget =>
    rw [parser_of_offer? budget hc, Nat.add_le_add_iff_right]
    exact h.stop budget hls hrest

section

variable {ts ts₁ ts₂ : List Token} {t l r : Tree} {d d₁ d₂ : Nat}

theorem Resumes.operand {c operand : Category} {ops : List BinaryOp}
    (hc : c.chain? = some (ops, operand)) (h : Resumes eof limit operand ts t d) :
    Resumes eof limit c ts t d := by
  intro budget ls rest hls hrest
  rw [Category.inner_of_chain? hc] at hrest
  rw [parser_of_chain? _ hc]
  rcases h.stop budget hls hrest with ⟨hd, hheight, t', hbare, hrun⟩ | ⟨hfits, hdeep⟩
  · refine .inl ⟨hd, hheight, t', rest.length, hbare, Nat.le_refl _, ?_⟩
    rw [resume_of_chain? _ _ _ hc, chained, hrun, ok_bind]
  · exact .inr ⟨hfits, hdeep.bind _⟩

theorem Resumes.link {c operand : Category} {ops : List BinaryOp} {op : BinaryOp}
    (hc : c.chain? = some (ops, operand)) (hop : op ∈ ops) (hl : Resumes eof limit c ts₁ l d₁)
    (hr : Resumes eof limit operand ts₂ r d₂) :
    Resumes eof limit c (ts₁ ++ .operator op :: ts₂) (.binary op l r default) (max d₁ d₂) := by
  intro budget ls rest hls hrest
  rw [Category.inner_of_chain? hc] at hrest
  obtain ⟨ls₁, _, rfl, rfl, hls₂⟩ := List.map_eq_append_iff.mp hls
  obtain ⟨⟨_, start, stop⟩, ls₂, rfl, rfl, rfl⟩ := List.map_eq_cons_iff.mp hls₂
  have hprec := (Category.mem_ops_iff hc op).mp hop
  have hbetween : Stops c.inner (⟨.operator op, start, stop⟩ :: (ls₂ ++ rest)) := by
    refine Stops.cons _ ?_
    rw [Category.inner_of_chain? hc]
    exact decide_eq_false (Nat.not_le.mpr (hprec ▸ Category.level_lt hc))
  rw [List.append_assoc, List.cons_append]
  rcases hl budget rfl hbetween with ⟨hd₁, -, l', _ | fuel, rfl, hfuel, hrun⟩ | ⟨hfits, hdeep⟩
  · exact absurd hfuel (Nat.not_succ_le_zero _)
  · rw [hrun, resume_of_chain? _ _ _ hc, chain, if_pos hprec]
    rcases hr.stop budget rfl hrest with ⟨hd₂, -, r', rfl, hrun⟩ | ⟨hfits, hdeep⟩
    · rw [hrun, ok_bind]
      dsimp only
      rcases checked_bare (.binary op l' r' (l'.span.union r'.span)) with
        ⟨hheight, hnode⟩ | ⟨hheight, hdeep⟩
      · refine .inl ⟨Nat.max_le.mpr ⟨hd₁, hd₂⟩, hheight, .binary op l' r' (l'.span.union r'.span),
          fuel, rfl, length_le hfuel, ?_⟩
        rw [hnode, ok_bind, resume_of_chain? _ _ _ hc]
      · exact .inr ⟨fun h => hheight h.2, hdeep.bind _⟩
    · refine .inr ⟨fun h => hfits ?_, hdeep.bind _⟩
      rw [Tree.height] at h
      omega
  · refine .inr ⟨fun h => hfits ?_, hdeep⟩
    rw [Tree.height] at h
    omega

theorem Resumes.prefixed {c : Category} {offer : Levels → Parser Tree} (op : UnaryOp)
    (hc : c.offer? = some offer) (hinner : c.inner = c) {token : Token}
    (hparser : ∀ deeper start stop ls, parser eof limit deeper c (⟨token, start, stop⟩ :: ls) =
      Descent.prefixed limit op start (offer deeper) ls)
    (h : Resumes eof limit c ts t d) :
    Resumes eof limit c (token :: ts) (.unary op t default) (d + 1) := by
  intro budget ls rest hls hrest
  rw [hinner] at hrest
  obtain ⟨⟨_, start, stop⟩, ls, rfl, rfl, rfl⟩ := List.map_eq_cons_iff.mp hls
  rw [List.cons_append, hparser, Descent.prefixed]
  rcases h.offer hc budget rfl hrest with ⟨hd, -, t', rfl, hrun⟩ | ⟨hfits, hdeep⟩
  · rw [hrun, ok_bind]
    dsimp only
    rcases checked_bare (.unary op t' (.of start t'.span.stop)) with
      ⟨hheight, hnode⟩ | ⟨hheight, hdeep⟩
    · refine .inl ⟨hd, hheight, .unary op t' (.of start t'.span.stop), rest.length, rfl,
        Nat.le_refl _, ?_⟩
      rw [hnode, resume_of_stops _ _ hrest]
      rfl
    · exact .inr ⟨fun h => hheight h.2, hdeep.bind _⟩
  · refine .inr ⟨fun h => hfits ?_, hdeep.bind _⟩
    rw [Tree.height] at h
    omega

theorem Resumes.not (h : Resumes eof limit .negation ts t d) :
    Resumes eof limit .negation (.not :: ts) (.unary .not t default) (d + 1) :=
  h.prefixed .not rfl rfl fun _ _ _ _ => rfl

theorem Resumes.positive (h : Resumes eof limit .signed ts t d) :
    Resumes eof limit .signed (.operator .add :: ts) (.unary .positive t default) (d + 1) :=
  h.prefixed .positive rfl rfl fun _ _ _ _ => rfl

theorem Resumes.negative (h : Resumes eof limit .signed ts t d) :
    Resumes eof limit .signed (.operator .sub :: ts) (.unary .negative t default) (d + 1) :=
  h.prefixed .negative rfl rfl fun _ _ _ _ => rfl

/-- A nonterminal that looks past a token is the nonterminal below when the token is not there. -/
theorem Resumes.below (c below : Category) (hinner : c.inner = c)
    (hstops : ∀ {rest}, Stops c rest → Stops below rest)
    (hparser : ∀ deeper l ls, below.starts l.token = true →
      parser eof limit deeper c (l :: ls) = parser eof limit deeper below (l :: ls))
    (hd : Derives below ts t d) (h : Resumes eof limit below ts t d) :
    Resumes eof limit c ts t d := by
  intro budget ls rest hls hrest
  rw [hinner] at hrest
  obtain ⟨token, ts, rfl, hstart⟩ := hd.head
  obtain ⟨l, ls, rfl, rfl, rfl⟩ := List.map_eq_cons_iff.mp hls
  rw [List.cons_append, hparser _ _ _ hstart]
  rcases h.stop budget List.map_cons (hstops hrest) with ⟨hd, hheight, t', hbare, hrun⟩ | hdeep
  · refine .inl ⟨hd, hheight, t', rest.length, hbare, Nat.le_refl _, ?_⟩
    rw [resume_of_stops _ _ hrest]
    exact hrun
  · exact .inr hdeep

theorem Resumes.unnegated (hd : Derives .relation ts t d) (h : Resumes eof limit .relation ts t d) :
    Resumes eof limit .negation ts t d := by
  refine Resumes.below .negation .relation rfl (fun h => h) ?_ hd h
  rintro deeper ⟨token, start, stop⟩ ls hstart
  cases token with
  | not => exact nomatch hstart
  | _ => rfl

theorem Resumes.unsigned (hd : Derives .access ts t d) (h : Resumes eof limit .access ts t d) :
    Resumes eof limit .signed ts t d := by
  refine Resumes.below .signed .access rfl (fun h => h) ?_ hd h
  rintro deeper ⟨token, start, stop⟩ ls hstart
  cases token with
  | operator op => simp [Category.starts] at hstart
  | _ => rfl

theorem Resumes.base (h : Resumes eof limit .atom ts t d) : Resumes eof limit .access ts t d := by
  intro budget ls rest hls hrest
  rcases h.stop budget hls hrest with ⟨hd, hheight, t', hbare, hrun⟩ | ⟨hfits, hdeep⟩
  · refine .inl ⟨hd, hheight, t', rest.length, hbare, Nat.le_refl _, ?_⟩
    rw [parser, accessed]
    exact (congrArg (· >>= _) hrun).trans rfl
  · exact .inr ⟨hfits, hdeep.bind _⟩

theorem Resumes.index {base i : Tree} (hbase : Resumes eof limit .access ts₁ base d₁)
    (hi : Resumes eof limit .disjunction ts₂ i d₂) :
    Resumes eof limit .access (ts₁ ++ .leftBracket :: (ts₂ ++ [.rightBracket]))
      (.index base i default) (max d₁ (d₂ + 1)) := by
  intro budget ls rest hls hrest
  obtain ⟨ls₁, _, rfl, rfl, hls'⟩ := List.map_eq_append_iff.mp hls
  obtain ⟨⟨_, start, stop⟩, _, rfl, rfl, hls''⟩ := List.map_eq_cons_iff.mp hls'
  obtain ⟨ls₂, _, rfl, rfl, hlast⟩ := List.map_eq_append_iff.mp hls''
  obtain ⟨⟨_, first, last⟩, rfl, rfl⟩ := List.map_eq_singleton_iff.mp hlast
  simp only [List.append_assoc, List.cons_append, List.nil_append]
  have hopen : Stops .atom
      (⟨.leftBracket, start, stop⟩ :: (ls₂ ++ ⟨.rightBracket, first, last⟩ :: rest)) :=
    .cons _ rfl
  have hclose : Stops .disjunction (⟨.rightBracket, first, last⟩ :: rest) := .cons _ rfl
  rcases hbase budget rfl hopen with
    ⟨hd₁, -, base', _ | fuel, rfl, hfuel, hrun⟩ | ⟨hfits, hdeep⟩
  · exact absurd hfuel (Nat.not_succ_le_zero _)
  · rw [hrun, resume_access, accesses]
    rcases hi.offer (c := .disjunction) rfl budget rfl hclose with
      ⟨hd₂, -, i', rfl, hrun⟩ | ⟨hfits, hdeep⟩
    · simp only [hrun, ok_bind, expect_self]
      rcases checked_bare (.index base' i' (.of base'.span.start last)) with
        ⟨hheight, hnode⟩ | ⟨hheight, hdeep⟩
      · refine .inl ⟨Nat.max_le.mpr ⟨hd₁, hd₂⟩, hheight,
          .index base' i' (.of base'.span.start last), fuel, rfl,
          Nat.le_of_succ_le (length_le hfuel), ?_⟩
        rw [hnode, ok_bind, resume_access]
      · exact .inr ⟨fun h => hheight h.2, hdeep.bind _⟩
    · refine .inr ⟨fun h => hfits ?_, hdeep.bind _⟩
      rw [Tree.height] at h
      omega
  · refine .inr ⟨fun h => hfits ?_, hdeep⟩
    rw [Tree.height] at h
    omega

theorem Resumes.member {base : Tree} (name : String) (hbase : Resumes eof limit .access ts base d) :
    Resumes eof limit .access (ts ++ [.dot, .identifier name]) (.member base name default) d := by
  intro budget ls rest hls hrest
  obtain ⟨ls, _, rfl, rfl, hls'⟩ := List.map_eq_append_iff.mp hls
  obtain ⟨⟨_, start, stop⟩, _, rfl, rfl, hlast⟩ := List.map_eq_cons_iff.mp hls'
  obtain ⟨⟨_, first, last⟩, rfl, rfl⟩ := List.map_eq_singleton_iff.mp hlast
  simp only [List.append_assoc, List.cons_append, List.nil_append]
  have hopen : Stops .atom (⟨.dot, start, stop⟩ :: ⟨.identifier name, first, last⟩ :: rest) :=
    .cons _ rfl
  rcases hbase budget rfl hopen with
    ⟨hd, -, base', _ | fuel, rfl, hfuel, hrun⟩ | ⟨hfits, hdeep⟩
  · exact absurd hfuel (Nat.not_succ_le_zero _)
  · rw [hrun, resume_access, accesses]
    simp only [memberName, ok_bind]
    rcases checked_bare (.member base' name (.of base'.span.start last)) with
      ⟨hheight, hnode⟩ | ⟨hheight, hdeep⟩
    · refine .inl ⟨hd, hheight, .member base' name (.of base'.span.start last), fuel, rfl,
        ?_, ?_⟩
      · exact Nat.le_of_succ_le (Nat.le_of_succ_le_succ hfuel)
      · rw [hnode, ok_bind, resume_access]
    · exact .inr ⟨fun h => hheight h.2, hdeep.bind _⟩
  · refine .inr ⟨fun h => hfits ?_, hdeep⟩
    rw [Tree.height] at h
    omega

theorem Resumes.literal (kind : LiteralKind) (text : String) (hlimit : 0 < limit) :
    Resumes eof limit .atom [.literal kind text] (.literal kind text default) 0 := by
  intro budget ls rest hls hrest
  obtain ⟨⟨_, start, stop⟩, rfl, rfl⟩ := List.map_eq_singleton_iff.mp hls
  exact .inl ⟨Nat.zero_le _, hlimit, .literal kind text (.of start stop), rest.length,
    rfl, Nat.le_refl _, rfl⟩

theorem Resumes.var (name : String) (hlimit : 0 < limit) :
    Resumes eof limit .atom [.identifier name] (.var name default) 0 := by
  intro budget ls rest hls hrest
  obtain ⟨⟨_, start, stop⟩, rfl, rfl⟩ := List.map_eq_singleton_iff.mp hls
  refine .inl ⟨Nat.zero_le _, hlimit, .var name (.of start stop), rest.length, rfl,
    Nat.le_refl _, ?_⟩
  cases rest with
  | nil => rfl
  | cons l rest =>
    obtain ⟨token, start, stop⟩ := l
    have hcall := hrest _ rfl
    cases token with
    | leftParen => exact nomatch hcall
    | _ => rfl

theorem Resumes.parens (h : Resumes eof limit .disjunction ts t d) :
    Resumes eof limit .atom (.leftParen :: (ts ++ [.rightParen])) t (d + 1) := by
  intro budget ls rest hls hrest
  obtain ⟨⟨_, start, stop⟩, _, rfl, rfl, hls'⟩ := List.map_eq_cons_iff.mp hls
  obtain ⟨ls, _, rfl, rfl, hlast⟩ := List.map_eq_append_iff.mp hls'
  obtain ⟨⟨_, first, last⟩, rfl, rfl⟩ := List.map_eq_singleton_iff.mp hlast
  simp only [List.append_assoc, List.cons_append, List.nil_append]
  have hclose : Stops .disjunction (⟨.rightParen, first, last⟩ :: rest) := .cons _ rfl
  rcases h.offer (c := .disjunction) rfl budget rfl hclose with
    ⟨hd, hheight, t', rfl, hrun⟩ | ⟨hfits, hdeep⟩
  · refine .inl ⟨hd, hheight, t', rest.length, rfl, Nat.le_refl _, ?_⟩
    simp only [parser, atom, hrun, ok_bind, expect_self]
    rfl
  · exact .inr ⟨hfits, hdeep.bind _⟩

/-! #### Arguments -/

theorem arguments_of_starts {deeper : Levels} {l : Lexeme} (ls : List Lexeme)
    (h : Category.disjunction.starts l.token = true) :
    arguments deeper (l :: ls) = (do
      let (arg, rest) ← deeper.expr (l :: ls)
      let (args, rest) ← moreArguments deeper rest.length rest
      return (arg :: args, rest)) := by
  obtain ⟨token, start, stop⟩ := l
  cases token with
  | rightParen => exact nomatch h
  | _ => rfl

theorem ResumesArguments.one (hd : Derives .disjunction ts t d)
    (h : Resumes eof limit .disjunction ts t d) :
    ResumesArguments eof limit ts [t] (d + 1) := by
  intro budget ls rest hls hrest
  obtain ⟨token, ts, rfl, hstart⟩ := hd.head
  obtain ⟨l, ls, rfl, rfl, rfl⟩ := List.map_eq_cons_iff.mp hls
  rw [List.cons_append, arguments_of_starts _ hstart, Tree.heights, Tree.heights, Nat.max_zero,
    ← List.cons_append]
  rcases h.offer (c := .disjunction) rfl budget List.map_cons hrest with
    ⟨hdepth, hheight, t', rfl, hrun⟩ | ⟨hfits, hdeep⟩
  · refine .inl ⟨hdepth, hheight, [t'], rest.length, rfl, Nat.le_refl _, ?_⟩
    rw [hrun]
    rfl
  · exact .inr ⟨hfits, hdeep.bind _⟩

theorem ResumesArguments.more {args : List Tree} (h₁ : ResumesArguments eof limit ts₁ args d₁)
    (h₂ : Resumes eof limit .disjunction ts₂ t d₂) :
    ResumesArguments eof limit (ts₁ ++ .comma :: ts₂) (args ++ [t]) (max d₁ (d₂ + 1)) := by
  intro budget ls rest hls hrest
  obtain ⟨ls₁, _, rfl, rfl, hls'⟩ := List.map_eq_append_iff.mp hls
  obtain ⟨⟨_, start, stop⟩, ls₂, rfl, rfl, rfl⟩ := List.map_eq_cons_iff.mp hls'
  have hcomma : Stops .disjunction (⟨.comma, start, stop⟩ :: (ls₂ ++ rest)) := .cons _ rfl
  rw [List.append_assoc, List.cons_append, Tree.heights_append, Tree.heights, Tree.heights,
    Nat.max_zero]
  rcases h₁ budget rfl hcomma with
    ⟨hd₁, hheights, args', _ | fuel, rfl, hfuel, hrun⟩ | ⟨hfits, hdeep⟩
  · exact absurd hfuel (Nat.not_succ_le_zero _)
  · rw [hrun, moreArguments]
    rcases h₂.offer (c := .disjunction) rfl budget rfl hrest with
      ⟨hd₂, hheight, t', rfl, hrun⟩ | ⟨hfits, hdeep⟩
    · refine .inl ⟨Nat.max_le.mpr ⟨hd₁, hd₂⟩, Nat.max_le.mpr ⟨hheights, hheight⟩, args' ++ [t'],
        fuel, ?_, length_le hfuel, ?_⟩
      · simp only [Tree.bareAll_eq_map, List.map_append, List.map_cons, List.map_nil]
      · rw [hrun, ok_bind]
        dsimp only
        cases moreArguments (levels eof limit budget) fuel rest with
        | error fault => rfl
        | ok more =>
          rw [ok_bind, ok_bind, List.append_assoc]
          rfl
    · refine .inr ⟨fun h => hfits ?_, (hdeep.bind _).bind _⟩
      omega
  · refine .inr ⟨fun h => hfits ?_, hdeep⟩
    omega

theorem moreArguments_of_stops {deeper : Levels} {rest : List Lexeme} (fuel : Nat)
    (h : ∀ l ∈ rest.head?, l.token ≠ .comma) : moreArguments deeper fuel rest = .ok ([], rest) := by
  cases fuel with
  | zero => rfl
  | succ fuel =>
    unfold moreArguments
    split
    · exact absurd rfl (h _ rfl)
    · rfl

theorem Resumes.call {args : List Tree} (name : String)
    (h : ResumesArguments eof limit ts args d) :
    Resumes eof limit .atom (.identifier name :: .leftParen :: (ts ++ [.rightParen]))
      (.call name args default) d := by
  intro budget ls rest hls hrest
  obtain ⟨⟨_, start, stop⟩, _, rfl, rfl, hls'⟩ := List.map_eq_cons_iff.mp hls
  obtain ⟨⟨_, start', stop'⟩, _, rfl, rfl, hls''⟩ := List.map_eq_cons_iff.mp hls'
  obtain ⟨ls, _, rfl, rfl, hlast⟩ := List.map_eq_append_iff.mp hls''
  obtain ⟨⟨_, first, last⟩, rfl, rfl⟩ := List.map_eq_singleton_iff.mp hlast
  simp only [List.append_assoc, List.cons_append, List.nil_append]
  have hclose : Stops .disjunction (⟨.rightParen, first, last⟩ :: rest) := .cons _ rfl
  rw [parser, atom]
  rcases h budget rfl hclose with ⟨hd, hheights, args', fuel, rfl, hfuel, hrun⟩ | ⟨hfits, hdeep⟩
  · rw [hrun, moreArguments_of_stops fuel (by rintro _ ⟨⟩; exact nofun)]
    simp only [ok_bind, List.append_nil, expect_self]
    rcases checked_bare (.call name args' (.of start last)) with
      ⟨hheight, hnode⟩ | ⟨hheight, hdeep⟩
    · refine .inl ⟨hd, hheight, .call name args' (.of start last), rest.length, rfl,
        Nat.le_refl _, ?_⟩
      rw [hnode]
      rfl
    · exact .inr ⟨fun h => hheight h.2, hdeep.bind _⟩
  · refine .inr ⟨fun h => hfits ?_, hdeep.bind _⟩
    rw [Tree.height] at h
    omega

theorem Resumes.nullary (name : String) (hlimit : 0 < limit) :
    Resumes eof limit .atom [.identifier name, .leftParen, .rightParen] (.call name [] default)
      0 := by
  intro budget ls rest hls hrest
  obtain ⟨⟨_, start, stop⟩, _, rfl, rfl, hls'⟩ := List.map_eq_cons_iff.mp hls
  obtain ⟨⟨_, start', stop'⟩, _, rfl, rfl, hlast⟩ := List.map_eq_cons_iff.mp hls'
  obtain ⟨⟨_, first, last⟩, rfl, rfl⟩ := List.map_eq_singleton_iff.mp hlast
  have hnode : checked limit (.call name [] (.of start last)) =
      .ok (.call name [] (.of start last)) := if_pos hlimit
  refine .inl ⟨Nat.zero_le _, hlimit, .call name [] (.of start last), rest.length, rfl,
    Nat.le_refl _, ?_⟩
  simp only [parser, List.cons_append, List.nil_append, atom, arguments, ok_bind, expect_self,
    hnode]
  rfl

end

/-! #### Every derivation -/

mutual

/-- **Completeness.** A parser that meets the lexemes of a tree of its nonterminal builds that tree,
or refuses it as too deep when it does not keep the bounds. -/
theorem Derives.resumes (hlimit : 0 < limit) : ∀ {c : Category} {ts : List Token} {t : Tree}
    {d : Nat}, Derives c ts t d → Resumes eof limit c ts t d
  | _, _, _, _, .operand hc h => (h.resumes hlimit).operand hc
  | _, _, _, _, .link hc hop hl hr => (hl.resumes hlimit).link hc hop (hr.resumes hlimit)
  | _, _, _, _, .not h => (h.resumes hlimit).not
  | _, _, _, _, .unnegated h => (h.resumes hlimit).unnegated h
  | _, _, _, _, .positive h => (h.resumes hlimit).positive
  | _, _, _, _, .negative h => (h.resumes hlimit).negative
  | _, _, _, _, .unsigned h => (h.resumes hlimit).unsigned h
  | _, _, _, _, .base h => (h.resumes hlimit).base
  | _, _, _, _, .index hbase hi => (hbase.resumes hlimit).index (hi.resumes hlimit)
  | _, _, _, _, .member name hbase => (hbase.resumes hlimit).member name
  | _, _, _, _, .literal kind text => .literal kind text hlimit
  | _, _, _, _, .var name => .var name hlimit
  | _, _, _, _, .nullary name => .nullary name hlimit
  | _, _, _, _, .call name h => .call name (h.resumes hlimit)
  | _, _, _, _, .parens h => (h.resumes hlimit).parens

theorem DerivesArguments.resumes (hlimit : 0 < limit) : ∀ {ts : List Token} {args : List Tree}
    {d : Nat}, DerivesArguments ts args d → ResumesArguments eof limit ts args d
  | _, _, _, .one h => .one h (h.resumes hlimit)
  | _, _, _, .more h₁ h₂ => (h₁.resumes hlimit).more (h₂.resumes hlimit)

end

/-- What is derived is accepted as a whole source, or refused as too deep. -/
theorem Derives.ofLexemes {ls : List Lexeme} {t : Tree} {d : Nat}
    (h : Derives .disjunction (ls.map Lexeme.token) t d) :
    (d < maxDepth ∧ t.height ≤ maxDepth ∧ ∃ t', t'.bare = t ∧
      Tree.ofLexemes ls = .ok (some t')) ∨
    (¬(d < maxDepth ∧ t.height ≤ maxDepth) ∧ TooDeep (Tree.ofLexemes ls)) := by
  obtain ⟨token, ts, hts, -⟩ := h.head
  have hne : ls.isEmpty = false := by
    cases ls with
    | nil => exact nomatch hts
    | cons l ls => rfl
  have hlimit : 0 < maxDepth := by decide
  have hend : Stops .disjunction [] := nofun
  rw [Tree.ofLexemes, hne]
  rcases (h.resumes hlimit).offer (c := .disjunction) rfl maxDepth rfl hend with
    ⟨hd, hheight, t', hbare, hrun⟩ | ⟨hfits, hdeep⟩
  · rw [List.append_nil] at hrun
    refine .inl ⟨hd, hheight, t', hbare, ?_⟩
    rw [if_neg Bool.false_ne_true, hrun]
    rfl
  · rw [List.append_nil] at hdeep
    rw [if_neg Bool.false_ne_true]
    exact .inr ⟨hfits, hdeep.bind _⟩

end Grammar

end Formulary
