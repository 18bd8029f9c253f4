import Formulary.Proofs.Syntax.Soundness

/-!
# How far a parser looks

The parsers of the descent decide what to do by the lexeme that comes next, and read no further. So
what a run comes to is settled by the lexemes that it took and the one behind them; and where that
one only ends the run, the end of the source does the same.

This is stated here for runs that succeed and for runs that refuse a lexeme, and shown for the steps
that parsers are put together from. A refusal also carries what the lexemes before it are good for,
which is how the parsers of `Grammar` come to say that these begin a sentence.

Runs that are nested too deeply are left out. They are refused at a lexeme that could well be right.

## Main definitions

* `Descent.Behind` — the rests of a source before which a run may stop alike
* `Descent.OnLine` — a run is settled by what it took and the next lexeme

## Main results

* `Descent.OnLine.bind` — one run after the other
* `Descent.OnLine.cons`, `Descent.OnLine.congr` — parsers that look at the next lexeme
* `Descent.eq_of_length_le` — a loop does not depend on its steps, if these are enough
-/

namespace Formulary.Descent

variable {α β : Type}

/-! ### Rests -/

/-- Another rest in the place of the first: it begins with the same lexeme, or there is nothing. -/
def Behind (rest rest' : List Lexeme) : Prop := rest' = [] ∨ rest'.head? = rest.head?

theorem Behind.refl (rest : List Lexeme) : Behind rest rest := Or.inr rfl

/-- What begins with the lexemes that were taken begins with the same lexeme. -/
theorem Behind.append {rest rest' : List Lexeme} (h : Behind rest rest') (taken : List Lexeme) :
    Behind (taken ++ rest) (taken ++ rest') := by
  cases taken with
  | nil => exact h
  | cons l taken => exact Or.inr rfl

/-- What is said of the next lexeme, if there is one, is said of the other rest as well. -/
theorem Behind.forall_head {P : Lexeme → Prop} {rest rest' : List Lexeme} (h : Behind rest rest')
    (hrest : ∀ l ∈ rest.head?, P l) : ∀ l ∈ rest'.head?, P l := by
  rcases h with rfl | h
  · exact nofun
  · rwa [h]

/-! ### Runs -/

/-- A run of parsers, one for each end of a source, is settled by the lexemes that it took and the
one behind them. The lexemes before a lexeme that is refused are good for `good`. -/
def OnLine (p : Nat → Parser α) (good : List Token → Prop) (ls : List Lexeme) : Prop :=
  ∀ eof, (∀ a rest, p eof ls = .ok (a, rest) → ∃ taken, ls = taken ++ rest ∧
      ∀ eof' rest', Behind rest rest' → p eof' (taken ++ rest') = .ok (a, rest')) ∧
    ∀ fault, p eof ls = .error fault → fault.code = .expressionTooDeep ∨
      ∃ taken rest, ls = taken ++ rest ∧ fault = unexpected eof rest ∧
        good (taken.map Lexeme.token) ∧
        ∀ eof' rest', Behind rest rest' → p eof' (taken ++ rest') = .error (unexpected eof' rest')

namespace OnLine

variable {p p' : Nat → Parser α} {q : α → Nat → Parser β} {good good' : List Token → Prop}
  {ls rest : List Lexeme} {l : Lexeme}

theorem mono (h : OnLine p good ls) (hgood : ∀ ts, good ts → good' ts) : OnLine p good' ls := by
  intro eof
  refine ⟨(h eof).1, fun fault hfault => ?_⟩
  rcases (h eof).2 fault hfault with hdeep | ⟨taken, rest, hls, hat, htaken, hbehind⟩
  · exact Or.inl hdeep
  · exact Or.inr ⟨taken, rest, hls, hat, hgood _ htaken, hbehind⟩

/-- A run that takes nothing. -/
theorem pure (a : α) (ls : List Lexeme) : OnLine (fun _ ls => .ok (a, ls)) good ls := by
  intro eof
  refine ⟨?_, nofun⟩
  rintro _ _ ⟨⟩
  exact ⟨[], rfl, fun eof' rest' _ => rfl⟩

/-- A run that refuses the next lexeme. -/
theorem refuse (hgood : good []) (ls : List Lexeme) :
    OnLine (fun eof ls => (.error (unexpected eof ls) : Except SyntaxFault (α × List Lexeme)))
      good ls := by
  intro eof
  refine ⟨nofun, ?_⟩
  rintro _ ⟨⟩
  exact Or.inr ⟨[], ls, rfl, rfl, hgood, fun eof' rest' _ => rfl⟩

/-- A run that is nested too deeply. -/
theorem tooDeep {deep : Nat → Parser α} (hdeep : ∀ eof ls, ∃ fault,
    deep eof ls = .error fault ∧ fault.code = .expressionTooDeep) : OnLine deep good ls := by
  intro eof
  obtain ⟨fault, hrun, hcode⟩ := hdeep eof ls
  rw [hrun]
  refine ⟨nofun, ?_⟩
  rintro _ ⟨⟩
  exact Or.inl hcode

/-- A parser that is another one for the lexeme that comes next. -/
theorem congr (h : OnLine p good ls) (heq : ∀ eof ls', Behind ls ls' → p' eof ls' = p eof ls') :
    OnLine p' good ls := by
  intro eof
  rw [heq eof ls (.refl ls)]
  refine ⟨fun a rest hrun => ?_, fun fault hrun => ?_⟩
  · obtain ⟨taken, rfl, hbehind⟩ := (h eof).1 a rest hrun
    refine ⟨taken, rfl, fun eof' rest' hrest' => ?_⟩
    rw [heq eof' _ (hrest'.append taken)]
    exact hbehind eof' rest' hrest'
  · rcases (h eof).2 fault hrun with hdeep | ⟨taken, rest, rfl, hat, hgood, hbehind⟩
    · exact Or.inl hdeep
    · refine Or.inr ⟨taken, rest, rfl, hat, hgood, fun eof' rest' hrest' => ?_⟩
      rw [heq eof' _ (hrest'.append taken)]
      exact hbehind eof' rest' hrest'

/-- A parser that takes the lexeme that comes next and goes on as another one. -/
theorem cons (h : OnLine p (fun ts => good (l.token :: ts)) rest)
    (heq : ∀ eof rest, p' eof (l :: rest) = p eof rest) : OnLine p' good (l :: rest) := by
  intro eof
  rw [heq eof rest]
  refine ⟨fun a rest' hrun => ?_, fun fault hrun => ?_⟩
  · obtain ⟨taken, rfl, hbehind⟩ := (h eof).1 a rest' hrun
    refine ⟨l :: taken, rfl, fun eof' rest' hrest' => ?_⟩
    rw [List.cons_append, heq]
    exact hbehind eof' rest' hrest'
  · rcases (h eof).2 fault hrun with hdeep | ⟨taken, rest, rfl, hat, hgood, hbehind⟩
    · exact Or.inl hdeep
    · refine Or.inr ⟨l :: taken, rest, rfl, hat, hgood, fun eof' rest' hrest' => ?_⟩
      rw [List.cons_append, heq]
      exact hbehind eof' rest' hrest'

/-- One run after the other. -/
theorem bind (hp : OnLine p good ls)
    (hq : ∀ eof a taken rest, ls = taken ++ rest → p eof ls = .ok (a, rest) →
      OnLine (q a) (fun ts => good (taken.map Lexeme.token ++ ts)) rest) :
    OnLine (fun eof ls => p eof ls >>= fun x => q x.1 eof x.2) good ls := by
  intro eof
  obtain ⟨hok, herror⟩ := hp eof
  dsimp only
  cases hrun : p eof ls with
  | error fault =>
    rw [error_bind]
    refine ⟨nofun, ?_⟩
    rintro _ ⟨⟩
    rcases herror fault hrun with hdeep | ⟨taken, rest, rfl, hat, hgood, hbehind⟩
    · exact Or.inl hdeep
    · refine Or.inr ⟨taken, rest, rfl, hat, hgood, fun eof' rest' hrest' => ?_⟩
      rw [hbehind eof' rest' hrest']
      rfl
  | ok x =>
    obtain ⟨a, mid⟩ := x
    obtain ⟨taken, rfl, hbehind⟩ := hok a mid hrun
    obtain ⟨hok', herror'⟩ := hq eof a taken mid rfl hrun eof
    rw [ok_bind]
    refine ⟨fun b rest hnext => ?_, fun fault hnext => ?_⟩
    · obtain ⟨taken', rfl, hbehind'⟩ := hok' b rest hnext
      refine ⟨taken ++ taken', (List.append_assoc ..).symm, fun eof' rest' hrest' => ?_⟩
      rw [List.append_assoc, hbehind eof' _ (hrest'.append taken'), ok_bind]
      exact hbehind' eof' rest' hrest'
    · rcases herror' fault hnext with hdeep | ⟨taken', rest, rfl, hat, hgood, hbehind'⟩
      · exact Or.inl hdeep
      · refine Or.inr ⟨taken ++ taken', rest, (List.append_assoc ..).symm, hat,
          List.map_append .. ▸ hgood, fun eof' rest' hrest' => ?_⟩
        rw [List.append_assoc, hbehind eof' _ (hrest'.append taken'), ok_bind]
        exact hbehind' eof' rest' hrest'

/-- A node that is checked before the run goes on. -/
theorem checked {limit : Nat} {t : Tree} {q : Tree → Nat → Parser β}
    (hq : t.height ≤ limit → OnLine (q t) good ls) :
    OnLine (fun eof ls => checked limit t >>= fun node => q node eof ls) good ls := by
  by_cases h : t.height ≤ limit
  · refine (hq h).congr fun eof ls' _ => ?_
    rw [Descent.checked, if_pos h, ok_bind]
  · refine tooDeep fun eof ls => ⟨⟨t.span, .expressionTooDeep⟩, ?_, rfl⟩
    rw [Descent.checked, if_neg h, error_bind]

end OnLine

/-! ### Loops

A loop is given as many steps as there are lexemes, and that many are always enough. So each round
can be told to take its own number of steps, whatever was left of the first one's. -/

theorem bind_congr {ε α β : Type} {x : Except ε α} {f g : α → Except ε β}
    (h : ∀ a, x = .ok a → f a = g a) : x >>= f = x >>= g := by
  cases x with
  | error fault => rfl
  | ok a => exact h a rfl

/-- A loop over lexemes does not depend on the number of steps it is given, if that is at least the
number of lexemes: it is enough that one round does not depend on the steps of the next one. -/
theorem eq_of_length_le {σ β : Type} {f : Nat → σ → List Lexeme → β}
    (hnil : ∀ m s, f m s [] = f 0 s [])
    (hcons : ∀ m k s l rest, (∀ s rest', rest'.length ≤ rest.length → f m s rest' = f k s rest') →
      f (m + 1) s (l :: rest) = f (k + 1) s (l :: rest)) :
    ∀ (m k : Nat) (s : σ) (ls : List Lexeme), ls.length ≤ m → ls.length ≤ k →
      f m s ls = f k s ls := by
  intro m
  induction m with
  | zero =>
    intro k s ls hm hk
    obtain rfl := List.length_eq_zero_iff.mp (Nat.le_zero.mp hm)
    exact (hnil k s).symm
  | succ m ih =>
    intro k s ls hm hk
    cases ls with
    | nil => rw [hnil, hnil k]
    | cons l rest =>
      obtain ⟨k, rfl⟩ := Nat.exists_eq_succ_of_ne_zero (Nat.ne_zero_of_lt hk)
      rw [List.length_cons] at hm hk
      refine hcons m k s l rest fun s rest' hrest => ?_
      exact ih k s rest' (by omega) (by omega)

/-- A parser leaves no more lexemes than there were. -/
def Shortens (p : Parser α) : Prop := ∀ ls a rest, p ls = .ok (a, rest) → rest.length ≤ ls.length

section

variable {limit level eof : Nat} {operand : Parser Tree} {deeper : Levels}

theorem chain_fuel (hoperand : Shortens operand) : ∀ (m k : Nat) (left : Tree) (ls : List Lexeme),
    ls.length ≤ m → ls.length ≤ k →
    chain limit operand level m left ls = chain limit operand level k left ls := by
  refine eq_of_length_le (fun m left => by cases m <;> rfl) ?_
  intro m k left l rest hrest
  obtain ⟨token, start, stop⟩ := l
  cases token with
  | operator op =>
    rw [chain, chain]
    split
    · refine bind_congr fun x hx => bind_congr fun node _ => ?_
      exact hrest node x.2 (hoperand _ _ _ hx)
    · rfl
  | _ => rfl

/-- A chain that goes on. -/
theorem chain_cons (hoperand : Shortens operand) {op : BinaryOp} (hop : op.precedence = level)
    (start stop : Nat) (left : Tree) (rest : List Lexeme) :
    chain limit operand level (rest.length + 1) left (⟨.operator op, start, stop⟩ :: rest) =
      operand rest >>= fun x =>
        checked limit (.binary op left x.1 (left.span.union x.1.span)) >>= fun node =>
          chain limit operand level x.2.length node x.2 := by
  rw [chain, if_pos hop]
  refine bind_congr fun x hx => bind_congr fun node _ => ?_
  exact chain_fuel hoperand _ _ node _ (hoperand _ _ _ hx) (Nat.le_refl _)

/-- A chain that ends. -/
theorem chain_end (fuel : Nat) (left : Tree) {ls : List Lexeme}
    (h : ∀ l ∈ ls.head?, ∀ op, l.token = .operator op → op.precedence ≠ level) :
    chain limit operand level fuel left ls = .ok (left, ls) := by
  cases fuel with
  | zero => rfl
  | succ fuel =>
    unfold chain
    split
    · next op start stop rest => exact if_neg (h _ rfl op rfl)
    · rfl

theorem accesses_fuel (hexpr : Shortens deeper.expr) : ∀ (m k : Nat) (base : Tree)
    (ls : List Lexeme), ls.length ≤ m → ls.length ≤ k →
    accesses eof limit deeper m base ls = accesses eof limit deeper k base ls := by
  refine eq_of_length_le (fun m base => by cases m <;> rfl) ?_
  intro m k base l rest hrest
  obtain ⟨token, start, stop⟩ := l
  cases token with
  | leftBracket =>
    rw [accesses, accesses]
    refine bind_congr fun x hx => bind_congr fun y hy => bind_congr fun node _ => ?_
    have hshorter := hexpr _ _ _ hx
    obtain ⟨first, hclose⟩ := Grammar.expect_eq_ok_iff.mp hy
    rw [hclose, List.length_cons] at hshorter
    exact hrest node y.2 (Nat.le_of_succ_le hshorter)
  | dot =>
    rw [accesses, accesses]
    refine bind_congr fun x hx => bind_congr fun node _ => ?_
    obtain ⟨first, rfl⟩ := Grammar.memberName_eq_ok_iff.mp hx
    exact hrest node x.2 (Nat.le_succ _)
  | _ => rfl

/-- An index before more of them. -/
theorem accesses_bracket (hexpr : Shortens deeper.expr) (start stop : Nat) (base : Tree)
    (rest : List Lexeme) :
    accesses eof limit deeper (rest.length + 1) base (⟨.leftBracket, start, stop⟩ :: rest) =
      deeper.expr rest >>= fun x => expect eof .rightBracket x.2 >>= fun y =>
        checked limit (.index base x.1 (.of base.span.start y.1)) >>= fun node =>
          accesses eof limit deeper y.2.length node y.2 := by
  rw [accesses]
  refine bind_congr fun x hx => bind_congr fun y hy => bind_congr fun node _ => ?_
  have hshorter := hexpr _ _ _ hx
  obtain ⟨first, hclose⟩ := Grammar.expect_eq_ok_iff.mp hy
  rw [hclose, List.length_cons] at hshorter
  exact accesses_fuel hexpr _ _ node _ (Nat.le_of_succ_le hshorter) (Nat.le_refl _)

/-- A member before more of them. -/
theorem accesses_dot (hexpr : Shortens deeper.expr) (start stop : Nat) (base : Tree)
    (rest : List Lexeme) :
    accesses eof limit deeper (rest.length + 1) base (⟨.dot, start, stop⟩ :: rest) =
      memberName eof rest >>= fun x =>
        checked limit (.member base x.1.1 (.of base.span.start x.1.2)) >>= fun node =>
          accesses eof limit deeper x.2.length node x.2 := by
  rw [accesses]
  refine bind_congr fun x hx => bind_congr fun node _ => ?_
  obtain ⟨first, rfl⟩ := Grammar.memberName_eq_ok_iff.mp hx
  exact accesses_fuel hexpr _ _ node _ (Nat.le_succ _) (Nat.le_refl _)

/-- The indexes and members end. -/
theorem accesses_end (fuel : Nat) (base : Tree) {ls : List Lexeme}
    (h : ∀ l ∈ ls.head?, l.token ≠ .leftBracket ∧ l.token ≠ .dot) :
    accesses eof limit deeper fuel base ls = .ok (base, ls) := by
  cases fuel with
  | zero => rfl
  | succ fuel =>
    unfold accesses
    split
    · exact absurd rfl (h _ rfl).1
    · exact absurd rfl (h _ rfl).2
    · rfl

theorem moreArguments_fuel (hexpr : Shortens deeper.expr) (m k : Nat) (ls : List Lexeme)
    (hm : ls.length ≤ m) (hk : ls.length ≤ k) :
    moreArguments deeper m ls = moreArguments deeper k ls := by
  -- this loop carries nothing
  refine eq_of_length_le (f := fun m (_ : Unit) => moreArguments deeper m)
    (fun m _ => by cases m <;> rfl) ?_ m k () ls hm hk
  intro m k _ l rest hrest
  obtain ⟨token, start, stop⟩ := l
  cases token with
  | comma =>
    rw [moreArguments, moreArguments]
    refine bind_congr fun x hx => ?_
    dsimp only
    rw [hrest () x.2 (hexpr _ _ _ hx)]
  | _ => rfl

/-- An argument before more of them. -/
theorem moreArguments_cons (hexpr : Shortens deeper.expr) (start stop : Nat) (rest : List Lexeme) :
    moreArguments deeper (rest.length + 1) (⟨.comma, start, stop⟩ :: rest) =
      deeper.expr rest >>= fun x => moreArguments deeper x.2.length x.2 >>= fun y =>
        .ok (x.1 :: y.1, y.2) := by
  rw [moreArguments]
  refine bind_congr fun x hx => ?_
  dsimp only
  rw [moreArguments_fuel hexpr _ _ _ (hexpr _ _ _ hx) (Nat.le_refl _)]
  rfl

end

end Formulary.Descent
