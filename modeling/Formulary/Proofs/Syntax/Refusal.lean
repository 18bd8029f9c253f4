import Formulary.Proofs.Syntax.Viability
import Formulary.Proofs.Syntax.Coverage

/-!
# Where a source is refused

A source that is no expression is refused at the first lexeme that cannot go on. The tokens before
it begin an expression and with it they begin none. When the end comes too early, the tokens of the
whole source begin an expression but are none.

That the tokens before the lexeme begin an expression is the invariant of the parsers. That with it
they begin none needs no look at what can follow what: a parser that refuses a lexeme has not looked
past it, so it refuses every source that begins in the same way, and what is derived is never
refused but as too deep.

## Scope

The places of lexemes are told apart by their offsets, and a span holds no offset beyond
`Span.maxOffset`. So the theorem on sources is about those whose end, and the offset behind it, a
span still holds. What is refused as too deep is left out: it can be an expression.

## Main definitions

* `Grammar.Refused` — what a refusal says of the lexemes of a source

## Main results

* `Grammar.refused_of_ofLexemes` — a sequence of lexemes is refused where it has to be
* `Grammar.refusal_at_first_offender` — the same of a source, by the span of the fault
-/

namespace Formulary

namespace Grammar

open Descent

/-! ### Refusals -/

/-- What a refusal says of the lexemes of a source. -/
inductive Refused (ls : List Lexeme) : SyntaxFault → Prop
  /-- A lexeme is refused: what stands before it begins an expression, and with it none. It is an
  extra one when what stands before it is an expression. -/
  | offender {taken rest : List Lexeme} {l : Lexeme} {code : Code} (hls : ls = taken ++ l :: rest)
      (hbefore : Viable .disjunction (taken.map Lexeme.token))
      (hwith : ¬Viable .disjunction (taken.map Lexeme.token ++ [l.token]))
      (hextra : code = .extraToken ↔ Sentence (taken.map Lexeme.token))
      (hcode : code ≠ .unrecognizedEof) : Refused ls (.of l.start l.stop code)
  /-- The end is refused: the whole source begins an expression, but is none. -/
  | ending (hall : Viable .disjunction (ls.map Lexeme.token))
      (hnot : ¬Sentence (ls.map Lexeme.token)) :
      Refused ls (.of (Tree.endOf ls) (Tree.endOf ls + 1) .unrecognizedEof)

section

variable {ls taken rest : List Lexeme} {l : Lexeme} {f : SyntaxFault} {t : Tree}

theorem not_sentence_nil : ¬Sentence [] := by
  rintro ⟨t, d, hd⟩
  obtain ⟨token, rest, hnil, -⟩ := hd.head
  exact nomatch hnil

theorem ofLexemes_eq_error (hne : ls ≠ [])
    (hrun : (levels (Tree.endOf ls) maxDepth maxDepth).expr ls = .error f) :
    Tree.ofLexemes ls = .error f := by
  rw [Tree.ofLexemes, if_neg (by simpa using hne), hrun, error_bind]

theorem ofLexemes_eq_extra (hne : ls ≠ [])
    (hrun : (levels (Tree.endOf ls) maxDepth maxDepth).expr ls = .ok (t, l :: rest)) :
    Tree.ofLexemes ls = .error (.of l.start l.stop .extraToken) := by
  rw [Tree.ofLexemes, if_neg (by simpa using hne), hrun, ok_bind]

/-- What is refused, and not as too deep, is no expression. -/
theorem not_sentence_of_refused (h : Tree.ofLexemes ls = .error f)
    (hcode : f.code ≠ .expressionTooDeep) : ¬Sentence (ls.map Lexeme.token) := by
  rintro ⟨t, d, hd⟩
  rcases Derives.ofLexemes hd with ⟨-, -, t', -, hrun⟩ | ⟨-, fault, hdeep, hfault⟩
  · rw [h] at hrun
    exact nomatch hrun
  · rw [h] at hdeep
    obtain rfl := Except.error.inj hdeep
    exact hcode hfault

/-- Tokens with which every source is refused begin no expression. -/
theorem not_viable_of_refused {c : Code} (hcode : c ≠ .expressionTooDeep)
    (h : ∀ rest, ∃ span, Tree.ofLexemes (ls ++ rest) = .error ⟨span, c⟩) :
    ¬Viable .disjunction (ls.map Lexeme.token) := by
  rintro ⟨more, t, d, hd⟩
  -- the places of the lexemes do not matter
  have hmore : (more.map (⟨·, 0, 0⟩ : Token → Lexeme)).map Lexeme.token = more := by
    rw [List.map_map]
    exact List.map_id more
  obtain ⟨span, hrefused⟩ := h (more.map (⟨·, 0, 0⟩))
  refine not_sentence_of_refused hrefused hcode ⟨t, d, ?_⟩
  rwa [List.map_append, hmore]

/-- **A source that is refused**, and not as too deep, is refused where it has to be. -/
theorem refused_of_ofLexemes (h : Tree.ofLexemes ls = .error f)
    (hcode : f.code ≠ .expressionTooDeep) : Refused ls f := by
  have hne : ls ≠ [] := by
    rintro rfl
    exact nomatch h
  have hlimit : 0 < maxDepth := by decide
  have hreads := reads_levels hlimit maxDepth (c := .disjunction) rfl
  obtain ⟨hok, herror⟩ := hreads.onLine ls (Tree.endOf ls)
  cases hrun : (levels (Tree.endOf ls) maxDepth maxDepth).expr ls with
  | error fault =>
    obtain rfl : fault = f := Except.error.inj ((ofLexemes_eq_error hne hrun).symm.trans h)
    rcases herror fault hrun with hdeep | ⟨taken, rest, rfl, rfl, hgood, hbehind⟩
    · exact absurd hdeep hcode
    have hnot : ¬Sentence (taken.map Lexeme.token) := by
      cases taken with
      | nil => exact not_sentence_nil
      | cons first taken =>
        have hend := hbehind (Tree.endOf (first :: taken)) [] (.inl rfl)
        rw [List.append_nil] at hend
        exact not_sentence_of_refused (ofLexemes_eq_error nofun hend) nofun
    cases rest with
    | nil =>
      rw [List.append_nil]
      exact .ending hgood hnot
    | cons l rest =>
      refine .offender rfl hgood ?_ (iff_of_false nofun hnot) nofun
      rw [← List.map_singleton, ← List.map_append]
      refine not_viable_of_refused (c := .unrecognizedToken) nofun fun more =>
        ⟨.of l.start l.stop, ?_⟩
      rw [List.append_assoc]
      exact ofLexemes_eq_error (by simp) (hbehind _ (l :: more) (.inr rfl))
  | ok x =>
    obtain ⟨t, rest⟩ := x
    obtain ⟨taken, rfl, hbehind⟩ := hok t rest hrun
    obtain ⟨d, -, hd⟩ := hreads.derives hrun
    cases rest with
    | nil =>
      rw [List.append_nil] at h
      exact absurd ⟨_, d, hd⟩ (not_sentence_of_refused h hcode)
    | cons l rest =>
      obtain rfl := Except.error.inj ((ofLexemes_eq_extra hne hrun).symm.trans h)
      refine .offender rfl (hd.viable [] (List.append_nil _).symm) ?_
        (iff_of_true rfl ⟨_, d, hd⟩) nofun
      rw [← List.map_singleton, ← List.map_append]
      refine not_viable_of_refused (c := .extraToken) nofun fun more =>
        ⟨.of l.start l.stop, ?_⟩
      rw [List.append_assoc]
      exact ofLexemes_eq_extra (by simp) (hbehind _ (l :: more) (.inr rfl))

end

end Grammar

/-! ### Sources -/

namespace Expr

/-- The codes of literals without a value. -/
def literalCodes : List Code := [.expectedNumber, .badEscape]

theorem code_of_value {kind : LiteralKind} {text : String} {code : Code}
    (h : Literal.value kind text = .error code) : code ∈ literalCodes := by
  unfold Literal.value at h
  split at h
  · exact nomatch h
  · split at h
    · exact nomatch h
    · split at h <;> cases h
      decide
  · split at h <;> cases h
    decide
  · split at h <;> cases h
    decide

/-- What is said of the faults of two steps is said of their faults one after the other. -/
theorem forall_error_bind {ε α β : Type} {P : ε → Prop} {x : Except ε α} {f : α → Except ε β}
    (hx : ∀ e, x = .error e → P e) (hf : ∀ a e, f a = .error e → P e) :
    ∀ e, (x >>= f) = .error e → P e := by
  intro e h
  cases x with
  | error e' =>
    obtain rfl : e' = e := Except.error.inj h
    exact hx e' rfl
  | ok a => exact hf a e h

mutual

theorem code_of_ofTree : (t : Tree) → ∀ f, ofTree t = .error f → f.code ∈ literalCodes
  | .literal kind text span => by
    intro f h
    rw [ofTree] at h
    split at h
    · exact nomatch h
    · next hcode =>
      cases h
      exact code_of_value hcode
  | .var _ _ => nofun
  | .call _ args _ => forall_error_bind (code_of_ofTrees args) fun _ => nofun
  | .index base i _ => forall_error_bind (code_of_ofTree base) fun _ =>
    forall_error_bind (code_of_ofTree i) fun _ => nofun
  | .member base _ _ => forall_error_bind (code_of_ofTree base) fun _ => nofun
  | .unary _ operand _ => forall_error_bind (code_of_ofTree operand) fun _ => nofun
  | .binary _ l r _ => forall_error_bind (code_of_ofTree l) fun _ =>
    forall_error_bind (code_of_ofTree r) fun _ => nofun

theorem code_of_ofTrees : (ts : List Tree) → ∀ f, ofTrees ts = .error f → f.code ∈ literalCodes
  | [] => nofun
  | t :: rest => forall_error_bind (code_of_ofTree t) fun _ =>
    forall_error_bind (code_of_ofTrees rest) fun _ => nofun

end

/-- A source that is refused for another cause than a literal is refused for its lexemes. -/
theorem ofLexemes_of_ofSource {source : String} {ls : List Lexeme} {f : SyntaxFault}
    (hlex : Lexeme.ofSource source = .ok ls) (h : ofSource source = .error (.located f))
    (hcode : f.code ∉ literalCodes) : Tree.ofLexemes ls = .error f := by
  have hread : Tree.ofSource source = Tree.ofLexemes ls := by
    rw [Tree.ofSource, hlex, ok_bind]
  rw [ofSource, hread] at h
  split at h
  · next hrefused =>
    cases h
    exact hrefused
  · cases h
  · next t _ =>
    cases hread : ofTree t with
    | error fault =>
      rw [hread] at h
      cases h
      exact absurd (code_of_ofTree t _ hread) hcode
    | ok e =>
      rw [hread] at h
      cases h

end Expr

namespace Grammar

/-! ### Places -/

/-- Lexemes with some extent that stand one behind the other, and end early enough for a span to
hold the offset behind them. -/
structure Placed (ls : List Lexeme) : Prop where
  pairwise : ls.Pairwise fun l l' => l.stop ≤ l'.start
  extent : ∀ l ∈ ls, l.start < l.stop
  bound : ∀ l ∈ ls, l.stop < Span.maxOffset

theorem placed_of_ofSource {source : String} {ls : List Lexeme}
    (hsize : source.utf8ByteSize < Span.maxOffset) (h : Lexeme.ofSource source = .ok ls) :
    Placed ls := by
  have hlaid := Lexeme.laid_of_ofSource h
  refine ⟨hlaid.pairwise, fun l => Lexeme.start_lt_stop_of_ofSource h, fun l hl => ?_⟩
  have hstop := hlaid.stop_le l hl
  rw [Text.byteLength_toList] at hstop
  omega

namespace Placed

variable {ls : List Lexeme} {l l' : Lexeme}

/-- A span holds the place of a lexeme. -/
theorem span_eq (h : Placed ls) (hl : l ∈ ls) : Span.of l.start l.stop = ⟨l.start, l.stop⟩ :=
  Span.of_eq ((h.extent l hl).le.trans (h.bound l hl).le) (h.bound l hl).le

/-- No two lexemes have the same place. -/
theorem index_eq (h : Placed ls) {i j : Nat} (hi : ls[i]? = some l) (hj : ls[j]? = some l')
    (hspan : Span.of l.start l.stop = ⟨l'.start, l'.stop⟩) : i = j := by
  rw [h.span_eq (List.mem_of_getElem? hi)] at hspan
  have hstart : l.start = l'.start := congrArg Span.start hspan
  obtain ⟨hi', rfl⟩ := List.getElem?_eq_some_iff.mp hi
  obtain ⟨hj', rfl⟩ := List.getElem?_eq_some_iff.mp hj
  have hli := h.extent _ (List.getElem_mem hi')
  have hlj := h.extent _ (List.getElem_mem hj')
  rcases Nat.lt_trichotomy i j with hlt | heq | hlt
  · have := List.pairwise_iff_getElem.mp h.pairwise i j hi' hj' hlt
    omega
  · exact heq
  · have := List.pairwise_iff_getElem.mp h.pairwise j i hj' hi' hlt
    omega

theorem stop_le_endOf (h : Placed ls) (hl : l ∈ ls) : l.stop ≤ Tree.endOf ls := by
  rcases List.eq_nil_or_concat' ls with rfl | ⟨init, last, rfl⟩
  · exact absurd hl List.not_mem_nil
  · have hend : Tree.endOf (init ++ [last]) = last.stop := by simp [Tree.endOf]
    have hlast := h.extent last (by simp)
    rw [hend]
    rcases List.mem_append.mp hl with hl | hl
    · have := (List.pairwise_append.mp h.pairwise).2.2 l hl last (List.mem_singleton_self last)
      omega
    · rw [List.mem_singleton.mp hl]

/-- A span holds the place behind the last lexeme, and no lexeme is there. -/
theorem endSpan_eq (h : Placed ls) (hne : ls ≠ []) :
    Span.of (Tree.endOf ls) (Tree.endOf ls + 1) = ⟨Tree.endOf ls, Tree.endOf ls + 1⟩ ∧
      ∀ l ∈ ls, (⟨Tree.endOf ls, Tree.endOf ls + 1⟩ : Span) ≠ ⟨l.start, l.stop⟩ := by
  have hend : Tree.endOf ls = (ls.getLast hne).stop := by
    rw [Tree.endOf, List.getLast?_eq_some_getLast hne]
    rfl
  have hbound := h.bound _ (List.getLast_mem hne)
  refine ⟨Span.of_eq ?_ ?_, fun l hl hspan => ?_⟩
  · omega
  · omega
  · have hstart : Tree.endOf ls = l.start := congrArg Span.start hspan
    have hextent := h.extent l hl
    have hstop := h.stop_le_endOf hl
    omega

end Placed

section

variable {taken rest : List Lexeme} {l : Lexeme}

theorem take_tokens : ((taken ++ l :: rest).map Lexeme.token).take taken.length =
    taken.map Lexeme.token := by
  rw [← List.map_take, List.take_left]

theorem take_tokens_succ : ((taken ++ l :: rest).map Lexeme.token).take (taken.length + 1) =
    taken.map Lexeme.token ++ [l.token] := by
  rw [← List.map_take, List.append_cons, List.take_left' (by simp), List.map_append]
  rfl

end

/-- Tokens that begin an expression and are none lack some. -/
theorem Viable.more {ts : List Token} (h : Viable .disjunction ts) (hnot : ¬Sentence ts) :
    ∃ more, more ≠ [] ∧ Sentence (ts ++ more) := by
  obtain ⟨more, hmore⟩ := h
  refine ⟨more, ?_, hmore⟩
  rintro rfl
  rw [List.append_nil] at hmore
  exact hnot hmore

/-! ### Sources -/

/-- The codes of a source that has no tree: a lexeme out of place, one too many, and an end that
comes too early. -/
def refusals : List Code := [.unrecognizedToken, .extraToken, .unrecognizedEof]

/-- **A refusal points at the first lexeme that cannot go on.** The tokens before it begin an
expression and those up to it begin none, and it is an extra one exactly when those before it are an
expression. An end that comes too early is pointed at just behind the last lexeme: the tokens of the
whole source are no expression, and more of them would be one. -/
theorem refusal_at_first_offender {source : String} {ls : List Lexeme} {f : SyntaxFault}
    (hsize : source.utf8ByteSize ≤ 65534) (hlex : Lexeme.ofSource source = .ok ls)
    (hrefused : Expr.ofSource source = .error (.located f)) (hcode : f.code ∈ refusals) :
    (∀ (k : Nat) (l : Lexeme), ls[k]? = some l → f.span = ⟨l.start, l.stop⟩ →
      Viable .disjunction ((ls.map Lexeme.token).take k) ∧
      ¬Viable .disjunction ((ls.map Lexeme.token).take (k + 1)) ∧
      (f.code = .extraToken ↔ Sentence ((ls.map Lexeme.token).take k))) ∧
    (f.code = .unrecognizedEof → f.span = ⟨Tree.endOf ls, Tree.endOf ls + 1⟩ ∧
      ¬Sentence (ls.map Lexeme.token) ∧
      ∃ more, more ≠ [] ∧ Sentence (ls.map Lexeme.token ++ more)) ∧
    (f.code ≠ .unrecognizedEof → ∃ (k : Nat) (l : Lexeme), ls[k]? = some l ∧
      f.span = ⟨l.start, l.stop⟩) := by
  have hplaced := placed_of_ofSource (Nat.lt_succ_of_le hsize) hlex
  have hliteral : f.code ∉ Expr.literalCodes := by
    revert hcode
    cases f.code <;> decide
  have hdeep : f.code ≠ .expressionTooDeep := by
    intro hdeep
    rw [hdeep] at hcode
    exact absurd hcode (by decide)
  have hread := Expr.ofLexemes_of_ofSource hlex hrefused hliteral
  cases refused_of_ofLexemes hread hdeep with
  | @offender taken rest l code hls hbefore hwith hextra hnotEnd =>
    subst hls
    have hat : (taken ++ l :: rest)[taken.length]? = some l := by simp
    refine ⟨?_, fun h => absurd h hnotEnd, fun _ => ?_⟩
    · intro k l' hk hspan
      -- the span tells the index, so this is the lexeme that was refused
      obtain rfl := hplaced.index_eq hat hk hspan
      rw [take_tokens, take_tokens_succ]
      exact ⟨hbefore, hwith, hextra⟩
    · exact ⟨_, l, hat, hplaced.span_eq (List.mem_of_getElem? hat)⟩
  | ending hall hnot =>
    have hne : ls ≠ [] := by
      rintro rfl
      cases hread
    obtain ⟨hend, hnone⟩ := hplaced.endSpan_eq hne
    refine ⟨?_, fun _ => ⟨hend, hnot, hall.more hnot⟩, fun h => absurd rfl h⟩
    intro k l hk hspan
    exact absurd (hend.symm.trans hspan) (hnone l (List.mem_of_getElem? hk))

/-- The parenthesis is the third lexeme, and the first two are no expression yet. -/
theorem refusal_at_first_offender_paren : ∃ (ls : List Lexeme) (f : SyntaxFault),
    "a + )".utf8ByteSize ≤ 65534 ∧ Lexeme.ofSource "a + )" = .ok ls ∧
      Expr.ofSource "a + )" = .error (.located f) ∧ f.code ∈ refusals ∧
      f = ⟨⟨4, 5⟩, .unrecognizedToken⟩ ∧
      Viable .disjunction [.identifier "a", .operator .add] ∧
      ¬Viable .disjunction [.identifier "a", .operator .add, .rightParen] ∧
      ¬Sentence [.identifier "a", .operator .add] := by
  have hsize : "a + )".utf8ByteSize ≤ 65534 := by decide
  have hlex : Lexeme.ofSource "a + )" = .ok [⟨.identifier "a", 0, 1⟩, ⟨.operator .add, 2, 3⟩,
    ⟨.rightParen, 4, 5⟩] := rfl
  have hrefused : Expr.ofSource "a + )" = .error (.located ⟨⟨4, 5⟩, .unrecognizedToken⟩) := rfl
  have hcode : Code.unrecognizedToken ∈ refusals := by decide
  obtain ⟨hbefore, hwith, hextra⟩ :=
    (refusal_at_first_offender hsize hlex hrefused hcode).1 2 ⟨.rightParen, 4, 5⟩ rfl rfl
  exact ⟨_, _, hsize, hlex, hrefused, hcode, rfl, hbefore, hwith, fun h => nomatch hextra.mpr h⟩

end Grammar

end Formulary
