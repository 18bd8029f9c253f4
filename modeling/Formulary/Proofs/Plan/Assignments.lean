import Formulary.Proofs.Plan.NodeTags

/-!
# Writing into records

Between evaluations a record is written to, by assignments to variables and by writes into slots.
This file says what a sequence of such calls does to the record, and what a plan sees of it. A call
fails just if it has no slot of the record to write to, and then the record stays as it is. Any
other call changes its own slot. A plan is evaluated as before if none of its variables names a slot
that was written.

## Scope

Functions compute their results from their arguments and from nothing else.

## Main definitions

* `Write` — an assignment to a plan, or a write into a slot
* `Write.call` — the outcome of a call
* `Write.after`, `Write.afterAll` — the record after a call, and after a sequence of calls
* `Write.written` — the slots that a sequence of calls writes

## Main results

* `Write.call_cases` — when a call fails, and what it changes otherwise
* `Write.get?_afterAll` — slots that are not written keep their values
* `Plan.eval_congr` — a plan reads the slots of its variables only
* `Write.writes_local` — what a sequence of calls changes, and what it leaves alone
-/

namespace Formulary

/-! ### What a plan reads -/

namespace Plan

variable {r r' : Record}

mutual

/-- **A plan reads the slots of its variables only.** -/
theorem eval_congr {p : Plan} (h : ∀ slot t, .var slot t ∈ p.nodes → r'.get? slot = r.get? slot) :
    p.eval (some r') = p.eval (some r) := by
  match p with
  | .const v => rfl
  | .var slot t => rw [eval, eval, readSlot, readSlot, h slot t (mem_nodes_self _)]
  | .apply table resolution args =>
    rw [eval, eval, evalAll_congr fun slot t hq => h slot t (.tail _ hq)]
  | .call f args => rw [eval, eval, evalAll_congr fun slot t hq => h slot t (.tail _ hq)]
  | .and left right =>
    rw [eval, eval, eval_congr fun slot t hq => h slot t (.tail _ (List.mem_append_left _ hq)),
      eval_congr fun slot t hq => h slot t (.tail _ (List.mem_append_right _ hq))]
  | .or left right =>
    rw [eval, eval, eval_congr fun slot t hq => h slot t (.tail _ (List.mem_append_left _ hq)),
      eval_congr fun slot t hq => h slot t (.tail _ (List.mem_append_right _ hq))]

theorem evalAll_congr {ps : List Plan}
    (h : ∀ slot t, .var slot t ∈ nodesAll ps → r'.get? slot = r.get? slot) :
    evalAll (some r') ps = evalAll (some r) ps := by
  match ps with
  | [] => rfl
  | p :: rest =>
    rw [evalAll, evalAll, eval_congr fun slot t hq => h slot t (mem_nodesAll_cons.mpr (Or.inl hq)),
      evalAll_congr fun slot t hq => h slot t (mem_nodesAll_cons.mpr (Or.inr hq))]

end

end Plan

/-! ### Calls that write -/

/-- A call that writes into a record. -/
inductive Write
  | assign (plan : Plan) (value : Value)
  | set (slot : Nat) (value : Value)

namespace Write

/-- The slot that a call is for. Only variables have one to assign to. -/
def slot? : Write → Option Nat
  | assign (.var slot _) _ | set slot _ => some slot
  | assign _ _ => none

/-- The value to write. -/
def value : Write → Value
  | assign _ value | set _ value => value

/-- The outcome of a call. -/
def call (r : Record) : Write → Except Fault Record
  | assign p value => p.assign r value
  | set slot value => r.set slot value

/-- The record after a call. A call that fails leaves it as it is. -/
def after (r : Record) (w : Write) : Record :=
  match w.call r with
  | .ok r' => r'
  | .error _ => r

/-- The record after a sequence of calls. -/
def afterAll (r : Record) : List Write → Record
  | [] => r
  | w :: rest => afterAll (w.after r) rest

/-- The slots that the calls of a sequence write, those that succeed. -/
def written (r : Record) : List Write → List Nat
  | [] => []
  | w :: rest =>
    match w.call r with
    | .ok r' => w.slot?.toList ++ written r' rest
    | .error _ => written r rest

/-- A call fails with a code, and leaves the record as it is. -/
def Refuses (w : Write) (r : Record) (code : Code) : Prop :=
  (∃ fault, w.call r = .error fault ∧ fault.code = code) ∧ w.after r = r

variable {w : Write} {r r' : Record} {slot : Nat}

/-! ### One call -/

theorem call_of_slot? (h : w.slot? = some slot) (r : Record) : w.call r = r.set slot w.value := by
  cases w with
  | set slot' value =>
    obtain rfl := Option.some.inj h
    rfl
  | assign p value =>
    cases p <;> simp [slot?] at h
    subst h
    rfl

/-- Nothing but variables can be assigned to. -/
theorem refuses_of_slot?_eq_none (h : w.slot? = none) : w.Refuses r .notAssignable := by
  cases w with
  | set slot value => simp [slot?] at h
  | assign p value =>
    cases p <;> simp [slot?] at h
    all_goals exact ⟨⟨_, rfl, rfl⟩, rfl⟩

/-- A record has no slots past its end. -/
theorem refuses_of_length_le (h : w.slot? = some slot) (hlen : r.length ≤ slot) :
    w.Refuses r .indexOutOfBounds := by
  have hcall : w.call r = .error (.slotPastEnd slot r.length) := by
    rw [call_of_slot? h, Record.set, if_neg (Nat.not_lt.mpr hlen)]
  refine ⟨⟨_, hcall, rfl⟩, ?_⟩
  rw [after, hcall]

/-- Any other call succeeds. -/
theorem call_eq_ok (h : w.slot? = some slot) (hlen : slot < r.length) :
    w.call r = .ok (w.after r) := by
  have hcall : w.call r = .ok ⟨r.slots.set slot w.value⟩ := by
    rw [call_of_slot? h, Record.set, if_pos hlen]
  rw [after, hcall]

/-- A call that succeeds is for a slot. -/
theorem exists_slot?_of_call_eq_ok (h : w.call r = .ok r') :
    ∃ slot, w.slot? = some slot ∧ r.set slot w.value = .ok r' := by
  cases hslot : w.slot? with
  | none =>
    obtain ⟨⟨fault, hfault, -⟩, -⟩ := refuses_of_slot?_eq_none hslot
    exact absurd (hfault.symm.trans h) (by simp)
  | some slot => exact ⟨slot, rfl, (call_of_slot? hslot r).symm.trans h⟩

/-! ### A sequence of calls -/

/-- Calls do not change the length. -/
theorem length_after (w : Write) (r : Record) : (w.after r).length = r.length := by
  rw [after]
  split
  · next r' hcall =>
    obtain ⟨slot, -, hset⟩ := exists_slot?_of_call_eq_ok hcall
    exact Record.length_set hset
  · rfl

theorem length_afterAll (r : Record) (ws : List Write) : (afterAll r ws).length = r.length := by
  induction ws generalizing r with
  | nil => rfl
  | cons w rest ih => rw [afterAll, ih, length_after]

/-- **Slots that are not written keep their values.** -/
theorem get?_afterAll {ws : List Write} (h : slot ∉ written r ws) :
    (afterAll r ws).get? slot = r.get? slot := by
  induction ws generalizing r with
  | nil => rfl
  | cons w rest ih =>
    rw [afterAll, after]
    rw [written] at h
    cases hcall : w.call r with
    | error fault =>
      rw [hcall] at h
      exact ih h
    | ok r' =>
      obtain ⟨target, htarget, hset⟩ := exists_slot?_of_call_eq_ok hcall
      rw [hcall, htarget, List.mem_append, not_or] at h
      have hne : slot ≠ target := by simpa using h.1
      exact (ih h.2).trans ((Record.get?_set hset slot).trans (if_neg hne))

/-- **Assignments are local, and plans read their own variables.** A call on a plan that is no
variable and a call past the end fail, and leave the record as it is. Any other call changes one
slot. No sequence of calls changes the length, or a slot that none of its calls writes. If no slot
of a variable of a plan is written, the plan has the value or the fault that it had before. -/
theorem writes_local (r : Record) (ws : List Write) (p : Plan) :
    (∀ w : Write, w.slot? = none → w.Refuses r .notAssignable) ∧
    (∀ (w : Write) (slot : Nat), w.slot? = some slot → r.length ≤ slot →
      w.Refuses r .indexOutOfBounds) ∧
    (∀ (w : Write) (slot : Nat), w.slot? = some slot → slot < r.length →
      w.call r = .ok (w.after r) ∧ (w.after r).length = r.length ∧
        ∀ i, (w.after r).get? i = if i = slot then some w.value else r.get? i) ∧
    (afterAll r ws).length = r.length ∧
    (∀ slot ∉ written r ws, (afterAll r ws).get? slot = r.get? slot) ∧
    ((∀ slot t, .var slot t ∈ p.nodes → slot ∉ written r ws) →
      p.eval (some (afterAll r ws)) = p.eval (some r)) := by
  refine ⟨fun w h => refuses_of_slot?_eq_none h, fun w slot h hlen => refuses_of_length_le h hlen,
    fun w slot h hlen => ?_, length_afterAll r ws, fun slot h => get?_afterAll h, fun h => ?_⟩
  · have hcall := call_eq_ok h hlen
    exact ⟨hcall, length_after w r, Record.get?_set ((call_of_slot? h r).symm.trans hcall)⟩
  · exact Plan.eval_congr fun slot t hslot => get?_afterAll (h slot t hslot)

/-- A switch and a counter. -/
def counter : Record := ⟨[.boolean true, .integer 2]⟩

/-- Calls of which the first one sets the counter, and the others fail. -/
def counterCalls : List Write :=
  [.assign (.var 1 .integer) (.integer 5), .assign (.const .null) .null, .set 2 .null]

/-- A plan that reads the switch. -/
def switchPlan : Plan := .and (.var 0 .boolean) (.const (.boolean true))

/-- The calls write the counter, and the plan still comes to what the switch says. -/
theorem writes_local_counter :
    Refuses (.assign (.const .null) .null) counter .notAssignable ∧
      Refuses (.set 2 .null) counter .indexOutOfBounds ∧
      ((Write.assign (.var 1 .integer) (.integer 5)).after counter).get? 1 = some (.integer 5) ∧
      written counter counterCalls = [1] ∧
      (afterAll counter counterCalls).get? 0 = counter.get? 0 ∧
      switchPlan.eval (some (afterAll counter counterCalls)) = switchPlan.eval (some counter) := by
  obtain ⟨hnone, hpast, hset, -, hget, heval⟩ := writes_local counter counterCalls switchPlan
  have hwritten : written counter counterCalls = [1] := rfl
  have hnodes : switchPlan.nodes = [switchPlan, .var 0 .boolean, .const (.boolean true)] := rfl
  refine ⟨hnone _ rfl, hpast _ 2 rfl (by decide), ?_, hwritten, hget 0 ?_, heval ?_⟩
  · exact (hset _ 1 rfl (by decide)).2.2 1
  · rw [hwritten]
    decide
  · intro slot t hslot
    rw [hnodes] at hslot
    obtain ⟨rfl, -⟩ : slot = 0 ∧ t = .boolean := by simpa [switchPlan] using hslot
    rw [hwritten]
    decide

end Write

end Formulary
