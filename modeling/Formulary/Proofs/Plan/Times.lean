import Formulary.Proofs.Calendar.Millis
import Formulary.Proofs.Plan.Conversions
import Formulary.Proofs.Plan.Relations

/-!
# Printed times read back

`time` makes a time from a count of milliseconds or from a text, and `string` prints one. This file
says that a time that is made from a count survives being printed and read, and that `lt` orders
such times as their counts.

## Scope

Every count is meant for which there is a time, before 1970 and outside the years of four digits
as well. Counts for which there is none are refused, and nothing is said of them. Times that are
read in another format may have parts below the millisecond; those are not printed.

## Main results

* `Registry.Gives.agrees` — outcomes for the same arguments agree
* `Library.Comparison.Registered.gives` — values of one kind are compared as they are
* `Library.gives_time_iff` — the counts that `time` makes a time from
* `Library.times_read_back` — printing and reading, and the order
-/

namespace Formulary

open Calendar Library Overload Carrier

namespace Library

variable {now : DateTime}

/-! ### Comparisons of one kind -/

/-- Two values of one kind are compared as they are. -/
theorem Comparison.Registered.gives {c : Comparison} {name : String} {kinds : List Tag}
    (h : c.Registered name kinds) {v w : Value} (hkind : v.tag ∈ kinds) (hsame : w.tag = v.tag) :
    (Registry.standard now).Gives name [v, w] (.ok (.boolean (c.relates v w))) := by
  have hkind' := h.subset_equalKinds hkind
  have hparams : (c.forKind v.tag).params = signatureOf [v, w] := by
    rw [signatureOf_pair, hsame, Comparison.params_forKind hkind']
  have hvalue : ∀ {u : Value}, u.tag = v.tag → .null ≠ u := by
    rintro _ htag rfl
    exact absurd (htag ▸ hkind') (by decide)
  have hnull : .null ∉ [v, w] := by
    rw [List.mem_pair, not_or]
    exact ⟨hvalue rfl, hvalue hsame⟩
  rw [← h.ofOrdering.body_forKind hkind' hsame]
  exact gives_declared (find?_relations now h.mem_names) ((h.paired.live _).mpr ⟨_, hkind, rfl⟩)
    hparams hnull

theorem gives_lt_time (t u : DateTime) : (Registry.standard now).Gives "lt" [.time t, .time u]
    (.ok (.boolean (t.compare u).isLT)) :=
  registered_relations.1.gives (by simp [orderedKinds, Value.tag]) rfl

/-! ### The table of `time` -/

open Registry.Builder

theorem overloads_times (now : DateTime) : ((times now .empty).tableOrNew "time").overloads =
    nullary time now :: timeOverloads := by
  obtain ⟨t, ht, -, -, -, hoverloads⟩ := find?_times now .empty
  rw [tableOrNew_of_find? ht, hoverloads]
  rfl

/-- An overload of `time` is applied to a value that it is declared for. -/
theorem gives_time {α : Type} {c : Carrier α} {f : α → Except Fault DateTime}
    (h : tryUnary c time f ∈ timeOverloads) {v : Value} {a : α} (hv : c.unpack? v = some a)
    (htag : c.tag = v.tag) (hnull : v ≠ .null) :
    (Registry.standard now).Gives "time" [v] (f a >>= fun t => .ok (.time t)) := by
  have htable : (builtins now).tables.find? "time" =
      some ((times now .empty).tableOrNew "time") :=
    find?_of_mem_groups now (by simp [groups]) (by decide) (List.mem_singleton_self _)
  have hparams : ((times now .empty).tableOrNew "time").overloads.map Overload.params =
      [[], [.long], [.string], [.string, .string]] := by
    rw [overloads_times]
    rfl
  have hlive : ((times now .empty).tableOrNew "time").Live (tryUnary c time f) := by
    rw [Table.Builder.live_of_nodup (hparams ▸ by decide), overloads_times]
    exact List.mem_cons_of_mem _ h
  exact gives_tryUnary htable hlive hv htag hnull

theorem gives_timeOfMillis (now : DateTime) (n : Int64) :
    (Registry.standard now).Gives "time" [.long n]
      (timeOfMillis n >>= fun t => .ok (.time t)) := by
  have hmem : tryUnary long time timeOfMillis ∈ timeOverloads := by simp [timeOverloads]
  exact gives_time hmem rfl rfl (by simp)

theorem gives_readTime (now : DateTime) (s : String) :
    (Registry.standard now).Gives "time" [.string s]
      (readTime s DateTime.defaultFormat >>= fun t => .ok (.time t)) := by
  have hmem : (tryUnary string time fun s => readTime s DateTime.defaultFormat) ∈
      timeOverloads := by
    simp [timeOverloads]
  exact gives_time hmem rfl rfl (by simp)

/-- **`time` makes a time** from the counts that have one. -/
theorem gives_time_iff {n : Int64} {v : Value} :
    (Registry.standard now).Gives "time" [.long n] (.ok v) ↔
      ∃ t, DateTime.ofMillis? n.toInt = some t ∧ v = .time t := by
  have hgives := gives_timeOfMillis now n
  rw [timeOfMillis] at hgives
  constructor
  · intro h
    have hagrees := hgives.agrees h
    cases hmillis : DateTime.ofMillis? n.toInt with
    | none =>
      rw [hmillis] at hagrees
      exact hagrees.elim
    | some t =>
      rw [hmillis] at hagrees
      exact ⟨t, rfl, hagrees.symm⟩
  · rintro ⟨t, hmillis, rfl⟩
    rw [hmillis] at hgives
    exact hgives

/-- **Printed times are read back.** A time that is made from a count of milliseconds is read from
the text that it is printed as, and two such times are ordered as their counts. -/
theorem times_read_back {m n : Int64} {v w : Value}
    (hv : (Registry.standard now).Gives "time" [.long m] (.ok v))
    (hw : (Registry.standard now).Gives "time" [.long n] (.ok w)) :
    (∃ s, (Registry.standard now).Gives "string" [v] (.ok (.string s)) ∧
      (Registry.standard now).Gives "time" [.string s] (.ok v)) ∧
    (Registry.standard now).Gives "lt" [v, w] (.ok (.boolean (decide (m.toInt < n.toInt)))) := by
  obtain ⟨t, ht, rfl⟩ := gives_time_iff.mp hv
  obtain ⟨u, hu, rfl⟩ := gives_time_iff.mp hw
  have hread : readTime t.text DateTime.defaultFormat = .ok t := by
    rw [readTime, DateTime.read?_text (DateTime.toMillis_of_ofMillis? ht)]
  have horder : (t.compare u).isLT = decide (m.toInt < n.toInt) := by
    rw [Bool.eq_iff_iff, Ordering.isLT_iff_eq_lt, DateTime.compare_ofMillis? ht hu,
      decide_eq_true_iff]
  have hprintable : (Value.time t).tag ∈ printableTags := by
    show Tag.time ∈ printableTags
    decide
  refine ⟨⟨t.text, gives_string now hprintable, ?_⟩, horder ▸ gives_lt_time t u⟩
  have hgives := gives_readTime now t.text
  rw [hread] at hgives
  exact hgives

/-- A time before the year one and one after the year 9999. -/
theorem times_read_back_signed_years :
    (Registry.standard ⟨0, 0, 0⟩).Gives "time" [.long (-62167219200001)]
      (.ok (.time ⟨-719529, 86399, 999000000⟩)) ∧
    (Registry.standard ⟨0, 0, 0⟩).Gives "time" [.long 253402300800000]
      (.ok (.time ⟨2932897, 0, 0⟩)) ∧
    (∃ s, (Registry.standard ⟨0, 0, 0⟩).Gives "string" [.time ⟨-719529, 86399, 999000000⟩]
        (.ok (.string s)) ∧
      (Registry.standard ⟨0, 0, 0⟩).Gives "time" [.string s]
        (.ok (.time ⟨-719529, 86399, 999000000⟩))) ∧
    (Registry.standard ⟨0, 0, 0⟩).Gives "lt"
      [.time ⟨-719529, 86399, 999000000⟩, .time ⟨2932897, 0, 0⟩]
      (.ok (.boolean (decide
        ((-62167219200001 : Int64).toInt < (253402300800000 : Int64).toInt)))) := by
  have hv : (Registry.standard ⟨0, 0, 0⟩).Gives "time" [.long (-62167219200001)]
      (.ok (.time ⟨-719529, 86399, 999000000⟩)) :=
    gives_time_iff.mpr ⟨_, by decide, rfl⟩
  have hw : (Registry.standard ⟨0, 0, 0⟩).Gives "time" [.long 253402300800000]
      (.ok (.time ⟨2932897, 0, 0⟩)) :=
    gives_time_iff.mpr ⟨_, by decide, rfl⟩
  exact ⟨hv, hw, times_read_back hv hw⟩

end Library

end Formulary
