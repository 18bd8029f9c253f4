import Formulary.Proofs.Number.Written
import Formulary.Proofs.Plan.ExactArithmetic

/-!
# Printed values read back

`string` prints a value, and `int`, `long` and `decimal` read a text. This file says that they undo
it: a printed integer of either width is read as the same integer, and a printed decimal as the same
number, with any blanks around the text.

## Scope

Doubles are left out. Decimals are of all scales that there are.

## Implementation notes

A decimal may come back at another scale: its text is the one that `Decimal.reread` has. So what is
said of decimals is that the numbers are equal, and not the pairs.

## Main definitions

* `Text.Blank` — a text of blanks
* `Registry.ReadsBack` — a value is printed, and a function reads it
* `Library.Converts` — the overloads that a conversion chooses from

## Main results

* `Library.gives_string` — what `string` prints
* `Library.gives_reading` — what the functions read
* `Library.conversions_read_back` — printing and reading are inverse
-/

namespace Formulary

open Calendar Library Overload Carrier
open Text (isBlank trimList)

/-- A text of blanks. -/
def Text.Blank (s : String) : Prop := ∀ c ∈ s.toList, isBlank c = true

/-- A value is printed as a text. The function reads the text, whatever blanks are put around it,
as a value that is fit to stand for the first one. -/
def Registry.ReadsBack (r : Registry) (name : String) (v : Value) (Fit : Value → Prop) : Prop :=
  ∃ s : String, r.Gives "string" [v] (.ok (.string s)) ∧
    ∀ before after, Text.Blank before → Text.Blank after →
      ∃ w, r.Gives name [.string (before ++ s ++ after)] (.ok w) ∧ Fit w

namespace Library

/-! ### The tables of conversions -/

open Registry.Builder

theorem find?_conversions (now : DateTime) {name : String} (h : name ∈ conversionNames) :
    (builtins now).tables.find? name = some ((conversions .empty).tableOrNew name) :=
  find?_of_mem_groups now (by simp [groups]) (by decide) h

theorem overloads_conversions :
    ((conversions .empty).tableOrNew "int").overloads = [unary integer integer id,
      unary long integer Int64.toInt32, unary double integer Double.toInt32,
      unary decimal integer fun d => d.toInt64.toInt32,
      tryUnary string integer (reading .integer Number.readInt32?)] ∧
    ((conversions .empty).tableOrNew "long").overloads = [unary integer long Int32.toInt64,
      unary long long id, unary double long Double.toInt64, unary decimal long Decimal.toInt64,
      tryUnary string long (reading .long Number.readInt64?)] ∧
    ((conversions .empty).tableOrNew "decimal").overloads =
      [unary integer decimal fun n => .ofInt n.toInt, unary long decimal fun n => .ofInt n.toInt,
        tryUnary double decimal decimalOfDouble, unary decimal decimal id,
        tryUnary string decimal (reading .decimal Decimal.read?)] ∧
    ((conversions .empty).tableOrNew "string").overloads = printableTags.map printing := by
  refine ⟨?_, ?_, ?_, ?_⟩ <;>
  · simp [conversions, tableOrNew_registerFamily, tableOrNew_registerOverloads,
      Table.Builder.setWidening, Table.Builder.revise]
    rfl

/-- The overload is one of those that a conversion chooses from. -/
structure Converts (name : String) (o : Overload) : Prop where
  /-- The table is that of a conversion. -/
  mem_names : name ∈ conversionNames
  /-- No other overload takes the place of this one. -/
  live : ((conversions .empty).tableOrNew name).Live o

theorem converts_of_mem {name : String} {os : List Overload} {o : Overload}
    (hname : name ∈ conversionNames)
    (hos : ((conversions .empty).tableOrNew name).overloads = os)
    (hnodup : (os.map Overload.params).Nodup) (ho : o ∈ os) : Converts name o := by
  refine ⟨hname, ?_⟩
  rw [Table.Builder.live_of_nodup (hos ▸ hnodup), hos]
  exact ho

/-- **The conversions** that print and read. -/
theorem converts_printing_and_reading :
    Converts "int" (tryUnary string integer (reading .integer Number.readInt32?)) ∧
    Converts "long" (tryUnary string long (reading .long Number.readInt64?)) ∧
    Converts "decimal" (tryUnary string decimal (reading .decimal Decimal.read?)) ∧
    ∀ t ∈ printableTags, Converts "string" (printing t) := by
  obtain ⟨hint, hlong, hdecimal, hstring⟩ := overloads_conversions
  refine ⟨?_, ?_, ?_, fun t ht => ?_⟩
  · exact converts_of_mem (by decide) hint (by decide) (by simp)
  · exact converts_of_mem (by decide) hlong (by decide) (by simp)
  · exact converts_of_mem (by decide) hdecimal (by decide) (by simp)
  · exact converts_of_mem (by decide) hstring (by decide) (List.mem_map_of_mem ht)

/-! ### Outcomes -/

/-- What a body that may fail comes to on a value that it unpacks. -/
theorem body_tryUnary {α ρ : Type} {a : Carrier α} {r : Carrier ρ} {f : α → Except Fault ρ}
    {v : Value} {x : α} (hv : a.unpack? v = some x) :
    (tryUnary a r f).body [v] = f x >>= fun z => .ok (r.pack z) := by
  simp [tryUnary, Carrier.argument, hv]
  rfl

section

variable {now : DateTime} {name : String}

/-- An overload that is declared for the tag of a value is applied to what it unpacks. -/
theorem gives_tryUnary {t : Table.Builder} (hfind : (builtins now).tables.find? name = some t)
    {α ρ : Type} {c : Carrier α} {r : Carrier ρ} {f : α → Except Fault ρ}
    (hlive : t.Live (tryUnary c r f)) {v : Value} {a : α} (hv : c.unpack? v = some a)
    (htag : c.tag = v.tag) (hnull : v ≠ .null) :
    (Registry.standard now).Gives name [v] (f a >>= fun z => .ok (r.pack z)) := by
  rw [← body_tryUnary hv]
  exact gives_declared hfind hlive (congrArg ([·]) htag)
    fun hmem => hnull (List.mem_singleton.mp hmem).symm

/-- **Printing.** A value is printed as its text. -/
theorem gives_string (now : DateTime) {v : Value} (h : v.tag ∈ printableTags) :
    (Registry.standard now).Gives "string" [v] (.ok (.string v.text)) := by
  have hconverts := converts_printing_and_reading.2.2.2 v.tag h
  have hnull : .null ∉ [v] := by
    intro hmem
    rw [← List.mem_singleton.mp hmem] at h
    exact absurd h (by decide)
  exact gives_declared (find?_conversions now hconverts.mem_names) hconverts.live rfl hnull

/-- **Reading.** Blanks around a text make no difference to what it is read as. -/
theorem gives_reading {α : Type} {c : Carrier α} {t : Tag} {read? : List Char → Option α}
    (h : Converts name (tryUnary string c (reading t read?))) {s before after : String} {a : α}
    (hread : read? s.toList = some a) (hs : ∀ ch ∈ s.toList, isBlank ch = false)
    (hbefore : Text.Blank before) (hafter : Text.Blank after) :
    (Registry.standard now).Gives name [.string (before ++ s ++ after)] (.ok (c.pack a)) := by
  have htrim : trimList (before ++ s ++ after).toList = s.toList := by
    rw [String.toList_append, String.toList_append]
    exact Text.trimList_append hs hbefore hafter
  have hreading : reading t read? (before ++ s ++ after) = .ok a := by
    rw [reading, htrim, hread]
  have hgives := gives_tryUnary (v := .string (before ++ s ++ after))
    (find?_conversions now h.mem_names) h.live rfl rfl (by simp)
  rw [hreading] at hgives
  exact hgives

end

/-! ### There and back -/

/-- **Printing and reading are inverse.** `int` and `long` give back the integer that was printed,
and `decimal` gives a decimal that is the same number, whatever layout it was printed in. -/
theorem conversions_read_back (now : DateTime) (m : Int32) (n : Int64) (d : Decimal) :
    (Registry.standard now).ReadsBack "int" (.integer m) (· = .integer m) ∧
    (Registry.standard now).ReadsBack "long" (.long n) (· = .long n) ∧
    (Registry.standard now).ReadsBack "decimal" (.decimal d)
      fun w => ∃ d', w = .decimal d' ∧ d'.equiv d = true ∧ d'.toRat = d.toRat := by
  obtain ⟨hint, hlong, hdecimal, -⟩ := converts_printing_and_reading
  have hprintable : .integer ∈ printableTags ∧ .long ∈ printableTags ∧
      .decimal ∈ printableTags := by
    decide
  refine ⟨?_, ?_, ?_⟩
  · refine ⟨_, gives_string now hprintable.1, fun before after hbefore hafter => ⟨_, ?_, rfl⟩⟩
    exact gives_reading hint (Number.readInt32?_toString m) (Number.isBlank_of_mem_toString _)
      hbefore hafter
  · refine ⟨_, gives_string now hprintable.2.1, fun before after hbefore hafter => ⟨_, ?_, rfl⟩⟩
    exact gives_reading hlong (Number.readInt64?_toString n) (Number.isBlank_of_mem_toString _)
      hbefore hafter
  · have hnumber := d.toRat_reread
    refine ⟨_, gives_string now hprintable.2.2, fun before after hbefore hafter =>
      ⟨.decimal d.reread, ?_, d.reread, rfl, Decimal.equiv_iff.mpr hnumber, hnumber⟩⟩
    exact gives_reading hdecimal d.read?_text d.isBlank_of_mem_text hbefore
      hafter

end Library

end Formulary
