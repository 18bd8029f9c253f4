import Formulary.Proofs.Number.Nearest
import Formulary.Proofs.Record.Conforming
import Formulary.Record.Files

/-!
# Documents that are read

Whatever text a document is read from, its numbers are words of sixty-four bits or finite doubles.
A JSON number is scaled by powers of ten, and what grows too large on the way is refused. A YAML
scalar that names a double that is not finite is nothing.

## Implementation notes

Division by a power of ten needs an argument, since nothing is refused after it: the double of a
power of ten is at least two, so the quotient lies below the bound that the dividend has, however
often a small number is scaled.

## Main results

* `Double.below_div_ofScientific` — division by powers of ten keeps a bound
* `Json.isFinite_of_scale?` — scaled numbers are finite
* `Json.State.Proper.step`, `Json.State.Proper.run` — the machine keeps what it has read proper
* `Json.proper_of_read?`, `Yaml.proper_of_read?` — documents of texts are proper
* `Format.proper_of_read`, `Record.exists_of_parse` — so are the documents that records are read
  from
* `Document.sorted_normalize`, `Format.sorted_of_read` — and their members are sorted
-/

namespace Formulary

namespace Document

theorem properAll_reverse_iff {items : List Document} :
    ProperAll items.reverse ↔ ProperAll items := by
  simp only [properAll_iff, List.mem_reverse]

theorem properMembers_reverse_iff {members : List (String × Document)} :
    ProperMembers members.reverse ↔ ProperMembers members := by
  simp only [properMembers_iff, List.mem_reverse]

theorem proper_real (x : Float) : (Document.real x).Proper := by
  rw [Document.real]
  split
  · next hfinite => exact hfinite
  · trivial

end Document

/-! ### Scaling -/

namespace Double

open Float.Model Float.Model.UnpackedFloat

/-- The powers of ten that numbers are divided by are at least two as doubles. -/
theorem unpack_ofScientific_one {e : Int} (hlow : 1 ≤ e) (hhigh : e ≤ 308) :
    ∃ m q, ∃ hm : 0 < m, (ofScientific 1 e).toModel.unpack = .finite .positive m q hm ∧
      2 ≤ totalExponent m q := by
  obtain ⟨k, rfl⟩ := Int.eq_ofNat_of_zero_le (by omega : 0 ≤ e)
  have hten : (10 : ℚ) ≤ 10 ^ k := le_self_pow₀ (by norm_num) (by omega)
  have hvalue : (1 : Nat) * (10 : ℚ) ^ (k : Int) = 10 ^ k := by
    rw [Nat.cast_one, one_mul, zpow_natCast]
  have hleast : (2 : ℚ) ^ minExponent ≤ 1 := zpow_le_one_of_nonpos₀ one_le_two (by decide)
  obtain ⟨m, q, hcanonical, hm, hv⟩ :=
    exists_roundsTo (hleast.trans (by linarith)) (ten_pow_le_largest (by omega))
  refine ⟨m, q, hm, ?_, ?_⟩
  · rw [ofScientific_of_roundsTo hcanonical hm (hvalue.symm ▸ hv)]
    exact unpack_packed .positive hcanonical hm
  · have hexponent : 1 < q + 53 := by
      rw [← zpow_lt_zpow_iff_right₀ (one_lt_two (α := ℚ))]
      exact lt_of_le_of_lt (by norm_num; linarith) (hv.lt hcanonical)
    have hfull : 2 ^ 52 ≤ m := hcanonical.full.resolve_right (by rw [minExponent]; omega)
    have := (Nat.le_log2 hm.ne').mpr hfull
    rw [totalExponent]
    omega

/-- Division by these powers of ten keeps a bound. -/
theorem below_div_ofScientific {k : Int} (hk : -1022 ≤ k) (hk' : k ≤ 970) {x : Float}
    (hx : Below .positive k x.toModel.unpack) {e : Int} (hlow : 1 ≤ e) (hhigh : e ≤ 308) :
    Below .positive k (x / ofScientific 1 e).toModel.unpack := by
  obtain ⟨m, q, hm, hunpack, htotal⟩ := unpack_ofScientific_one hlow hhigh
  have hquotient := below_div (t := .positive) hx hm htotal (by omega)
  rw [← hunpack] at hquotient
  have hpacked := below_packed hquotient hk'
  rw [max_eq_left hk] at hpacked
  exact hpacked

theorem isFinite_withSign {x : Float} (h : isFinite x = true) (negative : Bool) :
    isFinite (withSign negative x) = true := by
  obtain ⟨p, hp⟩ := Option.isSome_iff_exists.mp h
  cases negative with
  | true => exact Option.isSome_iff_exists.mpr ⟨_, parts?_neg hp⟩
  | false => exact h

end Double

namespace Json

open Number Double

/-- **Scaled numbers are finite.** -/
theorem isFinite_of_scale? {x y : Float} {e : Int} (hx : Below .positive 129 x.toModel.unpack)
    (h : scale? x e = some y) : isFinite y = true := by
  fun_induction scale? x e with
  | case1 | case4 =>
    obtain rfl := Option.some.inj h
    exact isFinite_of_below hx
  | case2 x e he hzero ih =>
    exact ih (below_div_ofScientific (by decide) (by decide) hx (by decide) (by decide)) h
  | case3 x e he hneg =>
    obtain rfl := Option.some.inj h
    rw [maxPower] at he
    exact isFinite_of_below
      (below_div_ofScientific (by decide) (by decide) hx (by omega) (by omega))
  | case6 x e he hneg hlarge y hfinite =>
    obtain rfl := Option.some.inj h
    exact hfinite
  | case5 | case7 => cases h

/-! ### JSON -/

theorem accumulate_lt {n : Nat} (hn : n < 2 ^ 64) (cs : List Char) :
    (accumulate n cs).1 < 2 ^ 64 := by
  induction cs generalizing n with
  | nil => exact hn
  | cons c rest ih =>
    rw [accumulate]
    split
    · next hlt => exact ih hlt
    · exact hn

/-- **Numbers of JSON texts are words of sixty-four bits or finite.** -/
theorem proper_of_readMagnitude? {negative : Bool} {cs : List Char} {n : Numeral}
    (h : readMagnitude? negative cs = some n) : n.Proper := by
  obtain ⟨⟨whole, fraction, exponent⟩, -, h⟩ := Option.bind_eq_some_iff.mp h
  dsimp only at h
  split at h
  · cases h
  · split at h
    · cases h
    · split at h
      · next hwhole =>
        obtain rfl := Option.some.inj h
        rw [Bool.and_eq_true, Bool.and_eq_true] at hwhole
        exact hwhole.1.2
      · obtain ⟨x, hx, h⟩ := Option.bind_eq_some_iff.mp h
        obtain rfl := Option.some.inj h
        have hdigits : (accumulate (accumulate 0 whole).1 (fraction.getD [])).1 < 2 ^ 64 :=
          accumulate_lt (accumulate_lt (by decide) whole) (fraction.getD [])
        exact isFinite_withSign (isFinite_of_scale? (below_floatOfNat hdigits) hx) negative

theorem proper_of_readNumber? {cs : List Char} {n : Numeral} (h : readNumber? cs = some n) :
    n.Proper := by
  rw [readNumber?.eq_def] at h
  split at h <;> exact proper_of_readMagnitude? h

/-- A scalar is a proper document. -/
def Token.Proper : Token → Prop
  | scalar d => d.Proper
  | _ => True

theorem proper_of_scan? {c : Char} {rest : List Char} {t : Token} {k : Nat}
    (h : scan? c rest = some (t, k)) : t.Proper := by
  rw [scan?.eq_def] at h
  split at h
  iterate 6
    obtain ⟨rfl, -⟩ := Prod.mk.inj (Option.some.inj h)
    trivial
  · obtain ⟨body, -, h⟩ := Option.bind_eq_some_iff.mp h
    obtain ⟨text, -, h⟩ := Option.bind_eq_some_iff.mp h
    obtain ⟨rfl, -⟩ := Prod.mk.inj (Option.some.inj h)
    trivial
  · split at h
    · obtain ⟨n, hn, h⟩ := Option.bind_eq_some_iff.mp h
      obtain ⟨rfl, -⟩ := Prod.mk.inj (Option.some.inj h)
      exact proper_of_readNumber? hn
    · dsimp only at h
      split at h
      iterate 3
        obtain ⟨rfl, -⟩ := Prod.mk.inj (Option.some.inj h)
        trivial
      · cases h

/-- The parts that an open container has so far are proper. -/
def Frame.Proper : Frame → Prop
  | array done => Document.ProperAll done
  | object done _ => Document.ProperMembers done

/-- Everything that was read so far is proper. -/
def State.Proper : State → Prop
  | value stack | firstItem stack | firstKey stack => ∀ f ∈ stack, f.Proper
  | key done stack | colon done _ stack =>
    Document.ProperMembers done ∧ ∀ f ∈ stack, f.Proper
  | separator d stack => d.Proper ∧ ∀ f ∈ stack, f.Proper

theorem proper_of_startValue {stack : List Frame} (hstack : ∀ f ∈ stack, f.Proper) {t : Token}
    (ht : t.Proper) {state : State} (h : startValue stack t = some state) : state.Proper := by
  rw [startValue.eq_def] at h
  split at h
  · obtain rfl := Option.some.inj h
    exact ⟨ht, hstack⟩
  iterate 2
    split at h
    · obtain rfl := Option.some.inj h
      exact hstack
    · cases h
  · cases h

theorem proper_of_startKey {done : List (String × Document)} (hdone : Document.ProperMembers done)
    {stack : List Frame} (hstack : ∀ f ∈ stack, f.Proper) {t : Token} {state : State}
    (h : startKey done stack t = some state) : state.Proper := by
  rw [startKey.eq_def] at h
  split at h
  · obtain rfl := Option.some.inj h
    exact ⟨hdone, hstack⟩
  · cases h

/-- Taking a token keeps what was read proper. -/
theorem State.Proper.step {state state' : State} (hstate : state.Proper) {t : Token}
    (ht : t.Proper) (h : Json.step state t = some state') : state'.Proper := by
  rw [Json.step.eq_def] at h
  split at h
  · exact proper_of_startValue hstate ht h
  · obtain rfl := Option.some.inj h
    exact ⟨trivial, hstate⟩
  · have hnone : Frame.Proper (.array []) := trivial
    exact proper_of_startValue (List.forall_mem_cons.mpr ⟨hnone, hstate⟩) ht h
  · exact proper_of_startKey hstate.1 hstate.2 h
  · obtain rfl := Option.some.inj h
    exact ⟨trivial, hstate⟩
  · have hnone : Document.ProperMembers [] := trivial
    exact proper_of_startKey hnone hstate h
  · obtain rfl := Option.some.inj h
    exact List.forall_mem_cons.mpr hstate
  · obtain rfl := Option.some.inj h
    obtain ⟨hd, hframe, hstack⟩ := And.imp_right List.forall_mem_cons.mp hstate
    exact List.forall_mem_cons.mpr ⟨⟨hd, hframe⟩, hstack⟩
  · obtain rfl := Option.some.inj h
    obtain ⟨hd, hframe, hstack⟩ := And.imp_right List.forall_mem_cons.mp hstate
    refine ⟨?_, hstack⟩
    rw [Document.Proper, Document.properAll_reverse_iff]
    exact ⟨hd, hframe⟩
  · obtain rfl := Option.some.inj h
    obtain ⟨hd, hframe, hstack⟩ := And.imp_right List.forall_mem_cons.mp hstate
    exact ⟨⟨hd, hframe⟩, hstack⟩
  · obtain rfl := Option.some.inj h
    obtain ⟨hd, hframe, hstack⟩ := And.imp_right List.forall_mem_cons.mp hstate
    refine ⟨?_, hstack⟩
    rw [Document.Proper, Document.properMembers_reverse_iff]
    exact ⟨hd, hframe⟩
  · cases h

/-- So does a run. -/
theorem State.Proper.run {state state' : State} (hstate : state.Proper) {ts : List Token}
    (hts : ∀ t ∈ ts, t.Proper) (h : ts.foldlM Json.step state = some state') : state'.Proper := by
  induction ts generalizing state with
  | nil =>
    obtain rfl := Option.some.inj h
    exact hstate
  | cons t ts ih =>
    rw [List.forall_mem_cons] at hts
    rw [List.foldlM_cons] at h
    obtain ⟨next, hnext, h⟩ := Option.bind_eq_some_iff.mp h
    exact ih (hstate.step hts.1 hnext) hts.2 h

/-- **Documents of JSON texts are proper.** -/
theorem proper_of_read? {cs : List Char} {d : Document} (h : read? cs = some d) : d.Proper := by
  obtain ⟨tokens, htokens, h⟩ := Option.bind_eq_some_iff.mp h
  obtain ⟨state, hrun, h⟩ := Option.bind_eq_some_iff.mp h
  have hstart : (State.value []).Proper := List.forall_mem_nil _
  have hend := hstart.run (forall_mem_of_tokens? (fun h => proper_of_scan? h) htokens) hrun
  rw [State.finish?.eq_def] at h
  split at h
  · obtain rfl := Option.some.inj h
    exact hend.1
  · cases h

end Json

/-! ### YAML -/

namespace Yaml

open Document

theorem proper_of_ofText {s : String} {d : Document} (h : resolve?.ofText s = some d) :
    d.Proper := by
  obtain rfl := Option.some.inj h
  rw [readReal?.eq_def]
  dsimp only
  split
  · trivial
  · split
    · trivial
    · split
      · split
        · exact proper_real _
        · trivial
      · trivial

theorem proper_of_resolve? {s : String} {d : Document} (h : resolve? s = some d) : d.Proper := by
  rw [resolve?] at h
  split at h
  · obtain rfl := Option.some.inj h
    trivial
  · split at h
    · obtain rfl := Option.some.inj h
      trivial
    · split at h
      · split at h
        · rw [ofInteger?] at h
          split at h
          · next hwhole =>
            obtain rfl := Option.some.inj h
            exact hwhole
          · cases h
        · exact proper_of_ofText h
      · exact proper_of_ofText h

theorem proper_of_readScalar? {parent : Int} {ts rest : List Token} {d : Document}
    (h : readScalar? parent ts = some (d, rest)) : d.Proper := by
  rw [readScalar?.eq_def] at h
  split at h
  · obtain ⟨d', hd', h⟩ := Option.bind_eq_some_iff.mp h
    obtain ⟨rfl, -⟩ := Prod.mk.inj (Option.some.inj h)
    exact proper_of_resolve? hd'
  · obtain ⟨rfl, -⟩ := Prod.mk.inj (Option.some.inj h)
    trivial
  · cases h

/-- A part and the parts after it. -/
theorem exists_of_cons_eq_some {α : Type} {a : α} {x : Option (List α × List Token)} {as : List α}
    {rest : List Token} (h : (do let p ← x; return (a :: p.1, p.2)) = some (as, rest)) :
    ∃ others, x = some (others, rest) ∧ as = a :: others := by
  obtain ⟨⟨others, more⟩, hx, h⟩ := Option.bind_eq_some_iff.mp h
  obtain ⟨rfl, rfl⟩ := Prod.mk.inj (Option.some.inj h)
  exact ⟨others, hx, rfl⟩

mutual

theorem proper_of_readFlow? {fuel : Nat} {ts rest : List Token} {d : Document}
    (h : readFlow? fuel ts = some (d, rest)) : d.Proper := by
  match fuel with
  | 0 => exact nomatch h
  | fuel + 1 =>
    rw [readFlow?.eq_def] at h
    dsimp only at h
    split at h
    · obtain ⟨⟨items, _⟩, hitems, h⟩ := Option.bind_eq_some_iff.mp h
      obtain ⟨rfl, -⟩ := Prod.mk.inj (Option.some.inj h)
      exact properAll_of_readFlowItems? hitems
    · obtain ⟨⟨members, _⟩, hmembers, h⟩ := Option.bind_eq_some_iff.mp h
      obtain ⟨rfl, -⟩ := Prod.mk.inj (Option.some.inj h)
      exact properMembers_of_readFlowMembers? hmembers
    iterate 2 exact proper_of_readScalar? h
    iterate 3
      obtain ⟨rfl, -⟩ := Prod.mk.inj (Option.some.inj h)
      trivial
    · cases h

theorem properAll_of_readFlowItems? {fuel : Nat} {ts rest : List Token} {items : List Document}
    (h : readFlowItems? fuel ts = some (items, rest)) : ProperAll items := by
  match fuel with
  | 0 => exact nomatch h
  | fuel + 1 =>
    rw [readFlowItems?.eq_def] at h
    dsimp only at h
    split at h
    · obtain ⟨rfl, -⟩ := Prod.mk.inj (Option.some.inj h)
      trivial
    · cases h
    · obtain ⟨⟨item, more⟩, hitem, h⟩ := Option.bind_eq_some_iff.mp h
      have hproper := proper_of_readFlowItem? hitem
      dsimp only at h
      split at h
      · obtain ⟨others, hothers, rfl⟩ := exists_of_cons_eq_some h
        exact ⟨hproper, properAll_of_readFlowItems? hothers⟩
      · obtain ⟨others, hothers, rfl⟩ := exists_of_cons_eq_some h
        obtain ⟨rfl, -⟩ := Prod.mk.inj (Option.some.inj hothers)
        exact ⟨hproper, trivial⟩
      · cases h

theorem proper_of_readFlowItem? {fuel : Nat} {ts rest : List Token} {d : Document}
    (h : readFlowItem? fuel ts = some (d, rest)) : d.Proper := by
  match fuel with
  | 0 => exact nomatch h
  | fuel + 1 =>
    rw [readFlowItem?.eq_def] at h
    dsimp only at h
    split at h
    · obtain ⟨key, -, h⟩ := Option.bind_eq_some_iff.mp h
      obtain ⟨⟨value, _⟩, hvalue, h⟩ := Option.bind_eq_some_iff.mp h
      obtain ⟨rfl, -⟩ := Prod.mk.inj (Option.some.inj h)
      exact ⟨proper_of_readFlow? hvalue, trivial⟩
    · exact proper_of_readFlow? h

theorem properMembers_of_readFlowMembers? {fuel : Nat} {ts rest : List Token}
    {members : List (String × Document)}
    (h : readFlowMembers? fuel ts = some (members, rest)) : ProperMembers members := by
  match fuel with
  | 0 => exact nomatch h
  | fuel + 1 =>
    rw [readFlowMembers?.eq_def] at h
    dsimp only at h
    split at h
    · obtain ⟨rfl, -⟩ := Prod.mk.inj (Option.some.inj h)
      trivial
    · obtain ⟨key, -, h⟩ := Option.bind_eq_some_iff.mp h
      -- The value stands behind a colon, or there is none.
      split at h
      all_goals
        obtain ⟨⟨value, more⟩, hvalue, h⟩ := Option.bind_eq_some_iff.mp h
        have hproper : value.Proper := by
          first
          | exact proper_of_readFlow? hvalue
          | exact (Prod.mk.inj (Option.some.inj hvalue)).1 ▸ trivial
        dsimp only at h
        split at h
        · obtain ⟨others, hothers, rfl⟩ := exists_of_cons_eq_some h
          exact ⟨hproper, properMembers_of_readFlowMembers? hothers⟩
        · obtain ⟨others, hothers, rfl⟩ := exists_of_cons_eq_some h
          obtain ⟨rfl, -⟩ := Prod.mk.inj (Option.some.inj hothers)
          exact ⟨hproper, trivial⟩
        · cases h
    · cases h

end

mutual

theorem proper_of_readBlock? {fuel : Nat} {parent : Int} {ts rest : List Token} {d : Document}
    (h : readBlock? fuel parent ts = some (d, rest)) : d.Proper := by
  match fuel with
  | 0 =>
    rw [readBlock?] at h
    cases h
  | fuel + 1 =>
    rw [readBlock?.eq_def] at h
    dsimp only at h
    split at h
    · obtain ⟨⟨items, _⟩, hitems, h⟩ := Option.bind_eq_some_iff.mp h
      obtain ⟨rfl, -⟩ := Prod.mk.inj (Option.some.inj h)
      exact properAll_of_readItems? hitems
    iterate 2 exact proper_of_readFlow? h
    iterate 2
      split at h
      · obtain ⟨⟨members, _⟩, hmembers, h⟩ := Option.bind_eq_some_iff.mp h
        obtain ⟨rfl, -⟩ := Prod.mk.inj (Option.some.inj h)
        exact properMembers_of_readMembers? hmembers
      · exact proper_of_readScalar? h
    · cases h

theorem properAll_of_readItems? {fuel column : Nat} {ts rest : List Token} {items : List Document}
    (h : readItems? fuel column ts = some (items, rest)) : ProperAll items := by
  match fuel with
  | 0 =>
    rw [readItems?] at h
    cases h
  | fuel + 1 =>
    rw [readItems?.eq_def] at h
    dsimp only at h
    split at h
    · split at h
      · split_ifs at h
        · obtain ⟨⟨item, more⟩, hitem, h⟩ := Option.bind_eq_some_iff.mp h
          obtain ⟨others, hothers, rfl⟩ := exists_of_cons_eq_some h
          exact ⟨proper_of_readBlock? hitem, properAll_of_readItems? hothers⟩
        · obtain ⟨others, hothers, rfl⟩ := exists_of_cons_eq_some h
          exact ⟨trivial, properAll_of_readItems? hothers⟩
      · obtain ⟨rfl, -⟩ := Prod.mk.inj (Option.some.inj h)
        trivial
    · obtain ⟨rfl, -⟩ := Prod.mk.inj (Option.some.inj h)
      trivial

theorem properMembers_of_readMembers? {fuel column : Nat} {ts rest : List Token}
    {members : List (String × Document)}
    (h : readMembers? fuel column ts = some (members, rest)) : ProperMembers members := by
  match fuel with
  | 0 =>
    rw [readMembers?] at h
    cases h
  | fuel + 1 =>
    rw [readMembers?.eq_def] at h
    dsimp only at h
    split at h
    · split at h
      · obtain ⟨key, -, h⟩ := Option.bind_eq_some_iff.mp h
        obtain ⟨⟨value, more⟩, hvalue, h⟩ := Option.bind_eq_some_iff.mp h
        obtain ⟨others, hothers, rfl⟩ := exists_of_cons_eq_some h
        exact ⟨proper_of_readValue? hvalue, properMembers_of_readMembers? hothers⟩
      · obtain ⟨rfl, -⟩ := Prod.mk.inj (Option.some.inj h)
        trivial
    · obtain ⟨rfl, -⟩ := Prod.mk.inj (Option.some.inj h)
      trivial

theorem proper_of_readValue? {fuel column line : Nat} {ts rest : List Token} {d : Document}
    (h : readValue? fuel column line ts = some (d, rest)) : d.Proper := by
  match fuel with
  | 0 =>
    rw [readValue?] at h
    cases h
  | fuel + 1 =>
    rw [readValue?.eq_def] at h
    dsimp only at h
    split at h
    · obtain ⟨rfl, -⟩ := Prod.mk.inj (Option.some.inj h)
      trivial
    · split at h
      · split at h
        iterate 2 exact proper_of_readFlow? h
        iterate 2
          split at h
          · cases h
          · exact proper_of_readScalar? h
        · cases h
      · split at h
        · exact proper_of_readBlock? h
        · split at h
          · obtain ⟨⟨items, _⟩, hitems, h⟩ := Option.bind_eq_some_iff.mp h
            obtain ⟨rfl, -⟩ := Prod.mk.inj (Option.some.inj h)
            exact properAll_of_readItems? hitems
          · obtain ⟨rfl, -⟩ := Prod.mk.inj (Option.some.inj h)
            trivial

end

theorem proper_of_ofTokens? {ts : List Token} {d : Document} (h : ofTokens? ts = some d) :
    d.Proper := by
  rw [ofTokens?] at h
  split at h
  · obtain rfl := Option.some.inj h
    trivial
  · split at h
    · next hblock =>
      split at h
      · obtain rfl := Option.some.inj h
        exact proper_of_readBlock? hblock
      · cases h
    · cases h

/-- **Documents of YAML texts are proper.** -/
theorem proper_of_read? {cs : List Char} {d : Document} (h : read? cs = some d) : d.Proper := by
  obtain ⟨ts, -, h⟩ := Option.bind_eq_some_iff.mp h
  exact proper_of_ofTokens? h

end Yaml

/-! ### Formats -/

namespace Document

mutual

/-- Sorting members keeps documents proper. -/
theorem Proper.normalize {d : Document} (h : d.Proper) : d.normalize.Proper := by
  match d with
  | .null | .boolean _ | .string _ | .number _ => exact h
  | .array items => exact properAll_normalizeItems h
  | .object members =>
    have hmembers := properMembers_iff.mp (properMembers_normalizeMembers h)
    exact properMembers_iff.mpr fun member hmember =>
      hmembers member (Entries.mem_of_mem_ofPairs hmember)

theorem properAll_normalizeItems {items : List Document} (h : ProperAll items) :
    ProperAll (normalizeItems items) := by
  match items with
  | [] => exact h
  | d :: rest => exact ⟨h.1.normalize, properAll_normalizeItems h.2⟩

theorem properMembers_normalizeMembers {members : List (String × Document)}
    (h : ProperMembers members) : ProperMembers (normalizeMembers members) := by
  match members with
  | [] => exact h
  | (_, d) :: rest => exact ⟨h.1.normalize, properMembers_normalizeMembers h.2⟩

/-- **Sorted members are what a normal document has**, at every depth. -/
theorem sorted_normalize (d : Document) : d.normalize.Sorted := by
  match d with
  | .null | .boolean _ | .string _ | .number _ => trivial
  | .array items => exact sortedAll_normalizeItems items
  | .object members =>
    have hmembers := sortedMembers_iff.mp (sortedMembers_normalizeMembers members)
    refine ⟨Entries.pairwise_ofPairs _, sortedMembers_iff.mpr fun member hmember => ?_⟩
    exact hmembers member (Entries.mem_of_mem_ofPairs hmember)

theorem sortedAll_normalizeItems (items : List Document) : SortedAll (normalizeItems items) := by
  match items with
  | [] => trivial
  | d :: rest => exact ⟨sorted_normalize d, sortedAll_normalizeItems rest⟩

theorem sortedMembers_normalizeMembers (members : List (String × Document)) :
    SortedMembers (normalizeMembers members) := by
  match members with
  | [] => trivial
  | (_, d) :: rest => exact ⟨sorted_normalize d, sortedMembers_normalizeMembers rest⟩

end

end Document

theorem Format.proper_of_readRaw? {format : Format} {text : String} {d : Document}
    (h : format.readRaw? text = some d) : d.Proper := by
  cases format with
  | json => exact Json.proper_of_read? h
  | yaml => exact Yaml.proper_of_read? h

/-- **Documents of texts are proper.** -/
theorem Format.proper_of_read {format : Format} {text : String} {d : Document}
    (h : format.read text = .ok d) : d.Proper := by
  rw [Format.read] at h
  split at h
  · next hraw =>
    obtain rfl := Except.ok.inj h
    exact (proper_of_readRaw? hraw).normalize
  · cases h

/-- **Documents of texts are sorted.** -/
theorem Format.sorted_of_read {format : Format} {text : String} {d : Document}
    (h : format.read text = .ok d) : d.Sorted := by
  rw [Format.read] at h
  split at h
  · obtain rfl := Except.ok.inj h
    exact Document.sorted_normalize _
  · cases h

/-- Records of texts are read from proper documents. -/
theorem Record.exists_of_parse {format : Format} {s : Schema} {text : String} {r : Record}
    (h : Record.parse format s text = .ok r) : ∃ d : Document, d.Proper ∧ r = s.read d := by
  rw [Record.parse] at h
  cases hd : format.read text with
  | error e =>
    rw [hd] at h
    cases h
  | ok d =>
    rw [hd] at h
    exact ⟨d, Format.proper_of_read hd, (Except.ok.inj h).symm⟩

end Formulary
