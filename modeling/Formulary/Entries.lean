/-!
# Sorted entries

Named values, sorted by name. Names are compared character by character, which is also the order
of their bytes. Writing under a name that is there replaces its value.

## Main definitions

* `Entries` — pairs of a name and a value
* `Entries.insert`, `Entries.ofPairs` — building; the last pair of a name wins
* `Entries.find?` — look-up

## Main results

* `Entries.find?_insert` — a write is seen under its own name and under no other
* `Entries.pairwise_ofPairs`, `Entries.nodup_ofPairs` — names are sorted, and none stands twice
* `Entries.ofPairs_of_pairwise` — sorted pairs stay as they are
* `Entries.eq_of_find?_eq` — sorted entries are determined by their look-up
-/

namespace Formulary

/-- Pairs of a name and a value. -/
abbrev Entries (α : Type u) := List (String × α)

namespace Entries

variable {α : Type u} {β : Type v}

/-- Write a value under a name, keeping the names sorted. -/
def insert (key : String) (value : α) : Entries α → Entries α
  | [] => [(key, value)]
  | (k, v) :: rest =>
    if key = k then (key, value) :: rest
    else if key < k then (key, value) :: (k, v) :: rest
    else (k, v) :: insert key value rest

/-- The value under a name. -/
def find? (entries : Entries α) (key : String) : Option α := List.lookup key entries

/-- Sorted entries from pairs in any order. The last pair of a name wins. -/
def ofPairs (pairs : List (String × α)) : Entries α :=
  pairs.foldl (fun entries pair => insert pair.1 pair.2 entries) []

/-- The names, in order. -/
def keys (entries : Entries α) : List String := entries.map (·.1)

/-- The same names with other values. -/
def mapValues (f : α → β) (entries : Entries α) : Entries β := entries.map fun (k, v) => (k, f v)

@[simp] theorem find?_nil (key : String) : find? ([] : Entries α) key = none := rfl

theorem find?_cons (key k : String) (v : α) (rest : Entries α) :
    find? ((k, v) :: rest) key = if key = k then some v else find? rest key := by
  rw [find?, List.lookup_cons]
  by_cases h : key = k
  · rw [if_pos h, beq_iff_eq.mpr h]
  · rw [if_neg h, beq_eq_false_iff_ne.mpr h, find?]

/-- A write is seen under its own name and under no other. -/
theorem find?_insert (entries : Entries α) (key : String) (value : α) (name : String) :
    find? (insert key value entries) name = if name = key then some value else
      find? entries name := by
  induction entries with
  | nil => simp [insert, find?_cons]
  | cons head rest ih =>
    obtain ⟨k, v⟩ := head
    rw [insert]
    split
    · next h =>
      subst h
      simp only [find?_cons]
      split <;> rfl
    · next hne =>
      split
      · simp only [find?_cons]
      · simp only [find?_cons, ih]
        split
        · next hname => rw [if_neg (by rw [hname]; exact fun h => hne h.symm)]
        · rfl

/-- What is found under a name stands there. -/
theorem mem_of_find? {entries : Entries α} {key : String} {v : α} (h : find? entries key = some v) :
    (key, v) ∈ entries := by
  induction entries with
  | nil => cases h
  | cons head rest ih =>
    obtain ⟨k, w⟩ := head
    rw [find?_cons] at h
    split at h
    · next hkey =>
      obtain rfl := Option.some.inj h
      rw [hkey]
      exact List.mem_cons_self ..
    · exact List.mem_cons_of_mem _ (ih h)

/-- Nothing is found just under the names that do not stand there. -/
theorem find?_eq_none_iff {entries : Entries α} {key : String} :
    find? entries key = none ↔ key ∉ keys entries := by
  induction entries with
  | nil => simp [keys]
  | cons head rest ih =>
    obtain ⟨k, v⟩ := head
    rw [find?_cons, keys, List.map_cons, List.mem_cons, not_or, ← keys, ← ih]
    by_cases h : key = k
    · simp [h]
    · simp [h]

theorem find?_mapValues (f : α → β) (entries : Entries α) (key : String) :
    find? (mapValues f entries) key = (find? entries key).map f := by
  induction entries with
  | nil => rfl
  | cons head rest ih =>
    obtain ⟨k, v⟩ := head
    rw [find?_cons, apply_ite (Option.map f), ← ih]
    exact find?_cons key k (f v) (mapValues f rest)

/-! ### Order -/

theorem mem_of_mem_insert {key : String} {value : α} {entries : Entries α} {x : String × α}
    (h : x ∈ insert key value entries) : x = (key, value) ∨ x ∈ entries := by
  induction entries with
  | nil => exact Or.inl (List.mem_singleton.mp h)
  | cons head rest ih =>
    rw [insert] at h
    split at h
    · exact (List.mem_cons.mp h).imp_right (List.mem_cons_of_mem _)
    · split at h
      · exact List.mem_cons.mp h
      · rcases List.mem_cons.mp h with rfl | h
        · exact Or.inr (List.mem_cons_self ..)
        · exact (ih h).imp_right (List.mem_cons_of_mem _)

/-- A write keeps the names sorted. -/
theorem pairwise_insert {entries : Entries α} (h : entries.Pairwise (·.1 < ·.1)) (key : String)
    (value : α) : (insert key value entries).Pairwise (·.1 < ·.1) := by
  induction entries with
  | nil => exact List.pairwise_singleton _ _
  | cons head rest ih =>
    obtain ⟨k, v⟩ := head
    have hrest := List.pairwise_cons.mp h
    rw [insert]
    split
    · next heq =>
      subst heq
      exact List.pairwise_cons.mpr hrest
    · next hne =>
      split
      · next hlt =>
        refine List.pairwise_cons.mpr ⟨fun x hx => ?_, h⟩
        rcases List.mem_cons.mp hx with rfl | hx
        · exact hlt
        · exact String.lt_trans hlt (hrest.1 x hx)
      · next hnlt =>
        refine List.pairwise_cons.mpr ⟨fun x hx => ?_, ih hrest.2⟩
        rcases mem_of_mem_insert hx with rfl | hx
        · exact Std.lt_of_le_of_ne (String.not_lt.mp hnlt) (Ne.symm hne)
        · exact hrest.1 x hx

/-- Nothing but the pairs is written. -/
theorem mem_of_mem_ofPairs {pairs : List (String × α)} {x : String × α} (h : x ∈ ofPairs pairs) :
    x ∈ pairs := by
  suffices ∀ entries : Entries α,
      x ∈ pairs.foldl (fun entries pair => insert pair.1 pair.2 entries) entries →
        x ∈ entries ∨ x ∈ pairs from (this [] h).resolve_left (List.not_mem_nil)
  clear h
  induction pairs with
  | nil => exact fun _ h => Or.inl h
  | cons pair pairs ih =>
    intro entries h
    rcases ih _ h with h | h
    · rcases mem_of_mem_insert h with rfl | h
      · exact Or.inr (List.mem_cons_self ..)
      · exact Or.inl h
    · exact Or.inr (List.mem_cons_of_mem _ h)

/-- The names are sorted. -/
theorem pairwise_ofPairs (pairs : List (String × α)) : (ofPairs pairs).Pairwise (·.1 < ·.1) := by
  suffices ∀ entries : Entries α, entries.Pairwise (·.1 < ·.1) →
      (pairs.foldl (fun entries pair => insert pair.1 pair.2 entries) entries).Pairwise
        (·.1 < ·.1) from this [] List.Pairwise.nil
  induction pairs with
  | nil => exact fun _ h => h
  | cons pair pairs ih => exact fun entries h => ih _ (pairwise_insert h pair.1 pair.2)

/-- A name after all others is written at the end. -/
theorem insert_of_forall_lt {entries : Entries α} {key : String} (h : ∀ x ∈ entries, x.1 < key)
    (value : α) : insert key value entries = entries ++ [(key, value)] := by
  induction entries with
  | nil => rfl
  | cons head rest ih =>
    obtain ⟨k, v⟩ := head
    have hlt : k < key := h (k, v) (List.mem_cons_self ..)
    rw [insert, if_neg (String.ne_of_lt hlt).symm, if_neg (String.lt_asymm hlt),
      ih fun x hx => h x (List.mem_cons_of_mem _ hx), List.cons_append]

/-- Pairs that are sorted stay as they are. -/
theorem ofPairs_of_pairwise {pairs : List (String × α)} (h : pairs.Pairwise (·.1 < ·.1)) :
    ofPairs pairs = pairs := by
  suffices ∀ entries : Entries α, (entries ++ pairs).Pairwise (·.1 < ·.1) →
      pairs.foldl (fun entries pair => insert pair.1 pair.2 entries) entries = entries ++ pairs from
    this [] h
  clear h
  induction pairs with
  | nil => exact fun entries _ => (List.append_nil entries).symm
  | cons pair pairs ih =>
    intro entries h
    have hlast : ∀ x ∈ entries, x.1 < pair.1 := fun x hx =>
      (List.pairwise_append.mp h).2.2 x hx pair (List.mem_cons_self ..)
    rw [List.foldl_cons, insert_of_forall_lt hlast, ih _ (by rwa [List.append_assoc]),
      List.append_assoc]
    rfl

/-- Names that are sorted stay so when the values change. -/
theorem pairwise_mapValues {entries : Entries α} (h : entries.Pairwise (·.1 < ·.1)) (f : α → β) :
    (mapValues f entries).Pairwise (·.1 < ·.1) :=
  List.Pairwise.map _ (fun _ _ h => h) h

/-- Where names are sorted, whatever stands there is found. -/
theorem find?_of_mem {entries : Entries α} (h : entries.Pairwise (·.1 < ·.1)) {key : String} {v : α}
    (hmem : (key, v) ∈ entries) : find? entries key = some v := by
  induction entries with
  | nil => cases hmem
  | cons head rest ih =>
    obtain ⟨k, w⟩ := head
    obtain ⟨hhead, hrest⟩ := List.pairwise_cons.mp h
    rw [find?_cons]
    rcases List.mem_cons.mp hmem with heq | hmem
    · obtain ⟨rfl, rfl⟩ := Prod.mk.inj heq
      rw [if_pos rfl]
    · rw [if_neg (String.ne_of_lt (hhead (key, v) hmem)).symm, ih hrest hmem]

/-- Nothing is found under a name up to a bound that all names are above. -/
theorem find?_eq_none_of_le {entries : Entries α} {bound key : String}
    (h : ∀ x ∈ entries, bound < x.1) (hkey : key ≤ bound) : find? entries key = none := by
  refine find?_eq_none_iff.mpr fun hmem => ?_
  obtain ⟨x, hx, rfl⟩ := List.mem_map.mp hmem
  exact hkey (h x hx)

/-- **Sorted entries are determined by what is found in them.** -/
theorem eq_of_find?_eq {as bs : Entries α} (ha : as.Pairwise (·.1 < ·.1))
    (hb : bs.Pairwise (·.1 < ·.1)) (h : ∀ key, find? as key = find? bs key) : as = bs := by
  induction as generalizing bs with
  | nil =>
    match bs with
    | [] => rfl
    | (k, v) :: bs =>
      have hk := h k
      rw [find?_cons, if_pos rfl] at hk
      cases hk
  | cons head as ih =>
    obtain ⟨j, u⟩ := head
    match bs with
    | [] =>
      have hj := h j
      rw [find?_cons, if_pos rfl] at hj
      cases hj
    | (k, v) :: bs =>
      obtain ⟨hheadA, has⟩ := List.pairwise_cons.mp ha
      obtain ⟨hheadB, hbs⟩ := List.pairwise_cons.mp hb
      have hj := h j
      have hk := h k
      rw [find?_cons, if_pos rfl, find?_cons] at hj
      rw [find?_cons, find?_cons, if_pos rfl] at hk
      -- The lesser of the two first names would be found on one side only.
      have hjk : j = k := by
        refine Decidable.byContradiction fun hne => ?_
        rw [if_neg hne] at hj
        rw [if_neg (Ne.symm hne)] at hk
        rcases String.le_total j k with hle | hle
        · rw [find?_eq_none_of_le hheadB hle] at hj
          cases hj
        · rw [find?_eq_none_of_le hheadA hle] at hk
          cases hk
      subst hjk
      rw [if_pos rfl] at hj
      obtain rfl := Option.some.inj hj
      refine congrArg _ (ih has hbs fun key => ?_)
      by_cases hkey : key = j
      · rw [hkey, find?_eq_none_of_le hheadA (String.le_refl j),
          find?_eq_none_of_le hheadB (String.le_refl j)]
      · have hrest := h key
        rwa [find?_cons, if_neg hkey, find?_cons, if_neg hkey] at hrest

/-- No name stands twice. -/
theorem nodup_ofPairs (pairs : List (String × α)) : ((ofPairs pairs).map (·.1)).Nodup :=
  List.pairwise_map.mpr ((pairwise_ofPairs pairs).imp fun h => String.ne_of_lt h)

end Entries

end Formulary
