import SchemaIr.Table

/-! # Looking up entries

A table answers a lookup with the one entry of the name, so that looking up, listing and counting tell the
same. Every way to make a table is told by its lookups: of a list of entries the last one of a name counts
(`get?_ofList`), and a table that is built along the entries of another one has at a name what is built
there (`get?_built`). -/

namespace SchemaIr

/-! ### Entry lists -/

namespace Entries
variable {α : Type}

theorem find?_eq_none_iff {name : String} {es : List (String × α)} :
    find? name es = none ↔ ∀ e ∈ es, e.1 ≠ name := by
  induction es with
  | nil => simp [find?]
  | cons x rest ih =>
    obtain ⟨k, v⟩ := x
    by_cases hk : k = name <;> simp [find?, hk, ih]

theorem find?_append (name : String) (es fs : List (String × α)) :
    find? name (es ++ fs) = (find? name es).or (find? name fs) := by
  induction es with
  | nil => simp [find?]
  | cons x rest ih =>
    obtain ⟨k, v⟩ := x
    by_cases hk : k = name <;> simp [find?, hk, ih]

/-- Where no name stands twice, the entry of a name is the only one. -/
theorem find?_eq_some_iff {name : String} {value : α} {es : List (String × α)}
    (h : (es.map Prod.fst).Nodup) : find? name es = some value ↔ (name, value) ∈ es := by
  refine ⟨mem_of_find?, fun hm => ?_⟩
  induction es with
  | nil => cases hm
  | cons x rest ih =>
    obtain ⟨k, v⟩ := x
    obtain ⟨hk, hrest⟩ := List.nodup_cons.mp h
    rcases List.mem_cons.mp hm with heq | hm
    · cases heq
      simp [find?]
    · have hne : k ≠ name := fun hkn => hk (List.mem_map.mpr ⟨(name, value), hm, hkn.symm⟩)
      simp [find?, hne, ih hrest hm]

theorem Sorted.nodup {es : List (String × α)} (h : Sorted es) : (es.map Prod.fst).Nodup := by
  refine List.pairwise_map.mpr (List.Pairwise.imp (fun hlt heq => ?_) h)
  exact String.lt_irrefl _ (heq ▸ hlt)

theorem length_insert {name : String} {es : List (String × α)} (h : find? name es = none) (value : α) :
    (insert name value es).length = es.length + 1 := by
  induction es with
  | nil => rfl
  | cons x rest ih =>
    obtain ⟨k, v⟩ := x
    simp only [find?] at h
    split at h
    · cases h
    · rename_i hk
      simp only [insert]
      split
      · rfl
      · rw [if_neg (Ne.symm hk), List.length_cons, ih h, List.length_cons]

end Entries

/-! ### Tables -/

namespace Table
variable {α β : Type}

theorem names_nodup (t : Table α) : t.names.Nodup := t.sorted.nodup

theorem get?_eq_some_iff {t : Table α} {name : String} {value : α} :
    t.get? name = some value ↔ (name, value) ∈ t.entries :=
  Entries.find?_eq_some_iff t.sorted.nodup

theorem contains_iff {t : Table α} {name : String} : t.contains name = true ↔ ∃ v, t.get? name = some v :=
  Option.isSome_iff_exists

theorem mem_names_iff {t : Table α} {name : String} : name ∈ t.names ↔ ∃ v, t.get? name = some v := by
  simp [names, get?_eq_some_iff]

theorem mem_values_iff {t : Table α} {value : α} : value ∈ t.values ↔ ∃ name, t.get? name = some value := by
  simp [values, get?_eq_some_iff]

/-- Values that a function takes apart as their names do are taken to different things. -/
theorem nodup_map_values {t : Table α} {f : α → β}
    (h : ∀ {name other v w}, t.get? name = some v → t.get? other = some w → f v = f w → name = other) :
    (t.values.map f).Nodup := by
  rw [values, List.map_map]
  refine List.pairwise_map.mpr (List.Pairwise.imp_of_mem (fun {e e'} he he' hlt heq => ?_) t.sorted)
  have hname : e.1 = e'.1 := h (get?_eq_some_iff.mpr he) (get?_eq_some_iff.mpr he') heq
  exact String.lt_irrefl _ (hname ▸ hlt)

/-- A value is the first one to pass a test that no other value passes. -/
theorem find?_values {t : Table α} {p : α → Bool} {name : String} {v : α} (hv : t.get? name = some v) (hp : p v = true)
    (honly : ∀ {other w}, t.get? other = some w → p w = true → other = name) : t.values.find? p = some v := by
  cases hfind : t.values.find? p with
  | none => exact absurd hp (List.find?_eq_none.mp hfind v (mem_values_iff.mpr ⟨name, hv⟩))
  | some w =>
    obtain ⟨other, hw⟩ := mem_values_iff.mp (List.mem_of_find?_eq_some hfind)
    obtain rfl := honly hw (List.find?_some hfind)
    exact hw.symm.trans hv

theorem get?_insert (t : Table α) (name other : String) (value : α) :
    (t.insert name value).get? other = if other = name then some value else t.get? other := by
  by_cases h : other = name
  · subst h
    simp
  · simp [h, get?_insert_of_ne]

theorem size_insert {t : Table α} {name : String} (h : t.get? name = none) (value : α) :
    (t.insert name value).size = t.size + 1 :=
  Entries.length_insert h value

/-- Of the entries that are written into a table, the last one of a name counts. -/
theorem get?_foldl_insert (t : Table α) (es : List (String × α)) (name : String) :
    (es.foldl (fun t e => t.insert e.1 e.2) t).get? name = (Entries.find? name es.reverse).or (t.get? name) := by
  induction es generalizing t with
  | nil => rfl
  | cons e rest ih =>
    rw [List.foldl_cons, ih, List.reverse_cons, Entries.find?_append, get?_insert]
    cases Entries.find? name rest.reverse with
    | some v => rfl
    | none =>
      by_cases h : e.1 = name
      · simp [Entries.find?, h]
      · simp [Entries.find?, h, Ne.symm h]

theorem get?_ofList (es : List (String × α)) (name : String) :
    (ofList es).get? name = Entries.find? name es.reverse := by
  rw [ofList, get?_foldl_insert]
  simp

/-- Where the entries of a name agree, it has the value of any of them. -/
theorem get?_ofList_eq_some_iff {es : List (String × α)} {name : String} {value : α}
    (h : ∀ v w, (name, v) ∈ es → (name, w) ∈ es → v = w) :
    (ofList es).get? name = some value ↔ (name, value) ∈ es := by
  rw [get?_ofList]
  refine ⟨fun hget => List.mem_reverse.mp (Entries.mem_of_find? hget), fun hmem => ?_⟩
  cases hget : Entries.find? name es.reverse with
  | none => exact absurd rfl (Entries.find?_eq_none_iff.mp hget (name, value) (List.mem_reverse.mpr hmem))
  | some v => rw [h v value (List.mem_reverse.mp (Entries.mem_of_find? hget)) hmem]

theorem size_ofList {es : List (String × α)} (h : (es.map Prod.fst).Nodup) : (ofList es).size = es.length := by
  -- What is written after names that the entries do not have.
  have after : ∀ (es : List (String × α)) (t : Table α), (es.map Prod.fst).Nodup →
      (∀ e ∈ es, t.get? e.1 = none) → (es.foldl (fun t e => t.insert e.1 e.2) t).size = t.size + es.length := by
    intro es
    induction es with
    | nil => intro t _ _; rfl
    | cons e rest ih =>
      intro t hnodup hnew
      obtain ⟨he, hrest⟩ := List.nodup_cons.mp hnodup
      rw [List.foldl_cons, ih _ hrest, size_insert (hnew e List.mem_cons_self), List.length_cons]
      · omega
      · intro e' he'
        have hne : e'.1 ≠ e.1 := fun heq => he (heq ▸ List.mem_map_of_mem he')
        rw [get?_insert, if_neg hne]
        exact hnew e' (List.mem_cons_of_mem _ he')
  rw [ofList, after es empty h fun e _ => rfl]
  exact Nat.zero_add _

theorem get?_union (t u : Table α) (name : String) :
    (t.union u).get? name = (u.get? name).or (t.get? name) := by
  have h : Entries.find? name u.entries.reverse = u.get? name := by
    have hnodup : (u.entries.reverse.map Prod.fst).Nodup := by
      rw [List.map_reverse]
      exact (List.reverse_perm _).nodup_iff.mpr u.sorted.nodup
    ext v
    rw [Entries.find?_eq_some_iff hnodup, List.mem_reverse, get?_eq_some_iff]
  rw [union, get?_foldl_insert, h]

theorem get?_map (f : String → α → β) (t : Table α) (name : String) :
    (t.map f).get? name = (t.get? name).map (f name) := by
  ext v
  simp only [get?_eq_some_iff, map, List.mem_map, Option.map_eq_some_iff]
  constructor
  · rintro ⟨⟨k, w⟩, hmem, heq⟩
    cases heq
    exact ⟨w, hmem, rfl⟩
  · rintro ⟨w, hmem, rfl⟩
    exact ⟨(name, w), hmem, rfl⟩

theorem get?_filter_eq_some_iff {p : String → α → Bool} {t : Table α} {name : String} {value : α} :
    (t.filter p).get? name = some value ↔ t.get? name = some value ∧ p name value = true := by
  simp [get?_eq_some_iff, filter]

/-- A table that is built along the entries of another one, where some are passed over. -/
theorem get?_built (f : String → α → Option β) (t : Table α) (name : String) :
    (t.entries.foldl (fun (u : Table β) e => match f e.1 e.2 with | some v => u.insert e.1 v | none => u) ∅).get?
        name = (t.get? name).bind (f name) := by
  -- What is built along any entries with different names, over what stands in the table before.
  have along : ∀ (es : List (String × α)) (u : Table β), (es.map Prod.fst).Nodup →
      (es.foldl (fun u e => match f e.1 e.2 with | some v => u.insert e.1 v | none => u) u).get? name =
        ((Entries.find? name es).bind (f name)).or (u.get? name) := by
    intro es
    induction es with
    | nil => intro u _; rfl
    | cons e rest ih =>
      intro u hnodup
      obtain ⟨k, v⟩ := e
      obtain ⟨hk, hrest⟩ := List.nodup_cons.mp hnodup
      rw [List.foldl_cons, ih _ hrest]
      by_cases hkn : k = name
      · subst hkn
        have hnone : Entries.find? k rest = none :=
          Entries.find?_eq_none_iff.mpr fun e he hek => hk (List.mem_map.mpr ⟨e, he, hek⟩)
        simp only [hnone, Entries.find?, ↓reduceIte, Option.bind_none, Option.none_or, Option.bind_some]
        cases f k v <;> simp
      · simp only [Entries.find?, hkn, ↓reduceIte]
        cases f k v with
        | none => rfl
        | some w => simp [get?_insert, Ne.symm hkn]
  rw [along t.entries ∅ t.sorted.nodup]
  exact Option.or_none

/-- Collecting values under their names: a name has the values collected under it, in order. -/
theorem get?_collected {γ : Type} (f : γ → String) (v : γ → β) (xs : List γ) (name : String) :
    (xs.foldl (fun (t : Table (List β)) x => t.insert (f x) (t.getD (f x) [] ++ [v x])) ∅).get? name =
      if (xs.filter (f · = name)).isEmpty then none else some ((xs.filter (f · = name)).map v) := by
  -- What is collected after a table that holds some values under each name already.
  have after : ∀ (xs : List γ) (t : Table (List β)), (∀ n, t.get? n ≠ some []) →
      (xs.foldl (fun (t : Table (List β)) x => t.insert (f x) (t.getD (f x) [] ++ [v x])) t).get? name =
        if (t.getD name [] ++ (xs.filter (f · = name)).map v).isEmpty then none
        else some (t.getD name [] ++ (xs.filter (f · = name)).map v) := by
    intro xs
    induction xs with
    | nil =>
      intro t ht
      cases h : t.get? name with
      | none => simp [getD, h]
      | some ys =>
        have hne : ys ≠ [] := fun hnil => ht name (hnil ▸ h)
        simp [getD, h, hne]
    | cons x rest ih =>
      intro t ht
      rw [List.foldl_cons, ih]
      · by_cases hx : f x = name
        · subst hx
          simp [getD]
        · simp [getD, get?_insert, Ne.symm hx, hx]
      · intro n
        rw [get?_insert]
        split
        · simp
        · exact ht n
  rw [after xs ∅ fun n h => by cases h]
  simp [getD, show (∅ : Table (List β)).get? name = none from rfl]

end Table

/-! ### Sets of names -/

namespace NameSet

theorem mem_names_ofNames {name : String} {names : List String} : name ∈ (ofNames names).names ↔ name ∈ names := by
  rw [Table.mem_names_iff, ofNames]
  simp only [Table.get?_ofList]
  constructor
  · rintro ⟨v, hv⟩
    simpa using Entries.mem_of_find? hv
  · intro h
    refine Option.isSome_iff_exists.mp (Option.isSome_iff_ne_none.mpr fun hnone => ?_)
    exact Entries.find?_eq_none_iff.mp hnone (name, ()) (by simpa using h) rfl

theorem mem_names_add {s : NameSet} {name other : String} : other ∈ (s.add name).names ↔ other = name ∨ other ∈ s.names := by
  simp only [Table.mem_names_iff, add, Table.get?_insert]
  by_cases h : other = name <;> simp [h]

theorem mem_names_union {s u : NameSet} {name : String} :
    name ∈ (s.union u).names ↔ name ∈ s.names ∨ name ∈ u.names := by
  simp only [Table.mem_names_iff, Table.get?_union]
  cases u.get? name <;> simp

end NameSet

end SchemaIr
