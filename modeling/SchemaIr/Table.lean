/-! # Tables

A table is a finite map from names to values. It is the list of its entries, one for each name, in
increasing order of the names; two tables with the same entries are equal, and listing a table lists it
in name order. Names are ordered by code point, which is also the order of their UTF-8 bytes. -/

namespace SchemaIr

/-! ### Entry lists -/

namespace Entries
variable {α : Type}

/-- Writes one entry into a list of entries, in front of the first greater name or over the same one. -/
def insert (name : String) (value : α) : List (String × α) → List (String × α)
  | [] => [(name, value)]
  | (k, v) :: rest =>
    if name < k then (name, value) :: (k, v) :: rest
    else if name = k then (name, value) :: rest
    else (k, v) :: insert name value rest

/-- The value of the first entry with the name. -/
def find? (name : String) : List (String × α) → Option α
  | [] => none
  | (k, v) :: rest => if k = name then some v else find? name rest

/-- The names increase strictly. -/
def Sorted (es : List (String × α)) : Prop := es.Pairwise (·.1 < ·.1)

theorem mem_insert {name : String} {value : α} {e : String × α} {es : List (String × α)}
    (h : e ∈ insert name value es) : e = (name, value) ∨ e ∈ es := by
  induction es with
  | nil => simpa [insert] using h
  | cons x rest ih =>
    obtain ⟨k, v⟩ := x
    simp only [insert] at h
    split at h
    · simpa using h
    · split at h
      · rcases List.mem_cons.mp h with h | h
        · exact .inl h
        · exact .inr (List.mem_cons_of_mem _ h)
      · rcases List.mem_cons.mp h with h | h
        · exact .inr (h ▸ List.mem_cons_self)
        · exact (ih h).imp_right (List.mem_cons_of_mem _)

theorem Sorted.insert {name : String} {value : α} {es : List (String × α)} (h : Sorted es) :
    Sorted (insert name value es) := by
  induction es with
  | nil => exact List.pairwise_singleton _ _
  | cons x rest ih =>
    obtain ⟨k, v⟩ := x
    obtain ⟨hlt, hrest⟩ := List.pairwise_cons.mp h
    simp only [Entries.insert]
    split
    · rename_i hk
      refine List.pairwise_cons.mpr ⟨fun e he => ?_, h⟩
      rcases List.mem_cons.mp he with rfl | he
      · exact hk
      · exact String.lt_trans hk (hlt e he)
    · split
      · rename_i _ hk
        exact List.pairwise_cons.mpr ⟨fun e he => hk ▸ hlt e he, hrest⟩
      · rename_i hk hne
        refine List.pairwise_cons.mpr ⟨fun e he => ?_, ih hrest⟩
        rcases mem_insert he with rfl | he
        · exact Std.lt_of_le_of_ne (String.not_lt.mp hk) (Ne.symm hne)
        · exact hlt e he

theorem find?_insert_self (name : String) (value : α) (es : List (String × α)) :
    find? name (insert name value es) = some value := by
  induction es with
  | nil => simp [insert, find?]
  | cons x rest ih =>
    obtain ⟨k, v⟩ := x
    simp only [insert]
    split
    · simp [find?]
    · split
      · simp [find?]
      · rename_i hne
        simp [find?, Ne.symm hne, ih]

theorem find?_insert_of_ne {name other : String} (h : other ≠ name) (value : α) (es : List (String × α)) :
    find? other (insert name value es) = find? other es := by
  induction es with
  | nil => simp [insert, find?, Ne.symm h]
  | cons x rest ih =>
    obtain ⟨k, v⟩ := x
    simp only [insert]
    split
    · simp [find?, Ne.symm h]
    · split
      · rename_i _ hk
        subst hk
        simp [find?, Ne.symm h]
      · simp [find?, ih]

theorem mem_of_find? {name : String} {value : α} {es : List (String × α)} (h : find? name es = some value) :
    (name, value) ∈ es := by
  induction es with
  | nil => simp [find?] at h
  | cons x rest ih =>
    obtain ⟨k, v⟩ := x
    simp only [find?] at h
    split at h
    · rename_i hk
      simp_all
    · exact List.mem_cons_of_mem _ (ih h)

end Entries

/-! ### Tables -/

/-- A finite map from names to values, listed in name order. -/
structure Table (α : Type) where
  /-- The entries in increasing order of their names. -/
  entries : List (String × α)
  sorted : Entries.Sorted entries

namespace Table
variable {α β : Type}

/-- The table without entries. -/
def empty : Table α := ⟨[], List.Pairwise.nil⟩

instance : EmptyCollection (Table α) := ⟨empty⟩
instance : Inhabited (Table α) := ⟨empty⟩

/-- Writes the value of a name. -/
def insert (t : Table α) (name : String) (value : α) : Table α :=
  ⟨Entries.insert name value t.entries, t.sorted.insert⟩

/-- The value of a name. -/
def get? (t : Table α) (name : String) : Option α := Entries.find? name t.entries

def getD (t : Table α) (name : String) (default : α) : α := (t.get? name).getD default

def contains (t : Table α) (name : String) : Bool := (t.get? name).isSome

/-- The names in increasing order. -/
def names (t : Table α) : List String := t.entries.map Prod.fst

/-- The values in the order of their names. -/
def values (t : Table α) : List α := t.entries.map Prod.snd

def size (t : Table α) : Nat := t.entries.length

def isEmpty (t : Table α) : Bool := t.entries.isEmpty

/-- The table of a list of entries; the last entry of a name wins. -/
def ofList (es : List (String × α)) : Table α := es.foldl (fun t e => t.insert e.1 e.2) empty

/-- Writes every entry of `u` over `t`. -/
def union (t u : Table α) : Table α := u.entries.foldl (fun t e => t.insert e.1 e.2) t

/-- Applies a function to every value. -/
def map (f : String → α → β) (t : Table α) : Table β where
  entries := t.entries.map fun e => (e.1, f e.1 e.2)
  sorted := by simpa [Entries.Sorted, List.pairwise_map] using t.sorted

/-- Keeps the entries that satisfy a test. -/
def filter (p : String → α → Bool) (t : Table α) : Table α where
  entries := t.entries.filter fun e => p e.1 e.2
  sorted := t.sorted.filter _

/-- Two tables with the same entries are equal. -/
@[ext] theorem ext {t u : Table α} (h : t.entries = u.entries) : t = u := by
  cases t; cases u; cases h; rfl

@[simp] theorem get?_empty (name : String) : (empty : Table α).get? name = none := rfl

@[simp] theorem get?_insert_self (t : Table α) (name : String) (value : α) :
    (t.insert name value).get? name = some value :=
  Entries.find?_insert_self name value t.entries

theorem get?_insert_of_ne (t : Table α) {name other : String} (h : other ≠ name) (value : α) :
    (t.insert name value).get? other = t.get? other :=
  Entries.find?_insert_of_ne h value t.entries

theorem mem_entries_insert {t : Table α} {name : String} {value : α} {e : String × α}
    (h : e ∈ (t.insert name value).entries) : e = (name, value) ∨ e ∈ t.entries :=
  Entries.mem_insert h

end Table

/-! ### Sets of names -/

/-- A finite set of names, listed in name order. -/
abbrev NameSet := Table Unit

namespace NameSet

/-- The set of the names in a list. -/
def ofNames (names : List String) : NameSet := Table.ofList (names.map (·, ()))

def add (s : NameSet) (name : String) : NameSet := s.insert name ()

end NameSet

end SchemaIr
