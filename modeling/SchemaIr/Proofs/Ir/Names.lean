import SchemaIr.Proofs.Ir.Assembly
import SchemaIr.Proofs.Naming.Registry

/-! # The names of directories

The directories of a result have names of their own (`path_eq_of_name`), each the one that its directory wants, with
underscores after it (`Disambiguates`). -/

namespace SchemaIr

namespace Assembly.Input
open NameRegistry (Assigned Disambiguates)

variable {input : Input} {registry : NameRegistry} {ir : Ir}

/-! ### Names given out -/

theorem assigned_foldl_giveName {before after : NameRegistry} {names : Table String} (h : Assigned before after names)
    (es : List (String × MappedDirectory)) :
    Assigned before (es.foldl input.giveName (names, after)).2 (es.foldl input.giveName (names, after)).1 := by
  induction es generalizing after names with
  | nil => exact h
  | cons e rest ih => exact ih (h.makeUnique (input.wantedName e.1 e.2) e.1)

theorem assigned_names (input : Input) (registry : NameRegistry) :
    Assigned registry (input.names registry).2 (input.names registry).1 :=
  assigned_foldl_giveName (.refl registry) input.kept.entries

theorem disambiguates_foldl_giveName {es : List (String × MappedDirectory)} {st : Table String × NameRegistry}
    {path name : String} (h : (es.foldl input.giveName st).1.get? path = some name) :
    (∃ dir, (path, dir) ∈ es ∧ Disambiguates (input.wantedName path dir) name) ∨ st.1.get? path = some name := by
  induction es generalizing st with
  | nil => exact .inr h
  | cons e rest ih =>
    rcases ih h with ⟨dir, hmem, hname⟩ | hold
    · exact .inl ⟨dir, List.mem_cons_of_mem _ hmem, hname⟩
    · rw [giveName, Table.get?_insert] at hold
      split at hold
      · rename_i hpath
        cases hold
        subst hpath
        exact .inl ⟨e.2, List.mem_cons_self, NameRegistry.disambiguates_makeUnique _ _⟩
      · exact .inr hold

theorem disambiguates_names {path name : String} (h : (input.names registry).1.get? path = some name) :
    ∃ dir, input.kept.get? path = some dir ∧ Disambiguates (input.wantedName path dir) name := by
  rw [names_eq] at h
  rcases disambiguates_foldl_giveName h with ⟨dir, hmem, hname⟩ | hnone
  · exact ⟨dir, Table.get?_eq_some_iff.mpr hmem, hname⟩
  · cases hnone

theorem get?_names_eq_none {path : String} (h : input.kept.get? path = none) :
    (input.names registry).1.get? path = none := by
  cases hname : (input.names registry).1.get? path with
  | none => rfl
  | some name =>
    obtain ⟨dir, hkept, -⟩ := disambiguates_names hname
    rw [h] at hkept
    cases hkept

/-! ### Names of directories -/

theorem name_of_directory (h : (input.build registry).1 = some (.ok ir)) {path : String} {d : Directory}
    (hd : ir.directories.get? path = some d) : (input.names registry).1.get? path = some d.name := by
  obtain ⟨dir, hkept, -⟩ := kept_of_directory h hd
  obtain ⟨d', hd', hname⟩ := exists_directory h hkept
  rw [hd] at hd'
  cases hd'
  exact hname

/-- No two directories share a name. -/
theorem path_eq_of_name (h : (input.build registry).1 = some (.ok ir)) {path path' : String} {d d' : Directory}
    (hd : ir.directories.get? path = some d) (hd' : ir.directories.get? path' = some d') (hname : d.name = d'.name) :
    path = path' :=
  (assigned_names input registry).injective (name_of_directory h hd) (hname ▸ name_of_directory h hd')

end Assembly.Input

end SchemaIr
