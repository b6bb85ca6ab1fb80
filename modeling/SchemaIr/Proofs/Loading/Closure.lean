import SchemaIr.Proofs.Loading.Imports

/-! # The modules that are loaded

A library holds the modules of the requested files and those that its documents import, directly or through others,
and nothing else (`LeastClosure`). What carries this through the loading is that each module in the library was read
from its file, is needed, and has every import in the library or in the queue (`Traced`). -/

namespace SchemaIr.Library
open Relation (ReflTransGen)

variable {disk : Disk} {paths searchPaths : List String} {lib : Library}

/-! ### Needed modules -/

/-- A requested file holds the module. -/
def IsRequested (disk : Disk) (paths : List String) (name : String) : Prop :=
  ∃ path ∈ paths, ∃ document, readModule disk path = .ok document ∧ document.name = name

/-- The modules that are requested, and those that needed ones import by their documents in the library. -/
inductive Needed (lib : Library) : String → Prop
  | requested {name : String} {m : LoadedModule} (h : lib.get? name = some m) (hm : m.importedOnly = false) :
    Needed lib name
  | imported {name other : String} {m : LoadedModule} (hneeded : Needed lib name) (h : lib.get? name = some m)
    (hother : other ∈ m.document.imports) : Needed lib other

/-- The library holds the documents of the requested files, with what they import and nothing else. -/
structure LeastClosure (disk : Disk) (paths searchPaths : List String) (lib : Library) : Prop where
  /-- Every requested file is read, and its document stands in the library. -/
  requested : ∀ path ∈ paths, ∃ document, readModule disk path = .ok document ∧
    lib.get? document.name = some ⟨document, path, false⟩
  /-- Every document stands under its name as it was read from its file. -/
  read : ∀ {name m}, lib.get? name = some m → readModule disk m.path = .ok m.document ∧ m.document.name = name
  /-- The other documents are found for an import that a document states. -/
  found : ∀ {name m}, lib.get? name = some m → m.importedOnly = true →
    ∃ other importer, lib.get? other = some importer ∧
    name ∈ importer.document.imports ∧ findImport? disk searchPaths ⟨name, importer.path⟩ = some m.path
  /-- A module is marked as imported only if and only if no requested file holds it. -/
  marked : ∀ {name m}, lib.get? name = some m → (m.importedOnly = false ↔ IsRequested disk paths name)
  closed : ∀ {name m}, lib.get? name = some m → ∀ other ∈ m.document.imports, lib.contains other = true
  least : ∀ modules : String → Prop, (∀ name, IsRequested disk paths name → modules name) →
    (∀ name m, modules name → lib.get? name = some m → ∀ other ∈ m.document.imports, modules other) →
    ∀ name, lib.contains name = true → modules name

/-! ### What every turn keeps -/

/-- Every module was read and is needed, the first ones from requested files, and imports are loaded or wait. -/
structure Traced (disk : Disk) (paths searchPaths : List String) (s : Progress) : Prop where
  read : ∀ {name m}, s.lib.get? name = some m → readModule disk m.path = .ok m.document ∧ m.document.name = name
  requested : ∀ {name m}, s.lib.get? name = some m → m.importedOnly = false → m.path ∈ paths
  found : ∀ {name m}, s.lib.get? name = some m → m.importedOnly = true → ∃ other importer,
    s.lib.get? other = some importer ∧ name ∈ importer.document.imports ∧
      findImport? disk searchPaths ⟨name, importer.path⟩ = some m.path
  needed : ∀ {name m}, s.lib.get? name = some m → Needed s.lib name
  queued : ∀ i ∈ s.queue, ∃ name m, s.lib.get? name = some m ∧ m.path = i.importer ∧ i.module ∈ m.document.imports
  pending : ∀ {name m}, s.lib.get? name = some m → ∀ other ∈ m.document.imports,
    s.lib.contains other = true ∨ ⟨other, m.path⟩ ∈ s.queue

/-- A module that is new leaves those there are where they are. -/
theorem get?_insert_of_get? {name other : String} {m m' : LoadedModule} (hnew : lib.contains name = false)
    (h : lib.get? other = some m') : Table.get? (lib.insert name m) other = some m' := by
  rw [Table.get?_insert, if_neg fun heq => ?_]
  · exact h
  · simp [← heq, Table.contains, h] at hnew

theorem contains_insert {name other : String} {m : LoadedModule} :
    Table.contains (lib.insert name m) other = true ↔ other = name ∨ lib.contains other = true := by
  by_cases h : other = name <;> simp [Table.contains, Table.get?_insert, h]

theorem Needed.insert {name other : String} {m : LoadedModule} (hnew : lib.contains name = false)
    (h : Needed lib other) : Needed (lib.insert name m) other := by
  induction h with
  | requested h hm => exact .requested (get?_insert_of_get? hnew h) hm
  | imported _ h hother ih => exact .imported ih (get?_insert_of_get? hnew h) hother

namespace Traced
variable {queue : List Import}

theorem empty : Traced disk paths searchPaths ⟨∅, []⟩ where
  read h := by cases h
  requested h := by cases h
  found h := by cases h
  needed h := by cases h
  queued := by simp
  pending h := by cases h

/-- A document that is read is put into the library, where its imports may take the place of those of its name. -/
theorem insert (h : Traced disk paths searchPaths ⟨lib, queue⟩) {path : String} {document : ModuleDocument}
    {importedOnly : Bool} (hread : readModule disk path = .ok document) (hnew : lib.contains document.name = false)
    (hrequested : importedOnly = false → path ∈ paths)
    (hfound : importedOnly = true → ∃ other importer, lib.get? other = some importer ∧
      document.name ∈ importer.document.imports ∧ findImport? disk searchPaths ⟨document.name, importer.path⟩ = some path)
    {rest : List Import} (hrest : ∀ i ∈ queue, i ∈ rest ∨ i.module = document.name) (hsub : ∀ i ∈ rest, i ∈ queue) :
    Traced disk paths searchPaths
      ⟨lib.insert document.name ⟨document, path, importedOnly⟩, rest ++ importsOf document path⟩ where
  read {name m} hget := by
    rw [Table.get?_insert] at hget
    split at hget
    · cases hget
      exact ⟨hread, .symm ‹_›⟩
    · exact h.read hget
  requested {name m} hget := by
    rw [Table.get?_insert] at hget
    split at hget
    · cases hget
      exact hrequested
    · exact h.requested hget
  found {name m} hget hm := by
    rw [Table.get?_insert] at hget
    split at hget
    · rename_i hname
      cases hget
      subst hname
      obtain ⟨other, importer, hother, himports, hpath⟩ := hfound hm
      exact ⟨other, importer, get?_insert_of_get? hnew hother, himports, hpath⟩
    · obtain ⟨other, importer, hother, himports, hpath⟩ := h.found hget hm
      exact ⟨other, importer, get?_insert_of_get? hnew hother, himports, hpath⟩
  needed {name m} hget := by
    rw [Table.get?_insert] at hget
    split at hget
    · rename_i hname
      subst hname
      cases hmark : importedOnly with
      | false => exact .requested (Table.get?_insert_self ..) rfl
      | true =>
        obtain ⟨other, importer, hother, himports, -⟩ := hfound hmark
        exact .imported ((h.needed hother).insert hnew) (get?_insert_of_get? hnew hother) himports
    · exact (h.needed hget).insert hnew
  queued i hi := by
    rcases List.mem_append.mp hi with hi | hi
    · obtain ⟨name, m, hget, hpath, himports⟩ := h.queued i (hsub i hi)
      exact ⟨name, m, get?_insert_of_get? hnew hget, hpath, himports⟩
    · obtain ⟨other, hother, rfl⟩ := List.mem_map.mp hi
      exact ⟨_, _, Table.get?_insert_self .., rfl, hother⟩
  pending {name m} hget other hother := by
    rw [Table.get?_insert] at hget
    split at hget
    · cases hget
      exact .inr (List.mem_append_right _ (List.mem_map.mpr ⟨other, hother, rfl⟩))
    · rcases h.pending hget other hother with hloaded | hwaits
      · exact .inl (contains_insert.mpr (.inr hloaded))
      · rcases hrest _ hwaits with hwaits | hname
        · exact .inr (List.mem_append_left _ hwaits)
        · exact .inl (contains_insert.mpr (.inl hname))

theorem loadRequested {rest : List String} (h : Traced disk paths searchPaths ⟨lib, queue⟩)
    (hsub : ∀ path ∈ rest, path ∈ paths)
    {result : Library × List Import} (hr : Library.loadRequested disk rest lib queue = .ok result) :
    Traced disk paths searchPaths ⟨result.1, result.2⟩ := by
  induction rest generalizing lib queue with
  | nil =>
    cases hr
    exact h
  | cons path rest ih =>
    obtain ⟨document, hread, hnew, hr⟩ := loadRequested_cons_eq_ok.mp hr
    refine ih (h.insert hread hnew (fun _ => hsub path List.mem_cons_self) (fun hm => by cases hm)
      (fun i hi => .inl hi) fun i hi => hi) (fun p hp => hsub p (List.mem_cons_of_mem _ hp)) hr

theorem turn {s s' : Progress} (h : Traced disk paths searchPaths s) (ht : Turn disk searchPaths s s') :
    Traced disk paths searchPaths s' := by
  cases ht with
  | @known lib i rest hknown =>
    refine ⟨h.read, h.requested, h.found, h.needed, fun i hi => h.queued i (List.mem_cons_of_mem _ hi), ?_⟩
    intro name m hget other hother
    rcases h.pending hget other hother with hloaded | hwaits
    · exact .inl hloaded
    · rcases List.mem_cons.mp hwaits with rfl | hwaits
      · exact .inl hknown
      · exact .inr hwaits
  | @loaded lib grown i rest more hnew hload =>
    obtain ⟨path, document, hpath, hread, hname, heq⟩ := loadImport_eq_ok.mp hload
    cases heq
    obtain ⟨other, importer, hother, himporter, himports⟩ := h.queued i List.mem_cons_self
    rw [← hname] at hnew himports ⊢
    refine h.insert hread hnew (fun hm => by cases hm) (fun _ => ⟨other, importer, hother, himports, ?_⟩)
      (fun j hj => ?_) fun j hj => List.mem_cons_of_mem _ hj
    · rw [himporter, hname]
      exact hpath
    · rcases List.mem_cons.mp hj with rfl | hj
      · exact .inr hname.symm
      · exact .inl hj

theorem turns {s s' : Progress} (h : Traced disk paths searchPaths s) (ht : ReflTransGen (Turn disk searchPaths) s s') :
    Traced disk paths searchPaths s' := by
  induction ht with
  | refl => exact h
  | tail _ hturn ih => exact ih.turn hturn

end Traced

/-! ### Requested documents stay -/

theorem get?_loadRequested_of_get? {queue : List Import} {result : Library × List Import}
    (hr : loadRequested disk paths lib queue = .ok result) {name : String} {m : LoadedModule}
    (h : lib.get? name = some m) :
    Table.get? result.1 name = some m := by
  induction paths generalizing lib queue with
  | nil =>
    cases hr
    exact h
  | cons path rest ih =>
    obtain ⟨document, -, hnew, hr⟩ := loadRequested_cons_eq_ok.mp hr
    exact ih hr (get?_insert_of_get? hnew h)

theorem get?_loadRequested {queue : List Import} {result : Library × List Import}
    (hr : loadRequested disk paths lib queue = .ok result) :
    ∀ path ∈ paths, ∃ document, readModule disk path = .ok document ∧
      Table.get? result.1 document.name = some ⟨document, path, false⟩ := by
  induction paths generalizing lib queue with
  | nil => simp
  | cons path rest ih =>
    obtain ⟨document, hread, hnew, hr⟩ := loadRequested_cons_eq_ok.mp hr
    intro p hp
    rcases List.mem_cons.mp hp with rfl | hp
    · exact ⟨document, hread, get?_loadRequested_of_get? hr (Table.get?_insert_self ..)⟩
    · exact ih hr p hp

theorem get?_of_turns {s s' : Progress} (ht : ReflTransGen (Turn disk searchPaths) s s') {name : String}
    {m : LoadedModule} (h : s.lib.get? name = some m) : s'.lib.get? name = some m := by
  induction ht with
  | refl => exact h
  | tail _ hturn ih =>
    cases hturn with
    | known _ => exact ih
    | loaded hnew hload =>
      obtain ⟨path, document, -, -, -, heq⟩ := loadImport_eq_ok.mp hload
      cases heq
      exact get?_insert_of_get? hnew ih

/-! ### The closure -/

/-- What is loaded when no import is left is closed, and nothing in it can be spared. -/
theorem Traced.leastClosure (h : Traced disk paths searchPaths ⟨lib, []⟩)
    (hrequested : ∀ path ∈ paths, ∃ document, readModule disk path = .ok document ∧
      lib.get? document.name = some ⟨document, path, false⟩) : LeastClosure disk paths searchPaths lib := by
  have hmarked : ∀ {name m}, lib.get? name = some m → (m.importedOnly = false ↔ IsRequested disk paths name) := by
    intro name m hget
    obtain ⟨hread, hname⟩ := h.read hget
    refine ⟨fun hm => ⟨m.path, h.requested hget hm, m.document, hread, hname⟩, ?_⟩
    rintro ⟨path, hpath, document, hread', rfl⟩
    obtain ⟨document', hread'', hget'⟩ := hrequested path hpath
    cases hread'.symm.trans hread''
    cases hget.symm.trans hget'
    rfl
  refine ⟨hrequested, h.read, h.found, hmarked, fun hget other hother => ?_, fun modules hbase hstep name hname => ?_⟩
  · exact (h.pending hget other hother).resolve_right List.not_mem_nil
  · obtain ⟨m, hget⟩ := Table.contains_iff.mp hname
    have hneeded := h.needed hget
    clear hget hname
    induction hneeded with
    | requested hget hm => exact hbase _ ((hmarked hget).mp hm)
    | imported _ hget hother ih => exact hstep _ _ ih hget _ hother

theorem leastClosure_of_load (h : load disk paths searchPaths = .ok lib) : LeastClosure disk paths searchPaths lib := by
  have hloads := loads_load disk paths searchPaths
  rw [h] at hloads
  cases hloads with
  | turns hr hturns =>
    obtain ⟨last, hturns, hends⟩ := hturns
    have hempty : Traced disk paths searchPaths ⟨∅, []⟩ := .empty
    have htraced := hempty.loadRequested (fun _ hp => hp) hr
    cases hends with
    | done =>
      refine (htraced.turns hturns).leastClosure fun path hpath => ?_
      obtain ⟨document, hread, hget⟩ := get?_loadRequested hr path hpath
      exact ⟨document, hread, get?_of_turns hturns hget⟩

end SchemaIr.Library
