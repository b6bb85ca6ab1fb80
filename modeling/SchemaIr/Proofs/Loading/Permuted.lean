import SchemaIr.Proofs.Loading.Tree

/-! # The order of the requested files

Which of the requested files comes first decides which file asks first for a module that several ones import, and so
where it is looked for. Where each import leads to the same place from every file that states it (`Unambiguous`), this
makes no difference: loading takes other turns, but it loads the same documents with the same marks, and so the tree is
the same node by node (`load_perm`). What carries this is that a second loading never leaves the library of the first
one (`Within`), and cannot stop before it holds all of it. -/

namespace SchemaIr

namespace Library
open Relation (ReflTransGen)

variable {disk : Disk} {paths paths' searchPaths : List String} {lib lib' : Library}

/-! ### Imports that lead to one place -/

/-- Paths that lead to the same place are read alike. -/
theorem readModule_of_locate? {p q : String} (h : disk.locate? p = disk.locate? q) {document : ModuleDocument}
    (hread : readModule disk p = .ok document) : readModule disk q = .ok document := by
  have hfile : disk.isFile q = disk.isFile p := by rw [Disk.isFile, Disk.isFile, h]
  have htext : disk.text? q = disk.text? p := by rw [Disk.text?, Disk.text?, Disk.bytes?, Disk.bytes?, h]
  unfold readModule at hread ⊢
  rw [hfile, htext]
  split at hread
  · rename_i hp
    rw [if_pos hp]
    split at hread
    · cases hread
    · split at hread
      · cases hread
        rfl
      · cases hread
  · cases hread

/-- A file that is read: a requested one, or one that is found for an import of a file that is read. -/
inductive Consulted (disk : Disk) (paths searchPaths : List String) : String → Prop
  | requested {path : String} (h : path ∈ paths) : Consulted disk paths searchPaths path
  | imported {path found module : String} {document : ModuleDocument} (hpath : Consulted disk paths searchPaths path)
    (hread : readModule disk path = .ok document) (hmodule : module ∈ document.imports)
    (hmissing : ¬IsRequested disk paths module) (hfound : findImport? disk searchPaths ⟨module, path⟩ = some found) :
    Consulted disk paths searchPaths found

/-- An import that is looked for: a file that is read states it, and no requested file holds the module. -/
structure Sought (disk : Disk) (paths searchPaths : List String) (i : Import) : Prop where
  consulted : Consulted disk paths searchPaths i.importer
  stated : ∃ document, readModule disk i.importer = .ok document ∧ i.module ∈ document.imports
  missing : ¬IsRequested disk paths i.module

/-- From all files that import it, a module is found at the same place. -/
def Unambiguous (disk : Disk) (paths searchPaths : List String) : Prop :=
  ∀ i j, Sought disk paths searchPaths i → Sought disk paths searchPaths j → i.module = j.module →
    (findImport? disk searchPaths i).map disk.locate? = (findImport? disk searchPaths j).map disk.locate?

theorem Sought.consulted_found {i : Import} {found : String} (h : Sought disk paths searchPaths i)
    (hfound : findImport? disk searchPaths i = some found) : Consulted disk paths searchPaths found := by
  obtain ⟨document, hread, hmodule⟩ := h.stated
  exact .imported h.consulted hread hmodule h.missing hfound

theorem isRequested_perm (h : paths.Perm paths') {name : String} :
    IsRequested disk paths name ↔ IsRequested disk paths' name := by
  simp only [IsRequested, h.mem_iff]

theorem Consulted.perm (h : paths.Perm paths') {path : String} (hpath : Consulted disk paths searchPaths path) :
    Consulted disk paths' searchPaths path := by
  induction hpath with
  | requested hmem => exact .requested (h.mem_iff.mp hmem)
  | imported _ hread hmodule hmissing hfound ih =>
    exact .imported ih hread hmodule (fun hreq => hmissing ((isRequested_perm h).mpr hreq)) hfound

theorem Sought.perm (h : paths.Perm paths') {i : Import} (hi : Sought disk paths searchPaths i) :
    Sought disk paths' searchPaths i :=
  ⟨hi.consulted.perm h, hi.stated, fun hreq => hi.missing ((isRequested_perm h).mpr hreq)⟩

theorem Unambiguous.perm (h : paths.Perm paths') (hsame : Unambiguous disk paths searchPaths) :
    Unambiguous disk paths' searchPaths :=
  fun i j hi hj => hsame i j (hi.perm h.symm) (hj.perm h.symm)

/-! ### Requested files in any order -/

/-- Two files hold no module of one name. -/
def Apart (disk : Disk) (p q : String) : Prop :=
  ∀ document other, readModule disk p = .ok document → readModule disk q = .ok other → document.name ≠ other.name

theorem Apart.symm {p q : String} (h : Apart disk p q) : Apart disk q p :=
  fun document other hq hp heq => h other document hp hq heq.symm

/-- The requested files are loaded if all of them can be read and no two hold a module of one name. -/
theorem exists_loadRequested_iff {queue : List Import} :
    (∃ result, loadRequested disk paths lib queue = .ok result) ↔
      (∀ path ∈ paths, ∃ document, readModule disk path = .ok document ∧ lib.contains document.name = false) ∧
        paths.Pairwise (Apart disk) := by
  induction paths generalizing lib queue with
  | nil => exact iff_of_true ⟨_, rfl⟩ ⟨by simp, .nil⟩
  | cons path rest ih =>
    simp only [loadRequested_cons_eq_ok, List.forall_mem_cons, List.pairwise_cons]
    constructor
    · rintro ⟨result, document, hread, hnew, hresult⟩
      obtain ⟨hrest, hpairwise⟩ := ih.mp ⟨result, hresult⟩
      refine ⟨⟨⟨document, hread, hnew⟩, fun p hp => ?_⟩, fun p hp => ?_, hpairwise⟩
      · obtain ⟨other, hother, hfree⟩ := hrest p hp
        refine ⟨other, hother, Bool.eq_false_iff.mpr fun hold => ?_⟩
        exact Bool.eq_false_iff.mp hfree (contains_insert.mpr (.inr hold))
      · intro document' other hread' hother heq
        obtain rfl := Except.ok.inj (hread.symm.trans hread')
        obtain ⟨other', hother', hfree⟩ := hrest p hp
        obtain rfl := Except.ok.inj (hother.symm.trans hother')
        exact Bool.eq_false_iff.mp hfree (contains_insert.mpr (.inl heq.symm))
    · rintro ⟨⟨⟨document, hread, hnew⟩, hrest⟩, hapart, hpairwise⟩
      have hfree : ∀ p ∈ rest, ∃ other, readModule disk p = .ok other ∧
          Table.contains (lib.insert document.name ⟨document, path, false⟩) other.name = false := fun p hp => by
        obtain ⟨other, hother, hfree⟩ := hrest p hp
        refine ⟨other, hother, Bool.eq_false_iff.mpr fun hin => ?_⟩
        rcases contains_insert.mp hin with heq | hold
        · exact hapart p hp document other hread hother heq.symm
        · exact Bool.eq_false_iff.mp hfree hold
      obtain ⟨result, hresult⟩ : ∃ result, loadRequested disk rest (lib.insert document.name ⟨document, path, false⟩)
          (queue ++ importsOf document path) = .ok result := ih.mpr ⟨hfree, hpairwise⟩
      exact ⟨result, document, hread, hnew, hresult⟩

theorem exists_loadRequested_perm (h : paths.Perm paths') {result : Library × List Import}
    (hr : loadRequested disk paths ∅ [] = .ok result) : ∃ result, loadRequested disk paths' ∅ [] = .ok result := by
  obtain ⟨hread, hapart⟩ := exists_loadRequested_iff.mp ⟨result, hr⟩
  exact exists_loadRequested_iff.mpr ⟨fun path hpath => hread path (h.mem_iff.mpr hpath),
    (h.pairwise_iff fun hpq => hpq.symm).mp hapart⟩

/-- Nothing else is loaded with the requested files. -/
theorem eq_of_get?_loadRequested {queue : List Import} {result : Library × List Import}
    (hr : loadRequested disk paths lib queue = .ok result) {name : String} {m : LoadedModule}
    (h : Table.get? result.1 name = some m) : lib.get? name = some m ∨ ∃ path ∈ paths, ∃ document,
      readModule disk path = .ok document ∧ document.name = name ∧ m = ⟨document, path, false⟩ := by
  induction paths generalizing lib queue with
  | nil =>
    cases hr
    exact .inl h
  | cons path rest ih =>
    obtain ⟨document, hread, -, hr⟩ := loadRequested_cons_eq_ok.mp hr
    rcases ih hr with hold | ⟨p, hp, hrest⟩
    · rw [Table.get?_insert] at hold
      split at hold
      · rename_i hname
        cases hold
        exact .inr ⟨path, List.mem_cons_self, document, hread, hname.symm, rfl⟩
      · exact .inl hold
    · exact .inr ⟨p, List.mem_cons_of_mem _ hp, hrest⟩

/-! ### What loading consults -/

/-- Every requested module is loaded, and what is loaded was read from a file that is consulted. -/
structure Consults (disk : Disk) (paths searchPaths : List String) (s : Progress) : Prop where
  traced : Traced disk paths searchPaths s
  requested : ∀ name, IsRequested disk paths name → s.lib.contains name = true
  consulted : ∀ {name m}, s.lib.get? name = some m → Consulted disk paths searchPaths m.path

namespace Consults
variable {i : Import} {rest : List Import}

theorem of_loadRequested {result : Library × List Import} (hr : loadRequested disk paths ∅ [] = .ok result) :
    Consults disk paths searchPaths ⟨result.1, result.2⟩ where
  traced := Traced.empty.loadRequested (fun _ hp => hp) hr
  requested name hname := by
    obtain ⟨path, hpath, document, hread, rfl⟩ := hname
    obtain ⟨document', hread', hget⟩ := get?_loadRequested hr path hpath
    obtain rfl := Except.ok.inj (hread.symm.trans hread')
    exact Table.contains_iff.mpr ⟨_, hget⟩
  consulted hget := by
    rcases eq_of_get?_loadRequested hr hget with hnone | ⟨path, hpath, document, -, -, rfl⟩
    · cases hnone
    · exact .requested hpath

/-- An import that waits is looked for as long as its module is not loaded. -/
theorem sought (h : Consults disk paths searchPaths ⟨lib, i :: rest⟩) (hnew : lib.contains i.module = false) :
    Sought disk paths searchPaths i := by
  obtain ⟨name, m, hget, hpath, hmodule⟩ := h.traced.queued i List.mem_cons_self
  refine ⟨hpath ▸ h.consulted hget, ⟨m.document, hpath ▸ (h.traced.read hget).1, hmodule⟩, fun hreq => ?_⟩
  exact Bool.eq_false_iff.mp hnew (h.requested i.module hreq)

theorem turn {s s' : Progress} (h : Consults disk paths searchPaths s) (ht : Turn disk searchPaths s s') :
    Consults disk paths searchPaths s' := by
  refine ⟨h.traced.turn ht, fun name hname => ?_, fun {name m} hget => ?_⟩
  · obtain ⟨m, hm⟩ := Table.contains_iff.mp (h.requested name hname)
    exact Table.contains_iff.mpr ⟨m, get?_of_turns (.single ht) hm⟩
  · cases ht with
    | known _ => exact h.consulted hget
    | loaded hnew hload =>
      obtain ⟨path, document, hfound, -, -, heq⟩ := loadImport_eq_ok.mp hload
      cases heq
      rw [Table.get?_insert] at hget
      split at hget
      · cases hget
        exact (h.sought hnew).consulted_found hfound
      · exact h.consulted hget

theorem turns {s s' : Progress} (h : Consults disk paths searchPaths s)
    (ht : ReflTransGen (Turn disk searchPaths) s s') : Consults disk paths searchPaths s' := by
  induction ht with
  | refl => exact h
  | tail _ hturn ih => exact ih.turn hturn

theorem of_load (h : load disk paths searchPaths = .ok lib) : Consults disk paths searchPaths ⟨lib, []⟩ := by
  have hloads := loads_load disk paths searchPaths
  rw [h] at hloads
  cases hloads with
  | turns hr hturns =>
    obtain ⟨last, hturns, hends⟩ := hturns
    cases hends with
    | done => exact (of_loadRequested hr).turns hturns

end Consults

end Library

/-! ### Two loadings -/

/-- A loaded module without the place that it was read from. -/
def LoadedModule.unplaced (m : LoadedModule) : LoadedModule := { m with path := "" }

theorem LoadedModule.document_eq_of_unplaced {m m' : LoadedModule} (h : m.unplaced = m'.unplaced) :
    m.document = m'.document := congrArg (·.document) h

namespace Library
open Relation (ReflTransGen)

variable {disk : Disk} {paths paths' searchPaths : List String} {lib lib' : Library}

/-- Every module of a library is in another one, too, wherever it was read from. -/
def Within (lib' lib : Library) : Prop :=
  ∀ {name m}, lib'.get? name = some m → ∃ m', lib.get? name = some m' ∧ m'.unplaced = m.unplaced

theorem LeastClosure.perm (h : paths.Perm paths') (hlib : LeastClosure disk paths searchPaths lib) :
    LeastClosure disk paths' searchPaths lib where
  requested path hpath := hlib.requested path (h.mem_iff.mpr hpath)
  read := hlib.read
  found := hlib.found
  marked hget := (hlib.marked hget).trans (isRequested_perm h)
  closed := hlib.closed
  least modules hbase hstep := hlib.least modules (fun name hname => hbase name ((isRequested_perm h).mp hname)) hstep

section Second
variable (hlib : LeastClosure disk paths searchPaths lib)
  (hconsulted : ∀ {name m}, lib.get? name = some m → Consulted disk paths searchPaths m.path)
  (hsame : Unambiguous disk paths searchPaths)
include hlib hconsulted hsame

/-- A loading that is within the library of another one goes on with a module of that library. -/
theorem loadImport_of_within {i : Import} {rest : List Import} (h : Consults disk paths searchPaths ⟨lib', i :: rest⟩)
    (hwithin : Within lib' lib) (hnew : lib'.contains i.module = false) : ∃ found m, lib.get? i.module = some m ∧
      m.importedOnly = true ∧ loadImport disk searchPaths lib' i =
        .ok (lib'.insert i.module ⟨m.document, found, true⟩, importsOf m.document found) := by
  have hsought := h.sought hnew
  -- The file that states the import is in the library, which therefore has the module.
  obtain ⟨importer, m', hget', -, hmodule⟩ := h.traced.queued i List.mem_cons_self
  obtain ⟨m₁, hget₁, heq⟩ := hwithin hget'
  have hdocument := LoadedModule.document_eq_of_unplaced heq
  obtain ⟨m, hget⟩ := Table.contains_iff.mp (hlib.closed hget₁ i.module (hdocument ▸ hmodule))
  have hmark : m.importedOnly = true := by
    cases hm : m.importedOnly with
    | true => rfl
    | false => exact absurd ((hlib.marked hget).mp hm) hsought.missing
  -- There it was found for another import of the module, but at the same place.
  obtain ⟨other, first, hfirst, himports, hpath⟩ := hlib.found hget hmark
  have hother : Sought disk paths searchPaths ⟨i.module, first.path⟩ :=
    ⟨hconsulted hfirst, ⟨first.document, (hlib.read hfirst).1, himports⟩, hsought.missing⟩
  have hplace := hsame _ _ hsought hother rfl
  rw [hpath, Option.map_some, Option.map_eq_some_iff] at hplace
  obtain ⟨found, hfound, hlocate⟩ := hplace
  obtain ⟨hread, hname⟩ := hlib.read hget
  exact ⟨found, m, hget, hmark,
    loadImport_eq_ok.mpr ⟨found, m.document, hfound, readModule_of_locate? hlocate.symm hread, hname, rfl⟩⟩

theorem within_of_turn {s s' : Progress} (h : Consults disk paths searchPaths s) (hwithin : Within s.lib lib)
    (ht : Turn disk searchPaths s s') : Within s'.lib lib := by
  cases ht with
  | known _ => exact hwithin
  | loaded hnew hload =>
    obtain ⟨found, m, hget, hmark, hload'⟩ := loadImport_of_within hlib hconsulted hsame h hwithin hnew
    cases hload.symm.trans hload'
    intro name m' hm'
    rw [Table.get?_insert] at hm'
    split at hm'
    · rename_i hname
      cases hm'
      exact ⟨m, hname ▸ hget, by rw [LoadedModule.unplaced, LoadedModule.unplaced, hmark]⟩
    · exact hwithin hm'

/-- A loading that is within the library of another one comes to an end there. -/
theorem within_of_leadsTo {s : Progress} (h : Consults disk paths searchPaths s) (hwithin : Within s.lib lib)
    {outcome : Except LoadError Library} (hleads : LeadsTo disk searchPaths s outcome) :
    ∃ lib', outcome = .ok lib' ∧ Within lib' lib := by
  obtain ⟨last, hturns, hends⟩ := hleads
  have hlast : Within last.lib lib ∧ Consults disk paths searchPaths last := by
    clear hends
    induction hturns with
    | refl => exact ⟨hwithin, h⟩
    | tail _ hturn ih => exact ⟨within_of_turn hlib hconsulted hsame ih.2 ih.1 hturn, ih.2.turn hturn⟩
  cases hends with
  | done => exact ⟨_, rfl, hlast.1⟩
  | failed hnew hfail =>
    obtain ⟨found, m, -, -, hload⟩ := loadImport_of_within hlib hconsulted hsame hlast.2 hlast.1 hnew
    cases hfail.symm.trans hload

end Second

/-- Requested in another order, the same requested files are where the second loading begins, so that it ends within the
    library of the first one. -/
theorem exists_load_within (hperm : paths.Perm paths') (hsame : Unambiguous disk paths searchPaths)
    (h : load disk paths searchPaths = .ok lib) : ∃ lib', load disk paths' searchPaths = .ok lib' ∧ Within lib' lib := by
  have hlib := (leastClosure_of_load h).perm hperm
  have hconsulted : ∀ {name m}, lib.get? name = some m → Consulted disk paths' searchPaths m.path :=
    fun hget => ((Consults.of_load h).consulted hget).perm hperm
  have hloads := loads_load disk paths' searchPaths
  generalize load disk paths' searchPaths = outcome at hloads ⊢
  cases hfirst : loadRequested disk paths ∅ [] with
  | error e => simp [load, hfirst, bind, Except.bind] at h
  | ok first =>
    obtain ⟨second, hsecond⟩ := exists_loadRequested_perm hperm hfirst
    cases hloads with
    | refused hfail => cases hfail.symm.trans hsecond
    | turns hr hleads =>
      refine within_of_leadsTo hlib hconsulted (hsame.perm hperm) (.of_loadRequested hr) (fun {name m} hget => ?_) hleads
      rcases eq_of_get?_loadRequested hr hget with hnone | ⟨path, hpath, document, hread, rfl, rfl⟩
      · cases hnone
      · obtain ⟨document', hread', hget'⟩ := hlib.requested path hpath
        obtain rfl := Except.ok.inj (hread.symm.trans hread')
        exact ⟨_, hget', rfl⟩

/-- A loading that ends within the library of another one holds all of it, since its own library is closed. -/
theorem contains_of_within (hlib : LeastClosure disk paths searchPaths lib) (h : load disk paths searchPaths = .ok lib')
    (hwithin : Within lib' lib) {name : String} (hname : lib.contains name = true) : lib'.contains name = true := by
  refine hlib.least (lib'.contains · = true) (fun name hname => ?_) (fun name m hname hget other hother => ?_) name hname
  · exact (Consults.of_load h).requested name hname
  · obtain ⟨m', hget'⟩ := Table.contains_iff.mp hname
    obtain ⟨m₁, hget₁, heq⟩ := hwithin hget'
    obtain rfl := Option.some.inj (hget.symm.trans hget₁)
    have hdocument := LoadedModule.document_eq_of_unplaced heq
    exact (leastClosure_of_load h).closed hget' other (hdocument ▸ hother)

/-- Requested in another order, the same modules are loaded. -/
theorem load_perm_unplaced (hperm : paths.Perm paths') (hsame : Unambiguous disk paths searchPaths)
    (h : load disk paths searchPaths = .ok lib) : ∃ lib', load disk paths' searchPaths = .ok lib' ∧
      lib'.map (fun _ => LoadedModule.unplaced) = lib.map fun _ => LoadedModule.unplaced := by
  obtain ⟨lib', hlib', hwithin⟩ := exists_load_within hperm hsame h
  refine ⟨lib', hlib', Table.ext_get? fun name => ?_⟩
  rw [Table.get?_map, Table.get?_map]
  cases hget' : lib'.get? name with
  | some m' =>
    obtain ⟨m, hget, heq⟩ := hwithin hget'
    rw [hget, Option.map_some, Option.map_some, heq]
  | none =>
    cases hget : lib.get? name with
    | none => rfl
    | some m =>
      have hlib := (leastClosure_of_load h).perm hperm
      obtain ⟨m', hm'⟩ := Table.contains_iff.mp
        (contains_of_within hlib hlib' hwithin (Table.contains_iff.mpr ⟨m, hget⟩))
      cases hget'.symm.trans hm'

/-! ### Trees -/

mutual

/-- Where a module was read from does not matter to its nodes, only which modules there are. -/
theorem growNode_eq_ok_iff {source source' : LoadedModule} (h : ∀ name, lib'.contains name = lib.contains name) :
    ∀ {n : NodeDocument} {t u : SchemaTree} {parent : NodeId} {module : String},
      growNode lib' source' parent module t n = .ok u ↔ growNode lib source parent module t n = .ok u
  | ⟨_, _, _, _, _, _, _, _⟩, _, _, _, _ => by
    rw [growNode_eq_ok, growNode_eq_ok, h, growNodes_eq_ok_iff h]

theorem growNodes_eq_ok_iff {source source' : LoadedModule} (h : ∀ name, lib'.contains name = lib.contains name) :
    ∀ {ns : List NodeDocument} {t u : SchemaTree} {parent : NodeId} {module : String},
      growNodes lib' source' parent module t ns = .ok u ↔ growNodes lib source parent module t ns = .ok u
  | [], _, _, _, _ => by rw [growNodes, growNodes]
  | n :: ns, _, _, _, _ => by
    rw [growNodes_cons_eq_ok, growNodes_cons_eq_ok]
    exact exists_congr fun v => and_congr (growNode_eq_ok_iff h) (growNodes_eq_ok_iff h)

end

/-- A tree does not show where its modules were read from. -/
theorem tree_unplaced {t : SchemaTree} :
    Library.tree (lib.map fun _ => LoadedModule.unplaced) = .ok t ↔ lib.tree = .ok t := by
  have hcontains : ∀ name, Table.contains (lib.map fun _ => LoadedModule.unplaced) name = lib.contains name := fun name => by
    rw [Table.contains, Table.get?_map, Option.isSome_map]
    rfl
  have hvalues : Table.values (lib.map fun _ => LoadedModule.unplaced) = lib.values.map LoadedModule.unplaced := by
    simp [Table.values, Table.map]
  rw [Library.tree, Library.tree, hvalues]
  generalize SchemaTree.empty = start
  generalize lib.values = ms
  induction ms generalizing start with
  | nil => rfl
  | cons m rest ih =>
    rw [List.map_cons, growModules_cons_eq_ok, growModules_cons_eq_ok]
    exact exists_congr fun u => and_congr (growNodes_eq_ok_iff hcontains) (ih u)

end Library

namespace SchemaTree
variable {disk : Disk} {paths paths' searchPaths : List String}

/-- Where every import leads to the same place from all files that state it, the order of the requested files does not
    show: a tree is loaded for both orders or for none, and it is the same tree. -/
theorem load_perm (hperm : paths.Perm paths') (hsame : Library.Unambiguous disk paths searchPaths) (t : SchemaTree) :
    load disk paths searchPaths = .ok t ↔ load disk paths' searchPaths = .ok t := by
  have hone : ∀ {paths paths' : List String}, paths.Perm paths' → Library.Unambiguous disk paths searchPaths →
      load disk paths searchPaths = .ok t → load disk paths' searchPaths = .ok t := fun hperm hsame ht => by
    obtain ⟨lib, hlib, htree⟩ := load_eq_ok.mp ht
    obtain ⟨lib', hlib', hunplaced⟩ := Library.load_perm_unplaced hperm hsame hlib
    refine load_eq_ok.mpr ⟨lib', hlib', ?_⟩
    rwa [← Library.tree_unplaced, hunplaced, Library.tree_unplaced]
  exact ⟨hone hperm hsame, hone hperm.symm (hsame.perm hperm)⟩

/-- A module that imports a shared one. -/
def importing (name : String) : ModuleDocument := ⟨name, "urn:" ++ name, none, ["c"], []⟩

/-- The shared module, which imports one of those that import it. -/
def imported : ModuleDocument :=
  ⟨"c", "urn:c", none, ["a"], [⟨"x", .leaf, [], none, none, none, some "a", none⟩]⟩

/-- Two modules with a third one that both of them import. -/
def sharing : Disk := ⟨.ofList [("a.json", (importing "a").toJson.compact.toUTF8),
  ("b.json", (importing "b").toJson.compact.toUTF8), ("c.json", imported.toJson.compact.toUTF8)], ∅, []⟩

theorem readModule_sharing : Library.readModule sharing "a.json" = .ok (importing "a") ∧
    Library.readModule sharing "./b.json" = .ok (importing "b") ∧ Library.readModule sharing "c.json" = .ok imported := by
  have hleaf : NodeDocument.Fits ⟨"x", .leaf, [], none, none, none, some "a", none⟩ :=
    .intro (fun _ h => by cases h) (List.forall_mem_nil _)
  exact ⟨Library.readModule_of_written (List.forall_mem_nil _) (by decide) rfl,
    Library.readModule_of_written (List.forall_mem_nil _) (by decide) rfl,
    Library.readModule_of_written (List.forall_mem_singleton.mpr hleaf) (by decide) rfl⟩

theorem findImport?_sharing : Library.findImport? sharing [] ⟨"c", "a.json"⟩ = some "c.json" ∧
    Library.findImport? sharing [] ⟨"c", "./b.json"⟩ = some "./c.json" ∧
      sharing.locate? "c.json" = sharing.locate? "./c.json" := by decide +kernel

theorem unambiguous_sharing : Library.Unambiguous sharing ["a.json", "./b.json"] [] := by
  obtain ⟨hstart, hsecond, hshared⟩ := readModule_sharing
  obtain ⟨hbeside, hbeside', hplace⟩ := findImport?_sharing
  have hrequested : Library.IsRequested sharing ["a.json", "./b.json"] "a" :=
    ⟨"a.json", List.mem_cons_self, _, hstart, rfl⟩
  -- Two files state the import of the shared module, which itself imports none that would have to be looked for.
  have hstated : ∀ {path module : String} {document : ModuleDocument},
      path ∈ ["a.json", "./b.json", "c.json", "./c.json"] → Library.readModule sharing path = .ok document →
      module ∈ document.imports → ¬Library.IsRequested sharing ["a.json", "./b.json"] module →
      module = "c" ∧ (path = "a.json" ∨ path = "./b.json") := by
    intro path module document hpath hread hmodule hmissing
    have himported : document ≠ imported := by
      rintro rfl
      exact hmissing (List.mem_singleton.mp hmodule ▸ hrequested)
    simp only [List.mem_cons, List.not_mem_nil, or_false] at hpath
    rcases hpath with rfl | rfl | rfl | rfl
    · cases hstart.symm.trans hread
      exact ⟨List.mem_singleton.mp hmodule, .inl rfl⟩
    · cases hsecond.symm.trans hread
      exact ⟨List.mem_singleton.mp hmodule, .inr rfl⟩
    · exact absurd (Except.ok.inj (hread.symm.trans hshared)) himported
    · exact absurd (Except.ok.inj (hread.symm.trans (Library.readModule_of_locate? hplace hshared))) himported
  have hconsulted : ∀ {path : String}, Library.Consulted sharing ["a.json", "./b.json"] [] path →
      path ∈ ["a.json", "./b.json", "c.json", "./c.json"] := by
    intro path h
    induction h with
    | requested h => exact List.mem_append_left ["c.json", "./c.json"] h
    | imported _ hread hmodule hmissing hfound ih =>
      obtain ⟨rfl, rfl | rfl⟩ := hstated ih hread hmodule hmissing
      · cases hbeside.symm.trans hfound
        simp
      · cases hbeside'.symm.trans hfound
        simp
  have hsought : ∀ {i : Import}, Library.Sought sharing ["a.json", "./b.json"] [] i →
      i = ⟨"c", "a.json"⟩ ∨ i = ⟨"c", "./b.json"⟩ := by
    rintro ⟨module, importer⟩ h
    obtain ⟨document, hread, hmodule⟩ := h.stated
    obtain ⟨rfl, rfl | rfl⟩ := hstated (hconsulted h.consulted) hread hmodule h.missing
    · exact .inl rfl
    · exact .inr rfl
  have hfound : ∀ {i : Import}, Library.Sought sharing ["a.json", "./b.json"] [] i →
      (Library.findImport? sharing [] i).map sharing.locate? = some (sharing.locate? "c.json") := by
    intro i hi
    rcases hsought hi with rfl | rfl
    · rw [hbeside, Option.map_some]
    · rw [hbeside', Option.map_some, hplace]
  exact fun i j hi hj _ => (hfound hi).trans (hfound hj).symm

/-- The requested modules, and the shared one as it is found from the first of them. -/
def sharingLibrary : Library := .ofList [("a", ⟨importing "a", "a.json", false⟩), ("b", ⟨importing "b", "./b.json", false⟩),
  ("c", ⟨imported, "c.json", true⟩)]

theorem sharing_library : Library.load sharing ["a.json", "./b.json"] [] = .ok sharingLibrary := by
  obtain ⟨hstart, hsecond, hshared⟩ := readModule_sharing
  let requested : Library :=
    .ofList [("a", ⟨importing "a", "a.json", false⟩), ("b", ⟨importing "b", "./b.json", false⟩)]
  have hrequested : Library.loadRequested sharing ["a.json", "./b.json"] ∅ [] =
      .ok (requested, [⟨"c", "a.json"⟩, ⟨"c", "./b.json"⟩]) :=
    Library.loadRequested_cons_eq_ok.mpr ⟨_, hstart, rfl, Library.loadRequested_cons_eq_ok.mpr ⟨_, hsecond, rfl, rfl⟩⟩
  have himported : Library.loadImport sharing [] requested ⟨"c", "a.json"⟩ = .ok (sharingLibrary, [⟨"a", "c.json"⟩]) :=
    Library.loadImport_eq_ok.mpr ⟨_, _, findImport?_sharing.1, hshared, rfl, rfl⟩
  have hturns : Library.LeadsTo sharing [] ⟨requested, [⟨"c", "a.json"⟩, ⟨"c", "./b.json"⟩]⟩ (.ok sharingLibrary) :=
    .of_turn (.loaded rfl himported) (.of_turn (.known rfl) (.of_turn (.known rfl) ⟨_, .refl, .done⟩))
  exact (Library.loads_load ..).unique (.turns hrequested hturns)

theorem sharing_load_perm : ["a.json", "./b.json"].Perm ["./b.json", "a.json"] ∧
    Library.Unambiguous sharing ["a.json", "./b.json"] [] ∧
    Library.findImport? sharing [] ⟨"c", "a.json"⟩ ≠ Library.findImport? sharing [] ⟨"c", "./b.json"⟩ ∧
    ∃ t, t.size = 4 ∧ load sharing ["a.json", "./b.json"] [] = .ok t ∧ load sharing ["./b.json", "a.json"] [] = .ok t := by
  have hsize : (sharingLibrary.tree.toOption.any fun t => t.size == 4) = true := by decide +kernel
  have hperm : ["a.json", "./b.json"].Perm ["./b.json", "a.json"] := .swap ..
  refine ⟨hperm, unambiguous_sharing, ?_, ?_⟩
  · rw [findImport?_sharing.1, findImport?_sharing.2.1]
    decide
  · cases htree : sharingLibrary.tree with
    | error _ => simp [htree, Except.toOption] at hsize
    | ok t =>
      have ht : load sharing ["a.json", "./b.json"] [] = .ok t := (load_eq_ok_of_load sharing_library).mpr htree
      exact ⟨t, by simpa [htree, Except.toOption] using hsize, ht, (load_perm hperm unambiguous_sharing t).mp ht⟩

end SchemaTree

end SchemaIr
