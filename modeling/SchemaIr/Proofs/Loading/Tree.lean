import SchemaIr.Proofs.Json.RoundTrip
import SchemaIr.Proofs.Loading.Closure
import SchemaIr.Proofs.Loading.ReadBack

/-! # The tree of the requested files

Loading ends for all files, with the tree of a library that holds the requested modules and what they import
(`load_ends`). The tree fails for nothing but documents that contradict themselves or name modules that are not there,
and otherwise every document is read back from it (`load_mirrors`). -/

namespace SchemaIr
namespace SchemaTree

variable {disk : Disk} {paths searchPaths : List String} {lib : Library} {t : SchemaTree}

theorem load_eq_ok : load disk paths searchPaths = .ok t ↔
    ∃ lib, Library.load disk paths searchPaths = .ok lib ∧ lib.tree = .ok t := by
  rw [load]
  cases Library.load disk paths searchPaths <;> simp [bind, Except.bind]

theorem load_eq_ok_of_load (h : Library.load disk paths searchPaths = .ok lib) :
    load disk paths searchPaths = .ok t ↔ lib.tree = .ok t := by
  simp [load_eq_ok, h]

end SchemaTree

namespace Library

variable {lib : Library} {t : SchemaTree}

/-- The tree knows the modules of its library, each with what it says about itself. -/
theorem Named.get?_modules (h : lib.Named) (ht : lib.tree = .ok t) (name : String) :
    t.modules.get? name = (lib.get? name).map LoadedModule.info := by
  have hnodup : ((lib.values.map LoadedModule.info).map (·.name)).Nodup := by
    rw [List.map_map]
    exact h.map_name_values ▸ lib.names_nodup
  have hinfo : (lib.values.map fun m => (m.document.name, m.info)) =
      (lib.values.map LoadedModule.info).map fun info => (info.name, info) := by
    rw [List.map_map]
    rfl
  refine Option.ext fun info => ?_
  rw [(h.holds ht).modules, hinfo, Table.get?_ofList_keys hnodup, Option.map_eq_some_iff]
  constructor
  · rintro ⟨hmem, rfl⟩
    obtain ⟨m, hm, rfl⟩ := List.mem_map.mp hmem
    obtain ⟨name, hget⟩ := Table.mem_values_iff.mp hm
    obtain rfl := h name m hget
    exact ⟨m, hget, rfl⟩
  · rintro ⟨m, hget, rfl⟩
    exact ⟨List.mem_map_of_mem (Table.mem_values_iff.mpr ⟨name, hget⟩), h name m hget⟩

/-- A file that holds what is written for a document is read as that document. -/
theorem readModule_of_written {disk : Disk} {path : String} {m : ModuleDocument} (hm : m.Fits)
    (hheight : m.toJson.height ≤ Json.Decode.maxDepth) (h : disk.bytes? path = some m.toJson.compact.toUTF8) :
    readModule disk path = .ok m := by
  have hfile : disk.isFile path = true := by
    obtain ⟨names, hnames, hget⟩ := Option.bind_eq_some_iff.mp h
    have hcontains : disk.isFileAt names = true := Table.contains_iff.mpr ⟨_, hget⟩
    simp [Disk.isFile, hnames, hcontains]
  have htext : disk.text? path = some m.toJson.compact := by
    rw [Disk.text?, h, Option.bind_some, String.fromUTF8?, dif_pos]
    rfl
  have hread := text_compact hheight (ModuleDocument.reads_decode hm Json.Decode.maxDepth)
  simp [readModule, hfile, htext, hread]

end Library

namespace SchemaTree

/-! ### Loading ends -/

/-- Loading ends with the outcome to which its turns lead. A tree that it gives has the modules of the least library
    that holds the requested ones with what they import, marked where they are not requested themselves, and no node of
    any other module. -/
theorem load_ends (disk : Disk) (paths searchPaths : List String) :
    (WellFounded fun s' s => Library.Turn disk searchPaths s s') ∧
    (∀ outcome, Library.Loads disk paths searchPaths outcome ↔ Library.load disk paths searchPaths = outcome) ∧
    ∀ t, load disk paths searchPaths = .ok t → ∃ lib, Library.load disk paths searchPaths = .ok lib ∧
      lib.LeastClosure disk paths searchPaths ∧ t.modules = lib.map (fun _ => LoadedModule.info) ∧
      (∀ name info, t.modules.get? name = some info →
        (info.importedOnly = false ↔ Library.IsRequested disk paths name)) ∧
      ∀ id : Nat, id < t.size → t.modules.contains (t.node id).module = true := by
  refine ⟨Library.turn_wellFounded disk searchPaths, fun outcome => ⟨fun h => ?_, fun h => ?_⟩, fun t ht => ?_⟩
  · exact (Library.loads_load disk paths searchPaths).unique h
  · exact h ▸ Library.loads_load disk paths searchPaths
  obtain ⟨lib, hlib, htree⟩ := load_eq_ok.mp ht
  have hnamed := Library.Named.of_load hlib
  have hclosure := Library.leastClosure_of_load hlib
  have hmodules : t.modules = lib.map fun _ => LoadedModule.info := Table.ext_get? fun name => by
    rw [hnamed.get?_modules htree, Table.get?_map]
  refine ⟨lib, hlib, hclosure, hmodules, fun name info hget => ?_, fun id hid => ?_⟩
  · rw [hnamed.get?_modules htree] at hget
    obtain ⟨m, hm, rfl⟩ := Option.map_eq_some_iff.mp hget
    exact hclosure.marked hm
  · obtain ⟨m, hm⟩ := Table.contains_iff.mp ((hnamed.holds htree).defined id hid)
    rw [Table.contains, hnamed.get?_modules htree, hm]
    rfl

/-- A module that imports the other one of a circle. -/
def circleStart : ModuleDocument := ⟨"a", "urn:a", none, ["b"], []⟩

/-- A module that imports the first one of a circle, with a node that is defined there. -/
def circleEnd : ModuleDocument :=
  ⟨"b", "urn:b", none, ["a"], [⟨"x", .container,
    [⟨"z", .leaf, [], none, none, none, none, none⟩, ⟨"y", .leaf, [], none, none, none, none, none⟩],
    none, none, none, some "a", none⟩]⟩

/-- Two modules that import each other. -/
def circle : Disk :=
  ⟨.ofList [("a.json", circleStart.toJson.compact.toUTF8), ("b.json", circleEnd.toJson.compact.toUTF8)], ∅, []⟩

/-- A requested module, and the one that it imports and that imports it. -/
def circleLibrary : Library := .ofList [("a", ⟨circleStart, "a.json", false⟩), ("b", ⟨circleEnd, "b.json", true⟩)]

theorem circle_library : Library.load circle ["a.json"] [] = .ok circleLibrary := by
  have hstart : Library.readModule circle "a.json" = .ok circleStart :=
    Library.readModule_of_written (List.forall_mem_nil _) (by decide) rfl
  have hleaf : ∀ name, NodeDocument.Fits ⟨name, .leaf, [], none, none, none, none, none⟩ := fun _ =>
    .intro (fun _ h => by cases h) (List.forall_mem_nil _)
  have hfits : circleEnd.Fits := List.forall_mem_singleton.mpr (.intro (fun _ h => by cases h)
    (List.forall_mem_cons.mpr ⟨hleaf "z", List.forall_mem_singleton.mpr (hleaf "y")⟩))
  have hend : Library.readModule circle "b.json" = .ok circleEnd :=
    Library.readModule_of_written hfits (by decide) rfl
  have hbeside : Library.findImport? circle [] ⟨"b", "a.json"⟩ = some "b.json" := by decide +kernel
  have hrequested : Library.loadRequested circle ["a.json"] ∅ [] =
      .ok (.ofList [("a", ⟨circleStart, "a.json", false⟩)], [⟨"b", "a.json"⟩]) :=
    Library.loadRequested_cons_eq_ok.mpr ⟨_, hstart, rfl, rfl⟩
  have himported : Library.loadImport circle [] (.ofList [("a", ⟨circleStart, "a.json", false⟩)]) ⟨"b", "a.json"⟩ =
      .ok (circleLibrary, [⟨"a", "b.json"⟩]) :=
    Library.loadImport_eq_ok.mpr ⟨_, _, hbeside, hend, rfl, rfl⟩
  have hturns : Library.LeadsTo circle [] ⟨.ofList [("a", ⟨circleStart, "a.json", false⟩)], [⟨"b", "a.json"⟩]⟩
      (.ok circleLibrary) :=
    .of_turn (.loaded rfl himported) (.of_turn (.known (i := ⟨"a", "b.json"⟩) rfl) ⟨_, .refl, .done⟩)
  exact (Library.loads_load ..).unique (.turns hrequested hturns)

theorem circle_tree : ∃ t, load circle ["a.json"] [] = .ok t ∧ t.size = 5 := by
  have hsize : (circleLibrary.tree.toOption.any fun t => t.size == 5) = true := by decide +kernel
  cases ht : circleLibrary.tree with
  | error _ => simp [ht, Except.toOption] at hsize
  | ok t => exact ⟨t, (load_eq_ok_of_load circle_library).mpr ht, by simpa [ht, Except.toOption] using hsize⟩

theorem circle_load_ends : ∃ t lib, load circle ["a.json"] [] = .ok t ∧
    Library.load circle ["a.json"] [] = .ok lib ∧ lib.LeastClosure circle ["a.json"] [] ∧
    t.modules = lib.map (fun _ => LoadedModule.info) ∧ lib.contains "a" = true ∧ lib.contains "b" = true := by
  obtain ⟨t, ht, -⟩ := circle_tree
  obtain ⟨lib, hlib, hclosure, hmodules, -, -⟩ := (load_ends circle ["a.json"] []).2.2 t ht
  obtain rfl : circleLibrary = lib := Except.ok.inj (circle_library.symm.trans hlib)
  exact ⟨t, circleLibrary, ht, hlib, hclosure, hmodules, rfl, rfl⟩

/-! ### Loading mirrors the documents -/

/-- Once the modules are there, a tree is loaded exactly where no siblings share a name and every module that a node
    names is there. It has a root for each module, under which the nodes of its document are read back, with children in
    name order and modules settled, and no other nodes. -/
theorem load_mirrors (h : Library.load disk paths searchPaths = .ok lib) :
    ((∃ t, load disk paths searchPaths = .ok t) ↔
      ∀ name m, lib.get? name = some m → NodeDocument.Consistent lib m.document.children) ∧
    ∀ t, load disk paths searchPaths = .ok t →
      (∀ name, (t.roots.get? name).isSome = lib.contains name) ∧
      (∀ name m, lib.get? name = some m → ∃ r, t.roots.get? name = some r ∧ t.document r = m.root) ∧
      t.size = lib.size + (lib.values.flatMap fun m => NodeDocument.nodesOf m.document.children).length := by
  have hnamed := Library.Named.of_load h
  simp only [load_eq_ok_of_load h]
  refine ⟨hnamed.exists_tree_iff, fun t ht => ?_⟩
  have hholds := hnamed.holds ht
  refine ⟨fun name => ?_, fun name m hget => ?_, ?_⟩
  · rw [Bool.eq_iff_iff, hholds.roots, hnamed.map_name_values, Table.contains_iff, Table.mem_names_iff]
  · obtain ⟨r, -, hr, hdocument⟩ := hholds.document m (Table.mem_values_iff.mpr ⟨name, hget⟩)
    exact ⟨r, hnamed name m hget ▸ hr, hdocument⟩
  · rw [hholds.size]
    exact congrArg (· + _) (List.length_map _)

theorem circle_load_mirrors : ∃ t r, Library.load circle ["a.json"] [] = .ok circleLibrary ∧
    load circle ["a.json"] [] = .ok t ∧ t.roots.get? "b" = some r ∧
    t.document r = (⟨circleEnd, "b.json", true⟩ : LoadedModule).root ∧ t.size = 5 := by
  obtain ⟨t, ht, hsize⟩ := circle_tree
  obtain ⟨r, hr, hdocument⟩ := ((load_mirrors circle_library).2 t ht).2.1 "b" _ rfl
  exact ⟨t, r, circle_library, ht, hr, hdocument, hsize⟩

end SchemaTree
end SchemaIr
