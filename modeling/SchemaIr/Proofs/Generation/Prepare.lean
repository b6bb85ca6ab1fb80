import SchemaIr.Generation
import SchemaIr.Proofs.Directory.FakeRoot
import SchemaIr.Proofs.Enumeration.Named
import SchemaIr.Proofs.Ir.Misses

/-! # What is assembled from

A run prepares what it assembles from, and then assembles it (`generate_eq_some_iff`). It has a result unless it comes to
map the type of a leaf from which leafrefs lead into a circle (`generate_eq_none_iff`). What is prepared without exclusions are the directories that discovery finds, perhaps with the fake root over them, and the named
enumerations of the leaves that are collected (`Prepared`). -/

namespace SchemaIr

namespace Generation
open SchemaTree (Reached Regular)

theorem generate_eq_some_iff {t : SchemaTree} {s : GenerateSettings} {result : Except Diagnostics Ir} :
    t.generate s = some result ↔
      (∃ problems, prepare t s = .error problems ∧ result = .error problems) ∨
        ∃ input, prepare t s = .ok input ∧ (input.build ∅).1 = some result := by
  unfold SchemaTree.generate
  cases prepare t s <;> simp [eq_comm]

theorem generate_eq_ok {t : SchemaTree} {s : GenerateSettings} {ir : Ir} (h : t.generate s = some (.ok ir)) :
    ∃ input, prepare t s = .ok input ∧ (input.build ∅).1 = some (.ok ir) := by
  rcases generate_eq_some_iff.mp h with ⟨problems, -, herror⟩ | hbuild
  · cases herror
  · exact hbuild

theorem generate_of_prepare {t : SchemaTree} {s : GenerateSettings} {input : Assembly.Input}
    (h : prepare t s = .ok input) : t.generate s = (input.build ∅).1 := by
  rw [SchemaTree.generate, h]

theorem generate_of_prepare_error {t : SchemaTree} {s : GenerateSettings} {problems : Diagnostics}
    (h : prepare t s = .error problems) : t.generate s = some (.error problems) := by
  rw [SchemaTree.generate, h]

variable {t : SchemaTree} {s : GenerateSettings} {input : Assembly.Input}

/-- What discovery finds below the generation roots where modules may be excluded. -/
def foundWithout (t : SchemaTree) (s : GenerateSettings) : List Discovery.Finding :=
  Discovery.findings t t.generationRoots s.excludeModules s.compression.compresses

theorem isDirectory_of_foundWithout {d : NodeId} (h : .directory d ∈ foundWithout t s) : (t.kind d).isDirectory = true := by
  obtain ⟨r, -, hr⟩ := List.mem_flatMap.mp h
  exact Discovery.isDirectory_of_mem_walk hr

/-- What is prepared: discovery tells of no error, the fake root may stand over the directories that it finds, and
    the enumerations of the collected leaves are named. -/
structure Ready (t : SchemaTree) (s : GenerateSettings) (input : Assembly.Input) : Prop where
  tree : input.tree = t
  index : input.index = LeafIndex.ofTree t
  settings : input.settings = s
  clean : Diagnostics.hasErrors ⟨(foundWithout t s).filterMap (Discovery.problem? t)⟩ = false
  directories : addFakeRoot t s (Discovery.directories t (foundWithout t s)) = .ok input.entities.directories
  leaves : input.entities.enumLeaves = Entities.addLeafrefTargets t (LeafIndex.ofTree t) t.generationRoots
    s.excludeModules (Discovery.enumLeaves t (foundWithout t s))
  enums : (EnumSet.ofLeaves t input.entities.enumLeaves s.compression.compresses s.skipEnumDedup ∅).1 =
    .ok input.enums

theorem ready_of_prepare (h : prepare t s = .ok input) : Ready t s input := by
  unfold prepare discover Entities.discover at h
  simp only [bind, Except.bind, pure, Except.pure] at h
  split at h
  · cases h
  · rename_i entities hentities
    split at hentities
    · cases hentities
    · rename_i found hfound
      cases hentities
      obtain ⟨hclean, rfl⟩ := Diagnostics.settle_eq_ok_iff.mp hfound
      split at h
      · cases h
      · rename_i directories hdirectories
        split at h
        · cases h
        · rename_i enums henums
          cases h
          exact ⟨rfl, rfl, rfl, hclean, hdirectories, rfl, henums⟩

theorem prepare_of_ready (h : Ready t s input) : prepare t s = .ok input := by
  obtain ⟨tree, index, ⟨directories, enumLeaves⟩, enums, settings⟩ := input
  obtain ⟨htree, hindex, hsettings, hclean, hdirectories, hleaves, henums⟩ := h
  dsimp only at htree hindex hsettings hdirectories hleaves henums
  subst htree hindex hsettings hleaves
  have hdiscover : Entities.discover tree tree.generationRoots settings.excludeModules settings.compression.compresses =
      .ok ⟨Discovery.directories tree (foundWithout tree settings), Discovery.enumLeaves tree (foundWithout tree settings)⟩ :=
    Diagnostics.settle_eq_ok_iff.mpr ⟨hclean, rfl⟩
  simp only [prepare, discover, hdiscover, hdirectories, henums, bind, Except.bind, pure, Except.pure]

/-- A run has no result exactly if it comes to assembling, and there maps a leaf from which leafrefs lead into a circle. -/
theorem generate_eq_none_iff : t.generate s = none ↔ ∃ input leaf, prepare t s = .ok input ∧
    Assembly.Input.MapsLeaf input leaf ∧ ReachesCycle (TypeContext.LeadsTo t (LeafIndex.ofTree t)) leaf := by
  cases hprepare : prepare t s with
  | error problems => simp [generate_of_prepare_error hprepare]
  | ok input =>
    have hready := ready_of_prepare hprepare
    rw [generate_of_prepare hprepare, Assembly.Input.build_endless_iff, hready.tree, hready.index]
    simp only [Except.ok.injEq, exists_and_left, exists_eq_left']

/-- Where no union leads back to itself, every run has a result. -/
theorem exists_generate_of_acyclic (hacyclic : TypeContext.Acyclic t (LeafIndex.ofTree t)) (s : GenerateSettings) :
    ∃ result, t.generate s = some result := by
  refine Option.ne_none_iff_exists'.mp fun hnone => ?_
  obtain ⟨_, _, -, -, c, -, hcycle⟩ := generate_eq_none_iff.mp hnone
  exact hacyclic.irrefl c hcycle

/-- The same is prepared with another compression, as far as it changes none of the passes. -/
theorem prepare_under {compression : Compression}
    (hfound : discover t (LeafIndex.ofTree t) { s with compression } = discover t (LeafIndex.ofTree t) s)
    (hroot : ∀ directories, addFakeRoot t { s with compression } directories = addFakeRoot t s directories)
    (henums : ∀ leaves, EnumSet.ofLeaves t leaves compression.compresses s.skipEnumDedup ∅ =
      EnumSet.ofLeaves t leaves s.compression.compresses s.skipEnumDedup ∅) :
    prepare t { s with compression } = (prepare t s).map (·.under compression) := by
  unfold prepare
  simp only [hfound, hroot, henums, bind, Except.bind, pure, Except.pure]
  cases discover t (LeafIndex.ofTree t) s with
  | error _ => rfl
  | ok found =>
    dsimp only
    cases addFakeRoot t s found.directories with
    | error _ => rfl
    | ok directories =>
      dsimp only
      cases (EnumSet.ofLeaves t found.enumLeaves s.compression.compresses s.skipEnumDedup ∅).1 <;> rfl

/-! ### The fake root over directories -/

/-- The fields of the fake root over directories are the top-level entities, under their names. -/
def RootFields (t : SchemaTree) (s : GenerateSettings) (directories : Table MappedDirectory) (fields : Table NodeId) :
    Prop :=
  ∀ n id, fields.get? n = some id →
    id ∈ FakeRoot.entities t directories (FakeRoot.topLeaves t t.generationRoots s.excludeModules)
        s.compression.compresses ∧ t.name id = n

/-- Nothing but the fake root comes to the directories. -/
theorem get?_of_addFakeRoot {directories result : Table MappedDirectory} (h : addFakeRoot t s directories = .ok result)
    {path : String} {m : MappedDirectory} (hget : result.get? path = some m) :
    directories.get? path = some m ∨
      path = FakeRoot.path ∧ ∃ name fields, m = .fakeRoot name fields ∧ RootFields t s directories fields := by
  unfold addFakeRoot at h
  split at h
  · obtain ⟨-, fields, rfl, hfrom⟩ := FakeRoot.add_eq_ok h
    rw [Table.get?_insert] at hget
    split at hget
    · rename_i hpath
      cases hget
      exact .inr ⟨hpath, _, fields, rfl, fun n id => (hfrom n id).mp⟩
    · exact .inl hget
  · rw [← Except.ok.inj h] at hget
    exact .inl hget

theorem schema_of_addFakeRoot {directories result : Table MappedDirectory} (h : addFakeRoot t s directories = .ok result)
    {path : String} {id : NodeId} (hget : result.get? path = some (.schema id)) :
    directories.get? path = some (.schema id) := by
  refine (get?_of_addFakeRoot h hget).resolve_right ?_
  rintro ⟨-, _, _, hroot, -⟩
  cases hroot

/-- Discovery finds no fake root, so that one among the directories has been added. -/
theorem root_of_addFakeRoot {found : List Discovery.Finding} {result : Table MappedDirectory}
    (h : addFakeRoot t s (Discovery.directories t found) = .ok result) {path name : String} {fields : Table NodeId}
    (hget : result.get? path = some (.fakeRoot name fields)) :
    path = FakeRoot.path ∧ RootFields t s (Discovery.directories t found) fields := by
  rcases get?_of_addFakeRoot h hget with hfound | ⟨hpath, _, _, hroot, hfrom⟩
  · obtain ⟨_, hschema, -⟩ := Discovery.get?_directories_eq_some hfound
    cases hschema
  · obtain ⟨-, rfl⟩ := MappedDirectory.fakeRoot.inj hroot
    exact ⟨hpath, hfrom⟩

theorem get?_addFakeRoot {directories result : Table MappedDirectory} (h : addFakeRoot t s directories = .ok result)
    {path : String} (hpath : path ≠ FakeRoot.path) : result.get? path = directories.get? path := by
  unfold addFakeRoot at h
  split at h
  · obtain ⟨-, fields, rfl, -⟩ := FakeRoot.add_eq_ok h
    rw [Table.get?_insert_of_ne _ hpath]
  · rw [Except.ok.inj h]

/-- The fields of the fake root that is asked for are the top-level entities, under their names. -/
theorem exists_fakeRoot {directories result : Table MappedDirectory} (hs : s.withFakeRoot = true)
    (h : addFakeRoot t s directories = .ok result) : ∃ name fields, result.get? FakeRoot.path = some (.fakeRoot name fields) ∧
      ∀ n id, fields.get? n = some id ↔
        id ∈ FakeRoot.entities t directories (FakeRoot.topLeaves t t.generationRoots s.excludeModules)
          s.compression.compresses ∧ t.name id = n := by
  rw [addFakeRoot, if_pos hs] at h
  obtain ⟨-, fields, rfl, hfields⟩ := FakeRoot.add_eq_ok h
  exact ⟨_, fields, Table.get?_insert_self .., hfields⟩

/-! ### Without exclusions -/

/-- What discovery finds below the generation roots. -/
def found (t : SchemaTree) (compress : Bool) : List Discovery.Finding :=
  Discovery.findings t t.generationRoots [] compress

/-- The directories that discovery finds below the generation roots. -/
def discovered (t : SchemaTree) (compress : Bool) : Table MappedDirectory :=
  Discovery.directories t (found t compress)

/-- The enumerated leaves whose enumerations get names: those that discovery finds, and those to which the
    leafrefs of the generation roots lead. -/
def collected (t : SchemaTree) (compress : Bool) : Table NodeId :=
  Entities.addLeafrefTargets t (LeafIndex.ofTree t) t.generationRoots []
    (Discovery.enumLeaves t (found t compress))

/-- What is prepared where nothing is excluded. -/
structure Prepared (t : SchemaTree) (s : GenerateSettings) (input : Assembly.Input) : Prop where
  tree : input.tree = t
  index : input.index = LeafIndex.ofTree t
  settings : input.settings = s
  directories : addFakeRoot t s (discovered t s.compression.compresses) = .ok input.entities.directories
  leaves : input.entities.enumLeaves = collected t s.compression.compresses
  enums : (EnumSet.ofLeaves t (collected t s.compression.compresses) s.compression.compresses s.skipEnumDedup
    ∅).1 = .ok input.enums

theorem prepare_eq_ok (hs : s.excludeModules = []) (h : prepare t s = .ok input) : Prepared t s input := by
  obtain ⟨htree, hindex, hsettings, -, hdirectories, hleaves, henums⟩ := ready_of_prepare h
  have hfound : foundWithout t s = found t s.compression.compresses := by rw [foundWithout, hs, found]
  rw [hfound, hs] at hleaves
  rw [hfound] at hdirectories
  rw [hleaves] at henums
  exact ⟨htree, hindex, hsettings, hdirectories, hleaves, henums⟩

/-! ### Paths -/

/-- What is reached does not stand at the path of the fake root. -/
theorem pathString_ne_root (ht : t.Regular) {c : NodeId} (hc : Reached t c) : t.pathString c ≠ FakeRoot.path :=
  FakeRoot.intercalate_ne_path (ht.length_dataPath_of_reached hc)

/-! ### Kept directories -/

namespace Prepared

theorem get?_directories (h : Prepared t s input) {path : String} (hpath : path ≠ FakeRoot.path) :
    input.entities.directories.get? path = (discovered t s.compression.compresses).get? path :=
  get?_addFakeRoot h.directories hpath

/-- A path other than that of the fake root is kept if the directory found there is not left out as state. -/
theorem get?_kept (h : Prepared t s input) {path : String} (hpath : path ≠ FakeRoot.path) {dir : MappedDirectory} :
    input.kept.get? path = some dir ↔
      ∃ id, dir = .schema id ∧ (discovered t s.compression.compresses).get? path = some (.schema id) ∧
        Fields.isKept t s.compression.excludesState id = true := by
  rw [Assembly.Input.kept, Table.get?_filter_eq_some_iff, h.get?_directories hpath]
  constructor
  · rintro ⟨hget, hkeep⟩
    obtain ⟨id, rfl, -⟩ := Discovery.get?_directories_eq_some hget
    refine ⟨id, rfl, hget, ?_⟩
    simpa only [Assembly.Input.keeps, h.tree, h.settings] using hkeep
  · rintro ⟨id, rfl, hget, hkeep⟩
    refine ⟨hget, ?_⟩
    simpa only [Assembly.Input.keeps, h.tree, h.settings] using hkeep

/-- A kept node opens onto what it offers, and stands at its own path. -/
theorem of_get?_kept (h : Prepared t s input) (ht : t.Regular) {path : String} {id : NodeId}
    (hget : input.kept.get? path = some (.schema id)) :
    t.Opens id ∧ t.pathString id = path ∧ Fields.isKept t s.compression.excludesState id = true := by
  rw [Assembly.Input.kept, Table.get?_filter_eq_some_iff] at hget
  have hkeep : Fields.isKept t s.compression.excludesState id = true := by
    simpa only [Assembly.Input.keeps, h.tree, h.settings] using hget.2
  obtain ⟨d, hd, hmem, hstands⟩ := Discovery.get?_directories_eq_some (schema_of_addFakeRoot h.directories hget.1)
  cases hd
  obtain ⟨hreached, hkind, -⟩ := (Discovery.directory_mem_findings_iff ht).mp hmem
  exact ⟨.inr ⟨hreached, hkind⟩, hstands, hkeep⟩

end Prepared

end Generation

end SchemaIr
