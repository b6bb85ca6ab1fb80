import SchemaIr.Proofs.Generation.Targets
import SchemaIr.Proofs.Ir.Interchange
import SchemaIr.Proofs.Schema.Grown

/-! # The fake root as an extension

The fake root comes to a result and leaves the rest of it alone: a run that succeeds with the fake root succeeds without
it, and gives the same directories with the same fields and keys, and the same enumerations (`extendsByRoot_of_generate`).
As the fake root takes a name, too, other directories may be told apart from it by underscores. -/

namespace SchemaIr

/-- The first result is the second one with the fake root over it. Directories may differ in the underscores after their
    names, and with these in what fields and the names of unions take from them. -/
structure Ir.ExtendsByRoot (a b : Ir) : Prop where
  root : ∃ d, a.directories.get? FakeRoot.path = some d ∧ d.isFakeRoot = true
  rootless : b.directories.get? FakeRoot.path = none
  directories : ∀ path, path ≠ FakeRoot.path →
    Option.Rel (Directory.Matches MappedType.Alike) (a.directories.get? path) (b.directories.get? path)
  names : ∀ path d d', a.directories.get? path = some d → b.directories.get? path = some d' →
    ∃ wanted, NameRegistry.Disambiguates wanted d.name ∧ NameRegistry.Disambiguates wanted d'.name
  references : ∀ path d d' name f f', a.directories.get? path = some d → b.directories.get? path = some d' →
    d.fields.get? name = some f → d'.fields.get? name = some f' → a.SamePlace b f f'
  enumerations : a.enumerations = b.enumerations
  notes : ∀ note ∈ b.notes.items, note ∈ a.notes.items

namespace Assembly.Input

/-- What a directory wants to be called does not depend on what stands at the path of the fake root. -/
theorem wantedName_eq (input input' : Input) (hcompression : input'.settings.compression = input.settings.compression)
    (hdirectories : ∀ path, path ≠ FakeRoot.path →
      input'.entities.directories.get? path = input.entities.directories.get? path) (path : String) (m : MappedDirectory) :
    input'.wantedName path m = input.wantedName path m := by
  have hsegments : ∀ segments, input'.directorySegments segments = input.directorySegments segments := by
    intro segments
    refine List.filterMap_congr fun n hn => ?_
    -- Only prefixes of three segments and more are looked up.
    by_cases htwo : 2 ≤ n
    · have hlength : 3 ≤ (segments.take (n + 1)).length := by
        have hlt := List.mem_range.mp hn
        rw [List.length_take]
        omega
      rw [Table.contains, Table.contains, hdirectories _ (FakeRoot.intercalate_ne_path hlength)]
    · simp [htwo]
  cases m with
  | fakeRoot name nodes => rfl
  | schema id => simp only [wantedName, hcompression, hsegments]

end Assembly.Input

namespace Generation
variable {t : SchemaTree} {s : GenerateSettings} {input : Assembly.Input}

/-! ### Prepared without the fake root -/

/-- What is prepared, less the fake root. -/
def rootless (input : Assembly.Input) : Assembly.Input :=
  { input with
    entities := { input.entities with
      directories := Discovery.directories input.tree (foundWithout input.tree input.settings) }
    settings := { input.settings with withFakeRoot := false } }

theorem Ready.rootless (h : Ready t { s with withFakeRoot := true } input) :
    Ready t { s with withFakeRoot := false } (rootless input) := by
  obtain ⟨rfl, hindex, hsettings, hclean, -, hleaves, henums⟩ := h
  refine ⟨rfl, hindex, ?_, hclean, ?_, hleaves, henums⟩
  · simp only [Generation.rootless, hsettings]
  · simp only [Generation.rootless, hsettings]
    rfl

/-- Directories stand below modules, and so not at the path of the fake root. -/
theorem get?_directories_root (ht : t.Rooted) (found : List Discovery.Finding)
    (hfound : ∀ d, .directory d ∈ found → (t.kind d).isDirectory = true) :
    (Discovery.directories t found).get? FakeRoot.path = none := by
  cases hget : (Discovery.directories t found).get? FakeRoot.path with
  | none => rfl
  | some m =>
    obtain ⟨d, -, hd, hpath⟩ := Discovery.get?_directories_eq_some hget
    exact absurd hpath (FakeRoot.intercalate_ne_path (ht.three_le_length_dataPath (hfound d hd)))

namespace Ready
variable (h : Ready t { s with withFakeRoot := true } input)
include h

theorem get?_rootless {path : String} (hpath : path ≠ FakeRoot.path) :
    (Generation.rootless input).entities.directories.get? path = input.entities.directories.get? path := by
  rw [get?_addFakeRoot h.directories hpath, Generation.rootless, h.tree, h.settings]

theorem get?_kept_rootless {path : String} (hpath : path ≠ FakeRoot.path) :
    (Generation.rootless input).kept.get? path = input.kept.get? path := by
  ext m
  simp only [Assembly.Input.kept, Table.get?_filter_eq_some_iff, h.get?_rootless hpath]
  rfl

theorem get?_kept_root (ht : t.Rooted) : (Generation.rootless input).kept.get? FakeRoot.path = none := by
  refine Option.eq_none_iff_forall_ne_some.mpr fun m hm => ?_
  obtain ⟨hget, -⟩ := Table.get?_filter_eq_some_iff.mp hm
  rw [Generation.rootless, h.tree] at hget
  rw [get?_directories_root ht _ fun _ => isDirectory_of_foundWithout] at hget
  cases hget

/-- Without the fake root, the kept directories are those that are kept with it. -/
theorem get?_kept_of_rootless (ht : t.Rooted) {path : String} {m : MappedDirectory}
    (hm : (Generation.rootless input).kept.get? path = some m) : path ≠ FakeRoot.path ∧ input.kept.get? path = some m := by
  have hpath : path ≠ FakeRoot.path := by
    rintro rfl
    rw [h.get?_kept_root ht] at hm
    cases hm
  exact ⟨hpath, h.get?_kept_rootless hpath ▸ hm⟩

theorem exists_root {a : Ir} (ha : (input.build ∅).1 = some (.ok a)) :
    ∃ d, a.directories.get? FakeRoot.path = some d ∧ d.isFakeRoot = true := by
  obtain ⟨name, fields, hroot, -⟩ := exists_fakeRoot rfl h.directories
  have hkept : input.kept.get? FakeRoot.path = some (.fakeRoot name fields) :=
    Table.get?_filter_eq_some_iff.mpr ⟨hroot, rfl⟩
  obtain ⟨d, hd, -⟩ := Assembly.Input.exists_directory ha hkept
  obtain ⟨m, hm, hvalue⟩ := Assembly.Input.kept_of_directory ha hd
  rw [hkept] at hm
  cases hm
  cases hvalue
  exact ⟨_, hd, rfl⟩

end Ready

theorem parallel_rootless (input : Assembly.Input) :
    Assembly.Input.Parallel (fun _ => true) MappedType.Alike input (rootless input) where
  toComparable := Assembly.Input.comparable_of_types rfl rfl rfl
  keeps := rfl
  fields _ := rfl
  holders _ _ _ _ _ _ := rfl

/-! ### Results -/

theorem Ready.extendsByRoot (h : Ready t { s with withFakeRoot := true } input) (ht : t.Rooted) {a b : Ir}
    (ha : (input.build ∅).1 = some (.ok a)) (hb : ((Generation.rootless input).build ∅).1 = some (.ok b)) : a.ExtendsByRoot b := by
  have hparallel := parallel_rootless input
  have hpath : ∀ {path d'}, b.directories.get? path = some d' → path ≠ FakeRoot.path := fun hd' => by
    obtain ⟨m, hm, -⟩ := Assembly.Input.kept_of_directory hb hd'
    exact (h.get?_kept_of_rootless ht hm).1
  have hmatch : ∀ path, path ≠ FakeRoot.path →
      Option.Rel (Directory.Matches MappedType.Alike) (a.directories.get? path) (b.directories.get? path) :=
    fun path hpath => hparallel.directories_match ha hb (h.get?_kept_rootless hpath)
  refine ⟨h.exists_root ha, ?_, hmatch, fun path d d' hd hd' => ?_, fun path d d' name f f' hd hd' hf hf' => ?_, ?_,
    fun note hnote => ?_⟩
  · refine Option.eq_none_iff_forall_ne_some.mpr fun d hd => hpath hd rfl
  · obtain ⟨m, hm, hname⟩ := Assembly.Input.disambiguates_names (Assembly.Input.name_of_directory ha hd)
    obtain ⟨m', hm', hname'⟩ := Assembly.Input.disambiguates_names (Assembly.Input.name_of_directory hb hd')
    obtain rfl := Option.some.inj (hm.symm.trans (h.get?_kept_of_rootless ht hm').2)
    have hwanted := Assembly.Input.wantedName_eq input (Generation.rootless input) rfl (fun _ => h.get?_rootless) path m
    rw [hwanted] at hname'
    exact ⟨_, hname, hname'⟩
  · have hnode := hparallel.node_eq ha hb (h.get?_kept_rootless (hpath hd')) hd hd' hf hf'
    refine Assembly.Input.samePlace_of_kept input (Generation.rootless input) rfl ha hb hd hd' hf hf' hnode
      fun hkind => (h.get?_kept_rootless ?_).symm
    rw [h.tree] at hkind ⊢
    exact FakeRoot.intercalate_ne_path (ht.three_le_length_dataPath hkind)
  · rw [Assembly.Input.enumerations_of_build ha, Assembly.Input.enumerations_of_build hb]
    rfl
  · rw [Assembly.Input.notes_of_build hb, Diagnostics.mem_sort, Assembly.Input.buildDirectories_eq,
      Assembly.Input.mem_collect] at hnote
    rw [Assembly.Input.notes_of_build ha, Diagnostics.mem_sort, Assembly.Input.buildDirectories_eq,
      Assembly.Input.mem_collect]
    obtain ⟨path, m, hm, hnote⟩ := hnote
    refine ⟨path, m, (h.get?_kept_of_rootless ht hm).2, ?_⟩
    have htold := (@Assembly.Input.Parallel.buildDirectory_matches _ _ _ _ (input.names ∅).1
      ((Generation.rootless input).names ∅).1 hparallel path m).diagnostics
    simp only [List.filter_true] at htold
    rwa [htold]

/-- A run that succeeds with the fake root succeeds without it, and its result has the fake root over the same
    directories. -/
theorem extendsByRoot_of_generate (ht : t.Grown) {a : Ir} (h : t.generate { s with withFakeRoot := true } = some (.ok a)) :
    ∃ b, t.generate { s with withFakeRoot := false } = some (.ok b) ∧ a.ExtendsByRoot b := by
  obtain ⟨input, hprepare, ha⟩ := generate_eq_ok h
  have hready := ready_of_prepare hprepare
  obtain ⟨b, hb⟩ := (parallel_rootless input).exists_build (fun _ _ => rfl)
    (fun path m hm => (hready.get?_kept_of_rootless ht.rooted hm).2) ha
  refine ⟨b, ?_, hready.extendsByRoot ht.rooted ha hb⟩
  rw [generate_of_prepare (prepare_of_ready hready.rootless), hb]

/-- A container that wants the name of the fake root, with a union in it. -/
def namedDevice : Library :=
  let union : TypeDescriptor := { TypeDescriptor.ofKind .union with members := [.ofKind .string, .ofKind .uint8] }
  let node (name : String) (kind : NodeKind) (type : Option TypeDescriptor) (children : List NodeDocument) : NodeDocument :=
    ⟨name, kind, children, type, none, none, none, none⟩
  .ofList [("m", ⟨⟨"m", "urn:m", none, [], [node "device" .container none
    [node "id" .leaf (some union) [], node "slot" .container none [node "x" .leaf (some (.ofKind .string)) []]]]⟩,
    "m.json", false⟩)]

theorem namedDevice_named : namedDevice.Named := Library.Named.empty.insert rfl

theorem namedDevice_extendsByRoot : ∃ t a b d d', namedDevice.tree = .ok t ∧ t.Grown ∧
    t.generate { GenerateSettings.default with compression := .preferConfig, withFakeRoot := true } = some (.ok a) ∧
    t.generate { GenerateSettings.default with compression := .preferConfig, withFakeRoot := false } = some (.ok b) ∧
    a.ExtendsByRoot b ∧ a.directories.get? "/m/device" = some d ∧ b.directories.get? "/m/device" = some d' ∧
    d.name = "Device_" ∧ d'.name = "Device" := by
  have hrun : (namedDevice.tree.toOption.any fun t =>
      (result? (t.generate { GenerateSettings.default with compression := .preferConfig, withFakeRoot := true })).any
        fun a => (result? (t.generate { GenerateSettings.default with compression := .preferConfig })).any fun b =>
          (a.directories.get? "/m/device").any fun d => (b.directories.get? "/m/device").any fun d' =>
            d.name == "Device_" && d'.name == "Device") = true := by
    decide +kernel
  obtain ⟨t, ht, hfacts⟩ := (Option.any_eq_true ..).mp hrun
  obtain ⟨a, ha, hfacts⟩ := (Option.any_eq_true ..).mp hfacts
  obtain ⟨b, hb, hfacts⟩ := (Option.any_eq_true ..).mp hfacts
  obtain ⟨d, hd, hfacts⟩ := (Option.any_eq_true ..).mp hfacts
  obtain ⟨d', hd', hnames⟩ := (Option.any_eq_true ..).mp hfacts
  simp only [Bool.and_eq_true, beq_iff_eq] at hnames
  have hgrown : t.Grown := SchemaTree.Loaded.grown ⟨namedDevice, namedDevice_named, ok_of_toOption ht⟩
  have ha := some_ok_of_result? ha
  obtain ⟨b', hb', hextends⟩ := @extendsByRoot_of_generate t
    { GenerateSettings.default with compression := .preferConfig } hgrown a ha
  obtain rfl : b = b' := Except.ok.inj (Option.some.inj ((some_ok_of_result? hb).symm.trans hb'))
  exact ⟨t, a, b, d, d', ok_of_toOption ht, hgrown, ha, hb', hextends, hd, hd', hnames⟩

end Generation

end SchemaIr
