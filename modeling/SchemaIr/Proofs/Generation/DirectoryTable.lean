import SchemaIr.Proofs.Generation.Targets
import SchemaIr.Proofs.Ir.Names

/-! # The table of directories

Whatever the tree and the settings, the directories of a result stand at their own paths, under names that tell them
apart, and a field names nothing but the one directory at the path of its node (`Ir.WellKeyed`). -/

namespace SchemaIr

namespace Ir

/-- Exactly one directory has the name, and it stands at the path. -/
def NamesOnly (ir : Ir) (name path : String) : Prop :=
  ∃ d, ir.directories.get? path = some d ∧ d.name = name ∧
    ∀ p e, ir.directories.get? p = some e → e.name = name → p = path ∧ e = d

/-- Names tell the directories apart, and lead to them from outside as well as from fields; so do their paths. -/
structure WellKeyed (t : SchemaTree) (ir : Ir) : Prop where
  distinct : (ir.directories.values.map (·.name)).Nodup
  pathString : ∀ {p d}, ir.directories.get? p = some d → d.pathString = p
  directoryNamed : ∀ {p d}, ir.directories.get? p = some d → ir.directoryNamed? d.name = some d
  referenced : ∀ {p d n f name}, ir.directories.get? p = some d → d.fields.get? n = some f →
    f.directory = some name → ir.NamesOnly name (t.pathString f.node)

end Ir

namespace Assembly.Input
variable {input : Input} {registry : NameRegistry} {ir : Ir}

theorem namesOnly_of_directory (h : (input.build registry).1 = some (.ok ir)) {path : String} {d : Directory}
    (hd : ir.directories.get? path = some d) : ir.NamesOnly d.name path := by
  refine ⟨d, hd, rfl, fun p e he hname => ?_⟩
  obtain rfl := path_eq_of_name h he hd hname
  rw [hd] at he
  cases he
  exact ⟨rfl, rfl⟩

/-- The name that a field gives is that of the directory at the path of its node. -/
theorem namesOnly_of_field (h : (input.build registry).1 = some (.ok ir)) {path n name : String} {d : Directory} {f : Field}
    (hd : ir.directories.get? path = some d) (hf : d.fields.get? n = some f) (hname : f.directory = some name) :
    ir.NamesOnly name (input.tree.pathString f.node) := by
  have hdirectory := (field_of_directory h hd hf).2
  rw [hname] at hdirectory
  split at hdirectory
  · obtain ⟨mapped, hkept, -⟩ := disambiguates_names hdirectory.symm
    obtain ⟨e, he, hgiven⟩ := exists_directory h hkept
    have hsame : name = e.name := Option.some.inj (hdirectory.trans hgiven)
    exact hsame ▸ namesOnly_of_directory h he
  · cases hdirectory

end Assembly.Input

namespace Generation
variable {t : SchemaTree} {s : GenerateSettings} {input : Assembly.Input} {ir : Ir}

/-- Discovery puts every directory at its path, and the fake root is put at the path that it has. -/
theorem Ready.pathString_of_directory (h : Ready t s input) (hbuild : (input.build ∅).1 = some (.ok ir)) {path : String}
    {d : Directory} (hd : ir.directories.get? path = some d) : d.pathString = path := by
  rcases Assembly.Input.built_of_directory hbuild hd with ⟨id, hkept, hbuilt⟩ | ⟨_, nodes, hkept, hbuilt⟩
  · have hfound := schema_of_addFakeRoot h.directories (Table.get?_filter_eq_some_iff.mp hkept).1
    obtain ⟨_, heq, -, hpath⟩ := Discovery.get?_directories_eq_some hfound
    cases heq
    rw [Directory.pathString, hbuilt.isFakeRoot, hbuilt.path, h.tree]
    exact hpath
  · have hroot := (root_of_addFakeRoot h.directories (Table.get?_filter_eq_some_iff.mp hkept).1).1
    rw [Directory.pathString, hbuilt.isFakeRoot, hroot]
    rfl

/-- Every result has a well-formed table of directories. -/
theorem wellKeyed_of_generate (h : t.generate s = some (.ok ir)) : ir.WellKeyed t := by
  obtain ⟨input, hprepare, hbuild⟩ := generate_eq_ok h
  have hready := ready_of_prepare hprepare
  have hunique : ∀ {p q d e}, ir.directories.get? p = some d → ir.directories.get? q = some e → d.name = e.name →
      p = q := Assembly.Input.path_eq_of_name hbuild
  refine ⟨Table.nodup_map_values hunique, hready.pathString_of_directory hbuild, fun hd => ?_, ?_⟩
  · exact Table.find?_values hd (by simp) fun he hname => hunique he hd (by simpa using hname)
  · intro p d n f name hd hf hname
    exact hready.tree ▸ Assembly.Input.namesOnly_of_field hbuild hd hf hname

/-- Two containers that want the same name, each with a container in it. -/
def namesakes : Library :=
  let string := some (TypeDescriptor.ofKind .string)
  let node (name : String) (kind : NodeKind) (type : Option TypeDescriptor) (children : List NodeDocument) : NodeDocument :=
    ⟨name, kind, children, type, none, none, none, none⟩
  let inner : NodeDocument := node "state-of" .container none [node "x" .leaf string []]
  .ofList [("m", ⟨⟨"m", "urn:m", none, [], [node "up-time" .container none [inner], node "upTime" .container none [inner]]⟩,
    "m.json", false⟩)]

theorem namesakes_wellKeyed : ∃ t ir dir f, namesakes.tree = .ok t ∧
    t.generate { GenerateSettings.default with compression := .preferConfig } = some (.ok ir) ∧
      ir.directories.get? "/m/upTime" = some dir ∧ dir.fields.get? "state-of" = some f ∧
      f.directory = some "UpTime_StateOf_" ∧ ir.WellKeyed t := by
  have hrun : (field? namesakes { GenerateSettings.default with compression := .preferConfig } "/m/upTime"
      "state-of").map (fun r => r.2.2.2.directory) = some (some "UpTime_StateOf_") := by
    decide +kernel
  obtain ⟨⟨t, ir, dir, f⟩, hfield, hname⟩ := Option.map_eq_some_iff.mp hrun
  obtain ⟨ht, hir, hdir, hf⟩ := field?_eq_some hfield
  exact ⟨t, ir, dir, f, ht, hir, hdir, hf, hname, wellKeyed_of_generate hir⟩

end Generation

end SchemaIr
