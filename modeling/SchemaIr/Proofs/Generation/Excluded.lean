import SchemaIr.Proofs.Generation.Owned

/-! # What exclusion leaves out

Discovery leaves out what stands below an excluded node, but it does not look at a choice or case right inside another
one (`Passes`). The fields of a directory are looked at one by one, without what stands between them and the
directory, be it a choice, a case or a merged wrapper. What exclusion overlooks is there and nowhere else
(`excluded_overlooked`). -/

namespace SchemaIr

namespace Generation
open Discovery (Passes isMerged isNestedChoice)
open SchemaTree (Offers Reached Regular)

variable {t : SchemaTree} {s : GenerateSettings} {input : Assembly.Input} {ir : Ir}

/-! ### Directories -/

/-- A container or list that is reached, that exclusion lets pass, and that is not merged. -/
structure Shown (t : SchemaTree) (s : GenerateSettings) (id : NodeId) : Prop where
  reached : Reached t id
  kind : (t.kind id).isDirectory = true
  kept : isMerged t s.compression.compresses id = false
  passes : Passes t s.excludeModules id

theorem FoundAt.shown (ht : t.Regular) {path : String} {id : NodeId} (h : FoundAt t s path id) : Shown t s id := by
  obtain ⟨_, heq, hmem, -⟩ := Discovery.get?_directories_eq_some h.get?
  cases heq
  exact ⟨h.reached, h.kind, h.kept, ((Discovery.directory_mem_findings_passes_iff ht).mp hmem).2.2.2⟩

/-- There is a directory at the paths of the nodes that are shown, and at no other one. -/
theorem Ready.exists_directory_iff (h : Ready t s input) (ht : t.Regular) {path : String} :
    (∃ id, input.entities.directories.get? path = some (.schema id)) ↔ ∃ id, Shown t s id ∧ t.pathString id = path := by
  constructor
  · rintro ⟨id, hget⟩
    obtain ⟨_, heq, hfound⟩ := FoundAt.of_get? ht (h.finds hget)
    cases heq
    exact ⟨id, hfound.shown ht, hfound.path⟩
  · rintro ⟨id, hshown, rfl⟩
    have hmem : .directory id ∈ foundWithout t s := (Discovery.directory_mem_findings_passes_iff ht).mpr
      ⟨hshown.reached, hshown.kind, hshown.kept, hshown.passes⟩
    obtain ⟨e, he⟩ := Discovery.exists_get?_directories (t := t) hmem
    rw [get?_addFakeRoot h.directories (pathString_ne_root ht hshown.reached)]
    exact ⟨e, he⟩

/-! ### Fields -/

/-- What becomes the field of a name: the first candidate, unless it is excluded itself or of no kind for a field. -/
structure FieldOf (t : SchemaTree) (s : GenerateSettings) (dir : NodeId) (name : String) (c : NodeId) : Prop where
  first : ((Fields.candidates t s.compression dir).find? fun c => t.name c.node = name).map (·.node) = some c
  included : t.isExcluded s.excludeModules c = false
  kind : ∃ kind, FieldKind.ofNode? (t.kind c) = some kind

/-- The fields of the directory of a node. -/
theorem Ready.exists_field_iff (h : Ready t s input) (ht : t.Regular) {names : Table String} {path : String} {id : NodeId}
    {d : Directory} (hkept : input.kept.get? path = some (.schema id))
    (hbuilt : Assembly.Input.SchemaBuilt input names path id d) {name : String} {c : NodeId} :
    (∃ f, d.fields.get? name = some f ∧ f.node = c) ↔ FieldOf t s id name c := by
  obtain ⟨-, hkeep⟩ := h.foundAt_of_get?_kept ht hkept
  obtain ⟨nodes, hnodes, hfields⟩ := hbuilt.fields
  rw [h.tree, h.settings] at hnodes
  rw [hfields, Assembly.Input.exists_field_iff, h.tree, h.settings, SchemaTree.fields_eq_ok hnodes hkeep]
  constructor
  · rintro ⟨hfirst, hincluded, hkind⟩
    exact ⟨hfirst, hincluded, hkind⟩
  · rintro ⟨hfirst, hincluded, hkind⟩
    exact ⟨hfirst, hincluded, hkind⟩

/-- An excluded node above a field that nothing has looked at: a choice or case right inside another one, or a choice,
    case or merged wrapper between the field and its directory. -/
inductive Overlooked (t : SchemaTree) (compress : Bool) (dir a : NodeId) : Prop
  | nested : isNestedChoice t a = true → Overlooked t compress dir a
  | between : a ∉ t.lineage dir → (t.kind a).isChoiceOrCase = true ∨ isMerged t compress a = true →
      Overlooked t compress dir a

theorem FieldOf.overlooked (ht : t.Regular) {path name : String} {id c : NodeId} (hid : FoundAt t s path id)
    (h : FieldOf t s id name c) {a : NodeId} (ha : a ∈ t.ancestors c) (hexcluded : t.isExcluded s.excludeModules a = true) :
    Overlooked t s.compression.compresses id a := by
  obtain ⟨candidate, hfind, rfl⟩ := Option.map_eq_some_iff.mp h.first
  have howner := Fields.owner?_of_candidate ht (NodeKind.isChoiceOrCase_of_isDirectory hid.kind) hid.kept
    (List.mem_of_find?_eq_some hfind)
  by_cases habove : a ∈ t.lineage id
  · exact .nested ((hid.shown ht).passes a habove hexcluded)
  · exact .between habove ((Fields.mem_ancestors_cases howner ha).resolve_left habove)

/-! ### The fake root -/

theorem passes_of_topDirectory (ht : t.Regular) {compress : Bool} {c : NodeId}
    (h : c ∈ FakeRoot.topDirectories t (Discovery.directories t (foundWithout t s)) compress) :
    Passes t s.excludeModules c := by
  obtain ⟨path, hget⟩ := FakeRoot.mem_topDirectories h
  obtain ⟨_, heq, hfound⟩ := FoundAt.of_get? ht hget
  cases heq
  exact (hfound.shown ht).passes

/-- Above a top-level leaf no root is excluded: what is stands between the root and the leaf. -/
theorem isChoiceOrCase_of_topLeaf (ht : t.Regular) {excluded : List String} {c a : NodeId}
    (h : c ∈ FakeRoot.topLeaves t t.generationRoots excluded) (ha : a ∈ t.ancestors c)
    (hexcluded : t.isExcluded excluded a = true) : (t.kind a).isChoiceOrCase = true := by
  obtain ⟨r, hr, hc⟩ := List.mem_flatMap.mp h
  obtain ⟨hr, hincluded⟩ := List.mem_filter.mp hr
  have hoffers := SchemaTree.mem_dataChildren.mp (List.mem_filter.mp hc).1
  have howner : Fields.owner? t false c = some r := FakeRoot.owner?_of_topLeaf ht hr hoffers
  rcases Fields.mem_ancestors_cases howner ha with habove | hchoice | hmerged
  · rw [SchemaTree.lineage_of_root (SchemaTree.parent?_of_mem_generationRoots ht hr), List.mem_singleton] at habove
    rw [habove] at hexcluded
    simp [hexcluded] at hincluded
  · exact hchoice
  · simp [isMerged, Discovery.isElided] at hmerged

/-! ### What is overlooked -/

/-- Whatever is excluded: there is a directory at the paths of the nodes that exclusion lets pass, and at no other one;
    the field of a name in it is the first candidate that is not excluded itself; and an excluded node above the
    directory or the field has been overlooked. In the fake root only choices and cases can be. -/
theorem excluded_overlooked (ht : t.Loaded) (h : t.generate s = some (.ok ir)) : ∃ input, prepare t s = .ok input ∧
    (∀ path, (∃ id, input.entities.directories.get? path = some (.schema id)) ↔
      ∃ id, Shown t s id ∧ t.pathString id = path) ∧
    (∀ path d, ir.directories.get? path = some d → d.isFakeRoot = false →
      ∃ id, input.entities.directories.get? path = some (.schema id) ∧ d.path = t.dataPath id ∧
        (∀ a ∈ t.lineage id, t.isExcluded s.excludeModules a = true → isNestedChoice t a = true) ∧
        (∀ name c, (∃ f, d.fields.get? name = some f ∧ f.node = c) ↔ FieldOf t s id name c) ∧
        ∀ name f, d.fields.get? name = some f → ∀ a ∈ t.lineage f.node, t.isExcluded s.excludeModules a = true →
          Overlooked t s.compression.compresses id a) ∧
    ∀ path d, ir.directories.get? path = some d → d.isFakeRoot = true → ∀ name f, d.fields.get? name = some f →
      ∀ a ∈ t.lineage f.node, t.isExcluded s.excludeModules a = true → (t.kind a).isChoiceOrCase = true := by
  have hregular := ht.regular
  obtain ⟨input, hprepare, hbuild⟩ := generate_eq_ok h
  have hready := ready_of_prepare hprepare
  refine ⟨input, hprepare, fun path => hready.exists_directory_iff hregular, fun path d hd hplain => ?_,
    fun path d hd hroot name f hf a ha hexcluded => ?_⟩
  · obtain ⟨id, hkept, hbuilt⟩ := Assembly.Input.schema_of_directory hbuild hd hplain
    obtain ⟨hfound, -⟩ := hready.foundAt_of_get?_kept hregular hkept
    have hfields : ∀ name c, (∃ f, d.fields.get? name = some f ∧ f.node = c) ↔ FieldOf t s id name c :=
      fun name c => hready.exists_field_iff hregular hkept hbuilt
    refine ⟨id, (Table.get?_filter_eq_some_iff.mp hkept).1, hready.tree ▸ hbuilt.path, (hfound.shown hregular).passes,
      hfields, fun name f hf a ha hexcluded => ?_⟩
    have hfield := (hfields name f.node).mp ⟨f, hf, rfl⟩
    rw [SchemaTree.lineage_eq] at ha
    rcases List.mem_cons.mp ha with rfl | ha
    · rw [hfield.included] at hexcluded
      cases hexcluded
    · exact hfield.overlooked hregular hfound ha hexcluded
  · obtain ⟨rootName, nodes, hkept, hbuilt⟩ := Assembly.Input.root_of_directory hbuild hd hroot
    obtain ⟨-, hfrom⟩ := root_of_addFakeRoot hready.directories (Table.get?_filter_eq_some_iff.mp hkept).1
    rw [hbuilt.fields] at hf
    obtain ⟨hnode, hincluded, -⟩ := Assembly.Input.exists_field_iff.mp ⟨f, hf, rfl⟩
    rw [hready.tree, hready.settings] at hincluded
    obtain ⟨hentity, -⟩ := hfrom name _ (Table.get?_filter_eq_some_iff.mp hnode).1
    rcases List.mem_append.mp hentity with htop | hleaf
    · have hnested := passes_of_topDirectory hregular htop a ha hexcluded
      exact (Bool.and_eq_true_iff.mp hnested).1
    · rw [SchemaTree.lineage_eq] at ha
      rcases List.mem_cons.mp ha with rfl | ha
      · rw [hincluded] at hexcluded
        cases hexcluded
      · exact isChoiceOrCase_of_topLeaf hregular hleaf ha hexcluded

/-- A container of one module in a case that another module adds to a choice. -/
def foreignCase : Library :=
  let node (name : String) (kind : NodeKind) (module : Option String) (children : List NodeDocument) : NodeDocument :=
    ⟨name, kind, children, none, none, none, module, none⟩
  let leaf : NodeDocument := ⟨"y", .leaf, [], some (.ofKind .string), none, none, none, none⟩
  .ofList
    [("aug", ⟨⟨"aug", "urn:aug", none, [], []⟩, "aug.json", true⟩),
      ("m", ⟨⟨"m", "urn:m", none, ["aug"],
        [node "top" .container none [node "ch" .choice none
          [node "one" .case (some "aug") [node "inner" .container (some "m") [leaf]]]]]⟩, "m.json", false⟩)]

/-- Settings that exclude the module of the case. -/
def withoutForeign : GenerateSettings := { GenerateSettings.default with excludeModules := ["aug"] }

theorem foreignCase_named : foreignCase.Named := by
  refine (Library.Named.empty.insert ?_).insert ?_ <;> rfl

theorem foreignCase_field : ∃ t ir d f a, foreignCase.tree = .ok t ∧ t.generate withoutForeign = some (.ok ir) ∧
    ir.directories.get? "/m/top" = some d ∧ d.fields.get? "inner" = some f ∧ d.isFakeRoot = false ∧
      a ∈ t.ancestors f.node ∧ t.isExcluded withoutForeign.excludeModules a = true ∧
        ∃ d', ir.directories.get? (t.pathString f.node) = some d' ∧ d'.isFakeRoot = false ∧
          d'.path = t.dataPath f.node := by
  have hrun : ((field? foreignCase withoutForeign "/m/top" "inner").any fun r =>
      !r.2.2.1.isFakeRoot && (r.1.ancestors r.2.2.2.node).any (r.1.isExcluded withoutForeign.excludeModules) &&
        (r.2.1.directories.get? (r.1.pathString r.2.2.2.node)).any fun d =>
          !d.isFakeRoot && d.path == r.1.dataPath r.2.2.2.node) = true := by
    decide +kernel
  obtain ⟨⟨t, ir, d, f⟩, hfield, hfacts⟩ := (Option.any_eq_true ..).mp hrun
  simp only [Bool.and_eq_true, Bool.not_eq_true'] at hfacts
  obtain ⟨⟨hplain, habove⟩, hbelow⟩ := hfacts
  obtain ⟨a, ha, hexcluded⟩ := List.any_eq_true.mp habove
  obtain ⟨d', hd', hfacts'⟩ := (Option.any_eq_true ..).mp hbelow
  simp only [Bool.and_eq_true, Bool.not_eq_true', beq_iff_eq] at hfacts'
  obtain ⟨ht, hir, hd, hf⟩ := field?_eq_some hfield
  exact ⟨t, ir, d, f, a, ht, hir, hd, hf, hplain, ha, hexcluded, d', hd', hfacts'⟩

/-- The case has been overlooked above the field. -/
theorem foreignCase_overlooked : ∃ t ir d f id a, foreignCase.tree = .ok t ∧ t.generate withoutForeign = some (.ok ir) ∧
    ir.directories.get? "/m/top" = some d ∧ d.fields.get? "inner" = some f ∧ FieldOf t withoutForeign id "inner" f.node ∧
      a ∈ t.lineage f.node ∧ t.isExcluded withoutForeign.excludeModules a = true ∧ Overlooked t false id a := by
  obtain ⟨t, ir, d, f, a, ht, hir, hd, hf, hplain, ha, hexcluded, -⟩ := foreignCase_field
  have hloaded : t.Loaded := ⟨foreignCase, foreignCase_named, ht⟩
  obtain ⟨input, -, -, hdirectories, -⟩ := excluded_overlooked hloaded hir
  obtain ⟨id, -, -, -, hfields, hoverlooked⟩ := hdirectories _ d hd hplain
  have habove : a ∈ t.lineage f.node := by
    rw [SchemaTree.lineage_eq]
    exact List.mem_cons_of_mem _ ha
  exact ⟨t, ir, d, f, id, a, ht, hir, hd, hf, (hfields _ _).mp ⟨f, hf, rfl⟩, habove, hexcluded,
    hoverlooked _ f hf a habove hexcluded⟩

/-- A directory and a field come from below the excluded case. -/
theorem foreignCase_shows_excluded : ∃ t ir d f d' a, foreignCase.tree = .ok t ∧ t.Loaded ∧
    t.generate withoutForeign = some (.ok ir) ∧ ir.directories.get? "/m/top" = some d ∧ d.fields.get? "inner" = some f ∧
      ir.directories.get? (t.pathString f.node) = some d' ∧ d'.isFakeRoot = false ∧ d'.path = t.dataPath f.node ∧
        a ∈ t.ancestors f.node ∧ t.isExcluded withoutForeign.excludeModules a = true := by
  obtain ⟨t, ir, d, f, a, ht, hir, hd, hf, -, ha, hexcluded, d', hd', hplain', hpath⟩ := foreignCase_field
  exact ⟨t, ir, d, f, d', a, ht, ⟨foreignCase, foreignCase_named, ht⟩, hir, hd, hf, hd', hplain', hpath, ha, hexcluded⟩

end Generation

end SchemaIr
