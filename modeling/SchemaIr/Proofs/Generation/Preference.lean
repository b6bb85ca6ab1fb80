import SchemaIr.Loading.Tree
import SchemaIr.Proofs.Directory.Preference
import SchemaIr.Proofs.Generation.Prepare
import SchemaIr.Proofs.Ir.Built
import SchemaIr.Proofs.Text.Pieces

/-! # Results with either preference

To prefer configuration and to prefer state are mirror images: directories have fields of the same names with either, and
a leaf that stands in both wrappers is taken from the preferred one, with its path through the other one beside it
(`mirrored`). -/

namespace SchemaIr

/-- The wrapper that is not preferred. -/
def Compression.shadowed : Compression → String
  | preferState => "config"
  | _ => "state"

namespace Assembly
variable {t : SchemaTree} {dir w w' leaf leaf' : NodeId} {wrapper other name : String}

theorem relativePath_of_wraps (ht : t.Rooted) (h : t.Wraps dir wrapper w name leaf) :
    Input.relativePath t dir leaf = wrapper ++ "/" ++ name := by
  rw [Input.relativePath, h.dataPath ht, List.drop_left]
  rfl

theorem shadowPath?_of_wraps (ht : t.Rooted) {compression : Compression}
    (h : t.Wraps dir compression.preferred w name leaf) (h' : t.Wraps dir compression.shadowed w' name leaf') :
    Input.shadowPath? t leaf (compression.preferred ++ "/" ++ name) = some (compression.shadowed ++ "/" ++ name) := by
  obtain ⟨hw, hwname⟩ := ht.up h.outer
  obtain ⟨hleaf, hleafname⟩ := ht.up h.inner
  have hother : compression.shadowed = if compression.preferred = "config" then "state" else "config" := by
    cases compression <;> rfl
  have hplain : '/' ∉ compression.preferred.toList := by
    cases compression <;> decide
  have hkind := h.isConfigOrState ht (SchemaTree.preferred_eq compression)
  simp only [Input.shadowPath?, hleaf, Option.filter_some, hkind, if_true, Option.bind_eq_bind, Option.bind_some, hw, hwname,
    ← hother, h'.outer, hleafname, h'.inner, Text.cutAt?_append (show "/".toList = ['/'] from rfl) hplain]
  rfl

end Assembly

namespace Generation
variable {t : SchemaTree} {s : GenerateSettings} {input : Assembly.Input} {ir : Ir} {dir w w' leaf leaf' : NodeId}
  {name path : String} {d : Directory}

/-- Where data paths are distinct, a directory is that of the node whose path it has. -/
theorem Ready.built_of_path (h : Ready t s input) (ht : t.Rooted) (hdistinct : t.DistinctDataPaths)
    (hdir : (t.kind dir).isDirectory = true) (hbuild : (input.build ∅).1 = some (.ok ir)) (hd : ir.directories.get? path = some d)
    (hpath : d.path = t.dataPath dir) :
    Assembly.Input.SchemaBuilt input (input.names ∅).1 path dir d := by
  rcases Assembly.Input.built_of_directory hbuild hd with ⟨id, hkept, hbuilt⟩ | ⟨_, _, -, hbuilt⟩
  · have hfound := schema_of_addFakeRoot h.directories (Table.get?_filter_eq_some_iff.mp hkept).1
    obtain ⟨_, heq, hmem, -⟩ := Discovery.get?_directories_eq_some hfound
    cases heq
    have hid := isDirectory_of_foundWithout hmem
    have hsame : dir = id := by
      refine hdistinct _ _ (SchemaTree.lt_size_of_isDirectory hdir) (SchemaTree.lt_size_of_isDirectory hid)
        (NodeKind.isChoiceOrCase_of_isDirectory hdir) (NodeKind.isChoiceOrCase_of_isDirectory hid) ?_
      rw [← hpath, hbuilt.path, h.tree]
    exact hsame ▸ hbuilt
  · -- The path of the fake root is too short for that of a node.
    have hthree := ht.three_le_length_dataPath hdir
    rw [← hpath, hbuilt.path] at hthree
    exact absurd hthree (by decide)

/-- A leaf that stands in both wrappers has the field of its name, with its path through the preferred wrapper and its
    path through the other one. -/
theorem field_of_wraps (ht : t.Rooted) (hdistinct : t.DistinctDataPaths) (hdir : (t.kind dir).isDirectory = true)
    (hs : s.excludeModules = []) (hcomp : s.compression.compresses = true) (hstate : s.compression.excludesState = false)
    (hwraps : t.Wraps dir s.compression.preferred w name leaf) (htwin : t.Wraps dir s.compression.shadowed w' name leaf')
    (h : t.generate s = some (.ok ir)) (hd : ir.directories.get? path = some d) (hpath : d.path = t.dataPath dir) :
    ∃ f, d.fields.get? name = some f ∧ f.node = leaf ∧ f.schemaPath = s.compression.preferred ++ "/" ++ name ∧
      f.shadowPath = some (s.compression.shadowed ++ "/" ++ name) := by
  obtain ⟨input, hprepare, hbuild⟩ := generate_eq_ok h
  have hready := ready_of_prepare hprepare
  obtain ⟨nodes, hnodes, hfields⟩ := (hready.built_of_path ht hdistinct hdir hbuild hd hpath).fields
  rw [hready.tree, hready.settings] at hnodes
  have hnode := SchemaTree.get?_fields_of_preferred ht hdistinct hcomp hstate hwraps hnodes
  obtain ⟨b, hb⟩ : ∃ b, input.field? (input.names ∅).1 d.name name leaf (s.compression.preferred ++ "/" ++ name) = some b := by
    refine Assembly.Input.exists_field?_iff.mpr ?_
    rw [hready.tree, hready.settings, hs, SchemaTree.isExcluded_nil]
    have hleaf := hwraps.isLeafLike
    cases hkind : t.kind leaf <;> rw [hkind] at hleaf <;> cases hleaf
    all_goals exact ⟨rfl, _, rfl⟩
  refine ⟨b.value, ?_, (Assembly.Input.field?_place hb).1, (Assembly.Input.field?_place hb).2, ?_⟩
  · rw [hfields, hready.tree]
    refine Assembly.Input.get?_buildFields_iff.mpr ⟨leaf, b, hnode, ?_, rfl⟩
    rwa [Assembly.relativePath_of_wraps ht hwraps]
  · rw [Assembly.Input.field?_shadowPath hb, hready.tree, hwraps.isLeafLike, if_pos rfl, Assembly.Input.shownShadow?,
      hready.settings, hcomp, hstate, hready.tree]
    exact Assembly.shadowPath?_of_wraps ht hwraps htwin

/-- Preferring configuration and preferring state do the same to a directory, each with the other's wrappers. -/
structure Mirrored (t : SchemaTree) (dir : NodeId) : Prop where
  names : ∀ fs fs', t.fields .preferConfig dir = .ok fs → t.fields .preferState dir = .ok fs' →
    ∀ name, fs.contains name = fs'.contains name
  chosen : ∀ name w w' x y, t.Wraps dir "config" w name x → t.Wraps dir "state" w' name y →
    (∀ fs, t.fields .preferConfig dir = .ok fs → fs.get? name = some x) ∧
      ∀ fs, t.fields .preferState dir = .ok fs → fs.get? name = some y
  built : ∀ name w w' x y, t.Wraps dir "config" w name x → t.Wraps dir "state" w' name y →
    ∀ s : GenerateSettings, s.excludeModules = [] → ∀ path d, d.path = t.dataPath dir →
    (∀ ir, t.generate { s with compression := .preferConfig } = some (.ok ir) → ir.directories.get? path = some d →
      ∃ f, d.fields.get? name = some f ∧ f.node = x ∧ f.schemaPath = "config/" ++ name ∧
        f.shadowPath = some ("state/" ++ name)) ∧
    ∀ ir, t.generate { s with compression := .preferState } = some (.ok ir) → ir.directories.get? path = some d →
      ∃ f, d.fields.get? name = some f ∧ f.node = y ∧ f.schemaPath = "state/" ++ name ∧
        f.shadowPath = some ("config/" ++ name)

/-- In every tree of distinct data paths the two preferences mirror each other. -/
theorem mirrored (ht : t.Grown) (hdistinct : t.DistinctDataPaths) (hdir : (t.kind dir).isDirectory = true) : Mirrored t dir where
  names _ _ h h' := SchemaTree.contains_fields_eq h h' rfl rfl rfl rfl
  chosen _ _ _ _ _ hx hy :=
    ⟨fun _ => SchemaTree.get?_fields_of_preferred ht.rooted hdistinct rfl rfl hx,
      fun _ => SchemaTree.get?_fields_of_preferred ht.rooted hdistinct rfl rfl hy⟩
  built _ _ _ _ _ hx hy s hs _ _ hpath :=
    ⟨fun _ h hd => @field_of_wraps t { s with compression := .preferConfig } _ _ _ _ _ _ _ _ _ ht.rooted hdistinct hdir hs rfl
        rfl hx hy h hd hpath,
      fun _ h hd => @field_of_wraps t { s with compression := .preferState } _ _ _ _ _ _ _ _ _ ht.rooted hdistinct hdir hs rfl
        rfl hy hx h hd hpath⟩

/-- A container with both wrappers, each with a leaf of the same name. -/
def port : Library :=
  let node (name : String) (kind : NodeKind) (type : Option TypeDescriptor) (children : List NodeDocument) : NodeDocument :=
    ⟨name, kind, children, type, none, none, none, none⟩
  let mtu : NodeDocument := node "mtu" .leaf (some (.ofKind .uint16)) []
  .ofList [("m", ⟨⟨"m", "urn:m", none, [], [node "port" .container none
    [node "config" .container none [mtu],
     node "state" .container none [mtu, node "up" .leaf (some (.ofKind .boolean)) []]]]⟩, "m.json", false⟩)]

theorem port_named : port.Named := Library.Named.empty.insert rfl

theorem port_mirrored : ∃ t a b d d', port.tree = .ok t ∧ t.Grown ∧ t.DistinctDataPaths ∧ (t.kind 1).isDirectory = true ∧
    Mirrored t 1 ∧ t.Wraps 1 "config" 2 "mtu" 3 ∧ t.Wraps 1 "state" 4 "mtu" 5 ∧
    t.generate { GenerateSettings.default with compression := .preferConfig } = some (.ok a) ∧
    t.generate { GenerateSettings.default with compression := .preferState } = some (.ok b) ∧
    a.directories.get? "/m/port" = some d ∧ b.directories.get? "/m/port" = some d' ∧ d.path = t.dataPath 1 ∧
    d'.path = t.dataPath 1 := by
  have hrun : (port.tree.toOption.any fun t =>
      ((t.ids.all fun a => t.ids.all fun b =>
          (t.kind a).isChoiceOrCase || (t.kind b).isChoiceOrCase || t.pathString a != t.pathString b || a == b) &&
        (t.kind 1).isDirectory) &&
      (t.child? 1 "config" == some 2 && t.kind 2 == .container && t.child? 2 "mtu" == some 3 && (t.kind 3).isLeafLike &&
        t.children 2 == [3] && t.wrappedList? 3 == none) &&
      (t.child? 1 "state" == some 4 && t.kind 4 == .container && t.child? 4 "mtu" == some 5 && (t.kind 5).isLeafLike &&
        t.children 4 == [5, 6] && t.wrappedList? 5 == none && t.wrappedList? 6 == none) &&
      (result? (t.generate { GenerateSettings.default with compression := .preferConfig })).any fun a =>
        (result? (t.generate { GenerateSettings.default with compression := .preferState })).any fun b =>
          (a.directories.get? "/m/port").any fun d => (b.directories.get? "/m/port").any fun d' =>
            d.path == t.dataPath 1 && d'.path == t.dataPath 1) = true := by
    decide +kernel
  obtain ⟨t, ht, hfacts⟩ := (Option.any_eq_true ..).mp hrun
  simp only [Bool.and_eq_true] at hfacts
  obtain ⟨⟨⟨⟨hdistinct, hdir⟩, hconfig⟩, hstate⟩, hfacts⟩ := hfacts
  obtain ⟨a, ha, hfacts⟩ := (Option.any_eq_true ..).mp hfacts
  obtain ⟨b, hb, hfacts⟩ := (Option.any_eq_true ..).mp hfacts
  obtain ⟨d, hd, hfacts⟩ := (Option.any_eq_true ..).mp hfacts
  obtain ⟨d', hd', hpaths⟩ := (Option.any_eq_true ..).mp hfacts
  simp only [Bool.and_eq_true, beq_iff_eq] at hconfig hstate hpaths
  obtain ⟨⟨⟨⟨⟨hw, hwkind⟩, hx⟩, hxleaf⟩, hwchildren⟩, hxplain⟩ := hconfig
  obtain ⟨⟨⟨⟨⟨⟨hw', hwkind'⟩, hy⟩, hyleaf⟩, hwchildren'⟩, hyplain⟩, hupplain⟩ := hstate
  have hgrown : t.Grown := SchemaTree.Loaded.grown ⟨port, port_named, ok_of_toOption ht⟩
  have hdistinct := (SchemaTree.DistinctPaths.of_ids hdistinct).distinctDataPaths
  refine ⟨t, a, b, d, d', ok_of_toOption ht, hgrown, hdistinct, hdir, mirrored hgrown hdistinct hdir,
    ⟨hw, hwkind, hx, hxleaf, ?_⟩, ⟨hw', hwkind', hy, hyleaf, ?_⟩, some_ok_of_result? ha, some_ok_of_result? hb, hd, hd', hpaths.1,
    hpaths.2⟩
  · rw [hwchildren]
    simp [hxplain]
  · rw [hwchildren']
    simp [hyplain, hupplain]

end Generation

end SchemaIr
