import SchemaIr.Proofs.Directory.Ownership
import SchemaIr.Proofs.Generation.Found
import SchemaIr.Proofs.Generation.Targets

/-! # Each node is owned once

A field of a result stands for a node that the directory owns, or, in the fake root, for one that no directory owns
(`Placed`). As the owner of a node is told by the node alone, no node has two fields, whatever is compressed,
excluded or taken over by the fake root (`fields_owned_once`). -/

namespace SchemaIr

/-- A directory of a result has a field under a name. -/
def Ir.HasField (ir : Ir) (path name : String) (f : Field) : Prop :=
  ∃ dir, ir.directories.get? path = some dir ∧ dir.fields.get? name = some f

namespace Generation
open Fields (owner?)
open SchemaTree (Regular)

variable {t : SchemaTree} {s : GenerateSettings} {input : Assembly.Input} {ir : Ir}

/-! ### Where nodes are placed -/

/-- Where a node may have a field, and under which name: in the directory of its owner, or in the fake root if no
    directory owns it. -/
inductive Placed (t : SchemaTree) (s : GenerateSettings) (path name : String) (id : NodeId) : Prop
  | owned {dir : NodeId} : t.name id = name → FoundAt t s path dir → owner? t s.compression.compresses id = some dir →
      Placed t s path name id
  | top : t.name id = name → path = FakeRoot.path →
      (∀ path' dir, FoundAt t s path' dir → owner? t s.compression.compresses id ≠ some dir) → Placed t s path name id

/-- A node has one place. -/
theorem Placed.unique {path path' name name' : String} {id : NodeId} (h : Placed t s path name id)
    (h' : Placed t s path' name' id) : path = path' ∧ name = name' := by
  cases h with
  | owned hname hfound howner =>
    cases h' with
    | owned hname' hfound' howner' =>
      obtain rfl := Option.some.inj (howner.symm.trans howner')
      exact ⟨hfound.path.symm.trans hfound'.path, hname.symm.trans hname'⟩
    | top _ _ hnone => exact absurd howner (hnone _ _ hfound)
  | top hname hpath hnone =>
    cases h' with
    | owned _ hfound' howner' => exact absurd howner' (hnone _ _ hfound')
    | top hname' hpath' _ => exact ⟨hpath.trans hpath'.symm, hname.symm.trans hname'⟩

/-- No directory owns what the fake root takes over. -/
theorem not_owned_of_entity (ht : t.Regular) {id : NodeId}
    (h : id ∈ FakeRoot.entities t (Discovery.directories t (foundWithout t s))
      (FakeRoot.topLeaves t t.generationRoots s.excludeModules) s.compression.compresses)
    {path : String} {dir : NodeId} (hdir : FoundAt t s path dir) : owner? t s.compression.compresses id ≠ some dir := by
  rcases List.mem_append.mp h with htop | hleaf
  · obtain ⟨path', hget, htop⟩ := FakeRoot.isTopLevel_of_mem htop
    obtain ⟨id', heq, hfound⟩ := FoundAt.of_get? ht hget
    cases heq
    have hplain := NodeKind.isChoiceOrCase_of_isDirectory hfound.kind
    exact FakeRoot.owner?_ne_of_topDirectory ht (hfound.path ▸ htop) hplain hdir.reached (hdir.path.symm ▸ hdir.get?)
  · obtain ⟨r, hr, hoffers⟩ := FakeRoot.offers_of_mem_topLeaves hleaf
    rw [FakeRoot.owner?_of_topLeaf ht hr hoffers]
    rintro ⟨⟩
    have hkind := hdir.kind
    rw [Discovery.kind_of_mem_generationRoots ht hr] at hkind
    cases hkind

/-! ### Fields of a result -/

/-- The fields of the directory of a node are owned by the node, and their paths lead from it to their nodes. -/
theorem Ready.owned_of_field (h : Ready t s input) (ht : t.Regular) {names : Table String} {path : String} {id : NodeId}
    {d : Directory} (hkept : input.kept.get? path = some (.schema id))
    (hbuilt : Assembly.Input.SchemaBuilt input names path id d) {name : String} {f : Field}
    (hf : d.fields.get? name = some f) : t.name f.node = name ∧ owner? t s.compression.compresses f.node = some id ∧
      d.pathString ++ "/" ++ f.schemaPath = t.pathString f.node := by
  obtain ⟨hfound, hkeep⟩ := h.foundAt_of_get?_kept ht hkept
  obtain ⟨nodes, hnodes, hfields⟩ := hbuilt.fields
  rw [hfields] at hf
  obtain ⟨node, b, hnode, hb, rfl⟩ := Assembly.Input.get?_buildFields_iff.mp hf
  obtain ⟨rfl, hschema⟩ := Assembly.Input.field?_place hb
  have hkind := (Assembly.Input.field?_eq_some hb).2.1
  rw [h.tree, h.settings] at hnodes
  rw [h.tree] at hschema hkind
  obtain ⟨c, hc, hcnode, hname⟩ := SchemaTree.mem_candidates_of_fields hnodes hkeep hnode
  have hdir := NodeKind.isChoiceOrCase_of_isDirectory hfound.kind
  have howner := hcnode ▸ Fields.owner?_of_candidate ht hdir hfound.kept hc
  refine ⟨hname, howner, ?_⟩
  have hplain := FieldKind.isChoiceOrCase_of_ofNode? hkind
  rw [Directory.pathString, hbuilt.isFakeRoot, hbuilt.path, h.tree, hschema]
  exact SchemaTree.pathString_of_mem_ancestors hplain (Fields.mem_ancestors_of_owner? howner)

theorem Ready.placed_of_hasField (h : Ready t s input) (ht : t.Regular) (hbuild : (input.build ∅).1 = some (.ok ir))
    {path name : String} {f : Field} (hf : ir.HasField path name f) : Placed t s path name f.node := by
  obtain ⟨d, hd, hf⟩ := hf
  rcases Assembly.Input.built_of_directory hbuild hd with ⟨id, hkept, hbuilt⟩ | ⟨rootName, nodes, hkept, hbuilt⟩
  · obtain ⟨hname, howner, -⟩ := h.owned_of_field ht hkept hbuilt hf
    exact .owned hname (h.foundAt_of_get?_kept ht hkept).1 howner
  · obtain ⟨hpath, hfrom⟩ := root_of_addFakeRoot h.directories (Table.get?_filter_eq_some_iff.mp hkept).1
    rw [hbuilt.fields] at hf
    obtain ⟨node, b, hnode, hb, rfl⟩ := Assembly.Input.get?_buildFields_iff.mp hf
    obtain ⟨rfl, -⟩ := Assembly.Input.field?_place hb
    obtain ⟨hentity, hname⟩ := hfrom name _ (Table.get?_filter_eq_some_iff.mp hnode).1
    exact .top hname hpath fun path' dir hdir => not_owned_of_entity ht hentity hdir

/-- No node has two fields in a result; and in every directory but the fake root, the field paths lead from the
    directory's node to nodes below it in the data tree. -/
theorem fields_owned_once (ht : t.Loaded) (h : t.generate s = some (.ok ir)) :
    (∀ path path' name name' f f', ir.HasField path name f → ir.HasField path' name' f' → f.node = f'.node →
      path = path' ∧ name = name') ∧
      ∃ input, prepare t s = .ok input ∧
        ∀ path d, ir.directories.get? path = some d → d.isFakeRoot = false →
          ∃ id, input.entities.directories.get? path = some (.schema id) ∧ d.path = t.dataPath id ∧
            ∀ name f, d.fields.get? name = some f → id ∈ t.dataNodes (t.ancestors f.node) ∧
              d.pathString ++ "/" ++ f.schemaPath = t.pathString f.node := by
  have hregular := ht.regular
  obtain ⟨input, hprepare, hbuild⟩ := generate_eq_ok h
  have hready := ready_of_prepare hprepare
  refine ⟨fun path path' name name' f f' hf hf' hnode => ?_, input, hprepare, fun path d hd hplain => ?_⟩
  · exact (hready.placed_of_hasField hregular hbuild hf).unique
      (hnode ▸ hready.placed_of_hasField hregular hbuild hf')
  · rcases Assembly.Input.built_of_directory hbuild hd with ⟨id, hkept, hbuilt⟩ | ⟨_, _, -, hbuilt⟩
    · refine ⟨id, (Table.get?_filter_eq_some_iff.mp hkept).1, hready.tree ▸ hbuilt.path, fun name f hf => ?_⟩
      obtain ⟨-, howner, hpath⟩ := hready.owned_of_field hregular hkept hbuilt hf
      exact ⟨List.mem_of_find?_eq_some howner, hpath⟩
    · rw [hbuilt.isFakeRoot] at hplain
      cases hplain

/-- A list in a container that only surrounds it, with a leaf in its wrapper. -/
def wrappedList : Library :=
  let node (name : String) (kind : NodeKind) (children : List NodeDocument) (type : Option TypeDescriptor)
      (key : Option String) : NodeDocument := ⟨name, kind, children, type, key, none, none, none⟩
  let leaf (name : String) (type : TypeDescriptor) : NodeDocument := node name .leaf [] (some type) none
  .ofList [("m", ⟨⟨"m", "urn:m", none, [],
    [node "ports" .container
      [node "port" .list
        [leaf "name" { TypeDescriptor.ofKind .leafref with path := some "../config/name" },
          node "config" .container [leaf "name" (.ofKind .string), leaf "mtu" (.ofKind .uint16)] none none]
        none (some "name")] none none]⟩, "m.json", false⟩)]

/-- The settings of a compressed run with the fake root, which takes over the list. -/
def rootedSettings : GenerateSettings :=
  { GenerateSettings.default with compression := .preferConfig, withFakeRoot := true }

theorem wrappedList_mtu_owned_once : ∃ t ir d f, wrappedList.tree = .ok t ∧ t.generate rootedSettings = some (.ok ir) ∧
    ir.directories.get? "/m/ports/port" = some d ∧ d.fields.get? "mtu" = some f ∧
      d.pathString ++ "/config/mtu" = t.pathString f.node ∧
        ∀ path name f', ir.HasField path name f' → f'.node = f.node → path = "/m/ports/port" ∧ name = "mtu" := by
  have hrun : (field? wrappedList rootedSettings "/m/ports/port" "mtu").map
      (fun r => (r.2.2.1.isFakeRoot, r.2.2.2.schemaPath)) = some (false, "config/mtu") := by
    decide +kernel
  obtain ⟨⟨t, ir, d, f⟩, hfield, hplace⟩ := Option.map_eq_some_iff.mp hrun
  obtain ⟨hplain, hschema⟩ := Prod.mk.inj hplace
  obtain ⟨ht, hir, hd, hf⟩ := field?_eq_some hfield
  have hloaded : t.Loaded := ⟨wrappedList, Library.Named.empty.insert rfl, ht⟩
  obtain ⟨honce, input, -, hplaces⟩ := fields_owned_once hloaded hir
  obtain ⟨id, -, -, hfields⟩ := hplaces _ _ hd hplain
  refine ⟨t, ir, d, f, ht, hir, hd, hf, ?_, fun path name f' hf' => honce _ _ _ _ _ _ hf' ⟨d, hd, hf⟩⟩
  rw [← (hfields _ _ hf).2, hschema, String.append_assoc]
  rfl

end Generation

end SchemaIr
