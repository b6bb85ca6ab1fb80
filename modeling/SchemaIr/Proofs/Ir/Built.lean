import SchemaIr.Proofs.Ir.Assembly

/-! # What a directory is built of

The fields of a directory are built one by one out of a table of nodes (`get?_buildFields_iff`), and the type of a
field is the mapped type of its leaf. A directory of the result is built at a kept path, under the name that
the path was given (`SchemaBuilt`, `RootBuilt`). -/

namespace SchemaIr

theorem FieldKind.isChoiceOrCase_of_ofNode? {kind : NodeKind} {fieldKind : FieldKind}
    (h : FieldKind.ofNode? kind = some fieldKind) : kind.isChoiceOrCase = false := by
  cases kind <;> simp_all [FieldKind.ofNode?, NodeKind.isChoiceOrCase]

theorem FieldKind.exists_of_isDirectory {kind : NodeKind} (h : kind.isDirectory = true) :
    ∃ fieldKind, FieldKind.ofNode? kind = some fieldKind := by
  cases kind <;> cases h <;> exact ⟨_, rfl⟩

theorem FieldKind.container_or_list {kind : NodeKind} {fieldKind : FieldKind}
    (h : FieldKind.ofNode? kind = some fieldKind) (hkind : kind.isDirectory = true) :
    fieldKind = .container ∨ fieldKind = .list := by
  cases kind <;> cases hkind <;> cases h <;> simp

namespace Assembly

namespace Input
variable {input : Input} {names : Table String} {owner : String}

/-! ### Fields -/

theorem get?_buildFields_iff {path : NodeId → String} {nodes : Table NodeId} {name : String} {f : Field} :
    (input.buildFields names owner path nodes).value.get? name = some f ↔
      ∃ node b, nodes.get? name = some node ∧ input.field? names owner name node (path node) = some b ∧ b.value = f := by
  rw [buildFields_eq, get?_collect, Option.bind_eq_some_iff]
  refine exists_congr fun node => ?_
  unfold fieldOrNone
  cases input.field? names owner name node (path node) with
  | none => simp
  | some b => simp

/-- A node has a field exactly if it is not excluded and of a kind that can be a field. -/
theorem exists_field?_iff {name schemaPath : String} {node : NodeId} :
    (∃ b, input.field? names owner name node schemaPath = some b) ↔
      input.tree.isExcluded input.settings.excludeModules node = false ∧
        ∃ kind, FieldKind.ofNode? (input.tree.kind node) = some kind := by
  unfold field?
  dsimp only
  cases input.tree.isExcluded input.settings.excludeModules node with
  | true => simp
  | false => cases FieldKind.ofNode? (input.tree.kind node) <;> simp

theorem leafType_of_leafFieldType {leaf : NodeId} {type : MappedType}
    (h : (input.leafFieldType owner leaf).value = some type) : input.types.leafType leaf owner = some (.ok type) := by
  unfold leafFieldType at h
  split at h
  · cases h
  · cases h
  · rename_i heq
    cases h
    exact heq

/-- A field stands for its node, at a given path from the directory on. -/
theorem field?_place {name schemaPath : String} {node : NodeId} {b : Built Field}
    (h : input.field? names owner name node schemaPath = some b) : b.value.node = node ∧ b.value.schemaPath = schemaPath := by
  unfold field? at h
  dsimp only at h
  split at h
  · cases h
  · obtain ⟨kind, -, rfl⟩ := Option.map_eq_some_iff.mp h
    cases kind <;> exact ⟨rfl, rfl⟩

/-- The nodes of the fields are those of the table that can have one. -/
theorem exists_field_iff {path : NodeId → String} {nodes : Table NodeId} {name : String} {c : NodeId} :
    (∃ f, (input.buildFields names owner path nodes).value.get? name = some f ∧ f.node = c) ↔
      nodes.get? name = some c ∧ input.tree.isExcluded input.settings.excludeModules c = false ∧
        ∃ kind, FieldKind.ofNode? (input.tree.kind c) = some kind := by
  rw [← @exists_field?_iff input names owner name (path c) c]
  constructor
  · rintro ⟨f, hf, rfl⟩
    obtain ⟨node, b, hnode, hb, rfl⟩ := get?_buildFields_iff.mp hf
    obtain rfl := (field?_place hb).1
    exact ⟨hnode, b, hb⟩
  · rintro ⟨hnode, b, hb⟩
    exact ⟨b.value, get?_buildFields_iff.mpr ⟨c, b, hnode, hb, rfl⟩, (field?_place hb).1⟩

/-- The field of a container or list names what stands at the path of its node, and no other field names anything. -/
theorem field?_directory {name schemaPath : String} {node : NodeId} {b : Built Field}
    (h : input.field? names owner name node schemaPath = some b) :
    b.value.directory = if (input.tree.kind node).isDirectory then names.get? (input.tree.pathString node) else none := by
  unfold field? at h
  dsimp only at h
  split at h
  · cases h
  · obtain ⟨kind, hkind, rfl⟩ := Option.map_eq_some_iff.mp h
    cases hnode : input.tree.kind node <;> rw [hnode] at hkind <;> cases hkind <;> rfl

/-- The path of a leaf through the other wrapper, where such paths are shown. -/
def shownShadow? (input : Input) (leaf : NodeId) (schemaPath : String) : Option String :=
  if input.settings.compression.compresses && !input.settings.compression.excludesState then
    shadowPath? input.tree leaf schemaPath
  else none

theorem field?_shadowPath {name schemaPath : String} {node : NodeId} {b : Built Field}
    (h : input.field? names owner name node schemaPath = some b) : b.value.shadowPath =
      if (input.tree.kind node).isLeafLike then input.shownShadow? node schemaPath else none := by
  unfold field? at h
  dsimp only at h
  split at h
  · cases h
  · obtain ⟨kind, hkind, rfl⟩ := Option.map_eq_some_iff.mp h
    cases hnode : input.tree.kind node <;> rw [hnode] at hkind <;> cases hkind <;> rfl

/-- The type of a field is the mapped type of its leaf. -/
theorem field?_type {name schemaPath : String} {node : NodeId} {b : Built Field} {type : MappedType}
    (h : input.field? names owner name node schemaPath = some b) (htype : b.value.type = some type) :
    input.types.leafType node owner = some (.ok type) := by
  unfold field? at h
  dsimp only at h
  split at h
  · cases h
  · obtain ⟨kind, -, rfl⟩ := Option.map_eq_some_iff.mp h
    cases kind with
    | leaf | leafList => exact leafType_of_leafFieldType htype
    | container | list | anydata => cases htype

theorem leafType_of_buildFields {path : NodeId → String} {nodes : Table NodeId} {name : String} {f : Field}
    {type : MappedType} (h : (input.buildFields names owner path nodes).value.get? name = some f)
    (htype : f.type = some type) : input.types.leafType f.node owner = some (.ok type) := by
  obtain ⟨node, b, -, hb, rfl⟩ := get?_buildFields_iff.mp h
  rw [(field?_place hb).1]
  exact field?_type hb htype

/-! ### Directories -/

/-- How the directory of a node is built. -/
structure SchemaBuilt (input : Input) (names : Table String) (place : String) (id : NodeId) (d : Directory) : Prop where
  isFakeRoot : d.isFakeRoot = false
  path : d.path = input.tree.dataPath id
  /-- The fields of the node, under the name of the directory. -/
  fields : ∃ nodes, input.tree.fields input.settings.compression id = .ok nodes ∧
    d.fields = (input.buildFields names d.name (relativePath input.tree id) nodes).value
  keys : d.keys = (input.buildKeys place d.name id).value

/-- How the directory of the fake root is built. -/
structure RootBuilt (input : Input) (names : Table String) (nodes : Table NodeId) (d : Directory) : Prop where
  isFakeRoot : d.isFakeRoot = true
  path : d.path = [""]
  fields : d.fields =
    (input.buildFields names d.name (modulePath input.tree) (nodes.filter fun _ id => input.keeps id)).value
  keys : d.keys = none

theorem listKeys_of_buildKeys {path name : String} {id : NodeId} {keys : ListKeys}
    (h : (input.buildKeys path name id).value = some keys) :
    input.types.listKeys input.settings.compression.compresses id name = some (.ok (some keys)) := by
  unfold buildKeys at h
  split at h
  · split at h
    · rename_i hkeys
      cases h
      exact hkeys
    all_goals cases h
  · cases h

/-- Every directory of a result is that of a kept node, or the fake root. -/
theorem built_of_directory {registry : NameRegistry} {ir : Ir} (h : (input.build registry).1 = some (.ok ir)) {path : String}
    {d : Directory} (hd : ir.directories.get? path = some d) :
    (∃ id, input.kept.get? path = some (.schema id) ∧ SchemaBuilt input (input.names registry).1 path id d) ∨
      ∃ rootName nodes, input.kept.get? path = some (.fakeRoot rootName nodes) ∧
        RootBuilt input (input.names registry).1 nodes d := by
  obtain ⟨mapped, hkept, hvalue⟩ := kept_of_directory h hd
  cases mapped with
  | schema id =>
    obtain ⟨nodes, hfields⟩ := fields_of_build h hkept
    simp only [buildDirectory, buildSchema, hfields] at hvalue
    cases hvalue
    exact .inl ⟨id, hkept, rfl, rfl, ⟨nodes, hfields, rfl⟩, rfl⟩
  | fakeRoot rootName nodes =>
    cases hvalue
    exact .inr ⟨rootName, nodes, hkept, rfl, rfl, rfl, rfl⟩

theorem schema_of_directory {registry : NameRegistry} {ir : Ir} (h : (input.build registry).1 = some (.ok ir)) {path : String}
    {d : Directory} (hd : ir.directories.get? path = some d) (hplain : d.isFakeRoot = false) :
    ∃ id, input.kept.get? path = some (.schema id) ∧ SchemaBuilt input (input.names registry).1 path id d := by
  refine (built_of_directory h hd).resolve_right ?_
  rintro ⟨_, _, -, hbuilt⟩
  rw [hbuilt.isFakeRoot] at hplain
  cases hplain

theorem root_of_directory {registry : NameRegistry} {ir : Ir} (h : (input.build registry).1 = some (.ok ir)) {path : String}
    {d : Directory} (hd : ir.directories.get? path = some d) (hroot : d.isFakeRoot = true) : ∃ rootName nodes,
      input.kept.get? path = some (.fakeRoot rootName nodes) ∧ RootBuilt input (input.names registry).1 nodes d := by
  refine (built_of_directory h hd).resolve_left ?_
  rintro ⟨_, -, hbuilt⟩
  rw [hbuilt.isFakeRoot] at hroot
  cases hroot

/-- A field is of the kind of its node, and as a container or list it names the directory at the path of the node. -/
theorem field_of_directory {registry : NameRegistry} {ir : Ir} (h : (input.build registry).1 = some (.ok ir)) {path name : String}
    {d : Directory} {f : Field} (hd : ir.directories.get? path = some d) (hf : d.fields.get? name = some f) :
    FieldKind.ofNode? (input.tree.kind f.node) = some f.kind ∧
      f.directory = if (input.tree.kind f.node).isDirectory then
        (input.names registry).1.get? (input.tree.pathString f.node) else none := by
  rcases built_of_directory h hd with ⟨id, -, hbuilt⟩ | ⟨_, nodes, -, hbuilt⟩
  · obtain ⟨nodes, -, hfields⟩ := hbuilt.fields
    rw [hfields] at hf
    obtain ⟨node, b, -, hb, rfl⟩ := get?_buildFields_iff.mp hf
    obtain ⟨hnode, hkind, -⟩ := field?_eq_some hb
    rw [hnode]
    exact ⟨hkind, field?_directory hb⟩
  · rw [hbuilt.fields] at hf
    obtain ⟨node, b, -, hb, rfl⟩ := get?_buildFields_iff.mp hf
    obtain ⟨hnode, hkind, -⟩ := field?_eq_some hb
    rw [hnode]
    exact ⟨hkind, field?_directory hb⟩

end Input

end Assembly

end SchemaIr
