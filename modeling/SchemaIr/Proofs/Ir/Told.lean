import SchemaIr.Proofs.Ir.Assembly
import SchemaIr.Schema.Growth

/-! # What assembling tells

Assembling goes on after an error, so that a run tells at once what is wrong with all directories that it keeps:
the clashes of fields, the types that cannot be mapped, and the keys that cannot be resolved (`Told`). A batch
holds all of it and nothing else (`build_told_exact`). There is one gap: where the fields of a list clash, its keys
are not resolved, and what is wrong with them is told only once the clash is gone. -/

namespace SchemaIr.Assembly.Input
variable {input : Input}

/-! ### Fields -/

/-- What is told about the type of a leaf in a directory of the name. -/
inductive ToldOfLeaf (input : Input) (owner : String) (leaf : NodeId) : Diagnostic → Prop
  /-- The type cannot be mapped. -/
  | failed {problems : Diagnostics} {d : Diagnostic} :
      input.types.leafType leaf owner = some (.error problems) → d ∈ problems.items → ToldOfLeaf input owner leaf d
  /-- The type is declared as a union and comes down to one member. -/
  | collapsed {type : MappedType} : input.types.leafType leaf owner = some (.ok type) →
      ((input.tree.node leaf).type.map (·.isUnion)).getD false = true → type.isUnion = false →
      ToldOfLeaf input owner leaf (.collapsedUnion (input.tree.pathString leaf) type.native)

theorem mem_leafFieldType_iff {owner : String} {leaf : NodeId} {d : Diagnostic} :
    d ∈ (input.leafFieldType owner leaf).diagnostics.items ↔ ToldOfLeaf input owner leaf d := by
  unfold leafFieldType
  constructor
  · intro h
    split at h
    · cases h
    · rename_i problems herror
      exact .failed herror h
    · rename_i type hok
      dsimp only at h
      split at h
      · rename_i hcollapsed
        obtain ⟨hdeclared, hplain⟩ := Bool.and_eq_true_iff.mp hcollapsed
        obtain rfl := List.mem_singleton.mp h
        exact .collapsed hok hdeclared ((Bool.not_eq_true' _).mp hplain)
      · cases h
  · rintro (⟨herror, hd⟩ | ⟨hok, hdeclared, hplain⟩)
    · simpa only [herror] using hd
    · simp only [hok, hdeclared, hplain, Bool.not_false, Bool.and_self, if_true]
      exact List.mem_singleton_self _

/-- The node is a leaf or leaf-list that a directory can have for a field. -/
def LeafField (input : Input) (node : NodeId) : Prop :=
  input.tree.isExcluded input.settings.excludeModules node = false ∧ (input.tree.kind node).isLeafLike = true

theorem mem_fieldOrNone_iff {names : Table String} {owner name : String} {path : NodeId → String} {node : NodeId}
    {d : Diagnostic} : d ∈ (input.fieldOrNone names owner path name node).diagnostics.items ↔
      input.LeafField node ∧ ToldOfLeaf input owner node d := by
  -- Only leaves have types, so only their fields tell anything.
  rw [← mem_leafFieldType_iff]
  unfold fieldOrNone field? LeafField
  dsimp only
  cases input.tree.isExcluded input.settings.excludeModules node with
  | true => simp
  | false =>
    cases input.tree.kind node <;> simp [FieldKind.ofNode?, NodeKind.isLeafLike]

theorem mem_buildFields_iff {names : Table String} {owner : String} {path : NodeId → String} {nodes : Table NodeId}
    {d : Diagnostic} : d ∈ (input.buildFields names owner path nodes).diagnostics.items ↔
      ∃ name leaf, nodes.get? name = some leaf ∧ input.LeafField leaf ∧ ToldOfLeaf input owner leaf d := by
  rw [buildFields_eq, mem_collect]
  simp only [mem_fieldOrNone_iff]

/-! ### Directories -/

/-- What is told about a kept directory, given its path and its name. -/
inductive Told (input : Input) (path name : String) : MappedDirectory → Diagnostic → Prop
  /-- Fields clash. -/
  | clash {dir : NodeId} {problems : Diagnostics} {d : Diagnostic} :
      input.tree.fields input.settings.compression dir = .error problems → d ∈ problems.items →
      Told input path name (.schema dir) d
  /-- Something about the type of a field. -/
  | leaf {dir leaf : NodeId} {nodes : Table NodeId} {field : String} {d : Diagnostic} :
      input.tree.fields input.settings.compression dir = .ok nodes → nodes.get? field = some leaf →
      input.LeafField leaf → ToldOfLeaf input name leaf d → Told input path name (.schema dir) d
  /-- A key cannot be resolved, or a list that is no state has none. -/
  | key {dir : NodeId} {nodes : Table NodeId} {problems : Diagnostics} {d : Diagnostic} :
      input.tree.fields input.settings.compression dir = .ok nodes → input.tree.kind dir = .list →
      input.types.listKeys input.settings.compression.compresses dir name = some (.error problems) →
      d ∈ problems.items → Told input path name (.schema dir) d
  /-- A list of state has no key. -/
  | keyless {dir : NodeId} {nodes : Table NodeId} :
      input.tree.fields input.settings.compression dir = .ok nodes → input.tree.kind dir = .list →
      input.types.listKeys input.settings.compression.compresses dir name = some (.ok none) →
      Told input path name (.schema dir) (.keyless path)
  /-- Something about the type of a field of the fake root. -/
  | rootLeaf {root field : String} {nodes : Table NodeId} {leaf : NodeId} {d : Diagnostic} :
      nodes.get? field = some leaf → input.keeps leaf = true → input.LeafField leaf →
      ToldOfLeaf input name leaf d → Told input path name (.fakeRoot root nodes) d

theorem mem_buildKeys_iff {path name : String} {dir : NodeId} {d : Diagnostic} :
    d ∈ (input.buildKeys path name dir).diagnostics.items ↔ input.tree.kind dir = .list ∧
      ((∃ problems, input.types.listKeys input.settings.compression.compresses dir name = some (.error problems) ∧
          d ∈ problems.items) ∨
        input.types.listKeys input.settings.compression.compresses dir name = some (.ok none) ∧ d = .keyless path) := by
  unfold buildKeys
  split
  · rename_i hlist
    rcases input.types.listKeys input.settings.compression.compresses dir name with _ | problems | keys
    · simp [hlist]
    · simp [hlist]
    · cases keys <;> simp [hlist]
  · rename_i hlist
    simp [hlist]

/-- Where fields clash, nothing else is told. -/
theorem told_iff_of_clash {path name : String} {dir : NodeId} {problems : Diagnostics} {d : Diagnostic}
    (h : input.tree.fields input.settings.compression dir = .error problems) :
    Told input path name (.schema dir) d ↔ d ∈ problems.items := by
  constructor
  · intro htold
    cases htold with
    | clash herror hd =>
      rw [h] at herror
      cases herror
      exact hd
    | leaf hok _ _ _ | key hok _ _ _ | keyless hok _ _ =>
      rw [h] at hok
      cases hok
  · exact .clash h

/-- Where they do not clash, all of it is told. -/
theorem told_iff_of_fields {path name : String} {dir : NodeId} {nodes : Table NodeId} {d : Diagnostic}
    (h : input.tree.fields input.settings.compression dir = .ok nodes) : Told input path name (.schema dir) d ↔
      (∃ field leaf, nodes.get? field = some leaf ∧ input.LeafField leaf ∧ ToldOfLeaf input name leaf d) ∨
        input.tree.kind dir = .list ∧
          ((∃ problems, input.types.listKeys input.settings.compression.compresses dir name = some (.error problems) ∧
              d ∈ problems.items) ∨
            input.types.listKeys input.settings.compression.compresses dir name = some (.ok none) ∧ d = .keyless path) := by
  constructor
  · intro htold
    cases htold with
    | clash herror _ =>
      rw [h] at herror
      cases herror
    | leaf hok hnode hleaf htold =>
      rw [h] at hok
      cases hok
      exact .inl ⟨_, _, hnode, hleaf, htold⟩
    | key _ hlist herror hd => exact .inr ⟨hlist, .inl ⟨_, herror, hd⟩⟩
    | keyless _ hlist hnone => exact .inr ⟨hlist, .inr ⟨hnone, rfl⟩⟩
  · rintro (⟨_, _, hnode, hleaf, htold⟩ | ⟨hlist, ⟨_, herror, hd⟩ | ⟨hnone, rfl⟩⟩)
    · exact .leaf h hnode hleaf htold
    · exact .key h hlist herror hd
    · exact .keyless h hlist hnone

theorem mem_buildSchema_iff {names : Table String} {path name : String} {dir : NodeId} {d : Diagnostic} :
    d ∈ (input.buildSchema names path name dir).diagnostics.items ↔ Told input path name (.schema dir) d := by
  unfold buildSchema
  dsimp only
  cases hfields : input.tree.fields input.settings.compression dir with
  | error problems => exact (told_iff_of_clash hfields).symm
  | ok nodes =>
    rw [Diagnostics.items_append, List.mem_append, mem_buildFields_iff, mem_buildKeys_iff, told_iff_of_fields hfields]

theorem mem_buildFakeRoot_iff {names : Table String} {path name root : String} {nodes : Table NodeId} {d : Diagnostic} :
    d ∈ (input.buildFakeRoot names name nodes).diagnostics.items ↔ Told input path name (.fakeRoot root nodes) d := by
  refine mem_buildFields_iff.trans ?_
  simp only [Table.get?_filter_eq_some_iff]
  constructor
  · rintro ⟨_, _, ⟨hnode, hkeep⟩, hleaf, htold⟩
    exact .rootLeaf hnode hkeep hleaf htold
  · rintro (_ | _ | _ | _ | ⟨hnode, hkeep, hleaf, htold⟩)
    exact ⟨_, _, ⟨hnode, hkeep⟩, hleaf, htold⟩

theorem mem_buildDirectory_iff {names : Table String} {path : String} {dir : MappedDirectory} {d : Diagnostic} :
    d ∈ (input.buildDirectory names path dir).diagnostics.items ↔ Told input path (names.getD path "") dir d := by
  cases dir with
  | schema id => exact mem_buildSchema_iff
  | fakeRoot root nodes => exact mem_buildFakeRoot_iff

theorem mem_buildDirectories_iff {names : Table String} {d : Diagnostic} :
    d ∈ (input.buildDirectories names).diagnostics.items ↔
      ∃ path dir, input.kept.get? path = some dir ∧ Told input path (names.getD path "") dir d := by
  rw [buildDirectories_eq, mem_collect]
  simp only [mem_buildDirectory_iff]

/-! ### The batch -/

theorem mem_batch_iff {registry : NameRegistry} {batch : Diagnostics} (h : (input.build registry).1 = some (.error batch))
    {d : Diagnostic} : d ∈ batch.items ↔ ∃ path dir name, input.kept.get? path = some dir ∧
      (input.names registry).1.get? path = some name ∧ Told input path name dir d := by
  obtain ⟨-, -, rfl⟩ := build_eq_error_iff.mp h
  rw [Diagnostics.mem_sort, mem_buildDirectories_iff]
  constructor
  · rintro ⟨path, dir, hkept, htold⟩
    exact ⟨path, dir, _, hkept, get?_names_of_kept hkept, htold⟩
  · rintro ⟨path, dir, name, hkept, hname, htold⟩
    obtain rfl := Option.some.inj ((get?_names_of_kept hkept).symm.trans hname)
    exact ⟨path, dir, hkept, htold⟩

/-- The batch holds what is wrong with the directory of a node, given its name: all clashes of its fields, and where
    they do not clash, all that is wrong with the types of its leaves and with its keys. -/
structure Reported (input : Input) (name : String) (dir : NodeId) (batch : Diagnostics) : Prop where
  clashes : ∀ problems, input.tree.fields input.settings.compression dir = .error problems →
    problems.items ⊆ batch.items
  types : ∀ nodes, input.tree.fields input.settings.compression dir = .ok nodes → ∀ field leaf,
    nodes.get? field = some leaf → input.LeafField leaf → ∀ problems,
      input.types.leafType leaf name = some (.error problems) → problems.items ⊆ batch.items
  keys : ∀ nodes, input.tree.fields input.settings.compression dir = .ok nodes → input.tree.kind dir = .list →
    ∀ problems, input.types.listKeys input.settings.compression.compresses dir name = some (.error problems) →
      problems.items ⊆ batch.items

theorem Reported.of_told {path name : String} {dir : NodeId} {batch : Diagnostics}
    (h : ∀ d, Told input path name (.schema dir) d → d ∈ batch.items) : Reported input name dir batch where
  clashes _ hfields d hd := h d (.clash hfields hd)
  types _ hfields _ _ hnode hleaf _ htype d hd := h d (.leaf hfields hnode hleaf (.failed htype hd))
  keys _ hfields hlist _ hkeys d hd := h d (.key hfields hlist hkeys hd)

/-- A batch that assembling ends with reports every kept directory under the name that it was given, and tells
    nothing but what is told about one of them. -/
theorem build_told_exact {registry : NameRegistry} {batch : Diagnostics}
    (h : (input.build registry).1 = some (.error batch)) :
    (∀ path dir, input.kept.get? path = some (.schema dir) →
        ∃ name, (input.names registry).1.get? path = some name ∧ Reported input name dir batch) ∧
      ∀ d, d ∈ batch.items ↔ ∃ path dir name, input.kept.get? path = some dir ∧
        (input.names registry).1.get? path = some name ∧ Told input path name dir d := by
  refine ⟨fun path dir hkept => ⟨_, get?_names_of_kept hkept, ?_⟩, fun d => mem_batch_iff h⟩
  exact .of_told fun d htold => (mem_batch_iff h).mpr ⟨path, _, _, hkept, get?_names_of_kept hkept, htold⟩

/-- Two lists without a key. Two children of the first one share a name, one of them in a case. -/
def ports : SchemaTree :=
  ((((((SchemaTree.empty.addModule ⟨"net", "urn:net", none, false⟩).addChild 0
    (.ofKind "port" .list "net")).addChild 1
    { Node.ofKind "name" .leaf "net" with type := some (.ofKind .string) }).addChild 1
    (.ofKind "origin" .choice "net")).addChild 3
    (.ofKind "fixed" .case "net")).addChild 4
    { Node.ofKind "name" .leaf "net" with type := some (.ofKind .string) }).addChild 0
    (.ofKind "unit" .list "net")

/-- The two lists as they are assembled. -/
def portsInput : Input :=
  ⟨ports, .ofTree ports, ⟨Discovery.directories ports (Discovery.findings ports [0] [] false), ∅⟩, .empty, .default⟩

/-- The node of a kept directory, by its path. -/
def keptNode? (input : Input) (path : String) : Option NodeId :=
  match input.kept.get? path with
  | some (.schema id) => some id
  | _ => none

theorem keptNode?_eq_some {path : String} {id : NodeId} (h : input.keptNode? path = some id) :
    input.kept.get? path = some (.schema id) := by
  unfold keptNode? at h
  split at h <;> cases h
  assumption

theorem portsInput_fails : ∃ batch, (portsInput.build ∅).1 = some (.error batch) ∧ ∀ d, d ∈ batch.items ↔
    d = .sameField "/net/port" "name" "/net/port/name" "/net/port/origin/fixed/name" ∨ d = .noListKey "/net/unit" := by
  have hitems : (portsInput.buildDirectories (portsInput.names ∅).1).diagnostics.items =
      [.sameField "/net/port" "name" "/net/port/name" "/net/port/origin/fixed/name", .noListKey "/net/unit"] := by
    decide +kernel
  refine ⟨_, build_eq_error_iff.mpr ⟨by decide +kernel, ?_, rfl⟩, fun d => ?_⟩
  · rw [Diagnostics.hasErrors, hitems]
    rfl
  · simp only [Diagnostics.mem_sort, hitems, List.mem_cons, List.not_mem_nil, or_false]

theorem portsInput_listKeys {list : NodeId} {path name : String} (hkind : ports.kind list = .list)
    (hnames : (ports.node list).keyNames = []) (hconfig : ports.isConfig list = true)
    (hpath : ports.pathString list = path) :
    portsInput.types.listKeys portsInput.settings.compression.compresses list name =
      some (.error (.single (.noListKey path))) := by
  rw [types, TypeContext.listKeys]
  simp only [portsInput, hkind, hnames, hconfig, hpath, ne_eq, not_true_eq_false, if_false, List.isEmpty_nil, if_true]

/-- The missing key of the second list is told beside the clash in the first one. -/
theorem ports_told : ∃ batch, (portsInput.build ∅).1 = some (.error batch) ∧ .noListKey "/net/unit" ∈ batch.items := by
  obtain ⟨batch, hbatch, -⟩ := portsInput_fails
  obtain ⟨name, -, hreported⟩ := (build_told_exact hbatch).1 "/net/unit" 6 (keptNode?_eq_some (by decide +kernel))
  have hfields : (ports.fields portsInput.settings.compression 6).toOption.isSome = true := by decide +kernel
  obtain ⟨nodes, hnodes⟩ := Option.isSome_iff_exists.mp hfields
  have hkeys : portsInput.types.listKeys portsInput.settings.compression.compresses 6 name =
      some (.error (.single (.noListKey "/net/unit"))) := portsInput_listKeys (by decide +kernel) (by decide +kernel)
    (by decide +kernel) (by decide +kernel)
  exact ⟨batch, hbatch, hreported.keys nodes (ok_of_toOption hnodes) (by decide +kernel) _ hkeys
    (List.mem_singleton_self _)⟩

/-- The missing key of the first list is not told. -/
theorem ports_key_untold : ∃ batch name problems, (portsInput.build ∅).1 = some (.error batch) ∧
    portsInput.kept.get? "/net/port" = some (.schema 1) ∧ portsInput.tree.kind 1 = .list ∧
      (portsInput.names ∅).1.get? "/net/port" = some name ∧
        portsInput.types.listKeys portsInput.settings.compression.compresses 1 name = some (.error problems) ∧
          ∃ d ∈ problems.errors, d ∉ batch.items := by
  obtain ⟨batch, hbatch, hitems⟩ := portsInput_fails
  have hkept : portsInput.kept.get? "/net/port" = some (.schema 1) := keptNode?_eq_some (by decide +kernel)
  refine ⟨batch, _, _, hbatch, hkept, by decide +kernel, get?_names_of_kept hkept,
    portsInput_listKeys (by decide +kernel) (by decide +kernel) (by decide +kernel) (by decide +kernel),
    .noListKey "/net/port", List.mem_singleton_self _, fun hd => ?_⟩
  rcases (hitems _).mp hd with heq | heq <;> exact absurd heq (by decide)

end SchemaIr.Assembly.Input
