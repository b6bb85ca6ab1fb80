import SchemaIr.Directory.Fields
import SchemaIr.Ir.Basic
import SchemaIr.Settings.Basic

/-! # Assembling the intermediate representation

The directories that are kept are named, and then built one by one with their fields and list keys. Under
compression a directory's name joins the path segments that are directories themselves; otherwise it joins
the module and all segments. Names that are taken get underscores.

Everything that is wrong is collected. A directory whose fields clash is not built at all; a field whose type
cannot be mapped is built without one. Any error makes the whole result an error. Where the mapping of a type does
not end, neither does assembling, and there is no result. -/

namespace SchemaIr.Assembly

/-- What assembling reads. -/
structure Input where
  tree : SchemaTree
  index : LeafIndex
  entities : Entities
  enums : EnumSet
  settings : GenerateSettings

namespace Input

def types (input : Input) : TypeContext := ⟨input.tree, input.index, input.enums⟩

/-- The node belongs into the result, as far as state may be left out. -/
def keeps (input : Input) (id : NodeId) : Bool :=
  Fields.isKept input.tree input.settings.compression.excludesState id

/-- The directories that are built. -/
def kept (input : Input) : Table MappedDirectory :=
  input.entities.directories.filter fun _ dir =>
    match dir with
    | .schema id => input.keeps id
    | .fakeRoot _ _ => true

/-! ### Directory names -/

/-- The segments of a path that name directories, from the third one on. -/
def directorySegments (input : Input) (segments : List String) : List String :=
  (List.range segments.length).filterMap fun n =>
    if 2 ≤ n ∧ input.entities.directories.contains ("/".intercalate (segments.take (n + 1))) then segments[n]?
    else none

/-- The name that a directory wants. -/
def wantedName (input : Input) (path : String) (dir : MappedDirectory) : String :=
  let segments := Text.pieces '/' path
  match dir with
  | .fakeRoot name _ => Naming.camel name
  | .schema _ =>
    if input.settings.compression.compresses then Naming.joinCamel (input.directorySegments segments)
    else Naming.qualify (segments[1]?.getD "") (segments.drop 2)

/-- The names of the kept directories by path, given out in the order of the paths. -/
def names (input : Input) (registry : NameRegistry) : Table String × NameRegistry :=
  input.kept.entries.foldl
    (fun (names, registry) (path, dir) =>
      let (name, registry) := registry.makeUnique (input.wantedName path dir)
      (names.insert path name, registry))
    (∅, registry)

/-! ### Fields -/

/-- The path of a leaf through the other of the two wrappers, if the leaf stands in both. -/
def shadowPath? (t : SchemaTree) (leaf : NodeId) (schemaPath : String) : Option String := do
  let wrapper ← (t.parent? leaf).filter t.isConfigOrState
  let other := if t.name wrapper = "config" then "state" else "config"
  let twin ← t.child? (← t.parent? wrapper) other
  let _ ← t.child? twin (t.name leaf)
  let (_, rest) ← Text.cutAt? '/' schemaPath
  pure (other ++ "/" ++ rest)

/-- A field is built together with what is to be told about it. -/
structure Built (α : Type) where
  value : α
  diagnostics : Diagnostics
  /-- All types that it takes could be mapped to the end. -/
  ends : Bool

/-- The type of a leaf, if it can be mapped, with the note that its union came down to one member. -/
def leafFieldType (input : Input) (owner : String) (leaf : NodeId) : Built (Option MappedType) :=
  match input.types.leafType leaf owner with
  | none => ⟨none, ∅, false⟩
  | some (.error problems) => ⟨none, problems, true⟩
  | some (.ok type) =>
    let declaredUnion := ((input.tree.node leaf).type.map (·.isUnion)).getD false
    ⟨some type,
      if declaredUnion && !type.isUnion then
        .single (.collapsedUnion (input.tree.pathString leaf) type.native)
      else ∅,
      true⟩

/-- The field of a directory that stands for a node; none if the node is excluded or no field. -/
def field? (input : Input) (names : Table String) (owner name : String) (node : NodeId) (schemaPath : String) :
    Option (Built Field) :=
  let t := input.tree
  let compression := input.settings.compression
  let blank (kind : FieldKind) : Field :=
    ⟨name, kind, node, schemaPath, none, none, none, (t.node node).module⟩
  if t.isExcluded input.settings.excludeModules node then none
  else
    (FieldKind.ofNode? (t.kind node)).map fun kind =>
      match kind with
      | .leaf | .leafList =>
        let type := input.leafFieldType owner node
        let shadowPath :=
          if compression.compresses && !compression.excludesState then shadowPath? t node schemaPath else none
        ⟨{ blank kind with type := type.value, shadowPath }, type.diagnostics, type.ends⟩
      | .container | .list => ⟨{ blank kind with directory := names.get? (t.pathString node) }, ∅, true⟩
      | .anydata => ⟨blank kind, ∅, true⟩

/-- The fields that are built out of a table of nodes, given the path of each. -/
def buildFields (input : Input) (names : Table String) (owner : String) (path : NodeId → String)
    (nodes : Table NodeId) : Built (Table Field) :=
  nodes.entries.foldl
    (fun built (name, node) =>
      match input.field? names owner name node (path node) with
      | some field =>
        ⟨built.value.insert name field.value, built.diagnostics ++ field.diagnostics, built.ends && field.ends⟩
      | none => built)
    ⟨∅, ∅, true⟩

/-! ### Directories -/

/-- The data path of a node from a directory on. -/
def relativePath (t : SchemaTree) (dir node : NodeId) : String :=
  "/".intercalate ((t.dataPath node).drop (t.dataPath dir).length)

/-- The data path of a node from its module on. -/
def modulePath (t : SchemaTree) (node : NodeId) : String := "/" ++ "/".intercalate ((t.dataPath node).drop 2)

/-- The keys of a directory that is a list, with the note that it has none. -/
def buildKeys (input : Input) (path name : String) (id : NodeId) : Built (Option ListKeys) :=
  if input.tree.kind id = .list then
    match input.types.listKeys input.settings.compression.compresses id name with
    | some (.ok (some keys)) => ⟨some keys, ∅, true⟩
    | some (.ok none) => ⟨none, .single (.keyless path), true⟩
    | some (.error problems) => ⟨none, problems, true⟩
    | none => ⟨none, ∅, false⟩
  else ⟨none, ∅, true⟩

/-- The directory of a node; none if its fields clash. -/
def buildSchema (input : Input) (names : Table String) (path name : String) (id : NodeId) :
    Built (Option Directory) :=
  let t := input.tree
  match t.fields input.settings.compression id with
  | .error problems => ⟨none, problems, true⟩
  | .ok nodes =>
    let fields := input.buildFields names name (relativePath t id) nodes
    let keys := input.buildKeys path name id
    ⟨some ⟨name, t.dataPath id, fields.value, keys.value, false, some (t.node id).module⟩,
      fields.diagnostics ++ keys.diagnostics, fields.ends && keys.ends⟩

/-- The directory of the fake root. -/
def buildFakeRoot (input : Input) (names : Table String) (name : String) (nodes : Table NodeId) :
    Built Directory :=
  let fields :=
    input.buildFields names name (modulePath input.tree) (nodes.filter fun _ id => input.keeps id)
  ⟨⟨name, [""], fields.value, none, true, none⟩, fields.diagnostics, fields.ends⟩

/-- The directory at a path. -/
def buildDirectory (input : Input) (names : Table String) (path : String) (dir : MappedDirectory) :
    Built (Option Directory) :=
  let name := names.getD path ""
  match dir with
  | .schema id => input.buildSchema names path name id
  | .fakeRoot _ nodes =>
    let root := input.buildFakeRoot names name nodes
    ⟨some root.value, root.diagnostics, root.ends⟩

/-- All directories by path. -/
def buildDirectories (input : Input) (names : Table String) : Built (Table Directory) :=
  input.kept.entries.foldl
    (fun built (path, dir) =>
      let one := input.buildDirectory names path dir
      ⟨match one.value with
        | some d => built.value.insert path d
        | none => built.value,
        built.diagnostics ++ one.diagnostics, built.ends && one.ends⟩)
    ⟨∅, ∅, true⟩

/-- The result of a run, unless something is wrong, and the names of the directories. There is no result if
    the mapping of some type does not end. -/
def build (input : Input) (registry : NameRegistry) : Option (Except Diagnostics Ir) × NameRegistry :=
  let (names, registry) := input.names registry
  let built := input.buildDirectories names
  let result := built.diagnostics.settle ⟨built.value, input.enums.enumerations, built.diagnostics.sort⟩
  (if built.ends then some result else none, registry)

end Input

end SchemaIr.Assembly
