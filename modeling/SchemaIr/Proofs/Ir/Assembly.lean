import SchemaIr.Ir.Assembly
import SchemaIr.Proofs.Diagnostic.Settle
import SchemaIr.Proofs.Table.Lookup

/-! # What is assembled

Assembling builds every kept directory and every field by itself and collects what is to be told about each of
them (`buildDirectories_eq`, `buildFields_eq`). It ends exactly if it does so for each of them. Where nothing is
wrong, the result has a directory at every kept path, under the name that the path was given
(`exists_directory`). -/

namespace SchemaIr.Assembly

namespace Input
variable {input : Input}

/-! ### Collecting what is built -/

/-- One more entry of a table is built. -/
def collectStep {α β : Type} (build : String → α → Built (Option β)) (built : Built (Table β)) (e : String × α) :
    Built (Table β) :=
  ⟨match (build e.1 e.2).value with
    | some v => built.value.insert e.1 v
    | none => built.value,
    built.diagnostics ++ (build e.1 e.2).diagnostics,
    built.ends && (build e.1 e.2).ends⟩

/-- What is built along a table: the values that there are, by name, and all that is to be told; to the end, if
    each of them is. -/
def collect {α β : Type} (build : String → α → Built (Option β)) (t : Table α) : Built (Table β) :=
  ⟨t.entries.foldl
      (fun u e =>
        match (build e.1 e.2).value with
        | some v => u.insert e.1 v
        | none => u) ∅,
    ⟨t.entries.flatMap fun e => (build e.1 e.2).diagnostics.items⟩,
    t.entries.all fun e => (build e.1 e.2).ends⟩

theorem foldl_collectStep {α β : Type} (build : String → α → Built (Option β)) (es : List (String × α))
    (start : Built (Table β)) : es.foldl (collectStep build) start =
      ⟨es.foldl
          (fun u e =>
            match (build e.1 e.2).value with
            | some v => u.insert e.1 v
            | none => u) start.value,
        start.diagnostics ++ ⟨es.flatMap fun e => (build e.1 e.2).diagnostics.items⟩,
        start.ends && es.all fun e => (build e.1 e.2).ends⟩ := by
  induction es generalizing start with
  | nil =>
    obtain ⟨value, ⟨items⟩, ends⟩ := start
    exact congr (congrArg (Built.mk value ⟨·⟩) (List.append_nil items).symm) (Bool.and_true ends).symm
  | cons e rest ih =>
    rw [List.foldl_cons, ih, List.foldl_cons, List.flatMap_cons, List.all_cons]
    exact congr (congrArg (Built.mk _ ⟨·⟩) (List.append_assoc ..)) (Bool.and_assoc ..)

theorem foldl_collect {α β : Type} (build : String → α → Built (Option β)) (t : Table α) :
    t.entries.foldl (collectStep build) ⟨∅, ∅, true⟩ = collect build t :=
  foldl_collectStep build t.entries ⟨∅, ∅, true⟩

theorem get?_collect {α β : Type} (build : String → α → Built (Option β)) (t : Table α) (name : String) :
    (collect build t).value.get? name = (t.get? name).bind fun x => (build name x).value :=
  Table.get?_built (fun n x => (build n x).value) t name

theorem mem_collect {α β : Type} {build : String → α → Built (Option β)} {t : Table α} {d : Diagnostic} :
    d ∈ (collect build t).diagnostics.items ↔
      ∃ name x, t.get? name = some x ∧ d ∈ (build name x).diagnostics.items := by
  simp only [collect, List.mem_flatMap, Prod.exists, Table.get?_eq_some_iff]

theorem ends_collect_iff {α β : Type} {build : String → α → Built (Option β)} {t : Table α} :
    (collect build t).ends = true ↔ ∀ name x, t.get? name = some x → (build name x).ends = true := by
  simp only [collect, List.all_eq_true, Prod.forall, Table.get?_eq_some_iff]

/-- The field that stands for a node, or nothing. -/
def fieldOrNone (input : Input) (names : Table String) (owner : String) (path : NodeId → String) (name : String)
    (node : NodeId) : Built (Option Field) :=
  match input.field? names owner name node (path node) with
  | some field => ⟨some field.value, field.diagnostics, field.ends⟩
  | none => ⟨none, ∅, true⟩

theorem buildFields_eq (input : Input) (names : Table String) (owner : String) (path : NodeId → String)
    (nodes : Table NodeId) :
    input.buildFields names owner path nodes = collect (input.fieldOrNone names owner path) nodes := by
  rw [← foldl_collect, buildFields]
  congr 1
  funext built ⟨name, node⟩
  dsimp only [collectStep, fieldOrNone]
  cases input.field? names owner name node (path node) with
  | some field => rfl
  | none =>
    obtain ⟨value, ⟨items⟩, ends⟩ := built
    exact congr (congrArg (Built.mk value ⟨·⟩) (List.append_nil items).symm) (Bool.and_true ends).symm

theorem buildDirectories_eq (input : Input) (names : Table String) :
    input.buildDirectories names = collect (input.buildDirectory names) input.kept := by
  rw [← foldl_collect, buildDirectories]
  congr 1
  funext built ⟨path, dir⟩
  dsimp only [collectStep]
  cases (input.buildDirectory names path dir).value <;> rfl

/-! ### Names -/

/-- Names one more directory. -/
def giveName (input : Input) (st : Table String × NameRegistry) (e : String × MappedDirectory) :
    Table String × NameRegistry :=
  let given := st.2.makeUnique (input.wantedName e.1 e.2)
  (st.1.insert e.1 given.1, given.2)

theorem names_eq (input : Input) (registry : NameRegistry) :
    input.names registry = input.kept.entries.foldl input.giveName (∅, registry) := rfl

theorem isSome_foldl_giveName_iff (es : List (String × MappedDirectory)) (st : Table String × NameRegistry)
    (path : String) :
    ((es.foldl input.giveName st).1.get? path).isSome = true ↔
      (∃ dir, (path, dir) ∈ es) ∨ (st.1.get? path).isSome = true := by
  induction es generalizing st with
  | nil => simp
  | cons e rest ih =>
    rw [List.foldl_cons, ih, giveName]
    by_cases hpath : path = e.1
    · subst hpath
      simp only [Table.get?_insert_self, Option.isSome_some, or_true, true_iff]
      exact .inl ⟨e.2, List.mem_cons_self⟩
    · rw [Table.get?_insert_of_ne _ hpath]
      refine or_congr_left (exists_congr fun dir => ?_)
      have hne : (path, dir) ≠ e := fun heq => hpath (congrArg Prod.fst heq)
      rw [List.mem_cons, or_iff_right hne]

theorem isSome_names_iff (input : Input) (registry : NameRegistry) (path : String) :
    ((input.names registry).1.get? path).isSome = true ↔ ∃ dir, input.kept.get? path = some dir := by
  rw [names_eq, isSome_foldl_giveName_iff]
  simp only [Table.get?_eq_some_iff]
  exact or_iff_left (by simp [show (∅ : Table String).get? path = none from rfl])

/-- Every kept path is given a name. -/
theorem get?_names_of_kept {registry : NameRegistry} {path : String} {dir : MappedDirectory}
    (h : input.kept.get? path = some dir) :
    (input.names registry).1.get? path = some ((input.names registry).1.getD path "") := by
  obtain ⟨name, hname⟩ := Option.isSome_iff_exists.mp ((input.isSome_names_iff registry path).mpr ⟨dir, h⟩)
  rw [Table.getD, hname, Option.getD_some]

/-! ### Fields -/

theorem field?_eq_some {names : Table String} {owner name schemaPath : String} {node : NodeId} {b : Built Field}
    (h : input.field? names owner name node schemaPath = some b) :
    b.value.node = node ∧ FieldKind.ofNode? (input.tree.kind node) = some b.value.kind ∧
      (b.value.kind = .container ∨ b.value.kind = .list →
        b.value.directory = names.get? (input.tree.pathString node)) := by
  unfold field? at h
  dsimp only at h
  split at h
  · cases h
  · obtain ⟨kind, hkind, rfl⟩ := Option.map_eq_some_iff.mp h
    cases kind <;> simp_all

theorem get?_buildFields {names : Table String} {owner : String} {path : NodeId → String} {nodes : Table NodeId}
    {name : String} {f : Field} (h : (input.buildFields names owner path nodes).value.get? name = some f) :
    ∃ node, nodes.get? name = some node ∧ f.node = node ∧ FieldKind.ofNode? (input.tree.kind node) = some f.kind ∧
      (f.kind = .container ∨ f.kind = .list → f.directory = names.get? (input.tree.pathString node)) := by
  rw [buildFields_eq, get?_collect] at h
  obtain ⟨node, hnode, hf⟩ := Option.bind_eq_some_iff.mp h
  unfold fieldOrNone at hf
  split at hf
  · rename_i b hb
    cases hf
    exact ⟨node, hnode, field?_eq_some hb⟩
  · cases hf

/-! ### The result -/

theorem build_eq_some_iff {registry : NameRegistry} {result : Except Diagnostics Ir} :
    (input.build registry).1 = some result ↔
      let built := input.buildDirectories (input.names registry).1
      built.ends = true ∧
        built.diagnostics.settle ⟨built.value, input.enums.enumerations, built.diagnostics.sort⟩ = result := by
  unfold build
  dsimp only
  rw [Option.ite_none_right_eq_some, Option.some_inj]

theorem build_eq_none_iff {registry : NameRegistry} : (input.build registry).1 = none ↔
    (input.buildDirectories (input.names registry).1).ends = false := by
  simp [build]

theorem build_eq_ok {registry : NameRegistry} {ir : Ir} (h : (input.build registry).1 = some (.ok ir)) :
    let built := input.buildDirectories (input.names registry).1
    built.diagnostics.hasErrors = false ∧ ir.directories = built.value := by
  obtain ⟨-, hsettle⟩ := build_eq_some_iff.mp h
  obtain ⟨hclean, rfl⟩ := Diagnostics.settle_eq_ok_iff.mp hsettle
  exact ⟨hclean, rfl⟩

theorem exists_build_iff {registry : NameRegistry} : (∃ ir, (input.build registry).1 = some (.ok ir)) ↔
    (input.buildDirectories (input.names registry).1).ends = true ∧
      (input.buildDirectories (input.names registry).1).diagnostics.hasErrors = false := by
  simp only [build_eq_some_iff, Diagnostics.settle_eq_ok_iff]
  exact ⟨fun ⟨_, hends, hclean, _⟩ => ⟨hends, hclean⟩, fun ⟨hends, hclean⟩ => ⟨_, hends, hclean, rfl⟩⟩

theorem build_eq_error_iff {registry : NameRegistry} {problems : Diagnostics} :
    (input.build registry).1 = some (.error problems) ↔
      (input.buildDirectories (input.names registry).1).ends = true ∧
        (input.buildDirectories (input.names registry).1).diagnostics.hasErrors = true ∧
          (input.buildDirectories (input.names registry).1).diagnostics.sort = problems := by
  rw [build_eq_some_iff]
  exact and_congr_right fun _ => Diagnostics.settle_eq_error_iff

theorem fields_of_build {registry : NameRegistry} {ir : Ir} (h : (input.build registry).1 = some (.ok ir)) {path : String}
    {id : NodeId} (hkept : input.kept.get? path = some (.schema id)) :
    ∃ nodes, input.tree.fields input.settings.compression id = .ok nodes := by
  obtain ⟨hclean, -⟩ := build_eq_ok h
  cases hfields : input.tree.fields input.settings.compression id with
  | ok nodes => exact ⟨nodes, rfl⟩
  | error problems =>
    have herr : problems.hasErrors = true := by
      unfold SchemaTree.fields at hfields
      split at hfields
      · exact Diagnostics.hasErrors_of_settle hfields
      · cases hfields
    obtain ⟨d, hd, hderr⟩ := Diagnostics.hasErrors_iff.mp herr
    refine absurd (Diagnostics.hasErrors_iff.mpr ⟨d, ?_, hderr⟩) (Bool.eq_false_iff.mp hclean)
    rw [buildDirectories_eq, mem_collect]
    refine ⟨path, .schema id, hkept, ?_⟩
    simpa only [buildDirectory, buildSchema, hfields] using hd

/-- Where nothing is wrong, every kept path has a directory under its name. -/
theorem exists_directory {registry : NameRegistry} {ir : Ir} (h : (input.build registry).1 = some (.ok ir)) {path : String}
    {dir : MappedDirectory} (hkept : input.kept.get? path = some dir) :
    ∃ d, ir.directories.get? path = some d ∧ (input.names registry).1.get? path = some d.name := by
  rw [(build_eq_ok h).2, buildDirectories_eq, get?_collect, hkept, Option.bind_some, get?_names_of_kept hkept]
  cases dir with
  | fakeRoot rootName nodes => exact ⟨_, rfl, rfl⟩
  | schema id =>
    obtain ⟨nodes, hfields⟩ := fields_of_build h hkept
    simp only [buildDirectory, buildSchema, hfields]
    exact ⟨_, rfl, rfl⟩

theorem kept_of_directory {registry : NameRegistry} {ir : Ir} (h : (input.build registry).1 = some (.ok ir))
    {path : String} {d : Directory} (hd : ir.directories.get? path = some d) :
    ∃ dir, input.kept.get? path = some dir ∧
      (input.buildDirectory (input.names registry).1 path dir).value = some d := by
  rw [(build_eq_ok h).2, buildDirectories_eq, get?_collect] at hd
  exact Option.bind_eq_some_iff.mp hd

/-! ### Other compressions -/

/-- The same input, to be assembled with another compression. -/
def under (input : Input) (compression : Compression) : Input :=
  { input with settings := { input.settings with compression } }

variable {compression : Compression}

@[simp] theorem under_tree : (input.under compression).tree = input.tree := rfl

@[simp] theorem under_types : (input.under compression).types = input.types := rfl

@[simp] theorem under_leafFieldType (owner : String) (leaf : NodeId) :
    (input.under compression).leafFieldType owner leaf = input.leafFieldType owner leaf := rfl

@[simp] theorem under_compression : (input.under compression).settings.compression = compression := rfl

@[simp] theorem under_excludeModules :
    (input.under compression).settings.excludeModules = input.settings.excludeModules := rfl

end Input

end SchemaIr.Assembly
