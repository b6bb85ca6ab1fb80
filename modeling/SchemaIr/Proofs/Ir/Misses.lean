import SchemaIr.Proofs.Ir.Told
import SchemaIr.Proofs.ListKey.Keys

/-! # The leaves whose types assembling maps

Assembling maps the types of the leaves among the fields of the directories that it builds, and of the leaves
that hold the keys of its lists (`MapsLeaf`). It ends exactly if the mapping of each of these does
(`build_endless_iff`), and it tells of an enumeration without name exactly if the mapping of one of these meets one
(`build_misses_iff`). -/

namespace SchemaIr

open TypeContext (Acyclic)

/-! ### Keys -/

namespace ListKey
variable {ctx : TypeContext} {compress : Bool} {list : NodeId}

/-- A key tells of an enumeration without name exactly if the type of the leaf that holds it meets one. -/
theorem wrong_misses_iff (owner : String) (hacyclic : Acyclic ctx.tree ctx.index) (key : String) :
    (∃ d, Wrong ctx compress list owner key d ∧ d.code = .enumWithoutContext) ↔
      ∃ child, ctx.tree.child? list key = some child ∧ ctx.Misses (holder ctx.tree compress list key child).1 := by
  constructor
  · rintro ⟨d, hwrong, hcode⟩
    cases hwrong with
    | missing _ => cases hcode
    | lost _ => cases hcode
    | type hholder herror hd =>
      obtain ⟨child, hchild⟩ := hholder.exists_child
      refine ⟨child, hchild, (ctx.leafType_misses_iff owner _ hacyclic).mp ?_⟩
      rw [hholder.eq hchild]
      exact ⟨_, herror, Diagnostics.contains_iff.mpr ⟨d, hd, hcode⟩⟩
  · rintro ⟨child, hchild, hmisses⟩
    obtain ⟨problems, herror, hcode⟩ := (ctx.leafType_misses_iff owner _ hacyclic).mpr hmisses
    obtain ⟨d, hd, hdcode⟩ := Diagnostics.contains_iff.mp hcode
    exact ⟨d, .type (holder_of_child? compress hchild).1 herror hd, hdcode⟩

theorem listKeys_misses_iff (ctx : TypeContext) (compress : Bool) (owner : String) {list : NodeId}
    (hacyclic : Acyclic ctx.tree ctx.index) (hlist : ctx.tree.kind list = .list) :
    (∃ problems, ctx.listKeys compress list owner = some (.error problems) ∧ problems.contains .enumWithoutContext = true) ↔
      ∃ key ∈ (ctx.tree.node list).keyNames, ∃ child, ctx.tree.child? list key = some child ∧
        ctx.Misses (holder ctx.tree compress list key child).1 := by
  by_cases hnames : (ctx.tree.node list).keyNames = []
  · rw [TypeContext.listKeys, if_neg (not_not_intro hlist), if_pos (by simp [hnames]), hnames]
    split <;> simp [Diagnostic.noListKey]
  · obtain ⟨found, hkeys, hgathered, hanswer⟩ := listKeys_of_names compress owner hlist hnames
    rw [hkeys] at hgathered
    rw [hanswer, if_pos (hgathered.ends.mpr fun key _ => not_endless hacyclic compress list owner key)]
    simp only [Option.some.injEq]
    rw [Diagnostics.contains_of_settle_iff rfl, Diagnostics.contains_iff]
    simp only [hgathered.problems, ← wrong_misses_iff owner hacyclic]
    constructor
    · rintro ⟨d, ⟨key, hkey, hwrong⟩, hcode⟩
      exact ⟨key, hkey, d, hwrong, hcode⟩
    · rintro ⟨key, hkey, d, hwrong, hcode⟩
      exact ⟨d, ⟨key, hkey, hwrong⟩, hcode⟩

end ListKey

/-! ### Fields and directories -/

namespace Assembly.Input
variable {input : Input}

/-- The leaves whose types assembling maps. -/
inductive MapsLeaf (input : Input) : NodeId → Prop
  /-- A field of a directory. -/
  | field {path name : String} {dir leaf : NodeId} {nodes : Table NodeId} :
      input.kept.get? path = some (.schema dir) →
      input.tree.fields input.settings.compression dir = .ok nodes → nodes.get? name = some leaf →
      input.tree.isExcluded input.settings.excludeModules leaf = false →
      (input.tree.kind leaf).isLeafLike = true → MapsLeaf input leaf
  /-- A field of the fake root. -/
  | rootField {path name root : String} {leaf : NodeId} {nodes : Table NodeId} :
      input.kept.get? path = some (.fakeRoot root nodes) → nodes.get? name = some leaf → input.keeps leaf = true →
      input.tree.isExcluded input.settings.excludeModules leaf = false →
      (input.tree.kind leaf).isLeafLike = true → MapsLeaf input leaf
  /-- The leaf that holds a key of a list. -/
  | key {path key : String} {list child : NodeId} {nodes : Table NodeId} :
      input.kept.get? path = some (.schema list) →
      input.tree.fields input.settings.compression list = .ok nodes → input.tree.kind list = .list →
      key ∈ (input.tree.node list).keyNames → input.tree.child? list key = some child →
      MapsLeaf input (ListKey.holder input.tree input.settings.compression.compresses list key child).1

/-! ### Assembling that does not end -/

theorem leafFieldType_endless_iff {owner : String} {leaf : NodeId} :
    (input.leafFieldType owner leaf).ends = false ↔ ¬input.types.Ends owner leaf := by
  rw [← TypeContext.leafType_eq_none_iff, leafFieldType]
  rcases input.types.leafType leaf owner with _ | _ | _ <;> simp

theorem fieldOrNone_endless_iff {names : Table String} {owner name : String} {path : NodeId → String} {node : NodeId} :
    (input.fieldOrNone names owner path name node).ends = false ↔
      input.LeafField node ∧ ¬input.types.Ends owner node := by
  rw [← leafFieldType_endless_iff]
  unfold fieldOrNone field? LeafField
  dsimp only
  cases input.tree.isExcluded input.settings.excludeModules node with
  | true => simp
  | false => cases input.tree.kind node <;> simp [FieldKind.ofNode?, NodeKind.isLeafLike]

theorem collect_endless_iff {α β : Type} {build : String → α → Built (Option β)} {t : Table α} :
    (collect build t).ends = false ↔ ∃ name x, t.get? name = some x ∧ (build name x).ends = false := by
  rw [← Bool.not_eq_true, ends_collect_iff]
  push Not
  simp only [Bool.not_eq_true]

theorem buildFields_endless_iff {names : Table String} {owner : String} {path : NodeId → String} {nodes : Table NodeId} :
    (input.buildFields names owner path nodes).ends = false ↔
      ∃ name leaf, nodes.get? name = some leaf ∧ input.LeafField leaf ∧ ¬input.types.Ends owner leaf := by
  rw [buildFields_eq, collect_endless_iff]
  simp only [fieldOrNone_endless_iff]

theorem buildKeys_endless_iff {path name : String} {dir : NodeId} : (input.buildKeys path name dir).ends = false ↔
    input.tree.kind dir = .list ∧ ∃ key ∈ (input.tree.node dir).keyNames,
      ListKey.Endless input.types input.settings.compression.compresses dir name key := by
  have hkeys := @ListKey.listKeys_eq_none_iff input.types input.settings.compression.compresses dir name
  unfold buildKeys
  split
  · refine Iff.trans ?_ hkeys
    rcases input.types.listKeys input.settings.compression.compresses dir name with _ | _ | _ | _ <;> simp
  · rename_i hlist
    simp [hlist]

/-- Where assembling does not end, neither does the mapping of one of the leaves of some kept directory, … -/
theorem exists_mapsLeaf_of_endless {names : Table String} {path : String} {dir : MappedDirectory}
    (hkept : input.kept.get? path = some dir) (h : (input.buildDirectory names path dir).ends = false) :
    ∃ leaf, MapsLeaf input leaf ∧ ¬input.types.Ends (names.getD path "") leaf := by
  cases dir with
  | schema id =>
    unfold buildDirectory buildSchema at h
    dsimp only at h
    cases hfields : input.tree.fields input.settings.compression id with
    | error problems =>
      rw [hfields] at h
      cases h
    | ok nodes =>
      rw [hfields, Bool.and_eq_false_iff, buildFields_endless_iff, buildKeys_endless_iff] at h
      rcases h with ⟨name, leaf, hnode, hleaf, hendless⟩ | ⟨hlist, key, hkey, leaf, hholder, hendless⟩
      · exact ⟨leaf, .field hkept hfields hnode hleaf.1 hleaf.2, hendless⟩
      · obtain ⟨child, hchild⟩ := hholder.exists_child
        rw [← hholder.eq hchild] at hendless
        exact ⟨_, .key hkept hfields hlist hkey hchild, hendless⟩
  | fakeRoot root nodes =>
    obtain ⟨name, leaf, hnode, hleaf, hendless⟩ := buildFields_endless_iff.mp h
    obtain ⟨hnode, hkeep⟩ := Table.get?_filter_eq_some_iff.mp hnode
    exact ⟨leaf, .rootField hkept hnode hkeep hleaf.1 hleaf.2, hendless⟩

/-- … and the other way round. -/
theorem exists_endless_of_mapsLeaf (names : Table String) {leaf : NodeId} (hleaf : MapsLeaf input leaf)
    (hendless : ∀ owner, ¬input.types.Ends owner leaf) :
    ∃ path dir, input.kept.get? path = some dir ∧ (input.buildDirectory names path dir).ends = false := by
  cases hleaf with
  | field hkept hfields hnode hincluded hkind =>
    refine ⟨_, _, hkept, ?_⟩
    simp only [buildDirectory, buildSchema, hfields]
    exact Bool.and_eq_false_iff.mpr (.inl (buildFields_endless_iff.mpr
      ⟨_, _, hnode, ⟨hincluded, hkind⟩, hendless _⟩))
  | rootField hkept hnode hkeep hincluded hkind =>
    refine ⟨_, _, hkept, ?_⟩
    exact buildFields_endless_iff.mpr
      ⟨_, _, Table.get?_filter_eq_some_iff.mpr ⟨hnode, hkeep⟩, ⟨hincluded, hkind⟩, hendless _⟩
  | key hkept hfields hlist hkey hchild =>
    refine ⟨_, _, hkept, ?_⟩
    simp only [buildDirectory, buildSchema, hfields]
    exact Bool.and_eq_false_iff.mpr (.inr (buildKeys_endless_iff.mpr
      ⟨hlist, _, hkey, _, (ListKey.holder_of_child? _ hchild).1, hendless _⟩))

/-- Assembling has no result exactly if it maps a leaf from which leafrefs lead into a circle. -/
theorem build_endless_iff (input : Input) (registry : NameRegistry) : (input.build registry).1 = none ↔
    ∃ leaf, MapsLeaf input leaf ∧ ReachesCycle (TypeContext.LeadsTo input.tree input.index) leaf := by
  have hends : ∀ owner leaf,
      ¬input.types.Ends owner leaf ↔ ReachesCycle (TypeContext.LeadsTo input.tree input.index) leaf :=
    fun owner leaf => (not_congr TypeContext.ends_iff_not_reachesCycle_leadsTo).trans not_not
  rw [build_eq_none_iff, buildDirectories_eq, collect_endless_iff]
  constructor
  · rintro ⟨path, dir, hkept, hendless⟩
    obtain ⟨leaf, hleaf, hleafEndless⟩ := exists_mapsLeaf_of_endless hkept hendless
    exact ⟨leaf, hleaf, (hends _ leaf).mp hleafEndless⟩
  · rintro ⟨leaf, hleaf, hcycle⟩
    exact exists_endless_of_mapsLeaf _ hleaf fun owner => (hends owner leaf).mpr hcycle

/-- Where no union leads back to itself, assembling ends. -/
theorem exists_build_of_acyclic (hacyclic : Acyclic input.tree input.index) (registry : NameRegistry) :
    ∃ result, (input.build registry).1 = some result := by
  refine Option.ne_none_iff_exists'.mp fun hnone => ?_
  obtain ⟨leaf, -, c, -, hcycle⟩ := (build_endless_iff input registry).mp hnone
  exact hacyclic.irrefl c hcycle

/-! ### Enumerations without name -/

theorem toldOfLeaf_misses_iff (hacyclic : Acyclic input.tree input.index) (owner : String) (leaf : NodeId) :
    (∃ d, ToldOfLeaf input owner leaf d ∧ d.code = .enumWithoutContext) ↔ input.types.Misses leaf := by
  rw [← input.types.leafType_misses_iff owner leaf hacyclic]
  simp only [Diagnostics.contains_iff]
  constructor
  · rintro ⟨d, htold, hcode⟩
    cases htold with
    | failed herror hd => exact ⟨_, herror, d, hd, hcode⟩
    | collapsed _ _ _ => cases hcode
  · rintro ⟨problems, herror, d, hd, hcode⟩
    exact ⟨d, .failed herror hd, hcode⟩

theorem code_of_fields_error {id : NodeId} {problems : Diagnostics}
    (h : input.tree.fields input.settings.compression id = .error problems) {d : Diagnostic} (hd : d ∈ problems.items) :
    d.code = .duplicateField := by
  unfold SchemaTree.fields at h
  split at h
  · obtain ⟨-, rfl⟩ := Diagnostics.settle_eq_error_iff.mp h
    obtain ⟨clash, -, rfl⟩ := List.mem_map.mp (Diagnostics.mem_sort.mp hd)
    rfl
  · cases h

/-- Where a kept directory tells of an enumeration without name, the mapping of one of its leaves misses it. -/
theorem exists_mapsLeaf_of_told (hacyclic : Acyclic input.tree input.index) {path name : String} {dir : MappedDirectory}
    {d : Diagnostic} (hkept : input.kept.get? path = some dir) (htold : Told input path name dir d)
    (hcode : d.code = .enumWithoutContext) : ∃ leaf, MapsLeaf input leaf ∧ input.types.Misses leaf := by
  cases htold with
  | clash herror hd =>
    rw [code_of_fields_error herror hd] at hcode
    cases hcode
  | leaf hfields hnode hleaf htold =>
    exact ⟨_, .field hkept hfields hnode hleaf.1 hleaf.2, (toldOfLeaf_misses_iff hacyclic _ _).mp ⟨d, htold, hcode⟩⟩
  | key hfields hlist herror hd =>
    obtain ⟨key, hkey, child, hchild, hmisses⟩ := (ListKey.listKeys_misses_iff input.types _ _ hacyclic hlist).mp
      ⟨_, herror, Diagnostics.contains_iff.mpr ⟨d, hd, hcode⟩⟩
    exact ⟨_, .key hkept hfields hlist hkey hchild, hmisses⟩
  | keyless _ _ _ => cases hcode
  | rootLeaf hnode hkeep hleaf htold =>
    exact ⟨_, .rootField hkept hnode hkeep hleaf.1 hleaf.2, (toldOfLeaf_misses_iff hacyclic _ _).mp ⟨d, htold, hcode⟩⟩

/-- Whatever leaf is mapped, some directory tells what its mapping misses. -/
theorem exists_told_of_mapsLeaf (hacyclic : Acyclic input.tree input.index) (names : Table String) {leaf : NodeId}
    (hleaf : MapsLeaf input leaf) (hmisses : input.types.Misses leaf) :
    ∃ d, (∃ path dir, input.kept.get? path = some dir ∧ Told input path (names.getD path "") dir d) ∧
      d.code = .enumWithoutContext := by
  cases hleaf with
  | @field path _ _ _ _ hkept hfields hnode hincluded hkind =>
    obtain ⟨d, htold, hcode⟩ := (toldOfLeaf_misses_iff hacyclic (names.getD path "") _).mpr hmisses
    exact ⟨d, ⟨path, _, hkept, .leaf hfields hnode ⟨hincluded, hkind⟩ htold⟩, hcode⟩
  | @rootField path _ _ _ _ hkept hnode hkeep hincluded hkind =>
    obtain ⟨d, htold, hcode⟩ := (toldOfLeaf_misses_iff hacyclic (names.getD path "") _).mpr hmisses
    exact ⟨d, ⟨path, _, hkept, .rootLeaf hnode hkeep ⟨hincluded, hkind⟩ htold⟩, hcode⟩
  | @key path key _ child _ hkept hfields hlist hkey hchild =>
    obtain ⟨problems, herror, hcontains⟩ := (ListKey.listKeys_misses_iff input.types
      input.settings.compression.compresses (names.getD path "") hacyclic hlist).mpr ⟨key, hkey, child, hchild, hmisses⟩
    obtain ⟨d, hd, hcode⟩ := Diagnostics.contains_iff.mp hcontains
    exact ⟨d, ⟨path, _, hkept, .key hfields hlist herror hd⟩, hcode⟩

/-- Assembling tells of an enumeration without name exactly if it maps a leaf whose mapping meets one. -/
theorem build_misses_iff (hacyclic : Acyclic input.tree input.index) (registry : NameRegistry) :
    (∃ problems, (input.build registry).1 = some (.error problems) ∧ problems.contains .enumWithoutContext = true) ↔
      ∃ leaf, MapsLeaf input leaf ∧ input.types.Misses leaf := by
  obtain ⟨result, hresult⟩ := exists_build_of_acyclic hacyclic registry
  obtain ⟨-, hsettle⟩ := build_eq_some_iff.mp hresult
  rw [hresult, ← hsettle]
  simp only [Option.some.injEq]
  rw [Diagnostics.contains_of_settle_iff rfl, Diagnostics.contains_iff]
  simp only [mem_buildDirectories_iff]
  constructor
  · rintro ⟨d, ⟨path, dir, hkept, htold⟩, hcode⟩
    exact exists_mapsLeaf_of_told hacyclic hkept htold hcode
  · rintro ⟨leaf, hleaf, hmisses⟩
    exact exists_told_of_mapsLeaf hacyclic _ hleaf hmisses

end Assembly.Input

end SchemaIr
