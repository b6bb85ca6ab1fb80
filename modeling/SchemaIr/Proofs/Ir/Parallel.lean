import Mathlib.Data.List.Basic
import SchemaIr.Proofs.Diagnostic.Settle
import SchemaIr.Proofs.Ir.Built
import SchemaIr.Proofs.Ir.Names

/-! # Assembling in parallel

Two inputs over one tree may choose the same fields and the same holders of keys, and map the types of leaves to related
ones, with the same told about them as far as one listens (`Parallel`). Directory by directory the two then build the
same up to types and names (`buildDirectory_matches`). -/

namespace SchemaIr
open Diagnostics (Agree)

/-- What is related stays so in a weaker way. -/
theorem rel_imp {α β : Type} {R S : α → β → Prop} {a : Option α} {b : Option β} (h : Option.Rel R a b)
    (hS : ∀ x y, a = some x → b = some y → R x y → S x y) : Option.Rel S a b := by
  cases h with
  | none => exact .none
  | some hrelated => exact .some (hS _ _ rfl rfl hrelated)

/-! ### Fields, keys and directories that match -/

/-- Fields of one node, whose types are related. -/
structure Field.Matches (R : MappedType → MappedType → Prop) (f f' : Field) : Prop where
  name : f.name = f'.name
  kind : f.kind = f'.kind
  node : f.node = f'.node
  schemaPath : f.schemaPath = f'.schemaPath
  shadowPath : f.shadowPath = f'.shadowPath
  type : Option.Rel R f.type f'.type
  module : f.module = f'.module

/-- The same keys in the same leaves, whose types are related. -/
structure ListKeys.Matches (R : MappedType → MappedType → Prop) (ks ks' : ListKeys) : Prop where
  keys : ks.keys = ks'.keys
  types : ∀ key, Option.Rel R (ks.types.get? key) (ks'.types.get? key)
  nodes : ks.nodes = ks'.nodes
  paths : ks.paths = ks'.paths

/-- Directories of one node with matching fields and keys. How types are related depends on the two names. -/
structure Directory.Matches (R : String → String → MappedType → MappedType → Prop) (d d' : Directory) : Prop where
  path : d.path = d'.path
  isFakeRoot : d.isFakeRoot = d'.isFakeRoot
  module : d.module = d'.module
  fields : ∀ name, Option.Rel (Field.Matches (R d.name d'.name)) (d.fields.get? name) (d'.fields.get? name)
  keys : Option.Rel (ListKeys.Matches (R d.name d'.name)) d.keys d'.keys

/-! ### Keys -/

namespace ListKey
variable {ctx ctx' : TypeContext} {compress compress' : Bool} {list : NodeId} {owner owner' : String}
  {R : MappedType → MappedType → Prop}

/-- The keys of a list are held by the same leaves, whether compressed or not. -/
def SameHolders (t : SchemaTree) (compress compress' : Bool) (list : NodeId) : Prop :=
  ∀ key ∈ (t.node list).keyNames, ∀ child, t.child? list key = some child →
    holder t compress list key child = holder t compress' list key child

/-- The keys found so far match, the same is wrong with them, and both or none could be mapped to the end. -/
structure FoundMatches (R : MappedType → MappedType → Prop) (found found' : Found) : Prop where
  keys : found.keys.Matches R found'.keys
  problems : found.problems = found'.problems
  ends : found.ends = found'.ends

section Find
variable (htree : ctx'.tree = ctx.tree) (htypes : ∀ leaf, Agree R (ctx.leafType leaf owner) (ctx'.leafType leaf owner'))
include htree htypes

theorem find_matches {key : String} (hholder : ∀ child, ctx.tree.child? list key = some child →
      holder ctx.tree compress list key child = holder ctx.tree compress' list key child)
    {found found' : Found} (h : FoundMatches R found found') :
    FoundMatches R (find ctx compress list owner found key) (find ctx' compress' list owner' found' key) := by
  unfold find
  dsimp only
  rw [htree]
  cases hchild : ctx.tree.child? list key with
  | none =>
    refine ⟨h.keys, ?_, h.ends⟩
    dsimp only
    rw [h.problems]
  | some child =>
    dsimp only
    rw [hholder child hchild]
    generalize holder ctx.tree compress' list key child = held
    have htype := htypes held.1
    generalize ctx.leafType held.1 owner = type at htype ⊢
    generalize ctx'.leafType held.1 owner' = type' at htype ⊢
    cases htype with
    | ok hrelated =>
      simp only [h.problems, h.keys.nodes, h.keys.paths]
      refine ⟨⟨h.keys.keys, fun other => ?_, rfl, rfl⟩, rfl, h.ends⟩
      rw [Table.get?_insert, Table.get?_insert]
      split
      · exact .some hrelated
      · exact h.keys.types other
    | error problems =>
      simp only [h.problems, h.keys.nodes, h.keys.paths]
      exact ⟨⟨h.keys.keys, h.keys.types, rfl, rfl⟩, rfl, h.ends⟩
    | endless =>
      simp only [h.problems, h.keys.nodes, h.keys.paths]
      exact ⟨⟨h.keys.keys, h.keys.types, rfl, rfl⟩, rfl, rfl⟩

theorem foldl_find_matches {keys : List String} (hholder : ∀ key ∈ keys, ∀ child, ctx.tree.child? list key = some child →
      holder ctx.tree compress list key child = holder ctx.tree compress' list key child)
    {found found' : Found} (h : FoundMatches R found found') :
    FoundMatches R (keys.foldl (find ctx compress list owner) found)
      (keys.foldl (find ctx' compress' list owner') found') := by
  induction keys generalizing found found' with
  | nil => exact h
  | cons key rest ih =>
    obtain ⟨hkey, hrest⟩ := List.forall_mem_cons.mp hholder
    exact ih hrest (find_matches htree htypes hkey h)

/-- The keys of a list match, or the same is wrong with them, or none of their types is mapped to the end. -/
theorem listKeys_matches (hholder : SameHolders ctx.tree compress compress' list) :
    Agree (Option.Rel (ListKeys.Matches R)) (ctx.listKeys compress list owner) (ctx'.listKeys compress' list owner') := by
  unfold TypeContext.listKeys
  dsimp only
  rw [htree]
  split
  · exact .error _
  · split
    · split
      · exact .error _
      · exact .ok .none
    · have hstart : FoundMatches R ⟨⟨(ctx.tree.node list).keyNames, ∅, ∅, ∅⟩, ∅, true⟩
          ⟨⟨(ctx.tree.node list).keyNames, ∅, ∅, ∅⟩, ∅, true⟩ := ⟨⟨rfl, fun _ => .none, rfl, rfl⟩, rfl, rfl⟩
      have hfound := foldl_find_matches htree htypes hholder hstart
      rw [hfound.problems, hfound.ends]
      split
      · exact .settle (.some hfound.keys) _
      · exact .endless

end Find

end ListKey

namespace Assembly.Input

/-! ### What is built -/

/-- What is built is related, and the same is told about it, as far as one listens; both or none is built to the end. -/
structure BuiltMatches {α : Type} (heard : Diagnostic → Bool) (R : α → α → Prop) (b b' : Built (Option α)) : Prop where
  value : Option.Rel R b.value b'.value
  diagnostics : b.diagnostics.items.filter heard = b'.diagnostics.items.filter heard
  ends : b.ends = b'.ends

variable {heard : Diagnostic → Bool}

theorem BuiltMatches.hasErrors_eq {α : Type} {R : α → α → Prop} {b b' : Built (Option α)} (h : BuiltMatches heard R b b')
    (hheard : ∀ d, d.isError = true → heard d = true) : b.diagnostics.hasErrors = b'.diagnostics.hasErrors := by
  have hfilter : ∀ ds : Diagnostics, ds.hasErrors = true ↔ ∃ d ∈ ds.items.filter heard, d.isError = true := fun ds => by
    rw [Diagnostics.hasErrors_iff]
    refine exists_congr fun d => ⟨fun ⟨hd, herr⟩ => ?_, fun ⟨hd, herr⟩ => ?_⟩
    · exact ⟨List.mem_filter.mpr ⟨hd, hheard d herr⟩, herr⟩
    · exact ⟨(List.mem_filter.mp hd).1, herr⟩
  rw [Bool.eq_iff_iff, hfilter, hfilter, h.diagnostics]

theorem collect_matches {α β : Type} {R : β → β → Prop} {build build' : String → α → Built (Option β)} {t : Table α}
    (h : ∀ name x, t.get? name = some x → BuiltMatches heard R (build name x) (build' name x)) :
    (collect build t).diagnostics.items.filter heard = (collect build' t).diagnostics.items.filter heard ∧
      (collect build t).ends = (collect build' t).ends ∧
        ∀ name, Option.Rel R ((collect build t).value.get? name) ((collect build' t).value.get? name) := by
  refine ⟨?_, ?_, fun name => ?_⟩
  · simp only [collect, List.filter_flatMap]
    exact List.flatMap_congr fun e he => (h e.1 e.2 (Table.get?_eq_some_iff.mpr he)).diagnostics
  · rw [Bool.eq_iff_iff, ends_collect_iff, ends_collect_iff]
    exact forall_congr' fun name => forall_congr' fun x => forall_congr' fun hx => by rw [(h name x hx).ends]
  · rw [get?_collect, get?_collect]
    cases hget : t.get? name with
    | none => exact .none
    | some x => exact (h name x hget).value

/-- Two inputs over one tree that show the same shadow paths and map the types of leaves to related ones, about which
    the same is told. -/
structure Comparable (heard : Diagnostic → Bool) (R : String → String → MappedType → MappedType → Prop)
    (input input' : Input) : Prop where
  tree : input'.tree = input.tree
  excluded : input'.settings.excludeModules = input.settings.excludeModules
  shadows : input'.shownShadow? = input.shownShadow?
  types : ∀ leaf owner owner',
    Agree (R owner owner') (input.types.leafType leaf owner) (input'.types.leafType leaf owner')
  told : ∀ leaf owner owner', (input.leafFieldType owner leaf).diagnostics.items.filter heard =
    (input'.leafFieldType owner' leaf).diagnostics.items.filter heard

variable {R : String → String → MappedType → MappedType → Prop} {input input' : Input} {names names' : Table String}
  {owner owner' : String}

namespace Comparable
variable (h : Comparable heard R input input')
include h

theorem leafFieldType_matches (leaf : NodeId) :
    BuiltMatches heard (R owner owner') (input.leafFieldType owner leaf) (input'.leafFieldType owner' leaf) := by
  have htold := h.told leaf owner owner'
  have htype := h.types leaf owner owner'
  unfold leafFieldType at htold ⊢
  generalize input.types.leafType leaf owner = type at htype htold ⊢
  generalize input'.types.leafType leaf owner' = type' at htype htold ⊢
  cases htype with
  | ok hrelated => exact ⟨.some hrelated, htold, rfl⟩
  | error problems => exact ⟨.none, htold, rfl⟩
  | endless => exact ⟨.none, htold, rfl⟩

/-- A node has matching fields in both, or none in either. -/
theorem fieldOrNone_matches (path : NodeId → String) (name : String) (node : NodeId) :
    BuiltMatches heard (Field.Matches (R owner owner')) (input.fieldOrNone names owner path name node)
      (input'.fieldOrNone names' owner' path name node) := by
  have htype : BuiltMatches heard (R owner owner') _ _ := h.leafFieldType_matches node
  have hshadow := congrFun (congrFun h.shadows node) (path node)
  simp only [shownShadow?] at hshadow
  unfold fieldOrNone field?
  simp only [h.tree, h.excluded] at hshadow ⊢
  by_cases hexcluded : input.tree.isExcluded input.settings.excludeModules node = true
  · simp only [hexcluded, ↓reduceIte]
    exact ⟨.none, rfl, rfl⟩
  · simp only [hexcluded, Bool.false_eq_true, ↓reduceIte]
    cases FieldKind.ofNode? (input.tree.kind node) with
    | none => exact ⟨.none, rfl, rfl⟩
    | some kind =>
      cases kind with
      | leaf | leafList =>
        exact ⟨.some ⟨rfl, rfl, rfl, rfl, hshadow.symm, htype.value, rfl⟩, htype.diagnostics, htype.ends⟩
      | container | list | anydata => exact ⟨.some ⟨rfl, rfl, rfl, rfl, rfl, .none, rfl⟩, rfl, rfl⟩

theorem buildFields_matches (path : NodeId → String) (nodes : Table NodeId) :
    (input.buildFields names owner path nodes).diagnostics.items.filter heard =
        (input'.buildFields names' owner' path nodes).diagnostics.items.filter heard ∧
      (input.buildFields names owner path nodes).ends = (input'.buildFields names' owner' path nodes).ends ∧
        ∀ name, Option.Rel (Field.Matches (R owner owner')) ((input.buildFields names owner path nodes).value.get? name)
          ((input'.buildFields names' owner' path nodes).value.get? name) := by
  rw [buildFields_eq, buildFields_eq]
  exact collect_matches fun name node _ => h.fieldOrNone_matches path name node

theorem buildKeys_matches {id : NodeId} (hholder : input.tree.kind id = .list → ListKey.SameHolders input.tree
      input.settings.compression.compresses input'.settings.compression.compresses id) (path : String) :
    BuiltMatches heard (ListKeys.Matches (R owner owner')) (input.buildKeys path owner id)
      (input'.buildKeys path owner' id) := by
  unfold buildKeys
  rw [h.tree]
  by_cases hlist : input.tree.kind id = .list
  · simp only [hlist, ↓reduceIte]
    have hkeys : Agree _ (input.types.listKeys _ id owner) (input'.types.listKeys _ id owner') :=
      ListKey.listKeys_matches h.tree (fun leaf => h.types leaf owner owner') (hholder hlist)
    generalize input.types.listKeys input.settings.compression.compresses id owner = keys at hkeys ⊢
    generalize input'.types.listKeys input'.settings.compression.compresses id owner' = keys' at hkeys ⊢
    cases hkeys with
    | error problems => exact ⟨.none, rfl, rfl⟩
    | ok hmatch =>
      cases hmatch with
      | none => exact ⟨.none, rfl, rfl⟩
      | some hmatch => exact ⟨.some hmatch, rfl, rfl⟩
    | endless => exact ⟨.none, rfl, rfl⟩
  · simp only [hlist, ↓reduceIte]
    exact ⟨.none, rfl, rfl⟩

end Comparable

/-- Two inputs to assemble that are comparable, and choose the same nodes, fields and holders of keys. -/
structure Parallel (heard : Diagnostic → Bool) (R : String → String → MappedType → MappedType → Prop)
    (input input' : Input) : Prop extends Comparable heard R input input' where
  keeps : input'.keeps = input.keeps
  fields : ∀ dir, input.tree.fields input'.settings.compression dir = input.tree.fields input.settings.compression dir
  holders : ∀ list, input.tree.kind list = .list →
    ListKey.SameHolders input.tree input.settings.compression.compresses input'.settings.compression.compresses list

/-- What stands at a path is built as matching directories, or its fields clash in both. -/
theorem Parallel.buildDirectory_matches (h : Parallel heard R input input') (path : String) (m : MappedDirectory) :
    BuiltMatches heard (Directory.Matches R) (input.buildDirectory names path m)
      (input'.buildDirectory names' path m) := by
  cases m with
  | schema id =>
    simp only [buildDirectory, buildSchema, h.tree, h.fields id]
    cases input.tree.fields input.settings.compression id with
    | error problems => exact ⟨.none, rfl, rfl⟩
    | ok nodes =>
      obtain ⟨hproblems, hends, hfields⟩ := @Comparable.buildFields_matches heard R input input' names names'
        (names.getD path "") (names'.getD path "") h.toComparable (relativePath input.tree id) nodes
      have hkeys : BuiltMatches heard _ (input.buildKeys path (names.getD path "") id)
          (input'.buildKeys path (names'.getD path "") id) := h.buildKeys_matches (h.holders id) path
      refine ⟨.some ⟨rfl, rfl, rfl, hfields, hkeys.value⟩, ?_, congrArg₂ (· && ·) hends hkeys.ends⟩
      exact (List.filter_append ..).trans
        ((congrArg₂ (· ++ ·) hproblems hkeys.diagnostics).trans (List.filter_append ..).symm)
  | fakeRoot rootName nodes =>
    simp only [buildDirectory, buildFakeRoot, h.tree, h.keeps]
    obtain ⟨hproblems, hends, hfields⟩ := @Comparable.buildFields_matches heard R input input' names names'
      (names.getD path "") (names'.getD path "") h.toComparable (modulePath input.tree) (nodes.filter fun _ id => input.keeps id)
    exact ⟨.some ⟨rfl, rfl, rfl, hfields, .none⟩, hproblems, hends⟩

/-! ### Results -/

theorem hasErrors_buildDirectories_iff {input : Input} {names : Table String} :
    (input.buildDirectories names).diagnostics.hasErrors = true ↔ ∃ path m, input.kept.get? path = some m ∧
      (input.buildDirectory names path m).diagnostics.hasErrors = true := by
  simp only [Diagnostics.hasErrors_iff, buildDirectories_eq, mem_collect]
  constructor
  · rintro ⟨d, ⟨path, m, hm, hd⟩, herr⟩
    exact ⟨path, m, hm, d, hd, herr⟩
  · rintro ⟨path, m, hm, d, hd, herr⟩
    exact ⟨d, ⟨path, m, hm, hd⟩, herr⟩

theorem ends_buildDirectories_iff {input : Input} {names : Table String} : (input.buildDirectories names).ends = true ↔
    ∀ path m, input.kept.get? path = some m → (input.buildDirectory names path m).ends = true := by
  rw [buildDirectories_eq, ends_collect_iff]

/-- Assembling comes to a result exactly if every kept directory is built to the end and without errors. -/
theorem exists_build_iff_forall {input : Input} {registry : NameRegistry} :
    (∃ ir, (input.build registry).1 = some (.ok ir)) ↔ ∀ path m, input.kept.get? path = some m →
      (input.buildDirectory (input.names registry).1 path m).ends = true ∧
        (input.buildDirectory (input.names registry).1 path m).diagnostics.hasErrors = false := by
  rw [exists_build_iff, ends_buildDirectories_iff, ← Bool.not_eq_true, hasErrors_buildDirectories_iff]
  constructor
  · rintro ⟨hends, hclean⟩ path m hm
    exact ⟨hends path m hm, Bool.eq_false_iff.mpr fun herr => hclean ⟨path, m, hm, herr⟩⟩
  · intro h
    refine ⟨fun path m hm => (h path m hm).1, ?_⟩
    rintro ⟨path, m, hm, herr⟩
    exact Bool.eq_false_iff.mp (h path m hm).2 herr

namespace Parallel
variable (h : Parallel heard R input input') {a b : Ir}
include h

/-- Where all errors are heard, an input that keeps no more than another one does is assembled with it. -/
theorem exists_build (hheard : ∀ d, d.isError = true → heard d = true)
    (hkept : ∀ path m, input'.kept.get? path = some m → input.kept.get? path = some m)
    (ha : (input.build ∅).1 = some (.ok a)) : ∃ b, (input'.build ∅).1 = some (.ok b) := by
  refine exists_build_iff_forall.mpr fun path m hm => ?_
  have hmatches : BuiltMatches heard _ (input.buildDirectory (input.names ∅).1 path m)
    (input'.buildDirectory (input'.names ∅).1 path m) := h.buildDirectory_matches path m
  rw [← hmatches.ends, ← hmatches.hasErrors_eq hheard]
  exact exists_build_iff_forall.mp ⟨a, ha⟩ path m (hkept path m hm)

theorem directories_match (ha : (input.build ∅).1 = some (.ok a)) (hb : (input'.build ∅).1 = some (.ok b)) {path : String}
    (hkept : input'.kept.get? path = input.kept.get? path) :
    Option.Rel (Directory.Matches R) (a.directories.get? path) (b.directories.get? path) := by
  rw [(build_eq_ok ha).2, (build_eq_ok hb).2, buildDirectories_eq, buildDirectories_eq, get?_collect, get?_collect, hkept]
  cases input.kept.get? path with
  | none => exact .none
  | some m => exact (h.buildDirectory_matches path m).value

theorem node_eq (ha : (input.build ∅).1 = some (.ok a)) (hb : (input'.build ∅).1 = some (.ok b)) {path name : String}
    (hkept : input'.kept.get? path = input.kept.get? path) {d d' : Directory} {f f' : Field}
    (hd : a.directories.get? path = some d) (hd' : b.directories.get? path = some d') (hf : d.fields.get? name = some f)
    (hf' : d'.fields.get? name = some f') : f.node = f'.node := by
  have hdirectories := h.directories_match ha hb hkept
  rw [hd, hd', Option.rel_some_some] at hdirectories
  have hfields := hdirectories.fields name
  rw [hf, hf', Option.rel_some_some] at hfields
  exact hfields.node

end Parallel

end Assembly.Input

end SchemaIr
