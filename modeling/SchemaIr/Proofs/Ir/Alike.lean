import SchemaIr.Proofs.Ir.Parallel
import SchemaIr.Proofs.MappedType.Owner

/-! # Results of two compressions

The same input can be assembled with one compression and with another (`Input.under`). Field by field and key by key the
results differ in the names of directories alone, and the same is told about them, as long as no field has a
shadow path and the same leaves hold the keys (`fieldOrNone_alike`, `buildKeys_alike`): the two inputs map types
alike, so that they are comparable (`comparable_of_types`). -/

namespace SchemaIr

/-! ### Fields and keys that differ in owners -/

/-- Fields of one node, without shadow paths, whose types differ at most in owners. -/
structure Field.Alike (owner owner' : String) (f f' : Field) : Prop where
  name : f.name = f'.name
  kind : f.kind = f'.kind
  node : f.node = f'.node
  schemaPath : f.schemaPath = f'.schemaPath
  noShadow : f.shadowPath = none ∧ f'.shadowPath = none
  type : Option.Rel (MappedType.Alike owner owner') f.type f'.type
  module : f.module = f'.module

/-- The same keys in the same leaves, whose types differ at most in owners. -/
structure ListKeys.Alike (owner owner' : String) (ks ks' : ListKeys) : Prop where
  keys : ks.keys = ks'.keys
  types : ∀ key, Option.Rel (MappedType.Alike owner owner') (ks.types.get? key) (ks'.types.get? key)
  nodes : ks.nodes = ks'.nodes
  paths : ks.paths = ks'.paths

/-- Directories of one node, with the same keys. -/
structure Directory.SameNode (d d' : Directory) : Prop where
  path : d.path = d'.path
  isFakeRoot : d.isFakeRoot = d'.isFakeRoot
  module : d.module = d'.module
  keys : Option.Rel (ListKeys.Alike d.name d'.name) d.keys d'.keys

section
variable {owner owner' : String}

theorem Field.Matches.alike {f f' : Field} (h : f.Matches (MappedType.Alike owner owner') f')
    (hshadow : f.shadowPath = none) : f.Alike owner owner' f' :=
  ⟨h.name, h.kind, h.node, h.schemaPath, ⟨hshadow, h.shadowPath ▸ hshadow⟩, h.type, h.module⟩

theorem ListKeys.Matches.alike {ks ks' : ListKeys} (h : ks.Matches (MappedType.Alike owner owner') ks') :
    ks.Alike owner owner' ks' :=
  ⟨h.keys, h.types, h.nodes, h.paths⟩

end

namespace Assembly.Input
open Diagnostics (Agree)

variable {input : Input} {compression compression' : Compression} {owner owner' : String}

/-! ### Types under other owners -/

theorem leafFieldType_diagnostics (input : Input) (leaf : NodeId) (owner owner' : String) :
    (input.leafFieldType owner leaf).diagnostics = (input.leafFieldType owner' leaf).diagnostics := by
  have htype := input.types.leafType_alike leaf owner owner'
  unfold leafFieldType
  generalize input.types.leafType leaf owner = type at htype ⊢
  generalize input.types.leafType leaf owner' = type' at htype ⊢
  cases htype with
  | error problems => rfl
  | endless => rfl
  | @ok m m' halike =>
    dsimp only
    rw [← halike.isUnion_eq]
    cases hunion : m.isUnion with
    | true => simp
    | false => rw [halike.native_eq hunion]

/-- Inputs that map types out of the same context are comparable. -/
theorem comparable_of_types {heard : Diagnostic → Bool} {input input' : Input} (htypes : input'.types = input.types)
    (hexcluded : input'.settings.excludeModules = input.settings.excludeModules)
    (hshadows : input'.shownShadow? = input.shownShadow?) : Comparable heard MappedType.Alike input input' := by
  have htree : input'.tree = input.tree := congrArg TypeContext.tree htypes
  refine ⟨htree, hexcluded, hshadows, fun leaf owner owner' => ?_, fun leaf owner owner' => ?_⟩
  · rw [htypes]
    exact input.types.leafType_alike leaf owner owner'
  · have hsame : input'.leafFieldType owner' leaf = input.leafFieldType owner' leaf := by
      unfold leafFieldType
      rw [htypes, htree]
    rw [hsame, leafFieldType_diagnostics]

/-! ### Built under two compressions -/

/-- What is built is related, and the same is told about it; both or none is built to the end. -/
structure BuiltAlike {α : Type} (R : α → α → Prop) (b b' : Built (Option α)) : Prop where
  value : Option.Rel R b.value b'.value
  diagnostics : b.diagnostics = b'.diagnostics
  ends : b.ends = b'.ends

theorem BuiltMatches.alike {α : Type} {R S : α → α → Prop} {b b' : Built (Option α)}
    (h : BuiltMatches (fun _ => true) R b b') (hS : ∀ x y, b.value = some x → R x y → S x y) : BuiltAlike S b b' := by
  have htold := h.diagnostics
  simp only [List.filter_true] at htold
  exact ⟨rel_imp h.value fun x y hx _ => hS x y hx, congrArg Diagnostics.mk htold, h.ends⟩

/-- No leaf has a shadow path under the compression. -/
def Unshadowed (t : SchemaTree) (compression : Compression) : Prop :=
  (compression.compresses && !compression.excludesState) = true → ∀ leaf schemaPath, shadowPath? t leaf schemaPath = none

theorem unshadowed_of_compresses {t : SchemaTree} (h : compression.compresses = false) : Unshadowed t compression := by
  rw [Unshadowed, h]
  rintro ⟨⟩

theorem Unshadowed.shownShadow?_eq (h : Unshadowed input.tree compression) :
    (input.under compression).shownShadow? = fun _ _ => none := by
  funext leaf schemaPath
  exact ite_eq_right_iff.mpr fun hcond => h hcond leaf schemaPath

theorem Unshadowed.shadowPath (h : Unshadowed input.tree compression) {names : Table String} {name schemaPath : String}
    {node : NodeId} {b : Built Field} (hb : (input.under compression).field? names owner name node schemaPath = some b) :
    b.value.shadowPath = none := by
  rw [field?_shadowPath hb, h.shownShadow?_eq, ite_self]

theorem comparable_under {heard : Diagnostic → Bool} (h : Unshadowed input.tree compression)
    (h' : Unshadowed input.tree compression') :
    Comparable heard MappedType.Alike (input.under compression) (input.under compression') :=
  comparable_of_types rfl rfl (h'.shownShadow?_eq.trans h.shownShadow?_eq.symm)

/-- A node has a field under both compressions, alike, or under none. -/
theorem fieldOrNone_alike (h : Unshadowed input.tree compression) (h' : Unshadowed input.tree compression')
    (names names' : Table String) (path : NodeId → String) (name : String) (node : NodeId) :
    BuiltAlike (Field.Alike owner owner') ((input.under compression).fieldOrNone names owner path name node)
      ((input.under compression').fieldOrNone names' owner' path name node) := by
  refine ((comparable_under h h').fieldOrNone_matches path name node).alike fun f f' hf hmatches => hmatches.alike ?_
  unfold fieldOrNone at hf
  split at hf
  · rename_i b hb
    cases hf
    exact h.shadowPath hb
  · cases hf

/-- The keys of a directory are alike under both compressions. -/
theorem buildKeys_alike (h : Unshadowed input.tree compression) (h' : Unshadowed input.tree compression') {id : NodeId}
    (hholder : input.tree.kind id = .list →
      ListKey.SameHolders input.tree compression.compresses compression'.compresses id) (path : String) :
    BuiltAlike (ListKeys.Alike owner owner') ((input.under compression).buildKeys path owner id)
      ((input.under compression').buildKeys path owner' id) :=
  ((comparable_under h h').buildKeys_matches hholder path).alike fun _ _ _ hmatches => hmatches.alike

/-- Without shadow paths at leaves there are none in directories. -/
theorem shadowPath_of_buildDirectory (h : Unshadowed input.tree compression) {names : Table String} {path : String}
    {m : MappedDirectory} {d : Directory} (hd : ((input.under compression).buildDirectory names path m).value = some d)
    {name : String} {f : Field} (hf : d.fields.get? name = some f) : f.shadowPath = none := by
  have hfield : ∀ {owner path nodes},
      ((input.under compression).buildFields names owner path nodes).value.get? name = some f → f.shadowPath = none := by
    intro owner path nodes hf
    obtain ⟨node, b, -, hb, rfl⟩ := get?_buildFields_iff.mp hf
    exact h.shadowPath hb
  cases m with
  | schema id =>
    simp only [buildDirectory, buildSchema] at hd
    split at hd
    · cases hd
    · cases hd
      exact hfield hf
  | fakeRoot rootName nodes =>
    cases hd
    exact hfield hf

/-- Built along one table under two compressions. -/
theorem collect_alike {α β : Type} {R : β → β → Prop} {build build' : String → α → Built (Option β)} {t : Table α}
    (h : ∀ name x, t.get? name = some x → BuiltAlike R (build name x) (build' name x)) :
    (collect build t).diagnostics = (collect build' t).diagnostics ∧ (collect build t).ends = (collect build' t).ends ∧
      ∀ name, Option.Rel R ((collect build t).value.get? name) ((collect build' t).value.get? name) := by
  obtain ⟨htold, hends, hvalue⟩ := @collect_matches (fun _ => true) _ _ _ _ _ _ fun name x hx =>
    BuiltMatches.mk (h name x hx).value (congrArg (List.filter _ ·.items) (h name x hx).diagnostics) (h name x hx).ends
  simp only [List.filter_true] at htold
  exact ⟨congrArg Diagnostics.mk htold, hends, hvalue⟩

end Assembly.Input

end SchemaIr
