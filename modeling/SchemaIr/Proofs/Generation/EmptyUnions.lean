import SchemaIr.Proofs.Generation.Closure
import SchemaIr.Proofs.Generation.Targets
import SchemaIr.Proofs.MappedType.Members
import SchemaIr.Proofs.Schema.DistinctPaths

/-! # Empty unions

Two passes ask for empty unions. The naming of enumerations does not accept a type with an empty union in it, wherever
this stands (`ofLeaves_tellsEmpty`). But only leaves with enumerations are named. The mapping of types splices a union in
a union, so that an empty one leaves no trace among other alternatives, and it asks for empty unions only where no member
type is left (`exists_maps_iff`). So a run with a leaf whose type has an empty union in it fails for sure if there is an
enumeration in the type as well, or nothing else at all (`empty_union_told`). -/

namespace SchemaIr

/-- A pass fails and tells of an empty union in the type of the leaf at a path. -/
def TellsEmpty {α : Type} (result : Except Diagnostics α) (path : String) : Prop :=
  ∃ problems, result = .error problems ∧ .noUnionMembers path ∈ problems.items

namespace TypeContext

variable {ctx : TypeContext} {owner : String} {leaf : NodeId} {type : TypeDescriptor}

/-- A type maps to something exactly if it has alternatives and all of them do. -/
theorem exists_maps_iff : (∃ m, Maps ctx owner leaf type m) ↔
    type.alternatives ≠ [] ∧ ∀ a ∈ type.alternatives, ∃ v, Maps ctx owner leaf a v := by
  constructor
  · rintro ⟨m, hmaps⟩
    obtain ⟨each, hall, -⟩ := hmaps.eq_unionOf_alternatives
    exact ⟨hmaps.alternatives_ne_nil, fun a ha => ⟨each a, hall a ha⟩⟩
  · rintro ⟨hne, hall⟩
    cases hunion : type.isUnion with
    | false =>
      refine hall type ?_
      rw [TypeDescriptor.alternatives_of_not_isUnion hunion]
      exact List.mem_singleton_self type
    | true =>
      rw [TypeDescriptor.alternatives_of_isUnion hunion] at hne hall
      have : Nonempty MappedType := ⟨.unresolved⟩
      choose! each heach using hall
      exact ⟨_, .union each hunion hne heach⟩

/-- A leaf has a type exactly if the one that it declares has alternatives and all of them resolve. -/
theorem exists_leafType_iff_resolve (htype : (ctx.tree.node leaf).type = some type) :
    (∃ m, ctx.leafType leaf owner = some (.ok m)) ↔
      type.alternatives ≠ [] ∧ ∀ a ∈ type.alternatives, ∃ v, ctx.resolve owner leaf a = some (.ok v) := by
  simp only [exists_leafType_iff, htype, Option.some.injEq, ↓existsAndEq, true_and, resolve_eq_ok_iff]
  exact exists_maps_iff

theorem leafType_tellsEmpty (htype : (ctx.tree.node leaf).type = some type) (hnil : type.alternatives = []) :
    ∃ result, ctx.leafType leaf owner = some result ∧ TellsEmpty result (ctx.tree.pathString leaf) := by
  have hunion : type.isUnion = true := (Bool.not_eq_false _).mp fun hplain => by
    rw [TypeDescriptor.alternatives_of_not_isUnion hplain] at hnil
    cases hnil
  have hempty := TypeDescriptor.hasEmptyUnion_of_alternatives hnil
  have hout : mapType ctx owner ctx.bound leaf type =
      some ⟨.unresolved, [.noUnionMembers (ctx.tree.pathString leaf)]⟩ := by
    rw [TypeDescriptor.alternatives_of_isUnion hunion] at hnil
    rw [bound, mapType, if_pos hunion, mapUnion, mapMembers_eq, hnil]
    simp [hempty, MappedType.ofMembers]
  refine ⟨_, ?_, Diagnostics.sort ⟨[.noUnionMembers (ctx.tree.pathString leaf)]⟩, rfl, by simp⟩
  rw [leafType, htype]
  dsimp only
  rw [resolve, hout, Option.map_some, Diagnostics.settle_eq_error_iff.mpr ⟨rfl, rfl⟩]
  rfl

end TypeContext

namespace EnumSet

variable {t : SchemaTree} {enumLeaves : Table NodeId} {path : String} {leaf : NodeId} {type : TypeDescriptor}

/-- No enumerations are named if the type of one of the leaves has an empty union in it. -/
theorem ofLeaves_tellsEmpty (compress skipDedup : Bool) (before : NameRegistry) (hleaf : enumLeaves.get? path = some leaf)
    (htype : (t.node leaf).type = some type) (hempty : type.hasEmptyUnion = true) :
    TellsEmpty (EnumSet.ofLeaves t enumLeaves compress skipDedup before).1 path := by
  have hsightings : .error (.noUnionMembers path) ∈ EnumGroups.sightings t compress skipDedup path leaf := by
    simp [EnumGroups.sightings, htype, hempty]
  have htold : Diagnostic.noUnionMembers path ∈ (EnumGroups.ofLeaves t enumLeaves compress skipDedup).2 := by
    rw [(EnumGroups.ofLeaves_spec t enumLeaves compress skipDedup).2]
    exact EnumGroups.mem_unsighted.mpr ⟨path, leaf, hleaf, hsightings⟩
  have hmem := fun conflicts : List Diagnostic => List.mem_append_left conflicts htold
  unfold EnumSet.ofLeaves
  exact ⟨_, Diagnostics.settle_eq_error_iff.mpr ⟨Diagnostics.hasErrors_iff.mpr ⟨_, hmem _, rfl⟩, rfl⟩,
    Diagnostics.mem_sort.mpr (hmem _)⟩

end EnumSet

namespace Generation
open SchemaTree (Reached)
open TypeContext (leafType resolve)

variable {t : SchemaTree} {s : GenerateSettings} {leaf : NodeId} {type : TypeDescriptor}

theorem UniquePaths.of_distinctPaths (h : t.DistinctPaths) : UniquePaths t := by
  have hleaf : ∀ a, (t.kind a).isLeafLike = true → a < t.size ∧ (t.kind a).isChoiceOrCase = false := fun a ha => by
    refine ⟨SchemaTree.lt_size_of_kind fun hunknown => ?_, ?_⟩
    · rw [hunknown] at ha
      cases ha
    · cases hkind : t.kind a <;> rw [hkind] at ha <;> cases ha <;> rfl
  exact fun a b ha hb hpath => h a b (hleaf a ha).1 (hleaf b hb).1 (hleaf a ha).2 (hleaf b hb).2 hpath

theorem generate_error_of_enumerated (ht : t.Regular) (hpaths : UniquePaths t) (hs : s.excludeModules = [])
    (htype : (t.node leaf).type = some type) (hempty : type.hasEmptyUnion = true) (hreached : Reached t leaf)
    (hkind : (t.kind leaf).isLeafLike = true) (henum : Discovery.isEnumLeaf t leaf = true) :
    ∃ problems, t.generate s = some (.error problems) := by
  cases hprepare : prepare t s with
  | error problems => exact ⟨problems, generate_of_prepare_error hprepare⟩
  | ok input =>
    have hnamed := (prepare_eq_ok hs hprepare).enums
    have hcollected : (collected t s.compression.compresses).get? (t.pathString leaf) = some leaf :=
      get?_collected_iff.mpr (.of_reached ht hpaths hreached hkind henum)
    obtain ⟨problems, htold, -⟩ := EnumSet.ofLeaves_tellsEmpty s.compression.compresses s.skipEnumDedup ∅ hcollected
      htype hempty
    rw [hnamed] at htold
    cases htold

/-- What becomes of a leaf whose type has an empty union in it: the leaf gets a type exactly if there is anything else in
    its own type, and all of it resolves; if there is nothing else, it is told that the union is empty. Where no union leads
    back to itself, it is told something unless the leaf gets a type. If the leaf is among those whose
    enumerations are named, this is told in any case. So a run always fails if the leaf has an enumeration, is found, and
    shares its path with no other leaf. -/
theorem empty_union_told (htype : (t.node leaf).type = some type) (hempty : type.hasEmptyUnion = true) :
    (∀ index enums owner, ((∃ m, leafType ⟨t, index, enums⟩ leaf owner = some (.ok m)) ↔
        type.alternatives ≠ [] ∧ ∀ a ∈ type.alternatives, ∃ v, resolve ⟨t, index, enums⟩ owner leaf a = some (.ok v)) ∧
      (type.alternatives = [] → ∃ result, leafType ⟨t, index, enums⟩ leaf owner = some result ∧
        TellsEmpty result (t.pathString leaf)) ∧
      (TypeContext.Acyclic t index → (¬∃ m, leafType ⟨t, index, enums⟩ leaf owner = some (.ok m)) →
        ∃ problems, leafType ⟨t, index, enums⟩ leaf owner = some (.error problems))) ∧
    (∀ enumLeaves path compress skipDedup before, Table.get? enumLeaves path = some leaf →
      TellsEmpty (EnumSet.ofLeaves t enumLeaves compress skipDedup before).1 path) ∧
    ∀ s, t.Loaded → UniquePaths t → s.excludeModules = [] → Reached t leaf → (t.kind leaf).isLeafLike = true →
      Discovery.isEnumLeaf t leaf = true → ∃ problems, t.generate s = some (.error problems) := by
  refine ⟨fun index enums owner => ⟨?_, fun hnil => ?_, fun hacyclic hno => ?_⟩, fun enumLeaves path compress skipDedup before hleaf => ?_, ?_⟩
  · exact TypeContext.exists_leafType_iff_resolve htype
  · exact TypeContext.leafType_tellsEmpty htype hnil
  · obtain ⟨result, hresult⟩ := @TypeContext.exists_leafType_of_acyclic ⟨t, index, enums⟩ hacyclic leaf owner
    cases result with
    | ok m => exact absurd ⟨m, hresult⟩ hno
    | error problems => exact ⟨problems, hresult⟩
  · exact EnumSet.ofLeaves_tellsEmpty compress skipDedup before hleaf htype hempty
  · intro s hloaded hpaths hs hreached hkind henum
    exact generate_error_of_enumerated hloaded.regular hpaths hs htype hempty hreached hkind henum

/-- A leaf whose type is a union of an empty union, a further type and a number. -/
def hollowUnion (further : TypeDescriptor) : Library :=
  let union (members : List TypeDescriptor) : TypeDescriptor := { TypeDescriptor.ofKind .union with members }
  let leaf : NodeDocument := ⟨"v", .leaf, [], some (union [union [], further, .ofKind .int8]), none, none, none, none⟩
  .ofList [("m", ⟨⟨"m", "urn:m", none, [],
    [⟨"c", .container, [leaf], none, none, none, none, none⟩]⟩, "m.json", false⟩)]

/-- An enumeration with one value. -/
def inlineEnum : TypeDescriptor := { TypeDescriptor.ofKind .enumeration with values := [⟨"a", none⟩] }

theorem hollowUnion_named (further : TypeDescriptor) : (hollowUnion further).Named := Library.Named.empty.insert rfl

/-- With an enumeration for the further type no run succeeds. -/
theorem hollowUnion_told : ∃ t type, (hollowUnion inlineEnum).tree = .ok t ∧ (t.node 2).type = some type ∧
    type.hasEmptyUnion = true ∧ (∀ enumLeaves path compress skipDedup before, Table.get? enumLeaves path = some 2 →
      TellsEmpty (EnumSet.ofLeaves t enumLeaves compress skipDedup before).1 path) ∧
    ∃ problems, t.generate .default = some (.error problems) := by
  have hrun : ((hollowUnion inlineEnum).tree.toOption.any fun t =>
      (t.node 2).type.any fun type => type.hasEmptyUnion && (.enumLeaf 2 ∈ found t false &&
        t.ids.all fun a => t.ids.all fun b => (t.kind a).isChoiceOrCase || (t.kind b).isChoiceOrCase ||
          t.pathString a != t.pathString b || a == b)) = true := by
    decide +kernel
  obtain ⟨t, ht, hfacts⟩ := (Option.any_eq_true ..).mp hrun
  obtain ⟨type, htype, hfacts⟩ := (Option.any_eq_true ..).mp hfacts
  obtain ⟨hempty, hfacts⟩ := Bool.and_eq_true_iff.mp hfacts
  obtain ⟨hfound, hdistinct⟩ := Bool.and_eq_true_iff.mp hfacts
  have htree := ok_of_toOption ht
  have hloaded : t.Loaded := ⟨_, hollowUnion_named _, htree⟩
  obtain ⟨hreached, hkind, henum⟩ := (Discovery.enumLeaf_mem_findings_iff hloaded.regular).mp (of_decide_eq_true hfound)
  have hpaths := UniquePaths.of_distinctPaths (.of_ids hdistinct)
  obtain ⟨-, hnamed, hfails⟩ := empty_union_told htype hempty
  exact ⟨t, type, htree, htype, hempty, hnamed, hfails .default hloaded hpaths rfl hreached hkind henum⟩

/-- With a string for the further type the leaf has a type, and the run succeeds. -/
theorem hollowUnion_passes : ∃ t ir d f type m, (hollowUnion (.ofKind .string)).tree = .ok t ∧ t.Loaded ∧
    TypeContext.Acyclic t (LeafIndex.ofTree t) ∧ t.generate .default = some (.ok ir) ∧ ir.directories.get? "/m/c" = some d ∧
      d.fields.get? "v" = some f ∧ (t.node f.node).type = some type ∧ type.hasEmptyUnion = true ∧
        leafType ⟨t, LeafIndex.ofTree t, ∅⟩ f.node "M_C" = some (.ok m) := by
  have hrun : ((field? (hollowUnion (.ofKind .string)) .default "/m/c" "v").any fun r =>
      TypeContext.leadsDown r.1 (LeafIndex.ofTree r.1) [] && ((r.1.node r.2.2.2.node).type.any (·.hasEmptyUnion) &&
        (result? (leafType ⟨r.1, LeafIndex.ofTree r.1, ∅⟩ r.2.2.2.node "M_C")).isSome)) = true := by
    decide +kernel
  obtain ⟨⟨t, ir, d, f⟩, hfield, hfacts⟩ := (Option.any_eq_true ..).mp hrun
  obtain ⟨hdown, hfacts⟩ := Bool.and_eq_true_iff.mp hfacts
  obtain ⟨htype, hleaf⟩ := Bool.and_eq_true_iff.mp hfacts
  obtain ⟨type, htype, hempty⟩ := (Option.any_eq_true ..).mp htype
  obtain ⟨m, hm⟩ := Option.isSome_iff_exists.mp hleaf
  obtain ⟨htree, hir, hd, hf⟩ := field?_eq_some hfield
  exact ⟨t, ir, d, f, type, m, htree, ⟨_, hollowUnion_named _, htree⟩, .of_leadsDown hdown, hir, hd, hf, htype,
    hempty, some_ok_of_result? hm⟩

end Generation

end SchemaIr
