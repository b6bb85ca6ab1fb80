import SchemaIr.Loading.Tree
import SchemaIr.Proofs.MappedType.Maps

/-! # Flattened unions

How a union is nested does not matter: it is flattened to the same type as the union that has its alternatives for
members, or neither of the two is (`flattenUnion_flat`). The member types and what is wrong with them depend on the
alternatives alone. Whether a nested union is empty depends on more, but it is asked only where there are no member
types; then an alternative has failed, or there is none and both unions are empty (`flattenUnion_eq_ok_iff`). -/

namespace SchemaIr

namespace TypeDescriptor

/-- The union that has the alternatives of a union for its members. -/
def flat (type : TypeDescriptor) : TypeDescriptor := { type with members := type.alternatives }

theorem alternativesOf_of_plain {types : List TypeDescriptor} (h : ∀ a ∈ types, a.isUnion = false) :
    alternativesOf types = types := by
  induction types with
  | nil => rfl
  | cons a rest ih =>
    obtain ⟨ha, hrest⟩ := List.forall_mem_cons.mp h
    rw [alternativesOf, alternatives_of_not_isUnion ha, ih hrest, List.singleton_append]

theorem memberAlternatives_flat {type : TypeDescriptor} (h : type.isUnion = true) :
    type.flat.memberAlternatives = type.memberAlternatives :=
  (alternativesOf_of_plain fun _ ha => isUnion_of_mem_alternatives ha).trans (alternatives_of_isUnion h)

end TypeDescriptor

namespace TypeContext

variable {ctx : TypeContext} {owner : String} {leaf : NodeId} {type : TypeDescriptor} {m : MappedType}

/-- A union is flattened exactly if it has alternatives and nothing is wrong with them: one of them at least is a
    member type then. -/
theorem flattenUnion_eq_ok_iff (hunion : type.isUnion = true) : ctx.flattenUnion owner leaf type = some (.ok m) ↔
    type.memberAlternatives ≠ [] ∧ ∃ ms problems,
      mapMembers ctx (ctx.mapType owner ctx.bound) leaf type.members = some (ms, problems) ∧
        Diagnostics.hasErrors ⟨problems⟩ = false ∧ MappedType.ofMembers (ctx.unionName owner leaf) ms = m := by
  rw [flattenUnion_eq_ok, exists_mapUnion_iff]
  have heach : ∀ {ms problems}, mapMembers ctx (ctx.mapType owner ctx.bound) leaf type.members = some (ms, problems) →
      Diagnostics.hasErrors ⟨problems⟩ = false →
        ∃ each, (∀ a ∈ type.memberAlternatives, Maps ctx owner leaf a (each a)) ∧
          ms = (type.memberAlternatives.map each).foldl MappedType.Members.add ⟨[], ∅⟩ :=
    fun hmembers hclean => exists_each_of_mapMembers maps_of_mapType hmembers hclean
  constructor
  · rintro ⟨ms, problems, hmembers, hclean, hempty, hm⟩
    refine ⟨fun hnil => ?_, ms, problems, hmembers, hclean, hm⟩
    obtain ⟨each, -, rfl⟩ := heach hmembers hclean
    rw [hnil, TypeDescriptor.hasEmptyUnion_of_memberAlternatives hunion hnil] at hempty
    cases hempty rfl
  · rintro ⟨hne, ms, problems, hmembers, hclean, hm⟩
    refine ⟨ms, problems, hmembers, hclean, fun hnil => ?_, hm⟩
    obtain ⟨each, hall, rfl⟩ := heach hmembers hclean
    exact absurd hnil (MappedType.types_ne_nil_of_native (by simpa using hne)
      (List.forall_mem_map.mpr fun a ha => (hall a ha).native_ne))

/-- Where no union leads back to itself, the mapping of a union ends. It is flattened to a type exactly if the union
    that has its alternatives for members is, and to the same type. -/
theorem flattenUnion_flat (ctx : TypeContext) (owner : String) (leaf : NodeId)
    (hacyclic : Acyclic ctx.tree ctx.index) (hunion : type.isUnion = true) :
    (∃ result, mapMembers ctx (ctx.mapType owner ctx.bound) leaf type.members = some result) ∧
      ∀ m, ctx.flattenUnion owner leaf type = some (.ok m) ↔ ctx.flattenUnion owner leaf type.flat = some (.ok m) := by
  refine ⟨exists_mapMembers owner hacyclic leaf type, fun m => ?_⟩
  have hflat : type.flat.isUnion = true := hunion
  rw [flattenUnion_eq_ok_iff hunion, flattenUnion_eq_ok_iff hflat, mapMembers_eq, mapMembers_eq,
    TypeDescriptor.memberAlternatives_flat hunion]

/-- A union with an empty union in it, and with one that repeats a member behind a leafref. -/
def nestedUnion : TypeDescriptor :=
  let union (members : List TypeDescriptor) : TypeDescriptor := { TypeDescriptor.ofKind .union with members }
  let leafref : TypeDescriptor := { TypeDescriptor.ofKind .leafref with path := some "../text" }
  union [union [], union [.ofKind .string, union [leafref, .ofKind .int8]], .ofKind .string]

/-- A leaf of that union beside the leaf that the leafref leads to. -/
def nestedUnions : Library :=
  let leaf (name : String) (type : TypeDescriptor) : NodeDocument :=
    ⟨name, .leaf, [], some type, none, none, none, none⟩
  .ofList [("m", ⟨⟨"m", "urn:m", none, [], [⟨"top", .container,
    [leaf "text" (.ofKind .string), leaf "value" nestedUnion], none, none, none, none, none⟩]⟩, "m.json", false⟩)]

theorem nestedUnions_flattened : ∃ t, nestedUnions.tree = .ok t ∧ Acyclic t (LeafIndex.ofTree t) ∧
    nestedUnion.isUnion = true ∧
      (∃ result, mapMembers ⟨t, LeafIndex.ofTree t, ∅⟩
        (mapType ⟨t, LeafIndex.ofTree t, ∅⟩ "M_Top" (bound ⟨t, LeafIndex.ofTree t, ∅⟩)) 3 nestedUnion.members =
          some result) ∧
        (∀ m, flattenUnion ⟨t, LeafIndex.ofTree t, ∅⟩ "M_Top" 3 nestedUnion = some (.ok m) ↔
          flattenUnion ⟨t, LeafIndex.ofTree t, ∅⟩ "M_Top" 3 nestedUnion.flat = some (.ok m)) ∧
            ∃ m, flattenUnion ⟨t, LeafIndex.ofTree t, ∅⟩ "M_Top" 3 nestedUnion = some (.ok m) ∧
              m.memberNatives = ["string", "int8"] := by
  have hrun : (nestedUnions.tree.toOption.any fun t => leadsDown t (LeafIndex.ofTree t) [0, 0, 0, 1] &&
      (result? (flattenUnion ⟨t, LeafIndex.ofTree t, ∅⟩ "M_Top" 3 nestedUnion)).any fun m =>
        m.memberNatives == ["string", "int8"]) = true := by
    decide +kernel
  obtain ⟨t, ht, hfacts⟩ := (Option.any_eq_true ..).mp hrun
  obtain ⟨hdown, hflattened⟩ := Bool.and_eq_true_iff.mp hfacts
  obtain ⟨m, hm, hnatives⟩ := (Option.any_eq_true ..).mp hflattened
  have hacyclic : Acyclic t (LeafIndex.ofTree t) := .of_leadsDown hdown
  have hunion : nestedUnion.isUnion = true := rfl
  obtain ⟨hends, hiff⟩ := flattenUnion_flat ⟨t, LeafIndex.ofTree t, ∅⟩ "M_Top" 3 hacyclic hunion
  exact ⟨t, ok_of_toOption ht, hacyclic, hunion, hends, hiff, m, some_ok_of_result? hm, beq_iff_eq.mp hnatives⟩

end TypeContext

end SchemaIr
