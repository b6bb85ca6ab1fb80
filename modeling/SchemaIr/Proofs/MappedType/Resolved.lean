import SchemaIr.Proofs.MappedType.Ending
import SchemaIr.Proofs.MappedType.Maps

/-! # What types resolve to

A type resolves to what it maps to by the rules, and to nothing else (`resolve_eq_ok_iff`): a derivation by the rules
follows finitely many leafrefs, and nothing goes wrong on its way. So whether a leaf has a type is a matter of the rules
alone (`exists_leafType_iff`). -/

namespace SchemaIr

namespace TypeContext
open MappedType (Members unionOf)

variable {ctx : TypeContext} {owner : String} {follow : NodeId → TypeDescriptor → Option Outcome} {leaf : NodeId}
  {type : TypeDescriptor} {m : MappedType}

/-! ### The rules are followed -/

/-- Alternatives that are all mapped without problems are added one after the other. -/
theorem foldlM_addMember_of_clean {each : TypeDescriptor → MappedType} (alternatives : List TypeDescriptor)
    (h : ∀ a ∈ alternatives, mapAlternative ctx follow leaf a = some ⟨each a, []⟩) (ms : Members) :
    alternatives.foldlM (addMember ctx follow leaf) (ms, []) = some ((alternatives.map each).foldl Members.add ms, []) := by
  induction alternatives generalizing ms with
  | nil => rfl
  | cons a rest ih =>
    obtain ⟨ha, hrest⟩ := List.forall_mem_cons.mp h
    rw [List.foldlM_cons, addMember, ha, List.map_cons, List.foldl_cons]
    exact ih hrest (ms.add (each a))

/-- A union whose alternatives are all mapped, and without problems, is. -/
theorem mapUnion_of_clean {each : TypeDescriptor → MappedType} (hne : type.memberAlternatives ≠ [])
    (hnative : ∀ a ∈ type.memberAlternatives, (each a).native ≠ "")
    (h : ∀ a ∈ type.memberAlternatives, mapAlternative ctx follow leaf a = some ⟨each a, []⟩) :
    mapUnion ctx owner follow leaf type =
      some ⟨unionOf (ctx.unionName owner leaf) (type.memberAlternatives.map each), []⟩ := by
  have hsome : ((type.memberAlternatives.map each).foldl Members.add ⟨[], ∅⟩).types ≠ [] :=
    MappedType.types_ne_nil_of_native (by simpa using hne) (List.forall_mem_map.mpr hnative)
  rw [mapUnion, mapMembers_eq, foldlM_addMember_of_clean _ h]
  simp [hsome, unionOf]

/-- Finitely many types are mapped within one number of leafrefs if each is within some. -/
theorem exists_leafrefs (types : List TypeDescriptor) {each : TypeDescriptor → MappedType}
    (h : ∀ a ∈ types, ∃ leafrefs, mapType ctx owner leafrefs leaf a = some ⟨each a, []⟩) :
    ∃ leafrefs, ∀ a ∈ types, mapType ctx owner leafrefs leaf a = some ⟨each a, []⟩ := by
  induction types with
  | nil => exact ⟨0, fun _ ha => by cases ha⟩
  | cons a rest ih =>
    obtain ⟨ha, hrest⟩ := List.forall_mem_cons.mp h
    obtain ⟨n, hn⟩ := ha
    obtain ⟨k, hk⟩ := ih hrest
    refine ⟨max n k, List.forall_mem_cons.mpr ⟨mapType_mono (Nat.le_max_left n k) hn, fun b hb => ?_⟩⟩
    exact mapType_mono (Nat.le_max_right n k) (hk b hb)

theorem mapAlternative_of_mapType {n : Nat} {out : Outcome} (hplain : type.isUnion = false)
    (h : mapType ctx owner (n + 1) leaf type = some out) :
    mapAlternative ctx (mapType ctx owner n) leaf type = some out := by
  rwa [mapType, hplain, if_neg Bool.false_ne_true] at h

theorem mapType_of_mapsAlternative {n : Nat} {out : Outcome} (hplain : type.isUnion = false)
    (h : MapsAlternative ctx (mapType ctx owner n) leaf type (some out)) :
    mapType ctx owner (n + 1) leaf type = some out := by
  rw [mapType, hplain, if_neg Bool.false_ne_true]
  exact h.eq

/-- What a type maps to comes out of its mapping, if enough leafrefs are followed. -/
theorem Maps.exists_mapType (h : Maps ctx owner leaf type m) :
    ∃ leafrefs, mapType ctx owner leafrefs leaf type = some ⟨m, []⟩ := by
  induction h with
  | kind hm =>
    obtain ⟨-, -, hunion⟩ := plain_of_ofKind? hm
    exact ⟨1, mapType_of_mapsAlternative hunion (.builtIn hm)⟩
  | enumeration henum hname =>
    have hunion := Bool.eq_false_iff.mpr fun h => Bool.eq_false_iff.mp (isEnumerated_of_isUnion h) henum
    exact ⟨1, mapType_of_mapsAlternative hunion (.named henum hname)⟩
  | leafref href htarget htype _ ih =>
    obtain ⟨n, hn⟩ := ih
    have hunion := Bool.eq_false_iff.mpr fun h => Bool.eq_false_iff.mp (isLeafref_of_isUnion h) href
    exact ⟨n + 1, mapType_of_mapsAlternative hunion (.followed href htarget htype hn)⟩
  | @union leaf type each hunion hne hall ih =>
    obtain ⟨n, hn⟩ := exists_leafrefs type.memberAlternatives ih
    refine ⟨n + 1, ?_⟩
    rw [mapType, if_pos hunion]
    refine mapUnion_of_clean hne (fun a ha => (hall a ha).native_ne) fun a ha => ?_
    exact mapAlternative_of_mapType (TypeDescriptor.isUnion_of_mem_alternativesOf ha) (mapType_succ_eq (hn a ha))

/-! ### What comes out -/

theorem resolve_eq_ok_iff : ctx.resolve owner leaf type = some (.ok m) ↔ Maps ctx owner leaf type m := by
  constructor
  · intro h
    obtain ⟨out, hout, hsettle⟩ := Option.map_eq_some_iff.mp h
    obtain ⟨hclean, rfl⟩ := Diagnostics.settle_eq_ok_iff.mp hsettle
    exact maps_of_mapType hout hclean
  · intro h
    obtain ⟨n, hn⟩ := h.exists_mapType
    rw [resolve, mapType_bound hn]
    rfl

/-- A leaf has a type exactly if the one it declares maps to something. -/
theorem exists_leafType_iff : (∃ m, ctx.leafType leaf owner = some (.ok m)) ↔
    ∃ type m, (ctx.tree.node leaf).type = some type ∧ Maps ctx owner leaf type m := by
  constructor
  · rintro ⟨m, h⟩
    obtain ⟨type, htype, hmaps⟩ := leafType_eq_ok h
    exact ⟨type, m.bare, htype, hmaps⟩
  · rintro ⟨type, m, htype, hmaps⟩
    simp only [leafType, htype, resolve_eq_ok_iff.mpr hmaps]
    exact ⟨_, rfl⟩

end TypeContext

end SchemaIr
