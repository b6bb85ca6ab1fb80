import SchemaIr.Loading.Tree
import SchemaIr.Proofs.MappedType.Maps
import SchemaIr.Proofs.Table.Lookup

/-! # Unions within unions

A union in a union is taken apart, but a union behind a leafref is not: it is mapped as one type, and this type is a
member. The members of a mapped type are those of one union, to which the type of the leaf leads along leafrefs
(`Presents`). A member is a union itself exactly if an alternative of this union is a leafref to a type that maps to a
union (`exists_union_member_iff`). -/

namespace SchemaIr

namespace MappedType

/-! ### The native types of members -/

/-- Every native type that has a position is that of a member. -/
def Members.Indexed (ms : Members) : Prop :=
  ∀ native, ms.positions.contains native = true → ∃ u ∈ ms.types, u.native = native

namespace Members
variable {ms : Members} {m u : MappedType}

theorem mem_types_add (hu : u ∈ ms.types) : u ∈ (ms.add m).types := by
  unfold add
  split
  · exact hu
  · exact List.mem_append_left _ hu

theorem mem_types_foldl {types : List MappedType} (hu : u ∈ ms.types) : u ∈ (types.foldl add ms).types := by
  induction types generalizing ms with
  | nil => exact hu
  | cons m rest ih => exact ih (mem_types_add hu)

theorem exists_native_add (h : ms.Indexed) (hnative : m.native ≠ "") : ∃ u ∈ (ms.add m).types, u.native = m.native := by
  unfold add
  split
  · rename_i hold
    exact h _ (hold.resolve_left hnative)
  · exact ⟨m, List.mem_append_right _ (List.mem_singleton_self m), rfl⟩

theorem Indexed.add (h : ms.Indexed) (m : MappedType) : (ms.add m).Indexed := by
  unfold Members.add
  split
  · exact h
  · intro native hcontains
    rw [Table.contains, Table.get?_insert] at hcontains
    split at hcontains
    · rename_i heq
      exact ⟨m, List.mem_append_right _ (List.mem_singleton_self m), heq.symm⟩
    · obtain ⟨u, hu, hnative⟩ := h native hcontains
      exact ⟨u, List.mem_append_left _ hu, hnative⟩

/-- Every native type among those that are added is there afterwards. -/
theorem Indexed.exists_native_foldl {types : List MappedType} (h : ms.Indexed) (hm : m ∈ types)
    (hnative : m.native ≠ "") : ∃ u ∈ (types.foldl Members.add ms).types, u.native = m.native := by
  induction types generalizing ms with
  | nil => cases hm
  | cons n rest ih =>
    rw [List.foldl_cons]
    rcases List.mem_cons.mp hm with rfl | hm
    · obtain ⟨u, hu, hun⟩ := exists_native_add h hnative
      exact ⟨u, mem_types_foldl hu, hun⟩
    · exact ih (h.add n) hm

end Members

theorem isUnion_congr {m u : MappedType} (h : u.native = m.native) : u.isUnion = m.isUnion := by
  rw [isUnion, isUnion, h]

end MappedType

namespace TypeContext
open MappedType (unionOf unionMark enumMark)

variable {ctx : TypeContext} {owner : String} {leaf holder target : NodeId} {type a : TypeDescriptor}
  {alternatives members : List TypeDescriptor} {m u : MappedType}

/-! ### Unions behind leafrefs -/

/-- An alternative is a leafref to a type that maps to a union. -/
def LeadsToUnion (ctx : TypeContext) (owner : String) (leaf : NodeId) (a : TypeDescriptor) : Prop :=
  ∃ target type u, a.isLeafref = true ∧ ctx.index.chainTarget? ctx.tree leaf (a.path.getD "") = some target ∧
    (ctx.tree.node target).type = some type ∧ Maps ctx owner target type u ∧ u.isUnion = true

/-- Of what maps to a union, all but the unions themselves are leafrefs. -/
theorem Maps.isUnion_iff_leadsToUnion (h : Maps ctx owner leaf a u) (hplain : a.isUnion = false) :
    u.isUnion = true ↔ LeadsToUnion ctx owner leaf a := by
  constructor
  · intro hu
    cases h with
    | kind hm =>
      rw [(MappedType.ofKind?_eq_some hm).2.2.2.2.2] at hu
      cases hu
    | enumeration =>
      obtain ⟨name, hname⟩ := MappedType.isUnion_iff.mp hu
      exact absurd hname.symm (MappedType.enumMark_append_ne _ _)
    | leafref href htarget htype hmaps => exact ⟨_, _, u, href, htarget, htype, hmaps, hu⟩
    | union _ hunion =>
      rw [hunion] at hplain
      cases hplain
  · rintro ⟨target, type, v, href, htarget, htype, hmaps, hv⟩
    rwa [h.unique (.leafref href htarget htype hmaps)]

/-! ### Whose members a type has -/

/-- Alternatives of a leaf present others: they are them, or one of them is a leafref to a type whose alternatives
    present them. -/
inductive Presents (t : SchemaTree) (index : LeafIndex) :
    NodeId → List TypeDescriptor → NodeId → List TypeDescriptor → Prop
  | here {leaf : NodeId} {alternatives : List TypeDescriptor} : Presents t index leaf alternatives leaf alternatives
  | along {leaf target holder : NodeId} {alternatives members : List TypeDescriptor} {a type : TypeDescriptor} :
      a ∈ alternatives → a.isLeafref = true → index.chainTarget? t leaf (a.path.getD "") = some target →
      (t.node target).type = some type → Presents t index target type.alternatives holder members →
      Presents t index leaf alternatives holder members

/-- A type has the name of a leaf's union, and has for members what the alternatives of this union map to. -/
structure Collects (ctx : TypeContext) (owner : String) (holder : NodeId) (members : List TypeDescriptor)
    (m : MappedType) : Prop where
  native : m.native = unionMark ++ ctx.unionName owner holder
  plain : ∀ a ∈ members, a.isUnion = false
  stems : ∀ u ∈ m.members, ∃ a ∈ members, Maps ctx owner holder a u
  covers : ∀ a ∈ members, ∃ v, Maps ctx owner holder a v ∧ ∃ u ∈ m.members, u.native = v.native

theorem Collects.exists_union_iff (h : Collects ctx owner holder members m) :
    (∃ u ∈ m.members, u.isUnion = true) ↔ ∃ a ∈ members, LeadsToUnion ctx owner holder a := by
  constructor
  · rintro ⟨u, hu, hunion⟩
    obtain ⟨a, ha, hmaps⟩ := h.stems u hu
    exact ⟨a, ha, (hmaps.isUnion_iff_leadsToUnion (h.plain a ha)).mp hunion⟩
  · rintro ⟨a, ha, hleads⟩
    obtain ⟨v, hmaps, u, hu, hnative⟩ := h.covers a ha
    refine ⟨u, hu, ?_⟩
    rw [MappedType.isUnion_congr hnative]
    exact (hmaps.isUnion_iff_leadsToUnion (h.plain a ha)).mpr hleads

/-- The type presents alternatives whose types it has for members, if it has any. -/
def Presented (ctx : TypeContext) (owner : String) (leaf : NodeId) (alternatives : List TypeDescriptor)
    (m : MappedType) : Prop :=
  m.members ≠ [] →
    ∃ holder members, Presents ctx.tree ctx.index leaf alternatives holder members ∧ Collects ctx owner holder members m

/-- A union of types has the members of one of its alternatives, if all map to that one type, or else its own. -/
theorem presented_unionOf {each : TypeDescriptor → MappedType} (hne : alternatives ≠ [])
    (hplain : ∀ a ∈ alternatives, a.isUnion = false) (hall : ∀ a ∈ alternatives, Maps ctx owner leaf a (each a))
    (hpresented : ∀ a ∈ alternatives, Presented ctx owner leaf alternatives (each a)) :
    Presented ctx owner leaf alternatives (unionOf (ctx.unionName owner leaf) (alternatives.map each)) := by
  have hnative := fun a ha => (hall a ha).native_ne
  rcases MappedType.unionOf_eq_or (ctx.unionName owner leaf) hne hnative with ⟨a, ha, heq⟩ | ⟨ms, rfl, heq⟩
  · rw [heq]
    exact hpresented a ha
  · have hindexed : (⟨[], ∅⟩ : MappedType.Members).Indexed := fun _ h => nomatch h
    rw [heq]
    refine fun _ => ⟨leaf, alternatives, .here, rfl, hplain, fun u hu => ?_, fun a ha => ⟨each a, hall a ha, ?_⟩⟩
    · obtain ⟨a, ha, rfl⟩ :=
        List.mem_map.mp ((MappedType.mem_types_foldl_add hu).resolve_left List.not_mem_nil)
      exact ⟨a, ha, hall a ha⟩
    · exact hindexed.exists_native_foldl (List.mem_map_of_mem ha) (hnative a ha)

/-- The alternatives of a type present the members of what it maps to; so do those among which it is itself, if it is
    no union. -/
theorem Maps.presented (h : Maps ctx owner leaf type m)
    (hoffers : alternatives = type.alternatives ∨ type.isUnion = false ∧ type ∈ alternatives) :
    Presented ctx owner leaf alternatives m := by
  induction h generalizing alternatives with
  | kind hm => exact fun hmembers => absurd (MappedType.ofKind?_eq_some hm).2.1 hmembers
  | enumeration => exact fun hmembers => absurd rfl hmembers
  | @leafref _ _ type _ _ href htarget htype _ ih =>
    intro hmembers
    obtain ⟨holder, members, hpresents, hcollects⟩ := ih (.inl rfl) hmembers
    have hmem : type ∈ alternatives := by
      rcases hoffers with rfl | ⟨-, hmem⟩
      · have hplain : type.isUnion = false :=
          Bool.eq_false_iff.mpr fun hunion => Bool.eq_false_iff.mp (isLeafref_of_isUnion hunion) href
        rw [TypeDescriptor.alternatives_of_not_isUnion hplain]
        exact List.mem_singleton_self type
      · exact hmem
    exact ⟨holder, members, .along hmem href htarget htype hpresents, hcollects⟩
  | @union _ type each hunion hne hall ih =>
    obtain rfl : alternatives = type.memberAlternatives := by
      rcases hoffers with heq | ⟨hplain, -⟩
      · exact heq.trans (TypeDescriptor.alternatives_of_isUnion hunion)
      · rw [hunion] at hplain
        cases hplain
    have hplain := fun a (ha : a ∈ type.memberAlternatives) => TypeDescriptor.isUnion_of_mem_alternativesOf ha
    exact presented_unionOf hne hplain hall fun a ha => ih a ha (.inr ⟨hplain a ha, ha⟩)

/-! ### Mapped types -/

/-- What comes out for a leaf and some alternatives: the type of the leaf, or the flattened union of a descriptor. -/
inductive Results (ctx : TypeContext) (owner : String) (leaf : NodeId) : List TypeDescriptor → MappedType → Prop
  | leafType {type : TypeDescriptor} {m : MappedType} : (ctx.tree.node leaf).type = some type →
      ctx.leafType leaf owner = some (.ok m) → Results ctx owner leaf type.alternatives m
  | flattenUnion {type : TypeDescriptor} {m : MappedType} : ctx.flattenUnion owner leaf type = some (.ok m) →
      Results ctx owner leaf type.memberAlternatives m

theorem presented_of_flattenUnion (h : ctx.flattenUnion owner leaf type = some (.ok m)) :
    Presented ctx owner leaf type.memberAlternatives m := by
  obtain ⟨each, hall, rfl⟩ := exists_each_of_flattenUnion h
  by_cases hne : type.memberAlternatives = []
  · rw [hne]
    exact fun hmembers => absurd rfl hmembers
  · have hplain := fun a (ha : a ∈ type.memberAlternatives) => TypeDescriptor.isUnion_of_mem_alternativesOf ha
    exact presented_unionOf hne hplain hall fun a ha => (hall a ha).presented (.inr ⟨hplain a ha, ha⟩)

theorem Results.presented (h : Results ctx owner leaf alternatives m) : Presented ctx owner leaf alternatives m := by
  cases h with
  | leafType htype hleaf =>
    obtain ⟨type, htype', hmaps⟩ := leafType_eq_ok hleaf
    obtain rfl := Option.some.inj (htype.symm.trans htype')
    intro hmembers
    -- The default that a leaf's type gets is neither in its name nor in its members.
    obtain ⟨holder, members, hpresents, hcollects⟩ := hmaps.presented (.inl rfl) hmembers
    exact ⟨holder, members, hpresents, hcollects.native, hcollects.plain, hcollects.stems, hcollects.covers⟩
  | flattenUnion h => exact presented_of_flattenUnion h

/-- A mapped type that has members has those of one union, to which the type of the leaf leads along leafrefs, and goes
    by the name of this union. One of the members is a union exactly if an alternative of this union is a leafref to a
    type that maps to a union. -/
theorem exists_union_member_iff (h : Results ctx owner leaf alternatives m) (hmembers : m.members ≠ []) :
    ∃ holder members, Presents ctx.tree ctx.index leaf alternatives holder members ∧
      m.native = unionMark ++ ctx.unionName owner holder ∧
        ((∃ u ∈ m.members, u.isUnion = true) ↔ ∃ a ∈ members, LeadsToUnion ctx owner holder a) := by
  obtain ⟨holder, members, hpresents, hcollects⟩ := h.presented hmembers
  exact ⟨holder, members, hpresents, hcollects.native, hcollects.exists_union_iff⟩

/-- A union with a leafref to another leaf, whose type is a union as well, and a type that occurs in both. -/
def unionBehindLeafref : Library :=
  let union (members : List TypeDescriptor) : TypeDescriptor := { TypeDescriptor.ofKind .union with members }
  let leafref : TypeDescriptor := { TypeDescriptor.ofKind .leafref with path := some "../u" }
  let leaf (name : String) (type : TypeDescriptor) : NodeDocument :=
    ⟨name, .leaf, [], some type, none, none, none, none⟩
  .ofList [("m", ⟨⟨"m", "urn:m", none, [], [⟨"c", .container,
    [leaf "u" (union [.ofKind .string, .ofKind .int8]), leaf "v" (union [leafref, .ofKind .string, .ofKind .boolean])],
    none, none, none, none, none⟩]⟩, "m.json", false⟩)]

theorem unionBehindLeafref_member_iff : ∃ t type m holder members, unionBehindLeafref.tree = .ok t ∧
    Results ⟨t, LeafIndex.ofTree t, ∅⟩ "M_C" 3 (TypeDescriptor.alternatives type) m ∧ m.members ≠ [] ∧
      Presents t (LeafIndex.ofTree t) 3 type.alternatives holder members ∧
        m.native = unionMark ++ unionName ⟨t, LeafIndex.ofTree t, ∅⟩ "M_C" holder ∧
          ((∃ u ∈ m.members, u.isUnion = true) ↔
            ∃ a ∈ members, LeadsToUnion ⟨t, LeafIndex.ofTree t, ∅⟩ "M_C" holder a) := by
  have hrun : (unionBehindLeafref.tree.toOption.any fun t => (t.node 3).type.any fun _ =>
      (result? (leafType ⟨t, LeafIndex.ofTree t, ∅⟩ 3 "M_C")).any fun m => !m.members.isEmpty) = true := by
    decide +kernel
  obtain ⟨t, ht, hfacts⟩ := (Option.any_eq_true ..).mp hrun
  obtain ⟨type, htype, hleaf⟩ := (Option.any_eq_true ..).mp hfacts
  obtain ⟨m, hm, hsome⟩ := (Option.any_eq_true ..).mp hleaf
  have hresults : Results ⟨t, LeafIndex.ofTree t, ∅⟩ "M_C" 3 type.alternatives m :=
    .leafType htype (some_ok_of_result? hm)
  have hmembers : m.members ≠ [] := by simpa using hsome
  obtain ⟨holder, members, hpresents, hnative, hiff⟩ := exists_union_member_iff hresults hmembers
  exact ⟨t, type, m, holder, members, ok_of_toOption ht, hresults, hmembers, hpresents, hnative, hiff⟩

/-- The union behind the leafref is a member, though no union leads back to itself. -/
theorem unionBehindLeafref_nests : ∃ t m, unionBehindLeafref.tree = .ok t ∧ Acyclic t (LeafIndex.ofTree t) ∧
    leafType ⟨t, LeafIndex.ofTree t, ∅⟩ 3 "M_C" = some (.ok m) ∧ ∃ u ∈ m.members, u.isUnion = true := by
  have hrun : (unionBehindLeafref.tree.toOption.any fun t => leadsDown t (LeafIndex.ofTree t) [0, 0, 0, 1] &&
      (result? (leafType ⟨t, LeafIndex.ofTree t, ∅⟩ 3 "M_C")).any fun m => m.members.any (·.isUnion)) = true := by
    decide +kernel
  obtain ⟨t, ht, hfacts⟩ := (Option.any_eq_true ..).mp hrun
  obtain ⟨hdown, hleaf⟩ := Bool.and_eq_true_iff.mp hfacts
  obtain ⟨m, hm, hunion⟩ := (Option.any_eq_true ..).mp hleaf
  exact ⟨t, m, ok_of_toOption ht, .of_leadsDown hdown, some_ok_of_result? hm, List.any_eq_true.mp hunion⟩

end TypeContext

end SchemaIr
