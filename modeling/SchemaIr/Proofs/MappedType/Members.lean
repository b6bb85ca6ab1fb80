import Mathlib.Data.List.Nodup
import SchemaIr.Proofs.MappedType.Flattening
import SchemaIr.Proofs.MappedType.Nested
import SchemaIr.Proofs.MappedType.Resolved

/-! # The members of unions

A union has two members at least, no two of one native type, and knows each by its position (`Tabled`): what is collected
is numbered at every time (`Members.Numbered`). The members are the types to which the alternatives resolve, in order, but
for those whose native type stands before (`firsts`); a type that is left alone stands for the union
(`tabled_of_results`). -/

namespace SchemaIr

namespace MappedType

/-! ### Tables of members -/

/-- The members of a union have native types, all different, and are known by their positions; a type that is no union has
    neither members nor positions. -/
structure Tabled (m : MappedType) : Prop where
  union : m.isUnion = true → 2 ≤ m.members.length ∧ (∀ u ∈ m.members, u.native ≠ "") ∧ m.memberNatives.Nodup ∧
    ∀ native i, m.positions.get? native = some i ↔ m.memberNatives[i]? = some native
  plain : m.isUnion = false → m.positions = ∅ ∧ m.members = []

/-- The types of a list without those whose native type stands before. -/
def firsts (types : List MappedType) : List MappedType :=
  types.eraseDupsBy fun later earlier => later.native == earlier.native

/-- The types are, but for repetitions, the members of a type, or they come down to this type, which may have got a
    default. -/
def Unites (m : MappedType) (types : List MappedType) : Prop :=
  firsts types = [m.bare] ∨ (firsts types).length ≠ 1 ∧ m.members = firsts types

theorem Tabled.of_plain {m : MappedType} (hunion : m.isUnion = false) (hpositions : m.positions = ∅)
    (hmembers : m.members = []) : m.Tabled where
  union h := by
    rw [hunion] at h
    cases h
  plain _ := ⟨hpositions, hmembers⟩

theorem Tabled.of_kind {kind : TypeKind} {m : MappedType} (h : ofKind? kind = some m) : m.Tabled := by
  cases kind <;> cases h <;> exact .of_plain rfl rfl rfl

theorem Tabled.enumerated (name : String) : (MappedType.enumerated name).Tabled := by
  refine .of_plain (Bool.eq_false_iff.mpr fun hunion => ?_) rfl rfl
  obtain ⟨text, htext⟩ := isUnion_iff.mp hunion
  exact enumMark_append_ne text name htext.symm

theorem Tabled.native_ne {m u : MappedType} (h : m.Tabled) (hu : u ∈ m.members) : u.native ≠ "" := by
  cases hunion : m.isUnion with
  | true => exact (h.union hunion).2.1 u hu
  | false =>
    rw [(h.plain hunion).2] at hu
    cases hu

/-- Where all is in order, whatever occurs in a type with a native type has one. -/
theorem native_ne_of_within {m u : MappedType} (htabled : ∀ u, Within u m → u.Tabled) (hm : m.native ≠ "")
    (hu : Within u m) : u.native ≠ "" := by
  induction hu with
  | self => exact hm
  | member hn _ ih => exact ih (fun v hv => htabled v (.member hn hv)) ((htabled _ .self).native_ne hn)

/-! ### What is collected -/

/-- The members that are found so far have native types, and the position of each is that under its native type. -/
structure Members.Numbered (ms : Members) : Prop where
  mapped : ∀ m ∈ ms.types, m.native ≠ ""
  position : ∀ native i, ms.positions.get? native = some i ↔ (ms.types.map (·.native))[i]? = some native

namespace Members.Numbered
variable {ms : Members}

theorem start : Numbered ⟨[], ∅⟩ where
  mapped _ h := by cases h
  position _ _ := iff_of_false (fun h => by cases h) (by simp)

theorem add (h : ms.Numbered) (m : MappedType) : (ms.add m).Numbered := by
  unfold Members.add
  split
  · exact h
  · rename_i hnew
    obtain ⟨hmapped, hfresh⟩ := not_or.mp hnew
    refine ⟨fun u hu => ?_, fun native i => ?_⟩
    · rcases List.mem_append.mp hu with hu | hu
      · exact h.mapped u hu
      · exact List.mem_singleton.mp hu ▸ hmapped
    · dsimp only
      rw [Table.get?_insert, List.map_append, List.map_singleton]
      split
      · -- The new native type has no position before, so that it stands only at the end.
        rename_i heq
        subst heq
        have hnone : ∀ j, (ms.types.map (·.native))[j]? ≠ some m.native := fun j hj => hfresh <| by
          rw [Table.contains, (h.position _ j).mpr hj, Option.isSome_some]
        rcases Nat.lt_trichotomy i ms.types.length with hi | rfl | hi
        · rw [List.getElem?_append_left (by simpa using hi)]
          exact iff_of_false (fun hlast => Nat.ne_of_lt hi (Option.some.inj hlast).symm) (hnone i)
        · rw [List.getElem?_append_right (by simp)]
          simp
        · rw [List.getElem?_eq_none (by simp; omega)]
          exact iff_of_false (fun hlast => Nat.ne_of_lt hi (Option.some.inj hlast)) (by simp)
      · rename_i hne
        rw [h.position, List.getElem?_append]
        split
        · exact Iff.rfl
        · rename_i hi
          rw [List.getElem?_eq_none (Nat.not_lt.mp hi)]
          refine iff_of_false (by simp) fun hlast => hne ?_
          exact (List.mem_singleton.mp (List.mem_of_getElem? hlast))

theorem foldl (h : ms.Numbered) (types : List MappedType) : (types.foldl Members.add ms).Numbered := by
  induction types generalizing ms with
  | nil => exact h
  | cons m rest ih => exact ih (h.add m)

/-- A native type has one position, so it belongs to one member. -/
theorem nodup (h : ms.Numbered) : (ms.types.map (·.native)).Nodup := by
  refine List.nodup_iff_getElem?_ne_getElem?.mpr fun i j hij hj heq => ?_
  have hsome := List.getElem?_eq_getElem hj
  have hi := (h.position _ i).mpr (heq.trans hsome)
  rw [(h.position _ j).mpr hsome] at hi
  exact Nat.ne_of_gt hij (Option.some.inj hi)

end Members.Numbered

/-- Of types that have native types those are added whose native type is neither there nor stands before. -/
theorem types_foldl_add (types : List MappedType) (hnative : ∀ m ∈ types, m.native ≠ "") (ms : Members) :
    (types.foldl Members.add ms).types =
      ms.types ++ firsts (types.filter fun m => !ms.positions.contains m.native) := by
  induction types generalizing ms with
  | nil => simp [firsts]
  | cons m rest ih =>
    obtain ⟨hm, hrest⟩ := List.forall_mem_cons.mp hnative
    rw [List.foldl_cons, ih hrest, Members.add]
    cases hcontains : ms.positions.contains m.native with
    | true => simp [hcontains]
    | false =>
      rw [if_neg (by simp [hm])]
      simp only [hcontains, Bool.not_false, List.filter_cons_of_pos, firsts, List.eraseDupsBy_cons, List.append_assoc,
        List.singleton_append, List.filter_filter]
      congr 3
      refine List.filter_congr fun u _ => ?_
      rw [Table.contains, Table.get?_insert]
      by_cases heq : u.native = m.native <;> simp [heq, Table.contains]

theorem types_foldl_add_empty {types : List MappedType} (hnative : ∀ m ∈ types, m.native ≠ "") :
    (types.foldl Members.add ⟨[], ∅⟩).types = firsts types := by
  have hall : (types.filter fun m => !(∅ : Table Nat).contains m.native) = types :=
    List.filter_eq_self.mpr fun _ _ => rfl
  rw [types_foldl_add types hnative, List.nil_append, hall]

/-- What types make a union of: nothing, the one type they come down to, or the union that has them for members. -/
theorem unionOf_cases_firsts (name : String) {types : List MappedType} (hnative : ∀ m ∈ types, m.native ≠ "") :
    firsts types = [] ∧ unionOf name types = unresolved ∨
      firsts types = [unionOf name types] ∨
        2 ≤ (firsts types).length ∧ ∃ positions,
          unionOf name types = ⟨unionMark ++ name, positions, firsts types, false, "null", none⟩ ∧
            Members.Numbered ⟨firsts types, positions⟩ := by
  have htypes := types_foldl_add_empty hnative
  have hnumbered := Members.Numbered.start.foldl types
  unfold unionOf
  generalize types.foldl Members.add ⟨[], ∅⟩ = ms at htypes hnumbered
  rw [← htypes]
  obtain ⟨found, positions⟩ := ms
  match found with
  | [] => exact .inl ⟨rfl, rfl⟩
  | [m] => exact .inr (.inl rfl)
  | m :: n :: rest => exact .inr (.inr ⟨by simp, positions, rfl, hnumbered⟩)

theorem mem_of_mem_firsts {types : List MappedType} (hnative : ∀ m ∈ types, m.native ≠ "") {m : MappedType}
    (h : m ∈ firsts types) : m ∈ types := by
  rw [← types_foldl_add_empty hnative] at h
  exact (mem_types_foldl_add h).resolve_left List.not_mem_nil

theorem unionOf_singleton (name : String) {m : MappedType} (h : m.native ≠ "") : unionOf name [m] = m := by
  have hadded : ¬(m.native = "" ∨ (∅ : Table Nat).contains m.native = true) := not_or.mpr ⟨h, Bool.false_ne_true⟩
  rw [unionOf, List.foldl_cons, List.foldl_nil, Members.add, if_neg hadded]
  rfl

/-- Where all that occurs in some types is in order, so is all that occurs in their union. -/
theorem tabled_unionOf (name : String) {types : List MappedType} (hnative : ∀ m ∈ types, m.native ≠ "")
    (h : ∀ m ∈ types, ∀ u, Within u m → u.Tabled) {u : MappedType} (hu : Within u (unionOf name types)) : u.Tabled := by
  rcases unionOf_cases_firsts name hnative with ⟨-, heq⟩ | hone | ⟨hlength, positions, heq, hnumbered⟩
  · rw [heq] at hu
    rw [hu.eq_of_members rfl]
    exact .of_plain rfl rfl rfl
  · exact h _ (mem_of_mem_firsts hnative (hone ▸ List.mem_singleton_self _)) u hu
  · rw [heq] at hu
    cases hu with
    | self =>
      have hunion : isUnion ⟨unionMark ++ name, positions, firsts types, false, "null", none⟩ = true :=
        isUnion_iff.mpr ⟨name, rfl⟩
      refine ⟨fun _ => ⟨hlength, hnumbered.mapped, hnumbered.nodup, hnumbered.position⟩, fun hplain => ?_⟩
      rw [hunion] at hplain
      cases hplain
    | member hn hwithin => exact h _ (mem_of_mem_firsts hnative hn) u hwithin

theorem default_unionOf (name : String) {types : List MappedType} (hnative : ∀ m ∈ types, m.native ≠ "")
    (hdefault : ∀ m ∈ types, m.default = none) : (unionOf name types).default = none := by
  rcases unionOf_cases_firsts name hnative with ⟨-, heq⟩ | hone | ⟨-, positions, heq, -⟩
  · rw [heq]
    rfl
  · exact hdefault _ (mem_of_mem_firsts hnative (hone ▸ List.mem_singleton_self _))
  · rw [heq]

theorem unites_of_bare {name : String} {types : List MappedType} {m : MappedType}
    (hnative : ∀ m ∈ types, m.native ≠ "") (h : m.bare = unionOf name types) : m.Unites types := by
  have hmembers : m.bare.members = (unionOf name types).members := congrArg members h
  rw [bare] at hmembers
  rcases unionOf_cases_firsts name hnative with ⟨hnil, heq⟩ | hone | ⟨hlength, positions, heq, -⟩
  · refine .inr ⟨by simp [hnil], ?_⟩
    rw [hmembers, heq, hnil]
    rfl
  · exact .inl (h ▸ hone)
  · refine .inr ⟨by omega, ?_⟩
    rw [hmembers, heq]

/-- What occurs in a type but for its default is in order if all that occurs in the type is. -/
theorem tabled_of_bare {m : MappedType} (h : ∀ u, Within u m.bare → u.Tabled) {u : MappedType} (hu : Within u m) :
    u.Tabled := by
  cases hu with
  | self => exact ⟨(h _ .self).union, (h _ .self).plain⟩
  | member hn hwithin => exact h u (.member hn hwithin)

end MappedType

namespace TypeContext
open MappedType (unionOf)

variable {ctx : TypeContext} {owner : String} {leaf : NodeId} {type : TypeDescriptor}
  {alternatives : List TypeDescriptor} {m : MappedType}

/-! ### Mapped types -/

theorem Maps.tabled (h : Maps ctx owner leaf type m) {u : MappedType} (hu : u.Within m) : u.Tabled := by
  induction h generalizing u with
  | kind hm =>
    rw [hu.eq_of_members (MappedType.ofKind?_eq_some hm).2.1]
    exact .of_kind hm
  | enumeration =>
    rw [hu.eq_of_members rfl]
    exact .enumerated _
  | leafref _ _ _ _ ih => exact ih hu
  | union each _ _ hall ih =>
    refine MappedType.tabled_unionOf _ (List.forall_mem_map.mpr fun a ha => (hall a ha).native_ne) ?_ hu
    exact List.forall_mem_map.mpr fun a ha u hu => ih a ha hu

/-- A type that is no union is the union of itself alone. -/
theorem Maps.eq_unionOf_alternatives (h : Maps ctx owner leaf type m) :
    ∃ each, (∀ a ∈ type.alternatives, Maps ctx owner leaf a (each a)) ∧
      m = unionOf (ctx.unionName owner leaf) (type.alternatives.map each) := by
  cases hunion : type.isUnion with
  | false =>
    rw [TypeDescriptor.alternatives_of_not_isUnion hunion]
    refine ⟨fun _ => m, fun a ha => List.mem_singleton.mp ha ▸ h, ?_⟩
    rw [List.map_singleton, MappedType.unionOf_singleton _ h.native_ne]
  | true =>
    rw [TypeDescriptor.alternatives_of_isUnion hunion]
    cases h with
    | kind hm => rw [ofKind?_of_isUnion hunion] at hm; cases hm
    | enumeration henum => rw [isEnumerated_of_isUnion hunion] at henum; cases henum
    | leafref href => rw [isLeafref_of_isUnion hunion] at href; cases href
    | union each _ _ hall => exact ⟨each, hall, rfl⟩

theorem Maps.alternatives_ne_nil (h : Maps ctx owner leaf type m) : type.alternatives ≠ [] := by
  obtain ⟨each, -, heq⟩ := h.eq_unionOf_alternatives
  intro hnil
  rw [hnil] at heq
  exact h.native_ne (congrArg MappedType.native heq)

/-- But for its default, a result is the union of what the alternatives map to. -/
theorem Results.exists_unionOf (h : Results ctx owner leaf alternatives m) :
    ∃ each, (∀ a ∈ alternatives, Maps ctx owner leaf a (each a)) ∧
      m.bare = unionOf (ctx.unionName owner leaf) (alternatives.map each) := by
  cases h with
  | leafType htype hleaf =>
    obtain ⟨type, htype', hmaps⟩ := leafType_eq_ok hleaf
    obtain rfl := Option.some.inj (htype.symm.trans htype')
    exact hmaps.eq_unionOf_alternatives
  | flattenUnion hflatten =>
    obtain ⟨each, hall, rfl⟩ := exists_each_of_flattenUnion hflatten
    refine ⟨each, hall, MappedType.bare_eq ?_⟩
    exact MappedType.default_unionOf _ (List.forall_mem_map.mpr fun a ha => (hall a ha).native_ne)
      (List.forall_mem_map.mpr fun a ha => (hall a ha).default_eq)

theorem Results.tabled (h : Results ctx owner leaf alternatives m) {u : MappedType} (hu : u.Within m) : u.Tabled := by
  obtain ⟨each, hall, hbare⟩ := h.exists_unionOf
  refine MappedType.tabled_of_bare (fun u hu => ?_) hu
  rw [hbare] at hu
  exact MappedType.tabled_unionOf _ (List.forall_mem_map.mpr fun a ha => (hall a ha).native_ne)
    (List.forall_mem_map.mpr fun a ha u hu => (hall a ha).tabled hu) hu

/-- In the type of a leaf, or in a flattened union, the members of every union are known by their positions. The members
    of the type itself are what its alternatives resolve to, in order and without repetitions; a type that is left alone
    has no union around it. -/
theorem tabled_of_results (h : Results ctx owner leaf alternatives m) :
    (∀ u : MappedType, u.Within m → u.Tabled) ∧
      ∃ each, (∀ a ∈ alternatives, ctx.resolve owner leaf a = some (.ok (each a))) ∧ m.Unites (alternatives.map each) := by
  obtain ⟨each, hall, hbare⟩ := h.exists_unionOf
  refine ⟨fun u hu => h.tabled hu, each, fun a ha => resolve_eq_ok_iff.mpr (hall a ha), ?_⟩
  exact MappedType.unites_of_bare (List.forall_mem_map.mpr fun a ha => (hall a ha).native_ne) hbare

/-- The leafref to a string adds nothing to the string that stands after it. -/
theorem nestedUnions_tabled : ∃ t type m, nestedUnions.tree = .ok t ∧
    Results ⟨t, LeafIndex.ofTree t, ∅⟩ "M_Top" 3 (TypeDescriptor.alternatives type) m ∧
      m.memberNatives = ["string", "int8"] ∧ (∀ u : MappedType, u.Within m → u.Tabled) ∧
        ∃ each, (∀ a ∈ type.alternatives, resolve ⟨t, LeafIndex.ofTree t, ∅⟩ "M_Top" 3 a = some (.ok (each a))) ∧
          m.Unites (type.alternatives.map each) := by
  have hrun : (nestedUnions.tree.toOption.any fun t => (t.node 3).type.any fun _ =>
      (result? (leafType ⟨t, LeafIndex.ofTree t, ∅⟩ 3 "M_Top")).any fun m =>
        m.memberNatives == ["string", "int8"]) = true := by
    decide +kernel
  obtain ⟨t, ht, hfacts⟩ := (Option.any_eq_true ..).mp hrun
  obtain ⟨type, htype, hleaf⟩ := (Option.any_eq_true ..).mp hfacts
  obtain ⟨m, hm, hnatives⟩ := (Option.any_eq_true ..).mp hleaf
  have hresults : Results ⟨t, LeafIndex.ofTree t, ∅⟩ "M_Top" 3 type.alternatives m :=
    .leafType htype (some_ok_of_result? hm)
  obtain ⟨htabled, heach⟩ := tabled_of_results hresults
  exact ⟨t, type, m, ok_of_toOption ht, hresults, beq_iff_eq.mp hnatives, htabled, heach⟩

end TypeContext

end SchemaIr
