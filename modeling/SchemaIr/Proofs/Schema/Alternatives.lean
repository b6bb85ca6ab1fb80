import SchemaIr.Schema.TypeDescriptor

/-! # Alternatives of types

The alternatives of a type are the types that are left when unions are opened at every depth (`IsAlternative`). -/

namespace SchemaIr.TypeDescriptor

/-- A type that is no union is its own alternative; the alternatives of a union are those of its members. -/
inductive IsAlternative : TypeDescriptor → TypeDescriptor → Prop
  | self {type : TypeDescriptor} : type.kind ≠ .union → IsAlternative type type
  | member {type u m : TypeDescriptor} : type.kind = .union → u ∈ type.members → IsAlternative u m →
      IsAlternative type m

theorem mem_alternativesOf {types : List TypeDescriptor} {m : TypeDescriptor} :
    m ∈ alternativesOf types ↔ ∃ u ∈ types, m ∈ u.alternatives := by
  induction types with
  | nil => simp [alternativesOf]
  | cons u rest ih => simp [alternativesOf, ih]

theorem mem_alternatives_iff {type m : TypeDescriptor} : m ∈ type.alternatives ↔ type.IsAlternative m := by
  constructor
  · induction hn : sizeOf type using Nat.strongRecOn generalizing type with
    | ind n ih =>
      obtain ⟨kind, typedef, members, path, values, identity, default⟩ := type
      intro h
      rw [alternatives] at h
      split at h
      · rename_i hunion
        obtain ⟨u, hu, hm⟩ := mem_alternativesOf.mp h
        have hlt := List.sizeOf_lt_of_mem hu
        refine .member hunion hu (ih (sizeOf u) ?_ rfl hm)
        simp only [mk.sizeOf_spec] at hn
        omega
      · rename_i hplain
        rw [List.mem_singleton.mp h]
        exact .self hplain
  · intro h
    induction h with
    | @self type hplain =>
      obtain ⟨kind, _, _, _, _, _, _⟩ := type
      rw [alternatives, if_neg hplain]
      exact List.mem_singleton_self _
    | @member type u m hunion hu _ ih =>
      obtain ⟨kind, _, members, _, _, _, _⟩ := type
      rw [alternatives, if_pos hunion]
      exact mem_alternativesOf.mpr ⟨u, hu, ih⟩

/-- The enumerated members of a type are its enumerated alternatives. -/
theorem mem_enumeratedMembers_iff {type m : TypeDescriptor} :
    m ∈ type.enumeratedMembers ↔ type.IsAlternative m ∧ m.isEnumerated = true := by
  rw [enumeratedMembers, List.mem_filter, mem_alternatives_iff]

theorem containsEnumerated_iff {type : TypeDescriptor} :
    type.containsEnumerated = true ↔ ∃ m, type.IsAlternative m ∧ m.isEnumerated = true := by
  simp only [containsEnumerated, List.any_eq_true, mem_alternatives_iff]

end SchemaIr.TypeDescriptor
