import SchemaIr.Proofs.Enumeration.Named

/-! # Which enumerations have names

Where the naming of leaves succeeds, nothing is wrong at any of them, so every enumeration of every one of them
is sighted. An alternative of any leaf's type then has a name exactly if one of the leaves has the same
enumeration (`SameEnum`): an identity or typedef of the same key, or, inline, one at the same path. -/

namespace SchemaIr

/-- Two enumerations, each at a path, have one name: identities and typedefs go by their keys, inline ones by
    their paths. -/
def SameEnum (path : String) (m : TypeDescriptor) (path' : String) (m' : TypeDescriptor) : Prop :=
  (m.kind = .identityref ∧ m'.kind = .identityref ∧ ∃ i i', m.identity = some i ∧ m'.identity = some i' ∧
      EnumGroups.ownKey i.module i.base = EnumGroups.ownKey i'.module i'.base) ∨
    (m.kind = .enumeration ∧ m'.kind = .enumeration ∧
      ((∃ d d', m.typedef = some d ∧ m'.typedef = some d' ∧
          EnumGroups.ownKey d.module d.name = EnumGroups.ownKey d'.module d'.name) ∨
        (m.typedef = none ∧ m'.typedef = none ∧ path = path')))

namespace EnumGroups
variable {t : SchemaTree} {enumLeaves : Table NodeId} {compress skipDedup : Bool} {path : String} {leaf : NodeId}

/-! ### What is wrong at a leaf -/

theorem code_of_sightings_error {d : Diagnostic} (h : .error d ∈ sightings t compress skipDedup path leaf) :
    d.code = .missingType ∨ d.code = .emptyUnion ∨ d.code = .multipleInlineEnums ∨ d.code = .missingIdentityBase := by
  unfold sightings at h
  split at h
  · simp only [List.mem_singleton, Except.error.injEq] at h
    exact .inl (h ▸ rfl)
  · split at h
    · simp only [List.mem_singleton, Except.error.injEq] at h
      exact .inr (.inl (h ▸ rfl))
    · dsimp only at h
      split at h
      · simp only [List.mem_singleton, Except.error.injEq] at h
        exact .inr (.inr (.inl (h ▸ rfl)))
      · obtain ⟨member, -, hsight⟩ := List.mem_map.mp h
        unfold sight at hsight
        dsimp only at hsight
        split at hsight
        · split at hsight
          · cases hsight
            exact .inr (.inr (.inr rfl))
          · cases hsight
        · split at hsight <;> cases hsight

theorem mem_unsighted {d : Diagnostic} : d ∈ unsighted t enumLeaves compress skipDedup ↔
    ∃ path leaf, enumLeaves.get? path = some leaf ∧ .error d ∈ sightings t compress skipDedup path leaf := by
  rw [unsighted, List.mem_filterMap]
  constructor
  · rintro ⟨x, hx, hd⟩
    cases x with
    | ok s => cases hd
    | error e =>
      cases hd
      obtain ⟨⟨path, leaf⟩, he, hmem⟩ := List.mem_flatMap.mp hx
      exact ⟨path, leaf, Table.get?_eq_some_iff.mpr he, hmem⟩
  · rintro ⟨path, leaf, hleaf, hmem⟩
    exact ⟨.error d, List.mem_flatMap.mpr ⟨(path, leaf), Table.get?_eq_some_iff.mp hleaf, hmem⟩, rfl⟩

theorem exists_sighting (hclean : ∀ d, .error d ∉ sightings t compress skipDedup path leaf) {type : TypeDescriptor}
    (htype : (t.node leaf).type = some type) {m : TypeDescriptor} (hm : m ∈ type.enumeratedMembers) :
    ∃ s, sight t compress skipDedup path leaf m = .ok s ∧ .ok s ∈ sightings t compress skipDedup path leaf := by
  have hmem : sight t compress skipDedup path leaf m ∈ sightings t compress skipDedup path leaf := by
    unfold sightings at hclean ⊢
    simp only [htype] at hclean ⊢
    split
    · rename_i hempty
      simp only [hempty, ↓reduceIte] at hclean
      exact absurd (List.mem_singleton_self _) (hclean _)
    · rename_i hempty
      simp only [hempty, ↓reduceIte, Bool.false_eq_true] at hclean
      split
      · rename_i hmany
        simp only [hmany, ↓reduceIte] at hclean
        exact absurd (List.mem_singleton_self _) (hclean _)
      · exact List.mem_map.mpr ⟨m, hm, rfl⟩
  cases hsight : sight t compress skipDedup path leaf m with
  | ok s => exact ⟨s, rfl, hsight ▸ hmem⟩
  | error d => exact absurd (hsight ▸ hmem) (hclean d)

end EnumGroups

namespace EnumSet
variable {t : SchemaTree} {enumLeaves : Table NodeId} {compress skipDedup : Bool} {before : NameRegistry}
  {set : EnumSet}

theorem unsighted_eq_nil (h : (EnumSet.ofLeaves t enumLeaves compress skipDedup before).1 = .ok set) :
    EnumGroups.unsighted t enumLeaves compress skipDedup = [] := by
  unfold EnumSet.ofLeaves at h
  dsimp only at h
  obtain ⟨hclean, -⟩ := Diagnostics.settle_eq_ok_iff.mp h
  refine List.eq_nil_iff_forall_not_mem.mpr fun d hd => ?_
  have hmem : d ∈ (EnumGroups.ofLeaves t enumLeaves compress skipDedup).2 := by
    rwa [(EnumGroups.ofLeaves_spec t enumLeaves compress skipDedup).2]
  refine Bool.eq_false_iff.mp hclean (Diagnostics.hasErrors_iff.mpr ⟨d, List.mem_append_left _ hmem, ?_⟩)
  obtain ⟨_, _, -, herror⟩ := EnumGroups.mem_unsighted.mp hd
  rw [Diagnostic.isError, Diagnostic.severity]
  rcases EnumGroups.code_of_sightings_error herror with hcode | hcode | hcode | hcode <;> rw [hcode] <;> rfl

/-- Naming never tells that an enumeration has no name. -/
theorem code_of_ofLeaves_eq_error {problems : Diagnostics}
    (h : (EnumSet.ofLeaves t enumLeaves compress skipDedup before).1 = .error problems) {d : Diagnostic}
    (hd : d ∈ problems.items) : d.code ≠ .enumWithoutContext := by
  unfold EnumSet.ofLeaves at h
  dsimp only at h
  obtain ⟨-, rfl⟩ := Diagnostics.settle_eq_error_iff.mp h
  rcases List.mem_append.mp (Diagnostics.mem_sort.mp hd) with hd | hd
  · rw [(EnumGroups.ofLeaves_spec t enumLeaves compress skipDedup).2] at hd
    obtain ⟨_, _, -, herror⟩ := EnumGroups.mem_unsighted.mp hd
    rcases EnumGroups.code_of_sightings_error herror with hcode | hcode | hcode | hcode <;> rw [hcode] <;> decide
  · rw [code_of_mem_conflicts hd]
    decide

/-! ### Names of alternatives -/

/-- An enumeration of a leaf at a path in the table. -/
def ListedAt (t : SchemaTree) (enumLeaves : Table NodeId) (path : String) (m : TypeDescriptor) : Prop :=
  ∃ leaf type, enumLeaves.get? path = some leaf ∧ (t.node leaf).type = some type ∧ m ∈ type.enumeratedMembers

theorem kind_of_isEnumerated {m : TypeDescriptor} (h : m.isEnumerated = true) (hk : m.kind ≠ .identityref) :
    m.kind = .enumeration := by
  simpa [TypeDescriptor.isEnumerated, hk] using h

/-- Where the naming succeeds, every enumeration of a leaf is sighted and has a group. -/
theorem exists_group_at (h : (EnumSet.ofLeaves t enumLeaves compress skipDedup before).1 = .ok set) {path : String}
    {leaf : NodeId} {type m : TypeDescriptor} (hleaf : enumLeaves.get? path = some leaf)
    (htype : (t.node leaf).type = some type) (hm : m ∈ type.enumeratedMembers) :
    ∃ s g, EnumGroups.sight t compress skipDedup path leaf m = .ok s ∧
      s ∈ EnumGroups.sighted t enumLeaves compress skipDedup ∧
        ((EnumGroups.ofLeaves t enumLeaves compress skipDedup).1.ofKind s.group.kind).get? s.key = some g := by
  have hclean : ∀ d, .error d ∉ EnumGroups.sightings t compress skipDedup path leaf := fun d hd => by
    have hmem : d ∈ EnumGroups.unsighted t enumLeaves compress skipDedup :=
      EnumGroups.mem_unsighted.mpr ⟨path, leaf, hleaf, hd⟩
    rw [unsighted_eq_nil h] at hmem
    cases hmem
  obtain ⟨s, hsight, hs⟩ := EnumGroups.exists_sighting hclean htype hm
  have hseen : s ∈ EnumGroups.sighted t enumLeaves compress skipDedup :=
    EnumGroups.mem_sighted_iff.mpr ⟨path, leaf, hleaf, hs⟩
  obtain ⟨g, hg⟩ := (EnumGroups.ofKind_ofLeaves s.group.kind).mpr ⟨s, hseen, rfl, rfl⟩
  exact ⟨s, g, hsight, hseen, hg⟩

theorem exists_group (h : (EnumSet.ofLeaves t enumLeaves compress skipDedup before).1 = .ok set) {path : String}
    {m : TypeDescriptor} (hm : ListedAt t enumLeaves path m) :
    ∃ leaf s g, EnumGroups.sight t compress skipDedup path leaf m = .ok s ∧
      s ∈ EnumGroups.sighted t enumLeaves compress skipDedup ∧
        ((EnumGroups.ofLeaves t enumLeaves compress skipDedup).1.ofKind s.group.kind).get? s.key = some g := by
  obtain ⟨leaf, type, hleaf, htype, hm⟩ := hm
  exact ⟨leaf, exists_group_at h hleaf htype hm⟩

/-- A listed enumeration has what its name goes by. -/
theorem sameEnum_self (h : (EnumSet.ofLeaves t enumLeaves compress skipDedup before).1 = .ok set) {path : String}
    {m : TypeDescriptor} (hm : ListedAt t enumLeaves path m) (henum : m.isEnumerated = true) :
    SameEnum path m path m := by
  obtain ⟨leaf, s, g, hsight, -, -⟩ := exists_group h hm
  rcases (EnumGroups.sight_eq_ok hsight).2.2 with ⟨hk, -, -, i, hi, -⟩ | ⟨hk, -, -, d, hd, -⟩ | ⟨hk, -, hnone⟩
  · exact .inl ⟨hk, hk, i, i, hi, hi, rfl⟩
  · have hkind := kind_of_isEnumerated henum hk
    exact .inr ⟨hkind, hkind, .inl ⟨d, d, hd, hd, rfl⟩⟩
  · have hkind := kind_of_isEnumerated henum hk
    exact .inr ⟨hkind, hkind, .inr ⟨hnone, hnone, rfl⟩⟩

theorem exists_listed {s : EnumGroups.Sighting} (hs : s ∈ EnumGroups.sighted t enumLeaves compress skipDedup) :
    ∃ leaf m, ListedAt t enumLeaves s.group.representativePath m ∧ m.isEnumerated = true ∧
      EnumGroups.sight t compress skipDedup s.group.representativePath leaf m = .ok s := by
  obtain ⟨leaf, hleaf, hmem⟩ := EnumGroups.leaf_of_sighted hs
  obtain ⟨type, htype, -, m, hm, hsight⟩ := EnumGroups.mem_sightings hmem
  exact ⟨leaf, m, ⟨leaf, type, hleaf, htype, hm⟩, (List.mem_filter.mp hm).2, hsight⟩

theorem exists_identity_iff (h : (EnumSet.ofLeaves t enumLeaves compress skipDedup before).1 = .ok set)
    {key : String} :
    (∃ g, (EnumGroups.ofLeaves t enumLeaves compress skipDedup).1.identities.get? key = some g) ↔
      ∃ path m, ListedAt t enumLeaves path m ∧ m.kind = .identityref ∧
        ∃ i, m.identity = some i ∧ EnumGroups.ownKey i.module i.base = key := by
  constructor
  · rintro ⟨g, hg⟩
    obtain ⟨s, hs, hkind, rfl⟩ := (EnumGroups.ofKind_ofLeaves .identity).mp ⟨g, hg⟩
    obtain ⟨leaf, m, hm, -, hsight⟩ := exists_listed hs
    rcases (EnumGroups.sight_eq_ok hsight).2.2 with ⟨hk, -, -, i, hi, -, hkey⟩ | ⟨-, hother, -⟩ | ⟨-, hother, -⟩
    · exact ⟨_, m, hm, hk, i, hi, hkey.symm⟩
    · rw [hkind] at hother
      cases hother
    · rw [hkind] at hother
      cases hother
  · rintro ⟨path, m, hm, hk, i, hi, rfl⟩
    obtain ⟨leaf, s, g, hsight, -, hg⟩ := exists_group h hm
    rcases (EnumGroups.sight_eq_ok hsight).2.2 with ⟨-, hkind, -, j, hj, -, hkey⟩ | ⟨hne, -⟩ | ⟨hne, -⟩
    · obtain rfl : i = j := Option.some.inj (hi.symm.trans hj)
      rw [hkind, hkey] at hg
      exact ⟨g, hg⟩
    · exact absurd hk hne
    · exact absurd hk hne

theorem exists_typedef_iff (h : (EnumSet.ofLeaves t enumLeaves compress skipDedup before).1 = .ok set)
    {key : String} :
    (∃ g, (EnumGroups.ofLeaves t enumLeaves compress skipDedup).1.typedefs.get? key = some g) ↔
      ∃ path m, ListedAt t enumLeaves path m ∧ m.kind = .enumeration ∧
        ∃ d, m.typedef = some d ∧ EnumGroups.ownKey d.module d.name = key := by
  constructor
  · rintro ⟨g, hg⟩
    obtain ⟨s, hs, hkind, rfl⟩ := (EnumGroups.ofKind_ofLeaves .typedef).mp ⟨g, hg⟩
    obtain ⟨leaf, m, hm, henum, hsight⟩ := exists_listed hs
    rcases (EnumGroups.sight_eq_ok hsight).2.2 with ⟨-, hother, -⟩ | ⟨hk, -, -, d, hd, hkey⟩ | ⟨-, hother, -⟩
    · rw [hkind] at hother
      cases hother
    · exact ⟨_, m, hm, kind_of_isEnumerated henum hk, d, hd, hkey.symm⟩
    · rw [hkind] at hother
      cases hother
  · rintro ⟨path, m, hm, hk, d, hd, rfl⟩
    obtain ⟨leaf, s, g, hsight, -, hg⟩ := exists_group h hm
    rcases (EnumGroups.sight_eq_ok hsight).2.2 with ⟨hki, -⟩ | ⟨-, hkind, -, j, hj, hkey⟩ | ⟨-, -, hnone⟩
    · rw [hk] at hki
      cases hki
    · obtain rfl : d = j := Option.some.inj (hd.symm.trans hj)
      rw [hkind, hkey] at hg
      exact ⟨g, hg⟩
    · rw [hd] at hnone
      cases hnone

/-- A path belongs to a group of inline enumerations if one is listed there. -/
theorem exists_inline_iff (h : (EnumSet.ofLeaves t enumLeaves compress skipDedup before).1 = .ok set)
    {path : String} :
    (∃ key g, (EnumGroups.ofLeaves t enumLeaves compress skipDedup).1.inline.get? key = some g ∧
        path ∈ g.leafPaths.names) ↔
      ∃ m, ListedAt t enumLeaves path m ∧ m.kind = .enumeration ∧ m.typedef = none := by
  have hjoined := (EnumGroups.ofLeaves_spec t enumLeaves compress skipDedup).1 .simple
  constructor
  · rintro ⟨key, g, hg, hpath⟩
    obtain ⟨s, hs, -, hsp⟩ := (hjoined.paths hg _).mp hpath
    simp only [List.mem_filter, decide_eq_true_eq] at hs
    obtain ⟨leaf, m, hm, henum, hsight⟩ := exists_listed hs.1
    rw [← (EnumGroups.mem_leafPaths_of_sighted hs.1).mp hsp] at hm
    rcases (EnumGroups.sight_eq_ok hsight).2.2 with ⟨-, hother, -⟩ | ⟨-, hother, -⟩ | ⟨hk, -, hnone⟩
    · rw [hs.2] at hother
      cases hother
    · rw [hs.2] at hother
      cases hother
    · exact ⟨m, hm, kind_of_isEnumerated henum hk, hnone⟩
  · rintro ⟨m, hm, hk, hnone⟩
    obtain ⟨leaf, s, g, hsight, hseen, hg⟩ := exists_group h hm
    obtain ⟨-, hpaths, hcase⟩ := EnumGroups.sight_eq_ok hsight
    -- A sighting without typedef is inline, and its paths are that of the leaf alone.
    rcases hcase with ⟨hki, -⟩ | ⟨-, -, -, d, hd, -⟩ | ⟨-, hkind, -⟩
    · rw [hk] at hki
      cases hki
    · rw [hnone] at hd
      cases hd
    · rw [hkind] at hg
      refine ⟨s.key, g, hg, (hjoined.paths hg _).mpr
        ⟨s, List.mem_filter.mpr ⟨hseen, by simpa using hkind⟩, rfl, ?_⟩⟩
      rw [hpaths, NameSet.mem_names_ofNames]
      exact List.mem_singleton_self _

theorem exists_naming_of_eq_ok (h : (EnumSet.ofLeaves t enumLeaves compress skipDedup before).1 = .ok set) :
    ∃ nameOf, Naming (EnumGroups.ofLeaves t enumLeaves compress skipDedup).1 before
      (EnumSet.ofLeaves t enumLeaves compress skipDedup before).2 set nameOf :=
  exists_naming (Prod.ext h rfl)

theorem exists_identityName_iff (h : (EnumSet.ofLeaves t enumLeaves compress skipDedup before).1 = .ok set)
    {path : String} {m : TypeDescriptor} (hkind : m.kind = .identityref) :
    (∃ name, (m.identity.bind fun i => set.identityNames.get? (EnumGroups.ownKey i.module i.base)) = some name) ↔
      ∃ path' m', ListedAt t enumLeaves path' m' ∧ SameEnum path m path' m' := by
  obtain ⟨nameOf, hnaming⟩ := exists_naming_of_eq_ok h
  constructor
  · rintro ⟨name, hget⟩
    obtain ⟨i, hi, hget⟩ := Option.bind_eq_some_iff.mp hget
    obtain ⟨g, hg, -⟩ := hnaming.identity.mp hget
    obtain ⟨path', m', hm', hk', i', hi', hkey⟩ := (exists_identity_iff h).mp ⟨g, hg⟩
    exact ⟨path', m', hm', .inl ⟨hkind, hk', i, i', hi, hi', hkey.symm⟩⟩
  · rintro ⟨path', m', hm', ⟨-, hk', i, i', hi, hi', hkey⟩ | ⟨hk, -⟩⟩
    · obtain ⟨g, hg⟩ := (exists_identity_iff h).mpr ⟨path', m', hm', hk', i', hi', hkey.symm⟩
      exact ⟨_, Option.bind_eq_some_iff.mpr ⟨i, hi, hnaming.identity.mpr ⟨g, hg, rfl⟩⟩⟩
    · rw [hkind] at hk
      cases hk

theorem exists_typedefName_iff (h : (EnumSet.ofLeaves t enumLeaves compress skipDedup before).1 = .ok set)
    {path : String} {m : TypeDescriptor} {d : TypedefRef} (hkind : m.kind = .enumeration) (hd : m.typedef = some d) :
    (∃ name, set.typedefNames.get? (EnumGroups.ownKey d.module d.name) = some name) ↔
      ∃ path' m', ListedAt t enumLeaves path' m' ∧ SameEnum path m path' m' := by
  obtain ⟨nameOf, hnaming⟩ := exists_naming_of_eq_ok h
  constructor
  · rintro ⟨name, hget⟩
    obtain ⟨g, hg, -⟩ := hnaming.typedef.mp hget
    obtain ⟨path', m', hm', hk', d', hd', hkey⟩ := (exists_typedef_iff h).mp ⟨g, hg⟩
    exact ⟨path', m', hm', .inr ⟨hkind, hk', .inl ⟨d, d', hd, hd', hkey.symm⟩⟩⟩
  · rintro ⟨path', m', hm', ⟨hk, -⟩ | ⟨-, hk', ⟨e, d', he, hd', hkey⟩ | ⟨hnone, -⟩⟩⟩
    · rw [hkind] at hk
      cases hk
    · obtain rfl : d = e := Option.some.inj (hd.symm.trans he)
      obtain ⟨g, hg⟩ := (exists_typedef_iff h).mpr ⟨path', m', hm', hk', d', hd', hkey.symm⟩
      exact ⟨_, hnaming.typedef.mpr ⟨g, hg, rfl⟩⟩
    · rw [hd] at hnone
      cases hnone

theorem exists_inlineName_iff (h : (EnumSet.ofLeaves t enumLeaves compress skipDedup before).1 = .ok set)
    {path : String} {m : TypeDescriptor} (hkind : m.kind = .enumeration) (hinline : m.typedef = none) :
    (∃ name, set.inlineNames.get? path = some name) ↔
      ∃ path' m', ListedAt t enumLeaves path' m' ∧ SameEnum path m path' m' := by
  obtain ⟨nameOf, hnaming⟩ := exists_naming_of_eq_ok h
  constructor
  · rintro ⟨name, hget⟩
    obtain ⟨key, g, hg, hpath, -⟩ := hnaming.inline.mp hget
    obtain ⟨m', hm', hk', hnone⟩ := (exists_inline_iff h).mp ⟨key, g, hg, hpath⟩
    exact ⟨_, m', hm', .inr ⟨hkind, hk', .inr ⟨hinline, hnone, rfl⟩⟩⟩
  · rintro ⟨path', m', hm', ⟨hk, -⟩ | ⟨-, hk', ⟨e, _, he, -⟩ | ⟨-, hnone, rfl⟩⟩⟩
    · rw [hkind] at hk
      cases hk
    · rw [hinline] at he
      cases he
    · obtain ⟨key, g, hg, hpath⟩ := (exists_inline_iff h).mpr ⟨m', hm', hk', hnone⟩
      exact ⟨_, hnaming.inline.mpr ⟨key, g, hg, hpath, rfl⟩⟩

/-- An alternative of a leaf's type has a name exactly if the same enumeration is listed. -/
theorem nameFor?_ne_none_iff (h : (EnumSet.ofLeaves t enumLeaves compress skipDedup before).1 = .ok set)
    {leaf : NodeId} {m : TypeDescriptor} (henum : m.isEnumerated = true) :
    set.nameFor? t leaf m ≠ none ↔
      ∃ path' m', ListedAt t enumLeaves path' m' ∧ SameEnum (t.pathString leaf) m path' m' := by
  rw [Option.ne_none_iff_exists']
  by_cases hidentity : m.kind = .identityref
  · rw [← exists_identityName_iff h hidentity]
    simp only [nameFor?, hidentity]
  · have hkind := kind_of_isEnumerated henum hidentity
    cases htypedef : m.typedef with
    | some d =>
      rw [← exists_typedefName_iff h hkind htypedef]
      simp only [nameFor?, hkind, htypedef]
    | none =>
      rw [← exists_inlineName_iff h hkind htypedef]
      simp only [nameFor?, hkind, htypedef]

end EnumSet

end SchemaIr
