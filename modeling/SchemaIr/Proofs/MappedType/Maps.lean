import SchemaIr.Proofs.MappedType.Meets

/-! # What types map to

Where nothing is wrong, the mapping of a leaf's type follows four rules, one for each sort of type (`Maps`):
`mapType` and `leafType` give nothing else (`maps_of_mapType`, `leafType_eq_ok`). The rules leave no choice
(`Maps.unique`). Every type that occurs in a result stems from a built-in kind, from a named enumeration, or from
the union that a leaf declares (`Stems`). -/

namespace SchemaIr

namespace TypeDescriptor

/-! ### Alternatives of unions -/

mutual

/-- No alternative is a union, … -/
theorem isUnion_of_mem_alternatives : ∀ {type a : TypeDescriptor}, a ∈ type.alternatives → a.isUnion = false
  | ⟨kind, typedef, members, path, values, identity, default⟩, a, h => by
    rw [alternatives] at h
    split at h
    · exact isUnion_of_mem_alternativesOf h
    · rename_i hkind
      rw [List.mem_singleton.mp h]
      simpa [isUnion] using hkind

theorem isUnion_of_mem_alternativesOf : ∀ {types : List TypeDescriptor} {a : TypeDescriptor},
    a ∈ alternativesOf types → a.isUnion = false
  | [], _, h => by cases h
  | type :: types, a, h => by
    rw [alternativesOf] at h
    exact (List.mem_append.mp h).elim isUnion_of_mem_alternatives isUnion_of_mem_alternativesOf

end

mutual

/-- … and only a type with an empty union has none. -/
theorem hasEmptyUnion_of_alternatives : ∀ {type : TypeDescriptor}, type.alternatives = [] → type.hasEmptyUnion = true
  | ⟨kind, typedef, members, path, values, identity, default⟩, h => by
    rw [alternatives] at h
    split at h
    · rename_i hkind
      simpa [hasEmptyUnion, hkind] using empty_of_alternativesOf h
    · cases h

theorem empty_of_alternativesOf : ∀ {types : List TypeDescriptor}, alternativesOf types = [] →
    types = [] ∨ anyEmptyUnion types = true
  | [], _ => .inl rfl
  | type :: types, h => by
    rw [alternativesOf] at h
    have hfirst := hasEmptyUnion_of_alternatives (List.append_eq_nil_iff.mp h).1
    exact .inr (by rw [anyEmptyUnion, hfirst, Bool.true_or])

end

theorem hasEmptyUnion_of_memberAlternatives {type : TypeDescriptor} (hunion : type.isUnion = true)
    (h : type.memberAlternatives = []) : type.hasEmptyUnion = true :=
  hasEmptyUnion_of_alternatives ((alternatives_of_isUnion hunion).trans h)

end TypeDescriptor

namespace MappedType

/-! ### Marks -/

theorem afterMark?_eq_some_iff {mark text rest : String} : afterMark? mark text = some rest ↔ text = mark ++ rest := by
  unfold afterMark?
  split
  · rename_i hprefix
    obtain ⟨tail, htail⟩ := List.isPrefixOf_iff_prefix.mp hprefix
    have hdrop : text.toList.drop mark.length = tail := by
      rw [← htail, ← String.length_toList, List.drop_left]
    rw [hdrop, Option.some.injEq]
    constructor
    · rintro rfl
      exact String.toList_injective (by rw [String.toList_append, String.toList_ofList, htail])
    · rintro rfl
      rw [String.toList_append, List.append_cancel_left_eq] at htail
      rw [htail, String.ofList_toList]
  · rename_i hprefix
    refine ⟨fun h => (nomatch h), fun h => absurd ?_ hprefix⟩
    rw [h, String.toList_append]
    exact List.isPrefixOf_iff_prefix.mpr (List.prefix_append _ _)

theorem enumName?_eq_some_iff {m : MappedType} {name : String} :
    m.enumName? = some name ↔ m.native = enumMark ++ name :=
  afterMark?_eq_some_iff

theorem isUnion_iff {m : MappedType} : m.isUnion = true ↔ ∃ name, m.native = unionMark ++ name := by
  rw [isUnion, Option.isSome_iff_exists]
  simp only [afterMark?_eq_some_iff]

/-- No native type has both marks. -/
theorem enumMark_append_ne (name name' : String) : unionMark ++ name ≠ enumMark ++ name' := by
  intro h
  have hchars := congrArg (fun s => s.toList.head?) h
  simp [enumMark, unionMark, String.toList_append] at hchars

/-- What maps to the same type everywhere maps to a native type without mark and without members. -/
theorem ofKind?_eq_some {kind : TypeKind} {m : MappedType} (h : ofKind? kind = some m) :
    m.native ≠ "" ∧ m.members = [] ∧ m.isEnumerated = false ∧ m.default = none ∧ m.enumName? = none ∧
      m.isUnion = false := by
  cases kind <;> cases h <;> decide

theorem enumMark_append_ne_empty (name : String) : enumMark ++ name ≠ "" := by
  simp [enumMark]

theorem unionMark_append_ne_empty (name : String) : unionMark ++ name ≠ "" := by
  simp [unionMark]

/-! ### Types within types -/

/-- A type is within itself, and within a union if it is within one of the members. -/
inductive Within (m : MappedType) : MappedType → Prop
  | self : Within m m
  | member {n whole : MappedType} : n ∈ whole.members → Within m n → Within m whole

theorem Within.eq_of_members {m whole : MappedType} (h : Within m whole) (hmembers : whole.members = []) : m = whole := by
  cases h with
  | self => rfl
  | member hn => rw [hmembers] at hn; cases hn

/-- A type without its default. -/
def bare (m : MappedType) : MappedType := { m with default := none }

theorem bare_eq {m : MappedType} (h : m.default = none) : m.bare = m := by
  cases m
  cases h
  rfl

/-! ### Unions -/

/-- The union of types under a name. -/
def unionOf (name : String) (types : List MappedType) : MappedType :=
  ofMembers name (types.foldl Members.add ⟨[], ∅⟩)

theorem mem_types_foldl_add {types : List MappedType} {ms : Members} {m : MappedType}
    (h : m ∈ (types.foldl Members.add ms).types) : m ∈ ms.types ∨ m ∈ types := by
  induction types generalizing ms with
  | nil => exact .inl h
  | cons n rest ih =>
    rcases ih h with hm | hm
    · unfold Members.add at hm
      split at hm
      · exact .inl hm
      · refine (List.mem_append.mp hm).imp id fun hn => ?_
        rw [List.mem_singleton.mp hn]
        exact List.mem_cons_self
    · exact .inr (List.mem_cons_of_mem _ hm)

theorem types_foldl_add_ne_nil {types : List MappedType} {ms : Members} (h : ms.types ≠ []) :
    (types.foldl Members.add ms).types ≠ [] := by
  induction types generalizing ms with
  | nil => exact h
  | cons n rest ih =>
    refine ih ?_
    unfold Members.add
    split
    · exact h
    · simp

/-- Of types with native types the first one is added, whatever it is. -/
theorem types_ne_nil_of_native {types : List MappedType} (hne : types ≠ []) (hnative : ∀ m ∈ types, m.native ≠ "") :
    (types.foldl Members.add ⟨[], ∅⟩).types ≠ [] := by
  obtain ⟨first, rest, rfl⟩ := List.exists_cons_of_ne_nil hne
  have hadded : ¬(first.native = "" ∨ (∅ : Table Nat).contains first.native = true) :=
    not_or.mpr ⟨hnative first List.mem_cons_self, Bool.false_ne_true⟩
  rw [List.foldl_cons]
  refine types_foldl_add_ne_nil ?_
  rw [Members.add, if_neg hadded]
  exact List.cons_ne_nil _ _

/-- A union of types with native types is one of them, or has its name and what is added of them for members. -/
theorem unionOf_eq_or {α : Type} (name : String) {xs : List α} {each : α → MappedType} (hne : xs ≠ [])
    (hnative : ∀ a ∈ xs, (each a).native ≠ "") :
    (∃ a ∈ xs, unionOf name (xs.map each) = each a) ∨
      ∃ ms : Members, (xs.map each).foldl Members.add ⟨[], ∅⟩ = ms ∧
        unionOf name (xs.map each) = ⟨unionMark ++ name, ms.positions, ms.types, false, "null", none⟩ := by
  have hsome : ((xs.map each).foldl Members.add ⟨[], ∅⟩).types ≠ [] :=
    types_ne_nil_of_native (by simpa using hne) (List.forall_mem_map.mpr hnative)
  have hmem : ∀ m ∈ ((xs.map each).foldl Members.add ⟨[], ∅⟩).types, m ∈ xs.map each := fun m hm =>
    (mem_types_foldl_add hm).resolve_left List.not_mem_nil
  unfold unionOf
  generalize (xs.map each).foldl Members.add ⟨[], ∅⟩ = ms at hsome hmem
  unfold ofMembers
  split
  · rename_i hnil
    exact absurd hnil hsome
  · rename_i m hone
    obtain ⟨a, ha, hm⟩ := List.mem_map.mp (hmem m (hone ▸ List.mem_singleton_self m))
    exact .inl ⟨a, ha, hm.symm⟩
  · exact .inr ⟨ms, rfl, rfl⟩

/-- A union of types with native types is one of them, or has its name and has only them as members. -/
theorem unionOf_cases {α : Type} (name : String) {xs : List α} {each : α → MappedType} (hne : xs ≠ [])
    (hnative : ∀ a ∈ xs, (each a).native ≠ "") :
    (∃ a ∈ xs, unionOf name (xs.map each) = each a) ∨
      ∃ ms : Members, unionOf name (xs.map each) = ⟨unionMark ++ name, ms.positions, ms.types, false, "null", none⟩ ∧
        ∀ m ∈ ms.types, ∃ a ∈ xs, m = each a := by
  refine (unionOf_eq_or name hne hnative).imp id ?_
  rintro ⟨ms, rfl, heq⟩
  refine ⟨_, heq, fun m hm => ?_⟩
  obtain ⟨a, ha, hm⟩ := List.mem_map.mp ((mem_types_foldl_add hm).resolve_left List.not_mem_nil)
  exact ⟨a, ha, hm.symm⟩

theorem native_unionOf_ne {α : Type} (name : String) {xs : List α} {each : α → MappedType} (hne : xs ≠ [])
    (hnative : ∀ a ∈ xs, (each a).native ≠ "") : (unionOf name (xs.map each)).native ≠ "" := by
  rcases unionOf_cases name hne hnative with ⟨a, ha, heq⟩ | ⟨ms, heq, -⟩
  · rw [heq]
    exact hnative a ha
  · rw [heq]
    exact unionMark_append_ne_empty _

end MappedType

namespace TypeContext
open MappedType (Within unionOf unionMark enumMark)

/-! ### The rules -/

/-- A type maps, as that of a leaf, to a type of a field in a directory. -/
inductive Maps (ctx : TypeContext) (owner : String) : NodeId → TypeDescriptor → MappedType → Prop
  /-- A built-in kind maps to the same type everywhere. -/
  | kind {leaf : NodeId} {type : TypeDescriptor} {m : MappedType} :
      MappedType.ofKind? type.kind = some m → Maps ctx owner leaf type m
  /-- An enumeration maps to the generated one of its name. -/
  | enumeration {leaf : NodeId} {type : TypeDescriptor} {name : String} : type.isEnumerated = true →
      ctx.enums.nameFor? ctx.tree leaf type = some name → Maps ctx owner leaf type (.enumerated name)
  /-- A leafref maps to what the type at the end of its chain maps to. -/
  | leafref {leaf target : NodeId} {type targetType : TypeDescriptor} {m : MappedType} : type.isLeafref = true →
      ctx.index.chainTarget? ctx.tree leaf (type.path.getD "") = some target →
      (ctx.tree.node target).type = some targetType → Maps ctx owner target targetType m → Maps ctx owner leaf type m
  /-- A union maps to the union of what its alternatives map to. -/
  | union {leaf : NodeId} {type : TypeDescriptor} (each : TypeDescriptor → MappedType) : type.isUnion = true →
      type.memberAlternatives ≠ [] → (∀ a ∈ type.memberAlternatives, Maps ctx owner leaf a (each a)) →
      Maps ctx owner leaf type (unionOf (ctx.unionName owner leaf) (type.memberAlternatives.map each))

variable {ctx : TypeContext} {owner : String} {leaf : NodeId} {type : TypeDescriptor} {m : MappedType}

/-- No type maps to two types: the sorts of types exclude one another, and the chain of a leafref has one end. -/
theorem Maps.unique {m' : MappedType} (h : Maps ctx owner leaf type m) (h' : Maps ctx owner leaf type m') : m = m' := by
  induction h generalizing m' with
  | kind hm =>
    cases h' with
    | kind hm' => exact Option.some.inj (hm.symm.trans hm')
    | enumeration henum => rw [ofKind?_of_isEnumerated henum] at hm; cases hm
    | leafref href => rw [ofKind?_of_isLeafref href] at hm; cases hm
    | union _ hunion => rw [ofKind?_of_isUnion hunion] at hm; cases hm
  | enumeration henum hname =>
    cases h' with
    | kind hm => rw [ofKind?_of_isEnumerated henum] at hm; cases hm
    | enumeration _ hname' => exact congrArg _ (Option.some.inj (hname.symm.trans hname'))
    | leafref href => rw [TypeDescriptor.isLeafref_of_isEnumerated henum] at href; cases href
    | union _ hunion => rw [isEnumerated_of_isUnion hunion] at henum; cases henum
  | leafref href htarget htype _ ih =>
    cases h' with
    | kind hm => rw [ofKind?_of_isLeafref href] at hm; cases hm
    | enumeration henum => rw [TypeDescriptor.isLeafref_of_isEnumerated henum] at href; cases href
    | leafref _ htarget' htype' hmaps =>
      obtain rfl := Option.some.inj (htarget.symm.trans htarget')
      obtain rfl := Option.some.inj (htype.symm.trans htype')
      exact ih hmaps
    | union _ hunion => rw [isLeafref_of_isUnion hunion] at href; cases href
  | union each hunion hne hall ih =>
    cases h' with
    | kind hm => rw [ofKind?_of_isUnion hunion] at hm; cases hm
    | enumeration henum => rw [isEnumerated_of_isUnion hunion] at henum; cases henum
    | leafref href => rw [isLeafref_of_isUnion hunion] at href; cases href
    | union each' _ _ hall' => exact congrArg _ (List.map_congr_left fun a ha => ih a ha (hall' a ha))

/-- A leafref maps to what the type at the end of its chain maps to, and to nothing else. -/
theorem Maps.of_leafref {target : NodeId} {targetType : TypeDescriptor} (h : Maps ctx owner leaf type m)
    (href : type.isLeafref = true) (htarget : ctx.index.chainTarget? ctx.tree leaf (type.path.getD "") = some target)
    (htype : (ctx.tree.node target).type = some targetType) : Maps ctx owner target targetType m := by
  cases h with
  | kind hm => rw [ofKind?_of_isLeafref href] at hm; cases hm
  | enumeration henum => rw [TypeDescriptor.isLeafref_of_isEnumerated henum] at href; cases href
  | leafref _ htarget' htype' hmaps =>
    obtain rfl := Option.some.inj (htarget.symm.trans htarget')
    obtain rfl := Option.some.inj (htype.symm.trans htype')
    exact hmaps
  | union _ hunion => rw [isLeafref_of_isUnion hunion] at href; cases href

theorem Maps.native_ne (h : Maps ctx owner leaf type m) : m.native ≠ "" := by
  induction h with
  | kind hm => exact (MappedType.ofKind?_eq_some hm).1
  | enumeration => exact MappedType.enumMark_append_ne_empty _
  | leafref _ _ _ _ ih => exact ih
  | union _ _ hne _ ih => exact MappedType.native_unionOf_ne _ hne ih

/-- No default comes out of the mapping. -/
theorem Maps.default_eq (h : Maps ctx owner leaf type m) : m.default = none := by
  induction h with
  | kind hm => exact (MappedType.ofKind?_eq_some hm).2.2.2.1
  | enumeration => rfl
  | leafref _ _ _ _ ih => exact ih
  | @union leaf _ each _ hne hall ih =>
    have hnative := fun a ha => (hall a ha).native_ne
    rcases MappedType.unionOf_cases (ctx.unionName owner leaf) hne hnative with ⟨a, ha, heq⟩ | ⟨ms, heq, -⟩
    · rw [heq]
      exact ih a ha
    · rw [heq]

/-! ### Where types stem from -/

/-- What a type that occurs in a result stems from. -/
inductive Stems (ctx : TypeContext) (owner : String) : MappedType → Prop
  | kind {kind : TypeKind} {m : MappedType} : MappedType.ofKind? kind = some m → Stems ctx owner m
  | enumeration {leaf : NodeId} {type : TypeDescriptor} {name : String} : type.isEnumerated = true →
      ctx.enums.nameFor? ctx.tree leaf type = some name → Stems ctx owner (.enumerated name)
  /-- The union that a leaf declares goes by the leaf's name. -/
  | union {leaf : NodeId} {type : TypeDescriptor} {m : MappedType} : (ctx.tree.node leaf).type = some type →
      type.isUnion = true → Maps ctx owner leaf type m → m.native = unionMark ++ ctx.unionName owner leaf →
      m.isEnumerated = false → Stems ctx owner m

/-- A union that is mapped must be the type of its leaf: within a type, unions are spliced in place. -/
theorem Maps.stems {u : MappedType} (h : Maps ctx owner leaf type m)
    (hdeclared : type.isUnion = true → (ctx.tree.node leaf).type = some type) (hu : u.Within m) : Stems ctx owner u := by
  induction h generalizing u with
  | kind hm =>
    rw [hu.eq_of_members (MappedType.ofKind?_eq_some hm).2.1]
    exact .kind hm
  | enumeration henum hname =>
    rw [hu.eq_of_members rfl]
    exact .enumeration henum hname
  | leafref _ _ htype _ ih => exact ih (fun _ => htype) hu
  | @union leaf type each hunion hne hall ih =>
    have hplain : ∀ a ∈ type.memberAlternatives, a.isUnion = true → (ctx.tree.node leaf).type = some a :=
      fun a ha h => by
        rw [TypeDescriptor.isUnion_of_mem_alternativesOf ha] at h
        cases h
    have hmaps : Maps ctx owner leaf type _ := .union each hunion hne hall
    have hnative := fun a ha => (hall a ha).native_ne
    rcases MappedType.unionOf_cases (ctx.unionName owner leaf) hne hnative with ⟨a, ha, heq⟩ | ⟨ms, heq, hms⟩
    · rw [heq] at hu
      exact ih a ha (hplain a ha) hu
    · cases hu with
      | self => exact .union (hdeclared hunion) hunion hmaps (by rw [heq]) (by rw [heq])
      | member hn hwithin =>
        rw [heq] at hn
        obtain ⟨a, ha, rfl⟩ := hms _ hn
        exact ih a ha (hplain a ha) hwithin

theorem Stems.default_eq {u : MappedType} (h : Stems ctx owner u) : u.default = none := by
  cases h with
  | kind hm => exact (MappedType.ofKind?_eq_some hm).2.2.2.1
  | enumeration => rfl
  | union _ _ hmaps => exact hmaps.default_eq

/-! ### The mapping follows the rules -/

variable {follow : NodeId → TypeDescriptor → Option Outcome} {out : Outcome}

/-- The mapping of one alternative, where the leafrefs that it follows lead to types that are mapped by the rules. -/
theorem maps_of_mapAlternative (hfollow : ∀ {target type out}, follow target type = some out →
      Diagnostics.hasErrors ⟨out.problems⟩ = false → Maps ctx owner target type out.mapped)
    (h : mapAlternative ctx follow leaf type = some out) (hclean : Diagnostics.hasErrors ⟨out.problems⟩ = false) :
    Maps ctx owner leaf type out.mapped := by
  cases mapAlternative_eq_iff.mp h with
  | followed href htarget htype hout => exact .leafref href htarget htype (hfollow hout hclean)
  | named henum hname => exact .enumeration henum hname
  | builtIn hm => exact .kind hm
  | union => exact nomatch (show true = false from hclean)
  | fails hfails =>
    rw [Diagnostics.hasErrors, failed, List.any_cons, hfails.isError] at hclean
    cases hclean

/-- The member types of a union are the types of its alternatives, added one after the other. -/
theorem types_of_foldlM_addMember (alternatives : List TypeDescriptor) (st r : MappedType.Members × List Diagnostic)
    (h : alternatives.foldlM (addMember ctx follow leaf) st = some r) :
    r.1 = (alternatives.map fun a => ((mapAlternative ctx follow leaf a).map (·.mapped)).getD .unresolved).foldl
      MappedType.Members.add st.1 := by
  induction alternatives generalizing st with
  | nil =>
    cases h
    rfl
  | cons a rest ih =>
    rw [List.foldlM_cons] at h
    obtain ⟨next, hnext, hrest⟩ := Option.bind_eq_some_iff.mp h
    obtain ⟨out, hout, rfl⟩ := Option.map_eq_some_iff.mp hnext
    rw [ih _ hrest, List.map_cons, List.foldl_cons, hout]
    rfl

/-- Where nothing is wrong with the members of a union, its alternatives are mapped by the rules. -/
theorem exists_each_of_mapMembers {ms : MappedType.Members} {problems : List Diagnostic}
    (hfollow : ∀ {target type out}, follow target type = some out →
      Diagnostics.hasErrors ⟨out.problems⟩ = false → Maps ctx owner target type out.mapped)
    (h : mapMembers ctx follow leaf type.members = some (ms, problems))
    (hclean : Diagnostics.hasErrors ⟨problems⟩ = false) :
    ∃ each, (∀ a ∈ type.memberAlternatives, Maps ctx owner leaf a (each a)) ∧
      ms = (type.memberAlternatives.map each).foldl MappedType.Members.add ⟨[], ∅⟩ := by
  obtain ⟨hall, hproblems⟩ := (mapMembers_spec ctx follow leaf type).2 _ h
  rw [mapMembers_eq] at h
  refine ⟨_, fun a ha => ?_, types_of_foldlM_addMember _ _ _ h⟩
  obtain ⟨o, ho⟩ := hall a ha
  have hoclean : Diagnostics.hasErrors ⟨o.problems⟩ = false := Bool.eq_false_iff.mpr fun herr => by
    obtain ⟨d, hd, hderr⟩ := Diagnostics.hasErrors_iff.mp herr
    exact Bool.eq_false_iff.mp hclean
      (Diagnostics.hasErrors_iff.mpr ⟨d, (hproblems d).mpr ⟨a, ha, o, ho, hd⟩, hderr⟩)
  rw [ho]
  exact maps_of_mapAlternative hfollow ho hoclean

/-- A union is mapped without errors exactly if nothing is wrong with its members, and it is not left without member
    types for an empty union in it. -/
theorem exists_mapUnion_iff : (∃ out, mapUnion ctx owner follow leaf type = some out ∧
      Diagnostics.hasErrors ⟨out.problems⟩ = false ∧ out.mapped = m) ↔
    ∃ ms problems, mapMembers ctx follow leaf type.members = some (ms, problems) ∧
      Diagnostics.hasErrors ⟨problems⟩ = false ∧ (ms.types = [] → type.hasEmptyUnion = false) ∧
        MappedType.ofMembers (ctx.unionName owner leaf) ms = m := by
  have hempty : ∀ ms : MappedType.Members, Diagnostics.hasErrors
      ⟨if ms.types.isEmpty && type.hasEmptyUnion then [.noUnionMembers (ctx.tree.pathString leaf)] else []⟩ = false ↔
        (ms.types = [] → type.hasEmptyUnion = false) := by
    intro ms
    cases htypes : ms.types with
    | nil =>
      cases type.hasEmptyUnion with
      | false => simp [Diagnostics.hasErrors]
      | true => exact iff_of_false Bool.false_ne_true.symm (by simp)
    | cons => simp [Diagnostics.hasErrors]
  simp only [mapUnion, bind, pure, Option.bind_eq_some_iff, Prod.exists, Option.some.injEq]
  constructor
  · rintro ⟨_, ⟨ms, problems, hmembers, rfl⟩, hclean, rfl⟩
    rw [Diagnostics.hasErrors, List.any_append, Bool.or_eq_false_iff] at hclean
    exact ⟨ms, problems, hmembers, hclean.1, (hempty ms).mp hclean.2, rfl⟩
  · rintro ⟨ms, problems, hmembers, hclean, hsome, rfl⟩
    refine ⟨_, ⟨ms, problems, hmembers, rfl⟩, ?_, rfl⟩
    rw [Diagnostics.hasErrors, List.any_append, Bool.or_eq_false_iff]
    exact ⟨hclean, (hempty ms).mpr hsome⟩

theorem maps_of_mapUnion (hfollow : ∀ {target type out}, follow target type = some out →
      Diagnostics.hasErrors ⟨out.problems⟩ = false → Maps ctx owner target type out.mapped)
    (hunion : type.isUnion = true) (h : mapUnion ctx owner follow leaf type = some out)
    (hclean : Diagnostics.hasErrors ⟨out.problems⟩ = false) : Maps ctx owner leaf type out.mapped := by
  obtain ⟨ms, problems, hmembers, hmembersClean, hempty, hmapped⟩ := exists_mapUnion_iff.mp ⟨out, h, hclean, rfl⟩
  obtain ⟨each, hall, rfl⟩ := exists_each_of_mapMembers hfollow hmembers hmembersClean
  rw [← hmapped]
  refine .union each hunion (fun hnil => ?_) hall
  -- Without alternatives it would have been told that a union is empty.
  rw [hnil, TypeDescriptor.hasEmptyUnion_of_memberAlternatives hunion hnil] at hempty
  cases hempty rfl

/-- A mapping in which nothing goes wrong follows the rules. -/
theorem maps_of_mapType {n : Nat} (h : mapType ctx owner n leaf type = some out)
    (hclean : Diagnostics.hasErrors ⟨out.problems⟩ = false) : Maps ctx owner leaf type out.mapped := by
  induction n generalizing leaf type out with
  | zero => cases h
  | succ n ih =>
    rw [mapType] at h
    split at h
    · rename_i hunion
      exact maps_of_mapUnion ih hunion h hclean
    · exact maps_of_mapAlternative ih h hclean

theorem flattenUnion_eq_ok : ctx.flattenUnion owner leaf type = some (.ok m) ↔
    ∃ out, mapUnion ctx owner (ctx.mapType owner ctx.bound) leaf type = some out ∧
      Diagnostics.hasErrors ⟨out.problems⟩ = false ∧ out.mapped = m := by
  rw [flattenUnion, Option.map_eq_some_iff]
  simp only [Diagnostics.settle_eq_ok_iff]

/-- Where a union is flattened, its alternatives are mapped, and it is their union. -/
theorem exists_each_of_flattenUnion (h : ctx.flattenUnion owner leaf type = some (.ok m)) :
    ∃ each, (∀ a ∈ type.memberAlternatives, Maps ctx owner leaf a (each a)) ∧
      m = unionOf (ctx.unionName owner leaf) (type.memberAlternatives.map each) := by
  obtain ⟨out, hout, hclean, hmapped⟩ := flattenUnion_eq_ok.mp h
  obtain ⟨ms, problems, hmembers, hmembersClean, -, rfl⟩ := exists_mapUnion_iff.mp ⟨out, hout, hclean, hmapped⟩
  obtain ⟨each, hall, rfl⟩ := exists_each_of_mapMembers maps_of_mapType hmembers hmembersClean
  exact ⟨each, hall, rfl⟩

/-- The type of a leaf is what its descriptor maps to, with a default. -/
theorem leafType_eq_ok (h : ctx.leafType leaf owner = some (.ok m)) :
    ∃ type, (ctx.tree.node leaf).type = some type ∧ Maps ctx owner leaf type m.bare := by
  unfold leafType at h
  dsimp only at h
  split at h
  · cases h
  · rename_i type htype
    refine ⟨type, htype, ?_⟩
    obtain ⟨result, hresolve, hresult⟩ := Option.map_eq_some_iff.mp h
    obtain ⟨out, hout, rfl⟩ := Option.map_eq_some_iff.mp hresolve
    cases hsettle : Diagnostics.settle ⟨out.problems⟩ out.mapped with
    | error problems =>
      rw [hsettle] at hresult
      cases hresult
    | ok mapped =>
      rw [hsettle] at hresult
      cases hresult
      obtain ⟨hclean, rfl⟩ := Diagnostics.settle_eq_ok_iff.mp hsettle
      have hmaps := maps_of_mapType hout hclean
      rw [MappedType.bare]
      dsimp only
      rwa [← MappedType.bare, MappedType.bare_eq hmaps.default_eq]

/-- Whatever occurs in the type of a leaf stems from something. -/
theorem stems_of_leafType {u : MappedType} (h : ctx.leafType leaf owner = some (.ok m)) (hu : u.Within m) :
    Stems ctx owner u.bare := by
  obtain ⟨type, htype, hmaps⟩ := leafType_eq_ok h
  cases hu with
  | self => exact hmaps.stems (fun _ => htype) .self
  | member hn hwithin =>
    -- Only the type itself has a default.
    have hstems := hmaps.stems (fun _ => htype) (.member hn hwithin)
    rwa [MappedType.bare_eq hstems.default_eq]

end TypeContext

end SchemaIr
