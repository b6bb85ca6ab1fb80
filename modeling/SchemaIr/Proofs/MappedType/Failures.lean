import SchemaIr.Proofs.MappedType.Members

/-! # Types that cannot be mapped

A leafref that leads nowhere, an enumeration without a name and a type of an unknown kind cannot be mapped (`Fails`). For
the time being they are mapped to a type without a native type, which is no member of any union, so that the rest of a
union comes out as if they were not there. But what is told of them is kept (`Gathers`), along all leafrefs, and makes the
whole an error (`no_failure_escapes`). One thing is told nowhere: a descriptor that is flattened, though it is no union and
has no alternatives, is flattened to a type without a native type (`flattenUnion_of_no_members`). -/

namespace SchemaIr

namespace TypeContext

variable {ctx : TypeContext} {owner : String} {leaf holder target : NodeId} {type a : TypeDescriptor}
  {alternatives members : List TypeDescriptor} {m : MappedType} {out : Outcome} {d : Diagnostic} {n : Nat}

/-! ### What is told is kept -/

/-- What comes out for the alternatives of a leaf, if the types of their targets are mapped within a number of leafrefs:
    all that is told of them, and nothing if there are some and nothing is told of any. -/
structure Gathers (ctx : TypeContext) (owner : String) (n : Nat) (leaf : NodeId) (alternatives : List TypeDescriptor)
    (out : Outcome) : Prop where
  each : ∀ a ∈ alternatives, ∃ o, mapAlternative ctx (mapType ctx owner n) leaf a = some o ∧
    ∀ d ∈ o.problems, d ∈ out.problems
  clean : alternatives ≠ [] →
    (∀ a ∈ alternatives, ∀ o, mapAlternative ctx (mapType ctx owner n) leaf a = some o → o.problems = []) →
      out.problems = []

theorem gathers_of_mapUnion (h : mapUnion ctx owner (mapType ctx owner n) leaf type = some out) :
    Gathers ctx owner n leaf type.memberAlternatives out := by
  simp only [mapUnion, bind, pure, Option.bind_eq_some_iff, Prod.exists, Option.some.injEq] at h
  obtain ⟨ms, problems, hmembers, rfl⟩ := h
  obtain ⟨hall, hproblems⟩ := (mapMembers_spec ctx (mapType ctx owner n) leaf type).2 _ hmembers
  constructor
  · intro a ha
    obtain ⟨o, ho⟩ := hall a ha
    exact ⟨o, ho, fun d hd => List.mem_append_left _ ((hproblems d).mpr ⟨a, ha, o, ho, hd⟩)⟩
  · intro hne hclean
    have hnil : problems = [] := List.eq_nil_iff_forall_not_mem.mpr fun d hd => by
      obtain ⟨a, ha, o, ho, hdo⟩ := (hproblems d).mp hd
      rw [hclean a ha o ho] at hdo
      cases hdo
    subst hnil
    -- The alternatives are mapped then, so there are member types and no empty union is missed.
    obtain ⟨each, hmaps, rfl⟩ := exists_each_of_mapMembers maps_of_mapType hmembers rfl
    have hne' : type.memberAlternatives.map each ≠ [] := by simpa using hne
    have hsome := MappedType.types_ne_nil_of_native hne' (List.forall_mem_map.mpr fun a ha => (hmaps a ha).native_ne)
    simp [hsome]

theorem gathers_of_mapType (h : mapType ctx owner (n + 1) leaf type = some out) :
    Gathers ctx owner n leaf type.alternatives out := by
  rw [mapType] at h
  cases hunion : type.isUnion with
  | true =>
    rw [hunion, if_pos rfl] at h
    rw [TypeDescriptor.alternatives_of_isUnion hunion]
    exact gathers_of_mapUnion h
  | false =>
    rw [hunion, if_neg Bool.false_ne_true] at h
    rw [TypeDescriptor.alternatives_of_not_isUnion hunion]
    constructor
    · intro a ha
      rw [List.mem_singleton.mp ha]
      exact ⟨out, h, fun _ hd => hd⟩
    · exact fun _ hclean => hclean type (List.mem_singleton_self type) out h

/-- What fails among presented alternatives is told in what comes out. -/
theorem Gathers.mem_problems (hpresents : Presents ctx.tree ctx.index leaf alternatives holder members)
    (h : Gathers ctx owner n leaf alternatives out) (ha : a ∈ members) (hfails : Fails ctx holder a d) :
    d ∈ out.problems := by
  induction hpresents generalizing n out with
  | here =>
    obtain ⟨o, ho, hsubset⟩ := h.each a ha
    rw [mapAlternative_eq_iff.mpr (.fails hfails)] at ho
    cases ho
    exact hsubset d (List.mem_singleton_self d)
  | along hb href htarget htype _ ih =>
    obtain ⟨o, ho, hsubset⟩ := h.each _ hb
    rw [mapAlternative_of_leafref href htarget htype] at ho
    cases n with
    | zero => cases ho
    | succ n => exact hsubset d (ih (gathers_of_mapType ho) ha hfails)

/-- Nothing is missing in what the alternatives present: there is a type at all, and none fails. -/
def Sound (ctx : TypeContext) (leaf : NodeId) (alternatives : List TypeDescriptor) : Prop :=
  ∀ holder members, Presents ctx.tree ctx.index leaf alternatives holder members →
    members ≠ [] ∧ ∀ a ∈ members, ∀ d, ¬Fails ctx holder a d

theorem Sound.along (h : Sound ctx leaf alternatives) (ha : a ∈ alternatives) (href : a.isLeafref = true)
    (htarget : ctx.index.chainTarget? ctx.tree leaf (a.path.getD "") = some target)
    (htype : (ctx.tree.node target).type = some type) : Sound ctx target type.alternatives :=
  fun holder members hpresents => h holder members (.along ha href htarget htype hpresents)

/-- Nothing is told of alternatives among which nothing is missing, if nothing is told at the ends of their leafrefs. -/
theorem Gathers.problems_eq_nil_of_follow (h : Gathers ctx owner n leaf alternatives out)
    (hplain : ∀ a ∈ alternatives, a.isUnion = false) (hsound : Sound ctx leaf alternatives)
    (hfollow : ∀ {target type o}, mapType ctx owner n target type = some o → Sound ctx target type.alternatives →
      o.problems = []) : out.problems = [] := by
  obtain ⟨hne, hnone⟩ := hsound leaf alternatives .here
  refine h.clean hne fun a ha o ho => ?_
  cases mapAlternative_eq_iff.mp ho with
  | followed href htarget htype hout => exact hfollow hout (hsound.along ha href htarget htype)
  | named | builtIn => rfl
  | union hunion =>
    rw [hplain a ha] at hunion
    cases hunion
  | fails hfails => exact absurd hfails (hnone a ha _)

theorem problems_eq_nil_of_mapType (h : mapType ctx owner n leaf type = some out)
    (hsound : Sound ctx leaf type.alternatives) : out.problems = [] := by
  induction n generalizing leaf type out with
  | zero => cases h
  | succ n ih =>
    exact (gathers_of_mapType h).problems_eq_nil_of_follow (fun _ => TypeDescriptor.isUnion_of_mem_alternatives) hsound ih

theorem Gathers.problems_eq_nil (h : Gathers ctx owner n leaf alternatives out)
    (hplain : ∀ a ∈ alternatives, a.isUnion = false) (hsound : Sound ctx leaf alternatives) : out.problems = [] :=
  h.problems_eq_nil_of_follow hplain hsound problems_eq_nil_of_mapType

/-! ### Results -/

/-- What can be asked for a leaf: its type, or a descriptor flattened as a union. -/
inductive Question
  | leafType
  | flattened (type : TypeDescriptor)

/-- The alternatives that a question is about, and its answer. -/
inductive Asked (ctx : TypeContext) (owner : String) (leaf : NodeId) :
    Question → List TypeDescriptor → Option (Except Diagnostics MappedType) → Prop
  | leafType {type : TypeDescriptor} : (ctx.tree.node leaf).type = some type →
      Asked ctx owner leaf .leafType type.alternatives (ctx.leafType leaf owner)
  | flattenUnion {type : TypeDescriptor} :
      Asked ctx owner leaf (.flattened type) type.memberAlternatives (ctx.flattenUnion owner leaf type)

variable {question : Question} {result : Option (Except Diagnostics MappedType)}

theorem Asked.isUnion_of_mem (h : Asked ctx owner leaf question alternatives result) (ha : a ∈ alternatives) :
    a.isUnion = false := by
  cases h with
  | leafType => exact TypeDescriptor.isUnion_of_mem_alternatives ha
  | flattenUnion => exact TypeDescriptor.isUnion_of_mem_alternativesOf ha

theorem Asked.results (h : Asked ctx owner leaf question alternatives result) (hok : result = some (.ok m)) :
    Results ctx owner leaf alternatives m := by
  cases h with
  | leafType htype => exact .leafType htype hok
  | flattenUnion => exact .flattenUnion hok

/-- An answer with a type is not given for want of alternatives, unless what is flattened is no union and has none. -/
theorem Asked.ne_nil (h : Asked ctx owner leaf question alternatives result)
    (hflattened : ∀ type, question = .flattened type → type.isUnion = true ∨ type.memberAlternatives ≠ [])
    (hok : result = some (.ok m)) : alternatives ≠ [] := by
  cases h with
  | leafType htype =>
    obtain ⟨type, htype', hmaps⟩ := leafType_eq_ok hok
    obtain rfl := Option.some.inj (htype.symm.trans htype')
    exact hmaps.alternatives_ne_nil
  | flattenUnion =>
    rcases hflattened _ rfl with hunion | hsome
    · exact ((flattenUnion_eq_ok_iff hunion).mp hok).1
    · exact hsome

/-- Where no union leads back to itself, an answer is all that is told of the alternatives, or a type. -/
theorem Asked.exists_gathers (hacyclic : Acyclic ctx.tree ctx.index)
    (h : Asked ctx owner leaf question alternatives result) : ∃ n out, Gathers ctx owner n leaf alternatives out ∧
      (Diagnostics.hasErrors ⟨out.problems⟩ = true → result = some (.error (Diagnostics.sort ⟨out.problems⟩))) ∧
        (Diagnostics.hasErrors ⟨out.problems⟩ = false → ∃ m, result = some (.ok m)) := by
  cases h with
  | @leafType type htype =>
    obtain ⟨out, hout⟩ := exists_mapType owner hacyclic htype
    refine ⟨ctx.tree.size + 1, out, gathers_of_mapType hout, fun herr => ?_, fun hclean => ?_⟩
    · rw [TypeContext.leafType, htype]
      dsimp only
      rw [resolve, hout, Option.map_some, Diagnostics.settle_eq_error_iff.mpr ⟨herr, rfl⟩]
      rfl
    · exact exists_leafType_iff.mpr ⟨type, out.mapped, htype, maps_of_mapType hout hclean⟩
  | @flattenUnion type =>
    obtain ⟨⟨ms, problems⟩, hmembers⟩ := exists_mapMembers owner hacyclic leaf type
    obtain ⟨out, hout⟩ : ∃ out, mapUnion ctx owner (mapType ctx owner ctx.bound) leaf type = some out :=
      ⟨_, by rw [mapUnion, hmembers]; rfl⟩
    refine ⟨ctx.bound, out, gathers_of_mapUnion hout, fun herr => ?_, fun hclean => ?_⟩
    · rw [TypeContext.flattenUnion, hout, Option.map_some, Diagnostics.settle_eq_error_iff.mpr ⟨herr, rfl⟩]
    · exact ⟨out.mapped, flattenUnion_eq_ok.mpr ⟨out, hout, hclean, rfl⟩⟩

theorem Results.native_ne (h : Results ctx owner leaf alternatives m) (hne : alternatives ≠ []) {u : MappedType}
    (hu : u.Within m) : u.native ≠ "" := by
  obtain ⟨each, hall, hbare⟩ := h.exists_unionOf
  have hbareNative : m.bare.native ≠ "" := by
    rw [hbare]
    exact MappedType.native_unionOf_ne _ hne fun a ha => (hall a ha).native_ne
  exact MappedType.native_ne_of_within (fun u hu => h.tabled hu) hbareNative hu

/-- Where the alternatives of a leaf are mapped, so are those that they present. -/
theorem exists_maps_of_presents (hpresents : Presents ctx.tree ctx.index leaf alternatives holder members)
    (hne : alternatives ≠ []) (hall : ∀ a ∈ alternatives, ∃ v, Maps ctx owner leaf a v) :
    members ≠ [] ∧ ∀ a ∈ members, ∃ v, Maps ctx owner holder a v := by
  induction hpresents with
  | here => exact ⟨hne, hall⟩
  | along ha href htarget htype _ ih =>
    obtain ⟨v, hmaps⟩ := hall _ ha
    have htargetMaps := hmaps.of_leafref href htarget htype
    obtain ⟨each, heach, -⟩ := htargetMaps.eq_unionOf_alternatives
    exact ih htargetMaps.alternatives_ne_nil fun b hb => ⟨each b, heach b hb⟩

/-- What cannot be mapped never escapes, if only unions and what has alternatives is flattened. If a type comes out, it has
    a native type, and so has all that occurs in it; and all alternatives that are presented, along leafrefs as well,
    resolve. If one of them fails, no type comes out, whatever the others map to, and what is told of it is among the
    problems. So a type comes out exactly if nothing is missing. -/
theorem no_failure_escapes (hacyclic : Acyclic ctx.tree ctx.index)
    (h : Asked ctx owner leaf question alternatives result)
    (hflattened : ∀ type, question = .flattened type → type.isUnion = true ∨ type.memberAlternatives ≠ []) :
    (∀ m, result = some (.ok m) → (∀ u : MappedType, u.Within m → u.native ≠ "") ∧
      ∀ holder members, Presents ctx.tree ctx.index leaf alternatives holder members →
        ∀ a ∈ members, ∃ v, ctx.resolve owner holder a = some (.ok v)) ∧
    (∀ holder members, Presents ctx.tree ctx.index leaf alternatives holder members →
      ∀ a ∈ members, ∀ d, Fails ctx holder a d → ∃ problems, result = some (.error problems) ∧ d ∈ problems.items) ∧
    ((∃ m, result = some (.ok m)) ↔ Sound ctx leaf alternatives) := by
  have hmaps : ∀ m, result = some (.ok m) → ∀ holder members,
      Presents ctx.tree ctx.index leaf alternatives holder members →
        members ≠ [] ∧ ∀ a ∈ members, ∃ v, Maps ctx owner holder a v := fun m hok holder members hpresents => by
    obtain ⟨each, hall, -⟩ := (h.results hok).exists_unionOf
    exact exists_maps_of_presents hpresents (h.ne_nil hflattened hok) fun a ha => ⟨each a, hall a ha⟩
  obtain ⟨n, out, hgathers, herror, hsome⟩ := h.exists_gathers hacyclic
  have htold : ∀ holder members, Presents ctx.tree ctx.index leaf alternatives holder members →
      ∀ a ∈ members, ∀ d, Fails ctx holder a d →
        ∃ problems, result = some (.error problems) ∧ d ∈ problems.items := by
    intro holder members hpresents a ha d hfails
    have hd := hgathers.mem_problems hpresents ha hfails
    exact ⟨_, herror (Diagnostics.hasErrors_iff.mpr ⟨d, hd, hfails.isError⟩), Diagnostics.mem_sort.mpr hd⟩
  refine ⟨fun m hok => ⟨fun u hu => (h.results hok).native_ne (h.ne_nil hflattened hok) hu, ?_⟩, htold, ?_, ?_⟩
  · intro holder members hpresents a ha
    obtain ⟨v, hv⟩ := (hmaps m hok holder members hpresents).2 a ha
    exact ⟨v, resolve_eq_ok_iff.mpr hv⟩
  · rintro ⟨m, hok⟩ holder members hpresents
    refine ⟨(hmaps m hok holder members hpresents).1, fun a ha d hfails => ?_⟩
    obtain ⟨problems, herr, -⟩ := htold holder members hpresents a ha d hfails
    rw [hok] at herr
    cases herr
  · intro hsound
    refine hsome ?_
    rw [hgathers.problems_eq_nil (fun a ha => h.isUnion_of_mem ha) hsound]
    rfl

/-- A union of a string and a leafref to a union, which has a leafref that leads nowhere. -/
def lostMember : Library :=
  let leafref (path : String) : TypeDescriptor := { TypeDescriptor.ofKind .leafref with path := some path }
  let union (members : List TypeDescriptor) : TypeDescriptor := { TypeDescriptor.ofKind .union with members }
  let leaf (name : String) (type : TypeDescriptor) : NodeDocument :=
    ⟨name, .leaf, [], some type, none, none, none, none⟩
  .ofList [("m", ⟨⟨"m", "urn:m", none, [], [⟨"c", .container,
    [leaf "u" (union [.ofKind .int8, leafref "../lost"]), leaf "v" (union [.ofKind .string, leafref "../u"])],
    none, none, none, none, none⟩]⟩, "m.json", false⟩)]

theorem lostMember_told : ∃ t type, lostMember.tree = .ok t ∧ Acyclic t (LeafIndex.ofTree t) ∧
    Asked ⟨t, LeafIndex.ofTree t, ∅⟩ "M_C" 3 .leafType (TypeDescriptor.alternatives type)
      (leafType ⟨t, LeafIndex.ofTree t, ∅⟩ 3 "M_C") ∧
      ∃ problems, leafType ⟨t, LeafIndex.ofTree t, ∅⟩ 3 "M_C" = some (.error problems) ∧
        .lostLeafref "/m/c/u" "../lost" ∈ problems.items := by
  have hrun : (lostMember.tree.toOption.any fun t => leadsDown t (LeafIndex.ofTree t) [0, 0, 0, 1] &&
      (t.pathString 2 == "/m/c/u" && (t.node 3).type.any fun type => (t.node 2).type.any fun targetType =>
        (type.alternatives.any fun a => a.isLeafref &&
          (LeafIndex.ofTree t).chainTarget? t 3 (a.path.getD "") == some 2) &&
            targetType.alternatives.any fun a => a.isLeafref && (a.path.getD "" == "../lost" &&
              (LeafIndex.ofTree t).chainTarget? t 2 (a.path.getD "") == none))) = true := by
    decide +kernel
  obtain ⟨t, ht, hfacts⟩ := (Option.any_eq_true ..).mp hrun
  obtain ⟨hdown, hfacts⟩ := Bool.and_eq_true_iff.mp hfacts
  obtain ⟨hpath, hfacts⟩ := Bool.and_eq_true_iff.mp hfacts
  obtain ⟨type, htype, hfacts⟩ := (Option.any_eq_true ..).mp hfacts
  obtain ⟨targetType, htargetType, hfacts⟩ := (Option.any_eq_true ..).mp hfacts
  obtain ⟨hleads, hlost⟩ := Bool.and_eq_true_iff.mp hfacts
  obtain ⟨a, ha, hleads⟩ := List.any_eq_true.mp hleads
  obtain ⟨href, htarget⟩ := Bool.and_eq_true_iff.mp hleads
  obtain ⟨b, hb, hlost⟩ := List.any_eq_true.mp hlost
  obtain ⟨href', hlost⟩ := Bool.and_eq_true_iff.mp hlost
  obtain ⟨hpath', hnone⟩ := Bool.and_eq_true_iff.mp hlost
  have hacyclic : Acyclic t (LeafIndex.ofTree t) := .of_leadsDown hdown
  have hasked : Asked ⟨t, LeafIndex.ofTree t, ∅⟩ "M_C" 3 .leafType type.alternatives _ := .leafType htype
  have hfails : Fails ⟨t, LeafIndex.ofTree t, ∅⟩ 2 b (.lostLeafref (t.pathString 2) (b.path.getD "")) :=
    .leafref href' fun target htarget => by
      rw [beq_iff_eq.mp hnone] at htarget
      cases htarget
  rw [beq_iff_eq.mp hpath, beq_iff_eq.mp hpath'] at hfails
  refine ⟨t, type, ok_of_toOption ht, hacyclic, hasked, ?_⟩
  exact (no_failure_escapes hacyclic hasked nofun).2.1 2 _
    (.along ha href (beq_iff_eq.mp htarget) htargetType .here) b hb _ hfails

/-- What is no union and has no alternatives is flattened to a type without a native type. -/
theorem flattenUnion_of_no_members (ctx : TypeContext) (owner : String) (leaf : NodeId) (hplain : type.isUnion = false)
    (hnone : type.memberAlternatives = []) : ctx.flattenUnion owner leaf type = some (.ok .unresolved) := by
  have hempty : type.hasEmptyUnion = false := by
    cases type
    rw [TypeDescriptor.hasEmptyUnion]
    exact Bool.and_eq_false_imp.mpr fun hunion => absurd hunion (Bool.eq_false_iff.mp hplain)
  rw [flattenUnion, mapUnion, mapMembers_eq, hnone, List.foldlM_nil]
  simp only [hempty, Bool.and_false]
  rfl

/-- The type of a leaf that is a string is flattened to nothing, and nothing is told of it. -/
theorem flattened_text_escapes : ∃ t type m, nestedUnions.tree = .ok t ∧ Acyclic t (LeafIndex.ofTree t) ∧
    (t.node 2).type = some type ∧ flattenUnion ⟨t, LeafIndex.ofTree t, ∅⟩ "M_Top" 2 type = some (.ok m) ∧
      m.native = "" := by
  have hrun : (nestedUnions.tree.toOption.any fun t => leadsDown t (LeafIndex.ofTree t) [0, 0, 0, 1] &&
      (t.node 2).type.any fun type => !type.isUnion && type.members.isEmpty) = true := by
    decide +kernel
  obtain ⟨t, ht, hfacts⟩ := (Option.any_eq_true ..).mp hrun
  obtain ⟨hdown, htext⟩ := Bool.and_eq_true_iff.mp hfacts
  obtain ⟨type, htype, hplain⟩ := (Option.any_eq_true ..).mp htext
  simp only [Bool.and_eq_true, Bool.not_eq_true', List.isEmpty_iff] at hplain
  obtain ⟨hplain, hnone⟩ := hplain
  refine ⟨t, type, _, ok_of_toOption ht, .of_leadsDown hdown, htype, flattenUnion_of_no_members _ _ _ hplain ?_, rfl⟩
  rw [TypeDescriptor.memberAlternatives, hnone, TypeDescriptor.alternativesOf]

end TypeContext

end SchemaIr
