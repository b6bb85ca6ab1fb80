import Mathlib.Data.List.Perm.Subperm
import Mathlib.Logic.Relation
import SchemaIr.MappedType.Resolve
import SchemaIr.Proofs.Diagnostic.Settle
import SchemaIr.Proofs.Leafref.Chain

/-! # Which enumerations the mapping of a type meets

The mapping of a leaf's type goes through its alternatives, each of which is mapped by itself, fails, or is a leafref
(`MapsAlternative`); and along every leafref it goes on to the leaf at the end of the chain (`LeadsTo`). On its way it
meets enumerations (`Meets`). It ends if no union leads back to itself, since it then follows no more leafrefs than there
are nodes (`exists_mapType`); and it misses the name of an enumeration exactly if it meets one without a name
(`leafType_misses_iff`). -/

namespace SchemaIr

namespace TypeDescriptor

theorem alternatives_of_isUnion {type : TypeDescriptor} (h : type.isUnion = true) :
    type.alternatives = type.memberAlternatives := by
  obtain ⟨kind, _, _, _, _, _, _⟩ := type
  have hkind : kind = .union := by simpa [isUnion] using h
  simp [alternatives, memberAlternatives, hkind]

theorem alternatives_of_not_isUnion {type : TypeDescriptor} (h : type.isUnion = false) :
    type.alternatives = [type] := by
  obtain ⟨kind, _, _, _, _, _, _⟩ := type
  have hkind : kind ≠ .union := by simpa [isUnion] using h
  simp [alternatives, hkind]

theorem eq_of_mem_alternatives_leafref {type a : TypeDescriptor} (h : type.isLeafref = true)
    (ha : a ∈ type.alternatives) : a = type := by
  have hkind : type.kind = .leafref := by simpa [isLeafref] using h
  have hunion : type.isUnion = false := by simp [isUnion, hkind]
  rwa [alternatives_of_not_isUnion hunion, List.mem_singleton] at ha

theorem isLeafref_of_isEnumerated {type : TypeDescriptor} (h : type.isEnumerated = true) :
    type.isLeafref = false := by
  unfold isEnumerated at h
  unfold isLeafref
  cases hk : type.kind <;> simp_all

end TypeDescriptor

open Relation

/-- A way that is longer than there are elements comes to one of them twice. -/
theorem exists_transGen_self_of_pairwise {R : Nat → Nat → Prop} {path : List Nat} (h : path.Pairwise (TransGen R))
    {bound : Nat} (hbound : ∀ x ∈ path, x < bound) (hlength : bound < path.length) : ∃ x ∈ path, TransGen R x x := by
  by_contra hnone
  have hnodup : path.Nodup := h.imp_of_mem fun {x y} hx _ hxy heq => hnone ⟨x, hx, by rwa [← heq] at hxy⟩
  have hsubset : path ⊆ List.range bound := fun x hx => List.mem_range.mpr (hbound x hx)
  have hle := (hnodup.subperm hsubset).length_le
  rw [List.length_range] at hle
  omega

namespace TypeContext

/-! ### Leafrefs and enumerations -/

/-- The type of a leaf has a leafref that leads to a node with a type, whose type is mapped in its place. -/
def LeadsTo (t : SchemaTree) (index : LeafIndex) (leaf target : NodeId) : Prop :=
  ∃ type a targetType, (t.node leaf).type = some type ∧ a ∈ type.alternatives ∧ a.isLeafref = true ∧
    index.chainTarget? t leaf (a.path.getD "") = some target ∧ (t.node target).type = some targetType

/-- No union leads back to itself. -/
def Acyclic (t : SchemaTree) (index : LeafIndex) : Prop :=
  ∀ leaf type, (t.node leaf).type = some type → type.isUnion = true → ¬TransGen (LeadsTo t index) leaf leaf

/-- The mapping of a type as that of a leaf meets an enumeration, as an alternative of the type of a leaf. -/
inductive Meets (t : SchemaTree) (index : LeafIndex) : NodeId → TypeDescriptor → NodeId → TypeDescriptor → Prop
  | here {leaf : NodeId} {type m : TypeDescriptor} : m ∈ type.alternatives → m.isEnumerated = true →
      Meets t index leaf type leaf m
  | follow {leaf target holder : NodeId} {type a targetType m : TypeDescriptor} : a ∈ type.alternatives →
      a.isLeafref = true → index.chainTarget? t leaf (a.path.getD "") = some target →
      (t.node target).type = some targetType → Meets t index target targetType holder m →
      Meets t index leaf type holder m

theorem Meets.isEnumerated {t : SchemaTree} {index : LeafIndex} {leaf holder : NodeId} {type m : TypeDescriptor}
    (h : Meets t index leaf type holder m) : m.isEnumerated = true := by
  induction h with
  | here _ henum => exact henum
  | follow _ _ _ _ _ ih => exact ih

/-- The mapping of a leaf's type meets an enumeration that has no name. -/
def Misses (ctx : TypeContext) (leaf : NodeId) : Prop :=
  ∃ type holder m, (ctx.tree.node leaf).type = some type ∧ Meets ctx.tree ctx.index leaf type holder m ∧
    ctx.enums.nameFor? ctx.tree holder m = none

/-! ### Single alternatives -/

variable {ctx : TypeContext} {owner : String} {follow : NodeId → TypeDescriptor → Option Outcome} {leaf : NodeId}

section Alternatives
variable {type a : TypeDescriptor} {result : Option Outcome}

theorem ofKind?_of_isEnumerated (h : type.isEnumerated = true) : MappedType.ofKind? type.kind = none := by
  unfold TypeDescriptor.isEnumerated at h
  cases hk : type.kind <;> simp_all [MappedType.ofKind?]

theorem ofKind?_of_isLeafref (h : type.isLeafref = true) : MappedType.ofKind? type.kind = none := by
  have hk : type.kind = .leafref := by simpa [TypeDescriptor.isLeafref] using h
  rw [hk]
  rfl

theorem kind_of_isUnion (h : type.isUnion = true) : type.kind = .union := by
  simpa [TypeDescriptor.isUnion] using h

theorem ofKind?_of_isUnion (h : type.isUnion = true) : MappedType.ofKind? type.kind = none := by
  rw [kind_of_isUnion h]
  rfl

theorem isEnumerated_of_isUnion (h : type.isUnion = true) : type.isEnumerated = false := by
  rw [TypeDescriptor.isEnumerated, kind_of_isUnion h]
  rfl

theorem isLeafref_of_isUnion (h : type.isUnion = true) : type.isLeafref = false := by
  rw [TypeDescriptor.isLeafref, kind_of_isUnion h]
  rfl

/-- What maps to the same type everywhere is neither a leafref nor enumerated nor a union. -/
theorem plain_of_ofKind? {m : MappedType} (h : MappedType.ofKind? type.kind = some m) :
    type.isLeafref = false ∧ type.isEnumerated = false ∧ type.isUnion = false := by
  unfold TypeDescriptor.isLeafref TypeDescriptor.isEnumerated TypeDescriptor.isUnion
  cases hkind : type.kind <;> rw [hkind] at h <;> first | cases h; done | exact ⟨rfl, rfl, rfl⟩

/-- An alternative of a leaf cannot be mapped, and this is what is told of it. -/
inductive Fails (ctx : TypeContext) (leaf : NodeId) (a : TypeDescriptor) : Diagnostic → Prop
  /-- A leafref that leads to no node with a type. -/
  | leafref : a.isLeafref = true → (∀ target, ctx.index.chainTarget? ctx.tree leaf (a.path.getD "") = some target →
      (ctx.tree.node target).type = none) → Fails ctx leaf a (.lostLeafref (ctx.tree.pathString leaf) (a.path.getD ""))
  /-- An enumeration for which none has been generated. -/
  | enumeration : a.isEnumerated = true → ctx.enums.nameFor? ctx.tree leaf a = none →
      Fails ctx leaf a (.noEnumeration (ctx.tree.pathString leaf) a.kind.name)
  | kind : a.kind = .unknown → Fails ctx leaf a (.unsupported (ctx.tree.pathString leaf) a.kind.name)

theorem Fails.isError {d : Diagnostic} (h : Fails ctx leaf a d) : d.isError = true := by
  cases h <;> rfl

/-- The ways in which one alternative is mapped. -/
inductive MapsAlternative (ctx : TypeContext) (follow : NodeId → TypeDescriptor → Option Outcome) (leaf : NodeId)
    (a : TypeDescriptor) : Option Outcome → Prop
  /-- A leafref is mapped as the type of the leaf at the end of its chain. -/
  | followed {target : NodeId} {type : TypeDescriptor} {result : Option Outcome} : a.isLeafref = true →
      ctx.index.chainTarget? ctx.tree leaf (a.path.getD "") = some target → (ctx.tree.node target).type = some type →
      follow target type = result → MapsAlternative ctx follow leaf a result
  | named {name : String} : a.isEnumerated = true → ctx.enums.nameFor? ctx.tree leaf a = some name →
      MapsAlternative ctx follow leaf a (some ⟨.enumerated name, []⟩)
  | builtIn {m : MappedType} : MappedType.ofKind? a.kind = some m → MapsAlternative ctx follow leaf a (some ⟨m, []⟩)
  | fails {d : Diagnostic} : Fails ctx leaf a d → MapsAlternative ctx follow leaf a (some (failed d))
  /-- A union is no alternative. -/
  | union : a.isUnion = true →
      MapsAlternative ctx follow leaf a (some (failed (.unsupported (ctx.tree.pathString leaf) a.kind.name)))

theorem mapsAlternative (ctx : TypeContext) (follow : NodeId → TypeDescriptor → Option Outcome) (leaf : NodeId)
    (a : TypeDescriptor) : MapsAlternative ctx follow leaf a (mapAlternative ctx follow leaf a) := by
  unfold mapAlternative
  dsimp only
  split
  · rename_i href
    cases htarget : ctx.index.chainTarget? ctx.tree leaf (a.path.getD "") with
    | none =>
      refine .fails (.leafref href fun target hsome => ?_)
      rw [htarget] at hsome
      cases hsome
    | some target =>
      cases htype : (ctx.tree.node target).type with
      | none =>
        simp only [bind, Option.bind_some, htype, Option.bind_none]
        refine .fails (.leafref href fun other hsome => ?_)
        rw [htarget] at hsome
        cases hsome
        exact htype
      | some type =>
        simp only [bind, pure, Option.bind_some, htype]
        exact .followed href htarget htype rfl
  · rename_i href
    split
    · rename_i henum
      split
      · rename_i name hname
        exact .named henum hname
      · rename_i hname
        exact .fails (.enumeration henum hname)
    · rename_i henum
      split
      · rename_i m hm
        exact .builtIn hm
      · rename_i hnone
        cases hkind : a.kind <;>
          simp [TypeDescriptor.isLeafref, TypeDescriptor.isEnumerated, MappedType.ofKind?, hkind] at href henum hnone
        · exact hkind ▸ .union (by simp [TypeDescriptor.isUnion, hkind])
        · exact hkind ▸ .fails (.kind hkind)

/-- No alternative is mapped in two ways. -/
theorem MapsAlternative.eq (h : MapsAlternative ctx follow leaf a result) :
    mapAlternative ctx follow leaf a = result := by
  unfold mapAlternative
  cases h with
  | followed href htarget htype hfollow => simp [href, htarget, htype, hfollow]
  | named henum hname => simp [TypeDescriptor.isLeafref_of_isEnumerated henum, henum, hname]
  | builtIn hm =>
    obtain ⟨href, henum, -⟩ := plain_of_ofKind? hm
    simp [href, henum, hm]
  | union hunion => simp [isLeafref_of_isUnion hunion, isEnumerated_of_isUnion hunion, ofKind?_of_isUnion hunion]
  | fails hfails =>
    cases hfails with
    | leafref href hlost =>
      cases htarget : ctx.index.chainTarget? ctx.tree leaf (a.path.getD "") with
      | none => simp [href, htarget]
      | some target => simp [href, htarget, hlost target htarget]
    | enumeration henum hname => simp [TypeDescriptor.isLeafref_of_isEnumerated henum, henum, hname]
    | kind hkind => simp [TypeDescriptor.isLeafref, TypeDescriptor.isEnumerated, MappedType.ofKind?, hkind]

theorem mapAlternative_eq_iff :
    mapAlternative ctx follow leaf a = result ↔ MapsAlternative ctx follow leaf a result :=
  ⟨fun h => h ▸ mapsAlternative ctx follow leaf a, MapsAlternative.eq⟩

theorem mapAlternative_of_leafref {target : NodeId} (href : a.isLeafref = true)
    (htarget : ctx.index.chainTarget? ctx.tree leaf (a.path.getD "") = some target)
    (htype : (ctx.tree.node target).type = some type) : mapAlternative ctx follow leaf a = follow target type :=
  mapAlternative_eq_iff.mpr (.followed href htarget htype rfl)

end Alternatives

/-! ### One step of the mapping -/

mutual

/-- The members of nested unions are taken in their places, … -/
theorem collectMember_eq : ∀ (type : TypeDescriptor) (st : MappedType.Members × List Diagnostic),
    collectMember ctx follow leaf st type = type.alternatives.foldlM (addMember ctx follow leaf) st
  | ⟨kind, typedef, members, path, values, identity, default⟩, st => by
    rw [collectMember, TypeDescriptor.alternatives]
    split
    · exact collectMembers_eq members st
    · rw [List.foldlM_cons]
      exact (bind_pure _).symm

/-- … so that the alternatives of all members are taken one after the other. -/
theorem collectMembers_eq : ∀ (types : List TypeDescriptor) (st : MappedType.Members × List Diagnostic),
    collectMembers ctx follow leaf st types =
      (TypeDescriptor.alternativesOf types).foldlM (addMember ctx follow leaf) st
  | [], _ => rfl
  | type :: types, st => by
    rw [collectMembers, TypeDescriptor.alternativesOf, List.foldlM_append, collectMember_eq type st]
    exact congrArg _ (funext fun st => collectMembers_eq types st)

end

theorem mapMembers_eq (type : TypeDescriptor) : mapMembers ctx follow leaf type.members =
    type.memberAlternatives.foldlM (addMember ctx follow leaf) (⟨[], ∅⟩, []) :=
  collectMembers_eq type.members (⟨[], ∅⟩, [])

theorem foldlM_addMember (alternatives : List TypeDescriptor) (st : MappedType.Members × List Diagnostic) :
    (alternatives.foldlM (addMember ctx follow leaf) st = none →
        ∃ a ∈ alternatives, mapAlternative ctx follow leaf a = none) ∧
      ∀ r, alternatives.foldlM (addMember ctx follow leaf) st = some r →
        (∀ a ∈ alternatives, ∃ out, mapAlternative ctx follow leaf a = some out) ∧
          ∀ d, d ∈ r.2 ↔ d ∈ st.2 ∨ ∃ a ∈ alternatives, ∃ out, mapAlternative ctx follow leaf a = some out ∧
            d ∈ out.problems := by
  induction alternatives generalizing st with
  | nil =>
    refine ⟨fun h => (nomatch h), fun r hr => ?_⟩
    cases hr
    simp
  | cons a rest ih =>
    rw [List.foldlM_cons]
    cases ha : mapAlternative ctx follow leaf a with
    | none =>
      simp only [addMember, ha, Option.map_none, bind, Option.bind_none]
      exact ⟨fun _ => ⟨a, List.mem_cons_self, ha⟩, fun r hr => by cases hr⟩
    | some out =>
      obtain ⟨hnone, hsome⟩ := ih (st.1.add out.mapped, st.2 ++ out.problems)
      simp only [addMember, ha, Option.map_some, bind, Option.bind_some] at hnone hsome ⊢
      refine ⟨fun h => ?_, fun r hr => ?_⟩
      · obtain ⟨b, hb, hbnone⟩ := hnone h
        exact ⟨b, List.mem_cons_of_mem _ hb, hbnone⟩
      · obtain ⟨hall, hproblems⟩ := hsome r hr
        refine ⟨fun b hb => ?_, fun d => (hproblems d).trans ?_⟩
        · rcases List.mem_cons.mp hb with rfl | hb
          · exact ⟨out, ha⟩
          · exact hall b hb
        · simp only [List.mem_append, List.mem_cons, exists_eq_or_imp, ha, Option.some.injEq,
            exists_eq_left', or_assoc]

theorem mapMembers_spec (ctx : TypeContext) (follow : NodeId → TypeDescriptor → Option Outcome) (leaf : NodeId)
    (type : TypeDescriptor) :
    (mapMembers ctx follow leaf type.members = none →
        ∃ a ∈ type.memberAlternatives, mapAlternative ctx follow leaf a = none) ∧
      ∀ result, mapMembers ctx follow leaf type.members = some result →
        (∀ a ∈ type.memberAlternatives, ∃ out, mapAlternative ctx follow leaf a = some out) ∧
          ∀ d, d ∈ result.2 ↔ ∃ a ∈ type.memberAlternatives, ∃ out, mapAlternative ctx follow leaf a = some out ∧
            d ∈ out.problems := by
  rw [mapMembers_eq]
  simpa using foldlM_addMember type.memberAlternatives (⟨[], ∅⟩, [])

theorem mapType_succ (n : Nat) (leaf : NodeId) (type : TypeDescriptor) :
    (mapType ctx owner (n + 1) leaf type = none →
        ∃ a ∈ type.alternatives, mapAlternative ctx (mapType ctx owner n) leaf a = none) ∧
      ∀ out, mapType ctx owner (n + 1) leaf type = some out →
        (∀ a ∈ type.alternatives, ∃ o, mapAlternative ctx (mapType ctx owner n) leaf a = some o) ∧
          ((∃ d ∈ out.problems, d.code = .enumWithoutContext) ↔
            ∃ a ∈ type.alternatives, ∃ o, mapAlternative ctx (mapType ctx owner n) leaf a = some o ∧
              ∃ d ∈ o.problems, d.code = .enumWithoutContext) := by
  cases hunion : type.isUnion with
  | false =>
    rw [mapType, hunion, TypeDescriptor.alternatives_of_not_isUnion hunion]
    simp only [Bool.false_eq_true, ↓reduceIte, List.mem_singleton, exists_eq_left, forall_eq]
    refine ⟨id, fun out hout => ⟨⟨out, hout⟩, ?_⟩⟩
    simp only [hout, Option.some.injEq, exists_eq_left']
  | true =>
    rw [mapType, hunion, TypeDescriptor.alternatives_of_isUnion hunion]
    obtain ⟨hnone, hsome⟩ := mapMembers_spec ctx (mapType ctx owner n) leaf type
    simp only [↓reduceIte, mapUnion, bind, pure]
    cases hmembers : mapMembers ctx (mapType ctx owner n) leaf type.members with
    | none => exact ⟨fun _ => hnone hmembers, fun out hout => by cases hout⟩
    | some result =>
      obtain ⟨hall, hproblems⟩ := hsome result hmembers
      refine ⟨fun h => (nomatch h), fun out hout => ⟨hall, ?_⟩⟩
      cases hout
      constructor
      · rintro ⟨d, hd, hcode⟩
        rcases List.mem_append.mp hd with hd | hd
        · obtain ⟨a, ha, o, ho, hdo⟩ := (hproblems d).mp hd
          exact ⟨a, ha, o, ho, d, hdo, hcode⟩
        · -- An empty union is told by a code of its own.
          split at hd
          · rw [List.mem_singleton.mp hd] at hcode
            cases hcode
          · cases hd
      · rintro ⟨a, ha, o, ho, d, hd, hcode⟩
        exact ⟨d, List.mem_append_left _ ((hproblems d).mpr ⟨a, ha, o, ho, hd⟩), hcode⟩

/-! ### The whole mapping -/

/-- What is told of an alternative: it is an enumeration without name, or the type that a leafref leads to tells
    it. -/
theorem mapAlternative_misses_iff {a : TypeDescriptor} {out : Outcome}
    (h : mapAlternative ctx follow leaf a = some out) :
    (∃ d ∈ out.problems, d.code = .enumWithoutContext) ↔
      (a.isEnumerated = true ∧ ctx.enums.nameFor? ctx.tree leaf a = none) ∨
        ∃ target targetType, a.isLeafref = true ∧ ctx.index.chainTarget? ctx.tree leaf (a.path.getD "") = some target ∧
          (ctx.tree.node target).type = some targetType ∧ follow target targetType = some out ∧
            ∃ d ∈ out.problems, d.code = .enumWithoutContext := by
  -- Only two of the ways can tell of a missing name, and they exclude one another.
  cases mapAlternative_eq_iff.mp h with
  | followed href htarget htype hfollow =>
    refine ⟨fun hmiss => .inr ⟨_, _, href, htarget, htype, hfollow, hmiss⟩, ?_⟩
    rintro (⟨henum, -⟩ | ⟨_, _, -, -, -, -, hmiss⟩)
    · rw [TypeDescriptor.isLeafref_of_isEnumerated henum] at href
      cases href
    · exact hmiss
  | named henum hname => simp [TypeDescriptor.isLeafref_of_isEnumerated henum, hname]
  | builtIn hm =>
    obtain ⟨href, henum, -⟩ := plain_of_ofKind? hm
    simp [href, henum]
  | union hunion =>
    simp [isLeafref_of_isUnion hunion, isEnumerated_of_isUnion hunion, failed, Diagnostic.unsupported]
  | fails hfails =>
    cases hfails with
    | leafref href hlost =>
      have henum : a.isEnumerated = false := Bool.eq_false_iff.mpr fun henum => by
        rw [TypeDescriptor.isLeafref_of_isEnumerated henum] at href
        cases href
      simp only [failed, Diagnostic.lostLeafref, henum]
      refine iff_of_false (by simp) ?_
      rintro (⟨hno, -⟩ | ⟨target, type, -, htarget, htype, -⟩)
      · cases hno
      · rw [hlost target htarget] at htype
        cases htype
    | enumeration henum hname => simp [failed, Diagnostic.noEnumeration, henum, hname]
    | kind hkind => simp [failed, Diagnostic.unsupported, TypeDescriptor.isLeafref, TypeDescriptor.isEnumerated, hkind]

/-- A mapping that ends misses a name exactly if it meets an enumeration without one. -/
theorem mapType_misses_iff {n : Nat} {type : TypeDescriptor} {out : Outcome}
    (h : mapType ctx owner n leaf type = some out) :
    (∃ d ∈ out.problems, d.code = .enumWithoutContext) ↔
      ∃ holder m, Meets ctx.tree ctx.index leaf type holder m ∧ ctx.enums.nameFor? ctx.tree holder m = none := by
  induction n generalizing leaf type out with
  | zero => cases h
  | succ n ih =>
    obtain ⟨hall, hcode⟩ := (mapType_succ n leaf type).2 out h
    rw [hcode]
    constructor
    · rintro ⟨a, ha, o, ho, hmiss⟩
      rcases (mapAlternative_misses_iff ho).mp hmiss with ⟨henum, hname⟩ | ⟨target, type', href, htarget, htype, hf, hd⟩
      · exact ⟨leaf, a, .here ha henum, hname⟩
      · obtain ⟨holder, m, hmeets, hname⟩ := (ih hf).mp hd
        exact ⟨holder, m, .follow ha href htarget htype hmeets, hname⟩
    · rintro ⟨holder, m, hmeets, hname⟩
      cases hmeets with
      | here hm henum =>
        obtain ⟨o, ho⟩ := hall m hm
        exact ⟨m, hm, o, ho, (mapAlternative_misses_iff ho).mpr (.inl ⟨henum, hname⟩)⟩
      | @follow _ target _ _ a targetType _ ha href htarget htype hmeets =>
        obtain ⟨o, ho⟩ := hall a ha
        have hfollow : mapType ctx owner n target targetType = some o :=
          (mapAlternative_of_leafref href htarget htype).symm.trans ho
        exact ⟨a, ha, o, ho, (mapAlternative_misses_iff ho).mpr
          (.inr ⟨target, targetType, href, htarget, htype, hfollow, (ih hfollow).mpr ⟨holder, m, hmeets, hname⟩⟩)⟩

/-! ### The mapping ends -/

theorem lt_size_of_type {t : SchemaTree} {id : NodeId} {type : TypeDescriptor} (h : (t.node id).type = some type) :
    id < t.size := by
  unfold SchemaTree.node at h
  split at h
  · rename_i e he
    exact (Array.getElem?_eq_some_iff.mp he).1
  · cases h

/-- The type of a node is a union. -/
def DeclaresUnion (t : SchemaTree) (leaf : NodeId) : Prop :=
  ∃ type, (t.node leaf).type = some type ∧ type.isUnion = true

/-- At the end of a chain of leafrefs only a union has further leafrefs. -/
theorem declaresUnion_of_leadsTo {t : SchemaTree} {index : LeafIndex} {leaf target next : NodeId}
    (h : LeadsTo t index leaf target) (hnext : LeadsTo t index target next) : DeclaresUnion t target := by
  obtain ⟨_, _, _, -, -, -, htarget, -⟩ := h
  obtain ⟨type, a, _, htype, ha, href, -, -⟩ := hnext
  have hplain : type.isLeafref = false := by
    simpa [Node.isLeafref, htype] using LeafIndex.isLeafref_of_chainTarget? htarget
  refine ⟨type, htype, (Bool.not_eq_false _).mp fun hunion => ?_⟩
  rw [TypeDescriptor.alternatives_of_not_isUnion hunion, List.mem_singleton] at ha
  rw [ha, hplain] at href
  cases href

/-- Without unions that lead back to themselves no node leads back to itself. -/
theorem Acyclic.irrefl {t : SchemaTree} {index : LeafIndex} (h : Acyclic t index) (leaf : NodeId) :
    ¬TransGen (LeadsTo t index) leaf leaf := by
  intro hcycle
  obtain ⟨next, hnext, -⟩ := TransGen.head'_iff.mp hcycle
  obtain ⟨last, -, hlast⟩ := TransGen.tail'_iff.mp hcycle
  obtain ⟨type, htype, hunion⟩ := declaresUnion_of_leadsTo hlast hnext
  exact h leaf type htype hunion hcycle

/-- Where every leafref leads down, none leads back. -/
theorem Acyclic.of_rank {t : SchemaTree} {index : LeafIndex} (rank : NodeId → Nat)
    (h : ∀ leaf target, LeadsTo t index leaf target → rank target < rank leaf) : Acyclic t index := by
  have hdown : ∀ {leaf target}, TransGen (LeadsTo t index) leaf target → rank target < rank leaf := by
    intro leaf target hleads
    induction hleads with
    | single hlast => exact h _ _ hlast
    | tail _ hlast ih => exact Nat.lt_trans (h _ _ hlast) ih
  exact fun leaf _ _ _ hcycle => Nat.lt_irrefl _ (hdown hcycle)

/-- The leafrefs of every leaf lead to nodes of a lower rank, by a list of the ranks. -/
def leadsDown (t : SchemaTree) (index : LeafIndex) (ranks : List Nat) : Bool :=
  (List.range t.size).all fun leaf => (((t.node leaf).type.map (·.alternatives)).getD []).all fun a =>
    !a.isLeafref || (index.chainTarget? t leaf (a.path.getD "")).all fun target => ranks.getD target 0 < ranks.getD leaf 0

theorem Acyclic.of_leadsDown {t : SchemaTree} {index : LeafIndex} {ranks : List Nat}
    (h : leadsDown t index ranks = true) : Acyclic t index := by
  refine Acyclic.of_rank (ranks.getD · 0) ?_
  rintro leaf target ⟨type, a, targetType, htype, ha, href, htarget, -⟩
  have hleaf := List.all_eq_true.mp h leaf (List.mem_range.mpr (lt_size_of_type htype))
  rw [htype, Option.map_some, Option.getD_some] at hleaf
  simpa [href, htarget] using List.all_eq_true.mp hleaf a ha

/-- Only the type that a leafref leads to can keep the mapping of an alternative from ending. -/
theorem exists_target_of_mapAlternative_eq_none {a : TypeDescriptor} (h : mapAlternative ctx follow leaf a = none) :
    ∃ target type, a.isLeafref = true ∧ ctx.index.chainTarget? ctx.tree leaf (a.path.getD "") = some target ∧
      (ctx.tree.node target).type = some type ∧ follow target type = none := by
  cases mapAlternative_eq_iff.mp h with
  | followed href htarget htype hfollow => exact ⟨_, _, href, htarget, htype, hfollow⟩

/-- A mapping that does not end within a number of leafrefs goes along as many nodes. -/
theorem exists_path_of_mapType_eq_none {n : Nat} {type : TypeDescriptor} (htype : (ctx.tree.node leaf).type = some type)
    (h : mapType ctx owner n leaf type = none) :
    ∃ path : List NodeId, path.length = n ∧
      (∀ x ∈ path, TransGen (LeadsTo ctx.tree ctx.index) leaf x ∧ x < ctx.tree.size) ∧
        path.Pairwise (TransGen (LeadsTo ctx.tree ctx.index)) := by
  induction n generalizing leaf type with
  | zero => exact ⟨[], rfl, by simp, .nil⟩
  | succ n ih =>
    obtain ⟨a, ha, hnone⟩ := (mapType_succ n leaf type).1 h
    obtain ⟨target, targetType, href, htarget, htargetType, hfollow⟩ :=
      exists_target_of_mapAlternative_eq_none hnone
    have hleads : LeadsTo ctx.tree ctx.index leaf target :=
      ⟨type, a, targetType, htype, ha, href, htarget, htargetType⟩
    obtain ⟨path, hlength, hpath, hpairwise⟩ := ih htargetType hfollow
    refine ⟨target :: path, by rw [List.length_cons, hlength], fun x hx => ?_, ?_⟩
    · rcases List.mem_cons.mp hx with rfl | hx
      · exact ⟨.single hleads, lt_size_of_type htargetType⟩
      · exact ⟨.head hleads (hpath x hx).1, (hpath x hx).2⟩
    · exact List.pairwise_cons.mpr ⟨fun x hx => (hpath x hx).1, hpairwise⟩

/-- Where no union leads back to itself, every mapping ends. -/
theorem exists_mapType (owner : String) (hacyclic : Acyclic ctx.tree ctx.index) {type : TypeDescriptor}
    (htype : (ctx.tree.node leaf).type = some type) : ∃ out, mapType ctx owner ctx.bound leaf type = some out := by
  refine Option.ne_none_iff_exists'.mp fun hnone => ?_
  obtain ⟨path, hlength, hpath, hpairwise⟩ := exists_path_of_mapType_eq_none htype hnone
  have hlong : ctx.tree.size < path.length := by
    rw [hlength, bound]
    omega
  obtain ⟨x, -, hcycle⟩ := exists_transGen_self_of_pairwise hpairwise (fun x hx => (hpath x hx).2) hlong
  exact hacyclic.irrefl x hcycle

/-- So does every mapping of members as those of a union, whichever leaf they are given to. -/
theorem exists_mapMembers (owner : String) (hacyclic : Acyclic ctx.tree ctx.index) (leaf : NodeId)
    (type : TypeDescriptor) :
    ∃ result, mapMembers ctx (ctx.mapType owner ctx.bound) leaf type.members = some result := by
  refine Option.ne_none_iff_exists'.mp fun hnone => ?_
  obtain ⟨a, -, ha⟩ := (mapMembers_spec ctx (ctx.mapType owner ctx.bound) leaf type).1 hnone
  obtain ⟨target, targetType, -, -, htype, hfollow⟩ := exists_target_of_mapAlternative_eq_none ha
  obtain ⟨out, hout⟩ := exists_mapType owner hacyclic htype
  rw [hfollow] at hout
  cases hout

/-- The type of a leaf tells of an enumeration without name exactly if its mapping meets one. -/
theorem leafType_misses_iff (ctx : TypeContext) (owner : String) (leaf : NodeId)
    (hacyclic : Acyclic ctx.tree ctx.index) :
    (∃ problems, ctx.leafType leaf owner = some (.error problems) ∧ problems.contains .enumWithoutContext = true) ↔
      ctx.Misses leaf := by
  cases htype : (ctx.tree.node leaf).type with
  | none =>
    simp [leafType, Misses, htype, Diagnostic.untyped]
  | some type =>
    obtain ⟨out, hout⟩ := exists_mapType owner hacyclic htype
    have hiff : ctx.Misses leaf ↔ Diagnostics.contains ⟨out.problems⟩ .enumWithoutContext = true := by
      rw [Diagnostics.contains_iff, mapType_misses_iff hout]
      simp [Misses, htype]
    have hsettle : (∃ problems, Diagnostics.settle ⟨out.problems⟩ out.mapped = .error problems ∧
        problems.contains .enumWithoutContext = true) ↔
          Diagnostics.contains ⟨out.problems⟩ .enumWithoutContext = true :=
      Diagnostics.contains_of_settle_iff rfl
    rw [hiff, ← hsettle]
    simp only [leafType, htype, resolve, hout, Option.map_some]
    cases Diagnostics.settle ⟨out.problems⟩ out.mapped <;> simp [Except.map]

end TypeContext

end SchemaIr
