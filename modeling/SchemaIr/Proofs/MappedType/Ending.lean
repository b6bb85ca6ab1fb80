import SchemaIr.Loading.Tree
import SchemaIr.Proofs.MappedType.Meets

/-! # When the mapping of a type ends

The mapping of a leaf's type goes on at the end of every leafref that it meets. What it makes of a type does not depend
on how many leafrefs it may follow, if they are enough (`mapType_mono`). They are never enough where a way along leafrefs
leads into a cycle, and elsewhere the bound of `resolve` is enough, since a way that is longer than the tree comes to some
node twice (`mapType_bound`). Only unions lie on cycles: the end of a chain of leafrefs has a leafref only within a union.
So the mapping ends exactly if no cycle of unions is reached (`ends_iff_no_cycle`). -/

namespace SchemaIr

open Relation

namespace TypeContext

variable {ctx : TypeContext} {owner : String} {follow follow' : NodeId → TypeDescriptor → Option Outcome}
  {leaf target : NodeId} {type a : TypeDescriptor} {out : Outcome} {m n : Nat}

/-! ### More leafrefs -/

section Follow
variable (hfollow : ∀ {target type out}, follow target type = some out → follow' target type = some out)
include hfollow

theorem mapAlternative_mono (h : mapAlternative ctx follow leaf a = some out) :
    mapAlternative ctx follow' leaf a = some out := by
  refine mapAlternative_eq_iff.mpr ?_
  cases mapAlternative_eq_iff.mp h with
  | followed href htarget htype hout => exact .followed href htarget htype (hfollow hout)
  | named henum hname => exact .named henum hname
  | builtIn hm => exact .builtIn hm
  | union hunion => exact .union hunion
  | fails hfails => exact .fails hfails

theorem addMember_mono {st r : MappedType.Members × List Diagnostic} (h : addMember ctx follow leaf st a = some r) :
    addMember ctx follow' leaf st a = some r := by
  obtain ⟨out, hout, rfl⟩ := Option.map_eq_some_iff.mp h
  exact Option.map_eq_some_iff.mpr ⟨out, mapAlternative_mono hfollow hout, rfl⟩

theorem foldlM_addMember_mono (alternatives : List TypeDescriptor) {st r : MappedType.Members × List Diagnostic}
    (h : alternatives.foldlM (addMember ctx follow leaf) st = some r) :
    alternatives.foldlM (addMember ctx follow' leaf) st = some r := by
  induction alternatives generalizing st with
  | nil => rwa [List.foldlM_nil] at h ⊢
  | cons a rest ih =>
    rw [List.foldlM_cons] at h ⊢
    obtain ⟨next, hnext, hrest⟩ := Option.bind_eq_some_iff.mp h
    exact Option.bind_eq_some_iff.mpr ⟨next, addMember_mono hfollow hnext, ih hrest⟩

theorem mapUnion_mono (h : mapUnion ctx owner follow leaf type = some out) :
    mapUnion ctx owner follow' leaf type = some out := by
  unfold mapUnion at h ⊢
  obtain ⟨members, hmembers, hout⟩ := Option.bind_eq_some_iff.mp h
  rw [mapMembers_eq] at hmembers ⊢
  exact Option.bind_eq_some_iff.mpr ⟨members, foldlM_addMember_mono hfollow _ hmembers, hout⟩

end Follow

theorem mapType_succ_eq (h : mapType ctx owner n leaf type = some out) :
    mapType ctx owner (n + 1) leaf type = some out := by
  induction n generalizing leaf type out with
  | zero => cases h
  | succ n ih =>
    rw [mapType] at h ⊢
    split
    · rename_i hunion
      rw [if_pos hunion] at h
      exact mapUnion_mono ih h
    · rename_i hplain
      rw [if_neg hplain] at h
      exact mapAlternative_mono ih h

/-- A mapping that ends gives the same if it may follow more leafrefs. -/
theorem mapType_mono (hle : n ≤ m) (h : mapType ctx owner n leaf type = some out) :
    mapType ctx owner m leaf type = some out := by
  induction hle with
  | refl => exact h
  | step _ ih => exact mapType_succ_eq ih

/-! ### Ways along leafrefs -/

/-- A type ends no mapping if one of its leafrefs leads to a type that ends none. -/
theorem mapType_eq_none_of_follow (ha : a ∈ type.alternatives) (href : a.isLeafref = true)
    (htarget : ctx.index.chainTarget? ctx.tree leaf (a.path.getD "") = some target) {targetType : TypeDescriptor}
    (htype : (ctx.tree.node target).type = some targetType) (h : mapType ctx owner n target targetType = none) :
    mapType ctx owner (n + 1) leaf type = none := by
  refine Option.eq_none_iff_forall_ne_some.mpr fun out hout => ?_
  obtain ⟨o, ho⟩ := ((mapType_succ n leaf type).2 out hout).1 a ha
  rw [mapAlternative_of_leafref href htarget htype, h] at ho
  cases ho

/-- From where a cycle is reached the mapping does not end. -/
theorem mapType_eq_none_of_reachesCycle (h : ReachesCycle (LeadsTo ctx.tree ctx.index) leaf)
    (htype : (ctx.tree.node leaf).type = some type) (n : Nat) : mapType ctx owner n leaf type = none := by
  induction n generalizing leaf type with
  | zero => rfl
  | succ n ih =>
    obtain ⟨target, ⟨_, a, targetType, htype', ha, href, htarget, htargetType⟩, hcycle⟩ := h.exists_step
    obtain rfl := Option.some.inj (htype.symm.trans htype')
    exact mapType_eq_none_of_follow ha href htarget htargetType (ih hcycle htargetType)

/-- A mapping that does not end within as many leafrefs as there are nodes has come into a cycle. -/
theorem reachesCycle_of_mapType_eq_none (htype : (ctx.tree.node leaf).type = some type) (hn : ctx.tree.size < n)
    (h : mapType ctx owner n leaf type = none) : ReachesCycle (LeadsTo ctx.tree ctx.index) leaf := by
  obtain ⟨path, rfl, hpath, hpairwise⟩ := exists_path_of_mapType_eq_none htype h
  obtain ⟨x, hx, hcycle⟩ := exists_transGen_self_of_pairwise hpairwise (fun x hx => (hpath x hx).2) hn
  exact ⟨x, (hpath x hx).1.to_reflTransGen, hcycle⟩

/-- A mapping that ends at all ends within the bound, whatever leaf the type is given to. -/
theorem mapType_bound (h : mapType ctx owner n leaf type = some out) :
    mapType ctx owner ctx.bound leaf type = some out := by
  cases hbound : mapType ctx owner ctx.bound leaf type with
  | some out' =>
    have hmax := mapType_mono (Nat.le_max_left n ctx.bound) h
    rw [mapType_mono (Nat.le_max_right n ctx.bound) hbound] at hmax
    exact hmax
  | none =>
    obtain ⟨a, ha, hnone⟩ := (mapType_succ (ctx.tree.size + 1) leaf type).1 hbound
    obtain ⟨target, targetType, href, htarget, htype, hfollow⟩ := exists_target_of_mapAlternative_eq_none hnone
    have hcycle := reachesCycle_of_mapType_eq_none htype (Nat.lt_succ_self _) hfollow
    have hends : mapType ctx owner (n + 1) leaf type = none :=
      mapType_eq_none_of_follow ha href htarget htype (mapType_eq_none_of_reachesCycle hcycle htype n)
    rw [mapType_succ_eq h] at hends
    cases hends

/-! ### Cycles of unions -/

/-- The type of a leaf is a union that has among its alternatives a leafref to a leaf whose type is a union. -/
structure UnionLeadsTo (t : SchemaTree) (index : LeafIndex) (leaf target : NodeId) : Prop where
  source : DeclaresUnion t leaf
  leads : LeadsTo t index leaf target
  target : DeclaresUnion t target

variable {t : SchemaTree} {index : LeafIndex} {next last : NodeId}

/-- A way from a union to a leaf with further leafrefs passes unions only. -/
theorem reflTransGen_unionLeadsTo (h : ReflTransGen (LeadsTo t index) leaf last) (hlast : LeadsTo t index last next)
    (hleaf : DeclaresUnion t leaf) : ReflTransGen (UnionLeadsTo t index) leaf last := by
  induction h using ReflTransGen.head_induction_on with
  | refl => exact .refl
  | @head leaf target hleads hrest ih =>
    obtain ⟨further, hfurther⟩ : ∃ further, LeadsTo t index target further := by
      rcases hrest.cases_head with rfl | ⟨further, hfurther, -⟩
      · exact ⟨next, hlast⟩
      · exact ⟨further, hfurther⟩
    have htarget := declaresUnion_of_leadsTo hleads hfurther
    exact .head ⟨hleaf, hleads, htarget⟩ (ih htarget)

/-- What a union reaches is a cycle of unions. -/
theorem reachesCycle_unionLeadsTo (h : ReachesCycle (LeadsTo t index) leaf) (hleaf : DeclaresUnion t leaf) :
    ReachesCycle (UnionLeadsTo t index) leaf := by
  obtain ⟨c, hway, hcycle⟩ := h
  obtain ⟨first, hfirst, hback⟩ := TransGen.head'_iff.mp hcycle
  obtain ⟨last, -, hlast⟩ := TransGen.tail'_iff.mp hcycle
  have hc := declaresUnion_of_leadsTo hlast hfirst
  have hbackUnion : DeclaresUnion t first := by
    rcases hback.cases_head with rfl | ⟨further, hfurther, -⟩
    · exact hc
    · exact declaresUnion_of_leadsTo hfirst hfurther
  refine ⟨c, reflTransGen_unionLeadsTo hway hfirst hleaf, TransGen.head'_iff.mpr ⟨first, ⟨hc, hfirst, hbackUnion⟩, ?_⟩⟩
  exact reflTransGen_unionLeadsTo hback hfirst hbackUnion

/-- A cycle is reached along leafrefs exactly if a cycle of unions is, from the leaf itself or from the leaf to which it is
    a leafref. -/
theorem reachesCycle_leadsTo_iff : ReachesCycle (LeadsTo t index) leaf ↔ ReachesCycle (UnionLeadsTo t index) leaf ∨
    ∃ type target, (t.node leaf).type = some type ∧ type.isLeafref = true ∧
      index.chainTarget? t leaf (type.path.getD "") = some target ∧ ReachesCycle (UnionLeadsTo t index) target := by
  constructor
  · intro h
    obtain ⟨target, ⟨type, a, targetType, htype, ha, href, htarget, htargetType⟩, hcycle⟩ := h.exists_step
    cases hunion : type.isUnion with
    | true => exact .inl (reachesCycle_unionLeadsTo h ⟨type, htype, hunion⟩)
    | false =>
      have hleads : LeadsTo t index leaf target := ⟨type, a, targetType, htype, ha, href, htarget, htargetType⟩
      obtain ⟨_, hnext, -⟩ := hcycle.exists_step
      rw [TypeDescriptor.alternatives_of_not_isUnion hunion, List.mem_singleton] at ha
      subst ha
      exact .inr ⟨a, target, htype, href, htarget,
        reachesCycle_unionLeadsTo hcycle (declaresUnion_of_leadsTo hleads hnext)⟩
  · rintro (h | ⟨type, target, htype, href, htarget, h⟩)
    · exact h.mono fun _ _ hstep => hstep.leads
    · obtain ⟨_, hnext, -⟩ := h.exists_step
      obtain ⟨targetType, htargetType, -⟩ := hnext.source
      have hplain : type.isUnion = false := by
        obtain ⟨kind, _, _, _, _, _, _⟩ := type
        have hkind : kind = .leafref := by simpa [TypeDescriptor.isLeafref] using href
        simp [TypeDescriptor.isUnion, hkind]
      have hself : type ∈ type.alternatives := by
        rw [TypeDescriptor.alternatives_of_not_isUnion hplain]
        exact List.mem_singleton_self type
      exact .head ⟨type, type, targetType, htype, hself, href, htarget, htargetType⟩ (h.mono fun _ _ hstep => hstep.leads)

/-! ### Mappings that end -/

/-- The mapping of the type of a leaf ends: for some number of leafrefs it comes to a result. A leaf without a type has
    nothing to map. -/
def Ends (ctx : TypeContext) (owner : String) (leaf : NodeId) : Prop :=
  ∀ type, (ctx.tree.node leaf).type = some type → ∃ leafrefs out, ctx.mapType owner leafrefs leaf type = some out

theorem ends_iff_not_reachesCycle_leadsTo :
    ctx.Ends owner leaf ↔ ¬ReachesCycle (LeadsTo ctx.tree ctx.index) leaf := by
  constructor
  · intro hends hcycle
    obtain ⟨_, ⟨type, _, _, htype, -⟩, -⟩ := hcycle.exists_step
    obtain ⟨leafrefs, out, hout⟩ := hends type htype
    rw [mapType_eq_none_of_reachesCycle hcycle htype] at hout
    cases hout
  · intro hnone type htype
    refine ⟨ctx.bound, Option.ne_none_iff_exists'.mp fun h => hnone ?_⟩
    have hbound : ctx.tree.size < ctx.bound := by
      rw [bound]
      omega
    exact reachesCycle_of_mapType_eq_none htype hbound h

/-- A leaf gets an answer exactly if the mapping of its type ends. -/
theorem isSome_leafType_iff : (ctx.leafType leaf owner).isSome = true ↔ ctx.Ends owner leaf := by
  unfold leafType Ends
  dsimp only
  cases htype : (ctx.tree.node leaf).type with
  | none => simp
  | some type =>
    simp only [Option.isSome_map, resolve, Option.some.injEq, forall_eq', Option.isSome_iff_exists]
    constructor
    · rintro ⟨out, hout⟩
      exact ⟨_, out, hout⟩
    · rintro ⟨leafrefs, out, hout⟩
      exact ⟨out, mapType_bound hout⟩

theorem leafType_eq_none_iff : ctx.leafType leaf owner = none ↔ ¬ctx.Ends owner leaf := by
  rw [← isSome_leafType_iff, Bool.not_eq_true, Option.isSome_eq_false_iff, Option.isNone_iff_eq_none]

theorem Acyclic.ends (hacyclic : Acyclic ctx.tree ctx.index) (owner : String) (leaf : NodeId) : ctx.Ends owner leaf :=
  fun _ htype => ⟨_, exists_mapType owner hacyclic htype⟩

theorem exists_leafType_of_acyclic (hacyclic : Acyclic ctx.tree ctx.index) (leaf : NodeId) (owner : String) :
    ∃ result, ctx.leafType leaf owner = some result :=
  Option.isSome_iff_exists.mp (isSome_leafType_iff.mpr (hacyclic.ends owner leaf))

/-- The mapping of the type of a leaf ends exactly if no cycle of unions is reached, neither from the leaf nor from the one
    to which it is a leafref. What a mapping that ends comes to is what is told of the type, and of one that does not end
    nothing is. -/
theorem ends_iff_no_cycle (ctx : TypeContext) (owner : String) (leaf : NodeId) :
    (ctx.Ends owner leaf ↔ ¬ReachesCycle (UnionLeadsTo ctx.tree ctx.index) leaf ∧
      ∀ type target, (ctx.tree.node leaf).type = some type → type.isLeafref = true →
        ctx.index.chainTarget? ctx.tree leaf (type.path.getD "") = some target →
          ¬ReachesCycle (UnionLeadsTo ctx.tree ctx.index) target) ∧
    (∀ type leafrefs out, ctx.mapType owner leafrefs leaf type = some out →
      ctx.resolve owner leaf type = some (Diagnostics.settle ⟨out.problems⟩ out.mapped)) ∧
    ((ctx.leafType leaf owner).isSome = true ↔ ctx.Ends owner leaf) := by
  refine ⟨?_, fun type leafrefs out hout => ?_, isSome_leafType_iff⟩
  · rw [ends_iff_not_reachesCycle_leadsTo, reachesCycle_leadsTo_iff, not_or]
    simp only [not_exists, not_and]
  · rw [resolve, mapType_bound hout]
    rfl

/-- A union with a leafref to its own leaf, and a leafref to this leaf. -/
def circularUnion : Library :=
  let leafref : TypeDescriptor := { TypeDescriptor.ofKind .leafref with path := some "../u" }
  let union : TypeDescriptor := { TypeDescriptor.ofKind .union with members := [.ofKind .string, leafref] }
  let leaf (name : String) (type : TypeDescriptor) : NodeDocument :=
    ⟨name, .leaf, [], some type, none, none, none, none⟩
  .ofList [("m", ⟨⟨"m", "urn:m", none, [],
    [⟨"c", .container, [leaf "u" union, leaf "w" leafref], none, none, none, none, none⟩]⟩, "m.json", false⟩)]

/-- Neither the mapping of the union ends nor that of the leafref. -/
theorem circularUnion_endless : ∃ t, circularUnion.tree = .ok t ∧
    ¬Ends ⟨t, LeafIndex.ofTree t, ∅⟩ "M_C" 2 ∧ ¬Ends ⟨t, LeafIndex.ofTree t, ∅⟩ "M_C" 3 := by
  have hrun : (circularUnion.tree.toOption.any fun t => ((t.node 2).type.any fun type => type.isUnion &&
      type.alternatives.any fun a => a.isLeafref && (LeafIndex.ofTree t).chainTarget? t 2 (a.path.getD "") == some 2) &&
        (t.node 3).type.any fun type => type.isLeafref &&
          (LeafIndex.ofTree t).chainTarget? t 3 (type.path.getD "") == some 2) = true := by
    decide +kernel
  obtain ⟨t, ht, hfacts⟩ := (Option.any_eq_true ..).mp hrun
  obtain ⟨hunionFacts, hleafrefFacts⟩ := Bool.and_eq_true_iff.mp hfacts
  obtain ⟨type, htype, hunion⟩ := (Option.any_eq_true ..).mp hunionFacts
  obtain ⟨hunion, hself⟩ := Bool.and_eq_true_iff.mp hunion
  obtain ⟨a, ha, hleads⟩ := List.any_eq_true.mp hself
  obtain ⟨href, htarget⟩ := Bool.and_eq_true_iff.mp hleads
  obtain ⟨type', htype', hleafref⟩ := (Option.any_eq_true ..).mp hleafrefFacts
  obtain ⟨href', htarget'⟩ := Bool.and_eq_true_iff.mp hleafref
  have hdeclares : DeclaresUnion t 2 := ⟨type, htype, hunion⟩
  have hstep : UnionLeadsTo t (LeafIndex.ofTree t) 2 2 :=
    ⟨hdeclares, ⟨type, a, type, htype, ha, href, beq_iff_eq.mp htarget, htype⟩, hdeclares⟩
  have hcycle : ReachesCycle (UnionLeadsTo t (LeafIndex.ofTree t)) 2 := ⟨2, .refl, .single hstep⟩
  refine ⟨t, ok_of_toOption ht, fun hends => ?_, fun hends => ?_⟩
  · exact ((ends_iff_no_cycle ⟨t, LeafIndex.ofTree t, ∅⟩ "M_C" 2).1.mp hends).1 hcycle
  · exact ((ends_iff_no_cycle ⟨t, LeafIndex.ofTree t, ∅⟩ "M_C" 3).1.mp hends).2 type' 2 htype' href'
      (beq_iff_eq.mp htarget') hcycle

end TypeContext

end SchemaIr
