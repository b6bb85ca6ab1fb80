import SchemaIr.Proofs.Diagnostic.Settle
import SchemaIr.Proofs.MappedType.Maps

/-! # Two mappings of one type

The types of a tree may be mapped twice, for other owners or with other names of enumerations. Where what is made of
single types is related, and what is made of related members, too (`Relates`), the mappings are related throughout: both
end, in related types and with the same problems, or neither does (`mapType_related`). -/

namespace SchemaIr.TypeContext
open Diagnostics (Agree)
open MappedType (Members)

variable {R : MappedType → MappedType → Prop} {S : Members → Members → Prop} {ctx ctx' : TypeContext}
  {owner owner' : String} {follow follow' : NodeId → TypeDescriptor → Option Outcome} {leaf : NodeId}

/-- Two mappings over one tree make related types out of single types, and out of related members. -/
structure Relates (R : MappedType → MappedType → Prop) (S : Members → Members → Prop) (ctx ctx' : TypeContext)
    (owner owner' : String) : Prop where
  tree : ctx'.tree = ctx.tree
  index : ctx'.index = ctx.index
  kind : ∀ {kind m}, MappedType.ofKind? kind = some m → R m m
  unresolved : R .unresolved .unresolved
  enumerated : ∀ leaf type, type.isEnumerated = true → Option.Rel (fun n n' => R (.enumerated n) (.enumerated n'))
    (ctx.enums.nameFor? ctx.tree leaf type) (ctx'.enums.nameFor? ctx.tree leaf type)
  start : S ⟨[], ∅⟩ ⟨[], ∅⟩
  add : ∀ {ms ms' m m'}, S ms ms' → R m m' → S (ms.add m) (ms'.add m')
  isEmpty : ∀ {ms ms'}, S ms ms' → ms.types.isEmpty = ms'.types.isEmpty
  union : ∀ {ms ms'} (leaf : NodeId), S ms ms' →
    R (.ofMembers (ctx.unionName owner leaf) ms) (.ofMembers (ctx'.unionName owner' leaf) ms')

/-- What is mapped is related, and the same goes wrong. -/
structure OutcomeRelated (R : MappedType → MappedType → Prop) (out out' : Outcome) : Prop where
  mapped : R out.mapped out'.mapped
  problems : out.problems = out'.problems

/-- Member types and problems so far. -/
def StateRelated (S : Members → Members → Prop) (st st' : Members × List Diagnostic) : Prop :=
  S st.1 st'.1 ∧ st.2 = st'.2

namespace Relates
variable (h : Relates R S ctx ctx' owner owner')
include h

theorem failed (d : Diagnostic) : OutcomeRelated R (TypeContext.failed d) (TypeContext.failed d) := ⟨h.unresolved, rfl⟩

section Follow
variable (hfollow : ∀ target type, Option.Rel (OutcomeRelated R) (follow target type) (follow' target type))
include hfollow

theorem mapAlternative_related (type : TypeDescriptor) :
    Option.Rel (OutcomeRelated R) (mapAlternative ctx follow leaf type) (mapAlternative ctx' follow' leaf type) := by
  unfold mapAlternative
  dsimp only
  rw [h.tree, h.index]
  split
  · split
    · exact hfollow _ _
    · exact .some (h.failed _)
  · split
    · rename_i henum
      have hname := h.enumerated leaf type henum
      generalize ctx.enums.nameFor? ctx.tree leaf type = name at hname ⊢
      generalize ctx'.enums.nameFor? ctx.tree leaf type = name' at hname ⊢
      cases hname with
      | none => exact .some (h.failed _)
      | some hrelated => exact .some ⟨hrelated, rfl⟩
    · split
      · rename_i mapped hmapped
        exact .some ⟨h.kind hmapped, rfl⟩
      · exact .some (h.failed _)

theorem foldlM_addMember_related (alternatives : List TypeDescriptor) {st st' : Members × List Diagnostic}
    (hst : StateRelated S st st') : Option.Rel (StateRelated S) (alternatives.foldlM (addMember ctx follow leaf) st)
      (alternatives.foldlM (addMember ctx' follow' leaf) st') := by
  induction alternatives generalizing st st' with
  | nil => exact .some hst
  | cons a rest ih =>
    rw [List.foldlM_cons, List.foldlM_cons, addMember, addMember]
    have hstep : Option.Rel (OutcomeRelated R) (mapAlternative ctx follow leaf a) (mapAlternative ctx' follow' leaf a) :=
      h.mapAlternative_related hfollow a
    generalize mapAlternative ctx follow leaf a = out at hstep
    generalize mapAlternative ctx' follow' leaf a = out' at hstep
    cases hstep with
    | none => exact .none
    | some hout =>
      refine ih ⟨h.add hst.1 hout.mapped, ?_⟩
      dsimp only
      rw [hst.2, hout.problems]

theorem mapUnion_related (type : TypeDescriptor) :
    Option.Rel (OutcomeRelated R) (mapUnion ctx owner follow leaf type) (mapUnion ctx' owner' follow' leaf type) := by
  have hstart : StateRelated S (⟨[], ∅⟩, []) (⟨[], ∅⟩, []) := ⟨h.start, rfl⟩
  have hmembers : Option.Rel (StateRelated S) (type.memberAlternatives.foldlM (addMember ctx follow leaf) _)
      (type.memberAlternatives.foldlM (addMember ctx' follow' leaf) _) :=
    h.foldlM_addMember_related hfollow type.memberAlternatives hstart
  rw [mapUnion, mapUnion, mapMembers_eq, mapMembers_eq, h.tree]
  generalize type.memberAlternatives.foldlM (addMember ctx follow leaf) (⟨[], ∅⟩, []) = st at hmembers
  generalize type.memberAlternatives.foldlM (addMember ctx' follow' leaf) (⟨[], ∅⟩, []) = st' at hmembers
  cases hmembers with
  | none => exact .none
  | some hst =>
    obtain ⟨hms, hproblems⟩ := hst
    refine .some ⟨h.union leaf hms, ?_⟩
    dsimp only
    rw [hproblems, h.isEmpty hms]

end Follow

/-- Both mappings of a type end, and are related, or neither does. -/
theorem mapType_related (leafrefs : Nat) (leaf : NodeId) (type : TypeDescriptor) :
    Option.Rel (OutcomeRelated R) (mapType ctx owner leafrefs leaf type) (mapType ctx' owner' leafrefs leaf type) := by
  induction leafrefs generalizing leaf type with
  | zero => exact .none
  | succ leafrefs ih =>
    rw [mapType, mapType]
    split
    · exact h.mapUnion_related ih type
    · exact h.mapAlternative_related ih type

theorem resolve_related (leaf : NodeId) (type : TypeDescriptor) :
    Agree R (ctx.resolve owner leaf type) (ctx'.resolve owner' leaf type) := by
  have hout : Option.Rel (OutcomeRelated R) _ _ := h.mapType_related ctx.bound leaf type
  have hbound : ctx'.bound = ctx.bound := congrArg (·.size + 2) h.tree
  unfold resolve
  rw [hbound]
  generalize ctx.mapType owner ctx.bound leaf type = out at hout
  generalize ctx'.mapType owner' ctx.bound leaf type = out' at hout
  cases hout with
  | none => exact .endless
  | some hout =>
    rw [Option.map_some, Option.map_some, hout.problems]
    exact .settle hout.mapped _

/-- The types of a leaf are related as far as a stated default lets them. -/
theorem leafType_related {Q : MappedType → MappedType → Prop} (hdefault : ∀ m m' (default : Option String), R m m' →
      Q { m with default := default.map m.defaultToken } { m' with default := default.map m'.defaultToken })
    (leaf : NodeId) : Agree Q (ctx.leafType leaf owner) (ctx'.leafType leaf owner') := by
  unfold leafType
  rw [h.tree]
  dsimp only
  cases (ctx.tree.node leaf).type with
  | none => exact .error _
  | some type =>
    have hresolve := h.resolve_related leaf type
    dsimp only
    generalize ctx.resolve owner leaf type = mapped at hresolve ⊢
    generalize ctx'.resolve owner' leaf type = mapped' at hresolve ⊢
    cases hresolve with
    | error problems => exact .error problems
    | ok hrelated => exact .ok (hdefault _ _ _ hrelated)
    | endless => exact .endless

end Relates

end SchemaIr.TypeContext
