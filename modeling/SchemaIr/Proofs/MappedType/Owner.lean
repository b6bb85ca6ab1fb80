import SchemaIr.Proofs.MappedType.Related
import SchemaIr.Proofs.Table.Lookup

/-! # Types under another owner

The name of a directory gets into the types of its fields in one place only: a union is named after the directory
that owns the leaf. Under another owner a type is mapped to one that differs in these names alone (`MappedType.Alike`),
and what goes wrong is the same (`leafType_alike`). -/

namespace SchemaIr

namespace MappedType
variable {owner owner' : String}

/-! ### Types that differ in owners -/

/-- Native types that are the same, or unions of one name but for the owner. -/
inductive NativeAlike (owner owner' : String) : String → String → Prop
  | same {native : String} : afterMark? unionMark native = none → NativeAlike owner owner' native native
  | union (name : String) :
      NativeAlike owner owner' (unionMark ++ (owner ++ "_" ++ name)) (unionMark ++ (owner' ++ "_" ++ name))

/-- Types that differ at most in the owners of the unions in them. -/
inductive Alike (owner owner' : String) : MappedType → MappedType → Prop
  | intro {m m' : MappedType} : NativeAlike owner owner' m.native m'.native →
      (∀ n n', NativeAlike owner owner' n n' → m.positions.get? n = m'.positions.get? n') →
      List.Forall₂ (Alike owner owner') m.members m'.members → m.isEnumerated = m'.isEnumerated → m.zero = m'.zero →
      m.default = m'.default → Alike owner owner' m m'

theorem NativeAlike.eq_iff {a a' b b' : String} (ha : NativeAlike owner owner' a a') (hb : NativeAlike owner owner' b b') :
    a = b ↔ a' = b' := by
  have hunion : ∀ {n text : String}, afterMark? unionMark n = none → n ≠ unionMark ++ text := by
    rintro n text hnone rfl
    rw [afterMark?_eq_some_iff.mpr rfl] at hnone
    cases hnone
  cases ha with
  | same hplain =>
    cases hb with
    | same _ => exact Iff.rfl
    | union name => exact iff_of_false (hunion hplain) (hunion hplain)
  | union name =>
    cases hb with
    | same hplain => exact iff_of_false (hunion hplain).symm (hunion hplain).symm
    | union name' => simp

theorem Alike.of_unmarked {m : MappedType} (hmark : afterMark? unionMark m.native = none) (hmembers : m.members = [])
    (hpositions : m.positions = ∅) : Alike owner owner' m m := by
  refine .intro (.same hmark) (fun n n' _ => ?_) ?_ rfl rfl rfl
  · rw [hpositions]
    rfl
  · rw [hmembers]
    exact .nil

theorem Alike.enumerated (name : String) : Alike owner owner' (.enumerated name) (.enumerated name) := by
  refine .of_unmarked ?_ rfl rfl
  cases h : afterMark? unionMark (MappedType.enumerated name).native with
  | none => rfl
  | some text => exact absurd (afterMark?_eq_some_iff.mp h).symm (enumMark_append_ne text name)

theorem Alike.of_kind {kind : TypeKind} {m : MappedType} (h : ofKind? kind = some m) : Alike owner owner' m m := by
  cases kind <;> cases h <;> exact .of_unmarked rfl rfl rfl

/-- Two such native types are the same, or both of unions. -/
theorem NativeAlike.eq_or {n n' : String} (h : NativeAlike owner owner' n n') :
    n = n' ∨ (∃ name, n = unionMark ++ name) ∧ ∃ name, n' = unionMark ++ name := by
  cases h with
  | same _ => exact .inl rfl
  | union name => exact .inr ⟨⟨_, rfl⟩, _, rfl⟩

namespace Alike
variable {m m' : MappedType} (h : Alike owner owner' m m')
include h

theorem native : NativeAlike owner owner' m.native m'.native := by
  cases h
  assumption

theorem default_eq : m.default = m'.default := by
  cases h
  assumption

theorem isUnion_eq : m.isUnion = m'.isUnion := by
  rcases h.native.eq_or with heq | ⟨hunion, hunion'⟩
  · rw [isUnion, isUnion, heq]
  · rw [isUnion_iff.mpr hunion, isUnion_iff.mpr hunion']

/-- A type that is no union has the same native type under both owners. -/
theorem native_eq (hunion : m.isUnion = false) : m.native = m'.native := by
  refine h.native.eq_or.resolve_right fun ⟨hmarked, _⟩ => ?_
  rw [isUnion_iff.mpr hmarked] at hunion
  cases hunion

/-- A stated default is the same value under both owners: that of a union is taken as it is. -/
theorem defaultToken_eq (default : String) : m.defaultToken default = m'.defaultToken default := by
  have hplain : ∀ {m : MappedType}, (∃ name, m.native = unionMark ++ name) → m.defaultToken default = default := by
    rintro m ⟨name, hname⟩
    have hnone : m.enumName? = none := Option.eq_none_iff_forall_not_mem.mpr fun text htext => by
      rw [Option.mem_def, enumName?_eq_some_iff, hname] at htext
      exact enumMark_append_ne name text htext
    have hkinds : ¬(m.native = "string" ∨ m.native = "instance-identifier") := by
      rw [hname]
      rintro (hkind | hkind) <;> simpa [unionMark, String.toList_append] using congrArg (·.toList.head?) hkind
    rw [defaultToken, hnone]
    exact if_neg hkinds
  rcases h.native.eq_or with heq | ⟨hunion, hunion'⟩
  · rw [defaultToken, defaultToken, enumName?, enumName?, heq]
  · rw [hplain hunion, hplain hunion']

theorem with_default (default : Option String) : Alike owner owner' { m with default } { m' with default } := by
  cases h with
  | intro hnative hpositions hmembers henumerated hzero _ =>
    exact .intro hnative hpositions hmembers henumerated hzero rfl

end Alike

/-! ### Unions -/

/-- The members found so far differ at most in owners. -/
structure MembersAlike (owner owner' : String) (ms ms' : Members) : Prop where
  types : List.Forall₂ (Alike owner owner') ms.types ms'.types
  positions : ∀ n n', NativeAlike owner owner' n n' → ms.positions.get? n = ms'.positions.get? n'

theorem MembersAlike.add {ms ms' : Members} (h : MembersAlike owner owner' ms ms') {m m' : MappedType}
    (hm : Alike owner owner' m m') : MembersAlike owner owner' (ms.add m) (ms'.add m') := by
  have hempty : m.native = "" ↔ m'.native = "" := hm.native.eq_iff (.same rfl)
  have hcontains : ms.positions.contains m.native = ms'.positions.contains m'.native :=
    congrArg Option.isSome (h.positions _ _ hm.native)
  unfold Members.add
  simp only [hempty, hcontains]
  split
  · exact h
  · refine ⟨List.rel_append h.types (.cons hm .nil), fun n n' hn => ?_⟩
    rw [Table.get?_insert, Table.get?_insert, h.types.length_eq, h.positions n n' hn]
    simp only [hn.eq_iff hm.native]

theorem MembersAlike.isEmpty_eq {ms ms' : Members} (h : MembersAlike owner owner' ms ms') :
    ms.types.isEmpty = ms'.types.isEmpty := by
  obtain ⟨types, _⟩ := ms
  obtain ⟨types', _⟩ := ms'
  obtain ⟨htypes, -⟩ := h
  cases htypes <;> rfl

theorem alike_ofMembers {ms ms' : Members} (h : MembersAlike owner owner' ms ms') (name : String) :
    Alike owner owner' (ofMembers (owner ++ "_" ++ name) ms) (ofMembers (owner' ++ "_" ++ name) ms') := by
  obtain ⟨types, positions⟩ := ms
  obtain ⟨types', positions'⟩ := ms'
  obtain ⟨htypes, hpositions⟩ := h
  cases htypes with
  | nil => exact .of_unmarked rfl rfl rfl
  | cons hfirst hrest =>
    cases hrest with
    | nil => exact hfirst
    | cons hsecond hrest => exact .intro (.union name) hpositions (.cons hfirst (.cons hsecond hrest)) rfl rfl rfl

end MappedType

namespace TypeContext
open Diagnostics (Agree)
open MappedType (Alike MembersAlike)

/-! ### The mapping under another owner -/

theorem relates_owner (ctx : TypeContext) (owner owner' : String) :
    Relates (Alike owner owner') (MembersAlike owner owner') ctx ctx owner owner' where
  tree := rfl
  index := rfl
  kind := .of_kind
  unresolved := .of_unmarked rfl rfl rfl
  enumerated leaf type _ := by
    cases ctx.enums.nameFor? ctx.tree leaf type with
    | none => exact .none
    | some name => exact .some (.enumerated name)
  start := ⟨.nil, fun _ _ _ => rfl⟩
  add hms hm := hms.add hm
  isEmpty := MembersAlike.isEmpty_eq
  union leaf hms := by
    have hname : ∀ owner, unionName ctx owner leaf = owner ++ "_" ++ (Naming.camel (ctx.tree.name leaf) ++ "_Union") :=
      fun owner => String.append_assoc
    rw [hname, hname]
    exact MappedType.alike_ofMembers hms _

/-- The type of a leaf is mapped under both owners, alike, or under none, for the same reasons. -/
theorem leafType_alike (ctx : TypeContext) (leaf : NodeId) (owner owner' : String) :
    Agree (Alike owner owner') (ctx.leafType leaf owner) (ctx.leafType leaf owner') := by
  refine (relates_owner ctx owner owner').leafType_related (fun m m' default halike => ?_) leaf
  have htokens : m.defaultToken = m'.defaultToken := funext halike.defaultToken_eq
  rw [htokens]
  exact halike.with_default _

end TypeContext

end SchemaIr
