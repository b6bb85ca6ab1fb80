import SchemaIr.Proofs.MappedType.Related
import SchemaIr.Proofs.Table.Lookup

/-! # Types under other names of enumerations

The names of enumerations get into types, and may even decide whether two members of a union are one. They do not decide
whether a type can be mapped: where the same enumerations have names, the same leaves have types, and the same goes wrong
(`leafType_renamed`). -/

namespace SchemaIr

namespace MappedType

/-! ### Types that can be mapped -/

/-- Both types could be mapped, or neither. -/
def BothMapped (m m' : MappedType) : Prop := m.native = "" ↔ m'.native = ""

/-- The members could be mapped, and no one has a position without members. -/
structure Members.Sound (ms : Members) : Prop where
  mapped : ∀ m ∈ ms.types, m.native ≠ ""
  positions : ∀ native, ms.positions.contains native = true → ms.types ≠ []

namespace Members.Sound
variable {ms : Members} (h : ms.Sound)
include h

theorem add (m : MappedType) : (ms.add m).Sound := by
  unfold Members.add
  split
  · exact h
  · rename_i hnew
    refine ⟨fun n hn => ?_, fun _ _ => by simp⟩
    rcases List.mem_append.mp hn with hn | hn
    · exact h.mapped n hn
    · obtain rfl := List.mem_singleton.mp hn
      exact fun hblank => hnew (.inl hblank)

theorem types_add_eq_nil_iff {m : MappedType} : (ms.add m).types = [] ↔ ms.types = [] ∧ m.native = "" := by
  unfold Members.add
  split
  · -- The member could not be mapped, or another one of its native type has a position.
    rename_i hold
    rcases hold with hblank | hpresent
    · simp [hblank]
    · simp [h.positions _ hpresent]
  · rename_i hnew
    have hmapped : m.native ≠ "" := fun hblank => hnew (.inl hblank)
    simp [hmapped]

theorem native_ofMembers_eq_iff (name : String) : (ofMembers name ms).native = "" ↔ ms.types = [] := by
  have hmapped := h.mapped
  unfold ofMembers
  split
  · rename_i hnone
    simp [hnone, unresolved, scalar]
  · rename_i m hone
    rw [hone] at hmapped ⊢
    simpa using hmapped m (List.mem_singleton_self m)
  · rename_i hnone _
    exact iff_of_false (unionMark_append_ne_empty name) hnone

end Members.Sound

/-- Both unions have members, or neither has. -/
structure BothMembers (ms ms' : Members) : Prop where
  sound : ms.Sound
  sound' : ms'.Sound
  types : ms.types = [] ↔ ms'.types = []

theorem BothMembers.add {ms ms' : Members} (h : BothMembers ms ms') {m m' : MappedType} (hm : BothMapped m m') :
    BothMembers (ms.add m) (ms'.add m') := by
  refine ⟨h.sound.add m, h.sound'.add m', ?_⟩
  rw [h.sound.types_add_eq_nil_iff, h.sound'.types_add_eq_nil_iff]
  exact and_congr h.types hm

end MappedType

namespace TypeContext
open Diagnostics (Agree)
open MappedType (BothMapped BothMembers)

variable {ctx ctx' : TypeContext}

/-- The same context but for the names of enumerations; the same enumerations have one. -/
structure Renamed (ctx ctx' : TypeContext) : Prop where
  tree : ctx'.tree = ctx.tree
  index : ctx'.index = ctx.index
  named : ∀ leaf type, type.isEnumerated = true →
    (ctx.enums.nameFor? ctx.tree leaf type).isSome = (ctx'.enums.nameFor? ctx.tree leaf type).isSome

theorem Renamed.relates (h : Renamed ctx ctx') (owner owner' : String) :
    Relates BothMapped BothMembers ctx ctx' owner owner' where
  tree := h.tree
  index := h.index
  kind _ := Iff.rfl
  unresolved := Iff.rfl
  enumerated leaf type henum := by
    have hnamed := h.named leaf type henum
    cases hname : ctx.enums.nameFor? ctx.tree leaf type <;> cases hname' : ctx'.enums.nameFor? ctx.tree leaf type <;>
      rw [hname, hname'] at hnamed <;> first | exact .none | cases hnamed
    exact .some (iff_of_false (MappedType.enumMark_append_ne_empty _) (MappedType.enumMark_append_ne_empty _))
  start := ⟨⟨by simp, fun _ h => by cases h⟩, ⟨by simp, fun _ h => by cases h⟩, Iff.rfl⟩
  add hms hm := hms.add hm
  isEmpty {ms ms'} hms := by
    rw [Bool.eq_iff_iff, List.isEmpty_iff, List.isEmpty_iff]
    exact hms.types
  union leaf hms := by
    rw [BothMapped, hms.sound.native_ofMembers_eq_iff, hms.sound'.native_ofMembers_eq_iff]
    exact hms.types

theorem leafType_renamed (h : Renamed ctx ctx') (leaf : NodeId) (owner owner' : String) :
    Agree (fun _ _ => True) (ctx.leafType leaf owner) (ctx'.leafType leaf owner') :=
  (h.relates owner owner').leafType_related (fun _ _ _ _ => trivial) leaf

end TypeContext

end SchemaIr
