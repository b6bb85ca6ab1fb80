import SchemaIr.Proofs.Enumeration.Reference
import SchemaIr.Proofs.Generation.Targets
import SchemaIr.Proofs.Ir.Types

/-! # Enumerated types

A type of a result is enumerated exactly if its native type has the mark of enumerations, and the name after the
mark is then that of a generated enumeration (`enumerated_iff_generated`). For a type is enumerated only where the
mapping has found a name, and a name is only found where a group was named. -/

namespace SchemaIr

namespace EnumSet

/-- The name of an alternative is that of an enumeration of the set. -/
theorem exists_enumeration_of_nameFor? {t : SchemaTree} {enumLeaves : Table NodeId} {compress skipDedup : Bool}
    {before : NameRegistry} {set : EnumSet} (h : (EnumSet.ofLeaves t enumLeaves compress skipDedup before).1 = .ok set)
    {leaf : NodeId} {m : TypeDescriptor} {name : String} (hname : set.nameFor? t leaf m = some name) :
    ∃ e, set.enumerations.get? name = some e ∧ e.name = name := by
  obtain ⟨nameOf, hnaming⟩ := exists_naming_of_eq_ok h
  -- Whichever table has the name, it was entered there for a group.
  obtain ⟨kind, key, g, hg, rfl⟩ : ∃ kind key g,
      ((EnumGroups.ofLeaves t enumLeaves compress skipDedup).1.ofKind kind).get? key = some g ∧ nameOf kind key = name := by
    unfold nameFor? at hname
    split at hname
    · obtain ⟨i, -, hget⟩ := Option.bind_eq_some_iff.mp hname
      obtain ⟨g, hg, heq⟩ := hnaming.identity.mp hget
      exact ⟨.identity, _, g, hg, heq⟩
    · split at hname
      · obtain ⟨g, hg, heq⟩ := hnaming.typedef.mp hname
        exact ⟨.typedef, _, g, hg, heq⟩
      · obtain ⟨key, g, hg, -, heq⟩ := hnaming.inline.mp hname
        exact ⟨.simple, key, g, hg, heq⟩
    · cases hname
  exact ⟨_, hnaming.entity hg, rfl⟩

end EnumSet

namespace TypeContext.Stems
open MappedType (enumMark)

variable {ctx : TypeContext} {owner : String} {m : MappedType}

theorem isEnumerated_iff (h : Stems ctx owner m) : m.isEnumerated = true ↔ ∃ name, m.native = enumMark ++ name := by
  cases h with
  | kind hm =>
    obtain ⟨-, -, hplain, -, hnone, -⟩ := MappedType.ofKind?_eq_some hm
    simp [hplain, ← MappedType.enumName?_eq_some_iff, hnone]
  | enumeration => exact iff_of_true rfl ⟨_, rfl⟩
  | union _ _ _ hnative hplain => simp [hplain, hnative, MappedType.enumMark_append_ne]

/-- The name after the mark was found for the alternative of a leaf's type. -/
theorem named (h : Stems ctx owner m) {name : String} (hname : m.native = enumMark ++ name) :
    (∃ leaf type, ctx.enums.nameFor? ctx.tree leaf type = some name) ∧ m.zero = name ++ "_UNSET" := by
  cases h with
  | kind hm =>
    obtain ⟨-, -, -, -, hnone, -⟩ := MappedType.ofKind?_eq_some hm
    rw [MappedType.enumName?_eq_some_iff.mpr hname] at hnone
    cases hnone
  | @enumeration leaf type found _ hfound =>
    obtain rfl : found = name := Option.some.inj
      ((MappedType.enumName?_eq_some_iff.mpr rfl).symm.trans (MappedType.enumName?_eq_some_iff.mpr hname))
    exact ⟨⟨leaf, type, hfound⟩, rfl⟩
  | union _ _ _ hnative => exact absurd (hnative.symm.trans hname) (MappedType.enumMark_append_ne _ _)

end TypeContext.Stems

namespace Generation
open MappedType (enumMark)

variable {t : SchemaTree} {s : GenerateSettings} {ir : Ir}

/-- In every result a type is enumerated exactly if its native type is a generated enumeration. The name of the
    enumeration is then in the result, under that name, and what is not set has the name's own value. -/
theorem enumerated_iff_generated (h : t.generate s = some (.ok ir)) {m : MappedType} (hm : ir.Holds m) :
    (m.isEnumerated = true ↔ ∃ name, m.native = enumMark ++ name) ∧
      ∀ name, m.native = enumMark ++ name →
        (∃ e, ir.enumerations.get? name = some e ∧ e.name = name) ∧ m.zero = name ++ "_UNSET" := by
  obtain ⟨input, hprepare, hbuild⟩ := generate_eq_ok h
  obtain ⟨path, d, hd, hholds⟩ := hm
  have hstems := Assembly.Input.stems_of_holds hbuild hd hholds
  refine ⟨hstems.isEnumerated_iff, fun name hname => ?_⟩
  obtain ⟨⟨leaf, type, hfound⟩, hzero⟩ := hstems.named hname
  have hready := ready_of_prepare hprepare
  have hfound' : input.enums.nameFor? t leaf type = some name := hready.tree ▸ hfound
  rw [Assembly.Input.enumerations_of_build hbuild]
  exact ⟨EnumSet.exists_enumeration_of_nameFor? hready.enums hfound', hzero⟩

/-- A leaf with an enumeration in a union. -/
def enumerationInUnion : Library :=
  let mode : TypeDescriptor :=
    { TypeDescriptor.ofKind .union with
      members := [{ TypeDescriptor.ofKind .enumeration with values := [⟨"on", none⟩, ⟨"off", none⟩] },
        TypeDescriptor.ofKind .string] }
  let leaf : NodeDocument := ⟨"mode", .leaf, [], some mode, none, none, none, none⟩
  .ofList [("m", ⟨⟨"m", "urn:m", none, [], [⟨"top", .container, [leaf], none, none, none, none, none⟩]⟩,
    "m.json", false⟩)]

theorem enumerationInUnion_generated : ∃ t ir m, enumerationInUnion.tree = .ok t ∧
    t.generate GenerateSettings.default = some (.ok ir) ∧ ir.Holds m ∧ m.native = "enum:M_Top_Mode" ∧
      m.isEnumerated = true ∧ (∃ e, ir.enumerations.get? "M_Top_Mode" = some e ∧ e.name = "M_Top_Mode") ∧
      m.zero = "M_Top_Mode_UNSET" := by
  have hrun : ((field? enumerationInUnion GenerateSettings.default "/m/top" "mode").bind fun r =>
      r.2.2.2.type.map fun type => type.members.head?.map (·.native)) = some (some "enum:M_Top_Mode") := by
    decide +kernel
  obtain ⟨⟨t, ir, dir, f⟩, hfield, hmember⟩ := Option.bind_eq_some_iff.mp hrun
  obtain ⟨type, htype, hhead⟩ := Option.map_eq_some_iff.mp hmember
  obtain ⟨m, hm, hnative⟩ := Option.map_eq_some_iff.mp hhead
  obtain ⟨ht, hir, hdir, hf⟩ := field?_eq_some hfield
  have hholds : ir.Holds m := ⟨_, dir, hdir, .field hf htype (.member (List.mem_of_head? hm) .self)⟩
  obtain ⟨hiff, hnamed⟩ := enumerated_iff_generated hir hholds
  exact ⟨t, ir, m, ht, hir, hholds, hnative, hiff.mpr ⟨"M_Top_Mode", hnative⟩, hnamed "M_Top_Mode" hnative⟩

end Generation

end SchemaIr
