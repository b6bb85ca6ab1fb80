import SchemaIr.Proofs.Generation.Targets
import SchemaIr.Proofs.Ir.Types

/-! # Names of unions

A union of a result is that of the leaf that declares it, and goes by the name of the directory in which it
occurs and by that of the leaf (`Declares`). The leaf may stand elsewhere, at the end of a chain of leafrefs; and
other leaves may come to the same name, since no union asks whether its name is free. So the names tell the unions
of a result apart exactly if no two leaves come to one name with different members (`identified_iff_no_collision`). -/

namespace SchemaIr

/-- Types with the name of one union have the same members, in order. -/
def Ir.UnionsIdentified (ir : Ir) : Prop :=
  ∀ m m', ir.Holds m → ir.Holds m' → m.isUnion = true → m.native = m'.native → m.memberNatives = m'.memberNatives

namespace Generation
open MappedType (unionMark)

variable {t : SchemaTree} {s : GenerateSettings} {input : Assembly.Input} {ir : Ir}

/-- A type of a result is the union that a leaf declares, mapped for a directory. -/
structure Declares (ctx : TypeContext) (ir : Ir) (owner : String) (leaf : NodeId) (m : MappedType) : Prop where
  holds : ∃ path d, ir.directories.get? path = some d ∧ d.name = owner ∧ d.Holds m
  declared : ∃ type, (ctx.tree.node leaf).type = some type ∧ type.isUnion = true ∧ ctx.Maps owner leaf type m.bare
  native : m.native = unionMark ++ ctx.unionName owner leaf

/-- Two leaves come to one name for unions with different members. -/
def Collision (ctx : TypeContext) (ir : Ir) : Prop :=
  ∃ owner owner' leaf leaf' m m', leaf ≠ leaf' ∧ Declares ctx ir owner leaf m ∧ Declares ctx ir owner' leaf' m' ∧
    ctx.unionName owner leaf = ctx.unionName owner' leaf' ∧ m.memberNatives ≠ m'.memberNatives

/-- Every union of a result is declared by a leaf. -/
theorem exists_declares (hbuild : (input.build ∅).1 = some (.ok ir)) {m : MappedType} (hm : ir.Holds m)
    (hunion : m.isUnion = true) : ∃ owner leaf, Declares input.types ir owner leaf m := by
  obtain ⟨path, d, hd, hholds⟩ := hm
  obtain ⟨name, hname⟩ := MappedType.isUnion_iff.mp hunion
  generalize hbare : m.bare = u
  have hstems := Assembly.Input.stems_of_holds hbuild hd hholds
  have hnative : u.native = m.native := hbare ▸ rfl
  rw [hbare] at hstems
  cases hstems with
  | kind hkind =>
    have hplain : u.isUnion = false := (MappedType.ofKind?_eq_some hkind).2.2.2.2.2
    rw [MappedType.isUnion_iff.mpr ⟨name, hnative.trans hname⟩] at hplain
    cases hplain
  | enumeration => exact absurd (hname.symm.trans hnative.symm) (MappedType.enumMark_append_ne _ _)
  | @union leaf type _ htype hdeclared hmaps hgoes =>
    exact ⟨d.name, leaf, ⟨path, d, hd, rfl, hholds⟩, ⟨type, htype, hdeclared, hbare ▸ hmaps⟩, hnative.symm.trans hgoes⟩

/-- The leaf and the name of a union leave no choice: the name tells the directory, and so what is mapped. -/
theorem Declares.unique {ctx : TypeContext} {owner owner' : String} {leaf : NodeId} {m m' : MappedType}
    (h : Declares ctx ir owner leaf m) (h' : Declares ctx ir owner' leaf m') (hnative : m.native = m'.native) :
    m.bare = m'.bare := by
  have hname : ctx.unionName owner leaf = ctx.unionName owner' leaf :=
    String.append_right_inj unionMark |>.mp (h.native.symm.trans (hnative.trans h'.native))
  obtain rfl : owner = owner' := by
    simpa only [TypeContext.unionName, String.append_left_inj] using hname
  obtain ⟨type, htype, -, hmaps⟩ := h.declared
  obtain ⟨type', htype', -, hmaps'⟩ := h'.declared
  obtain rfl := Option.some.inj (htype.symm.trans htype')
  exact hmaps.unique hmaps'

/-- In every result each union is the one that a leaf declares, under the name of the directory and the leaf; and
    names identify unions exactly if no two leaves come to one name with different members. -/
theorem identified_iff_no_collision (h : t.generate s = some (.ok ir)) : ∃ input, prepare t s = .ok input ∧
    (∀ m, ir.Holds m → m.isUnion = true → ∃ owner leaf, Declares input.types ir owner leaf m) ∧
      (ir.UnionsIdentified ↔ ¬Collision input.types ir) := by
  obtain ⟨input, hprepare, hbuild⟩ := generate_eq_ok h
  have hdeclared := fun m hm => exists_declares (m := m) hbuild hm
  refine ⟨input, hprepare, hdeclared, fun hidentified => ?_, fun hnone m m' hm hm' hunion hnative => ?_⟩
  · rintro ⟨owner, owner', leaf, leaf', m, m', -, hd, hd', hname, hne⟩
    obtain ⟨path, d, hget, -, hholds⟩ := hd.holds
    obtain ⟨path', d', hget', -, hholds'⟩ := hd'.holds
    refine hne (hidentified m m' ⟨path, d, hget, hholds⟩ ⟨path', d', hget', hholds'⟩ ?_ ?_)
    · exact MappedType.isUnion_iff.mpr ⟨_, hd.native⟩
    · rw [hd.native, hd'.native, hname]
  · obtain ⟨owner, leaf, hd⟩ := hdeclared m hm hunion
    have hunion' : m'.isUnion = true := MappedType.isUnion_iff.mpr ⟨_, hnative.symm.trans hd.native⟩
    obtain ⟨owner', leaf', hd'⟩ := hdeclared m' hm' hunion'
    have hname : input.types.unionName owner leaf = input.types.unionName owner' leaf' :=
      String.append_right_inj unionMark |>.mp (hd.native.symm.trans (hnative.trans hd'.native))
    by_contra hne
    by_cases hleaf : leaf = leaf'
    · subst hleaf
      have hbare : m.bare.memberNatives = m'.bare.memberNatives := congrArg _ (hd.unique hd' hnative)
      exact hne hbare
    · exact hnone ⟨owner, owner', leaf, leaf', m, m', hleaf, hd, hd', hname, hne⟩

/-- A union beside a leafref to another one that is declared by a leaf of the same name. -/
def borrowedUnion : Library :=
  let leaf (name : String) (type : TypeDescriptor) : NodeDocument :=
    ⟨name, .leaf, [], some type, none, none, none, none⟩
  let container (name : String) (children : List NodeDocument) : NodeDocument :=
    ⟨name, .container, children, none, none, none, none, none⟩
  let union (kind : TypeKind) : TypeDescriptor :=
    { TypeDescriptor.ofKind .union with members := [.ofKind .string, .ofKind kind] }
  .ofList [("m", ⟨⟨"m", "urn:m", none, [],
    [container "a" [leaf "value" (union .int8)],
      container "b" [leaf "value" (union .boolean),
        leaf "r" { TypeDescriptor.ofKind .leafref with path := some "../../a/value" }]]⟩, "m.json", false⟩)]

theorem borrowedUnion_tree : ∃ t, borrowedUnion.tree = .ok t ∧ t.Loaded ∧
    TypeContext.Acyclic t (LeafIndex.ofTree t) := by
  have hrun : (borrowedUnion.tree.toOption.any fun t =>
      TypeContext.leadsDown t (LeafIndex.ofTree t) [0, 0, 0, 0, 0, 1]) = true := by
    decide +kernel
  obtain ⟨t, ht, hdown⟩ := (Option.any_eq_true ..).mp hrun
  have htree := ok_of_toOption ht
  exact ⟨t, htree, ⟨borrowedUnion, Library.Named.empty.insert rfl, htree⟩, .of_leadsDown hdown⟩

/-- The two unions of one directory have the same name, but different members. -/
theorem borrowedUnion_types : ∃ t ir m m', borrowedUnion.tree = .ok t ∧
    t.generate GenerateSettings.default = some (.ok ir) ∧ ir.Holds m ∧ ir.Holds m' ∧ m.isUnion = true ∧
      m.native = m'.native ∧ m.memberNatives ≠ m'.memberNatives := by
  have hrun : ((field? borrowedUnion GenerateSettings.default "/m/b" "value").bind fun r =>
      (r.2.2.1.fields.get? "r").bind fun f => r.2.2.2.type.bind fun m => f.type.map fun m' =>
        (m.native, m'.native, m.memberNatives, m'.memberNatives)) =
          some ("union:M_B_Value_Union", "union:M_B_Value_Union", ["string", "bool"], ["string", "int8"]) := by
    decide +kernel
  simp only [Option.bind_eq_some_iff, Option.map_eq_some_iff, Prod.mk.injEq] at hrun
  obtain ⟨⟨t, ir, dir, f⟩, hfield, f', hf', m, hm, m', hm', hnative, hnative', hmembers, hmembers'⟩ := hrun
  obtain ⟨ht, hir, hdir, hf⟩ := field?_eq_some hfield
  exact ⟨t, ir, m, m', ht, hir, ⟨_, dir, hdir, .field hf hm .self⟩, ⟨_, dir, hdir, .field hf' hm' .self⟩,
    MappedType.isUnion_iff.mpr ⟨"M_B_Value_Union", hnative⟩, hnative.trans hnative'.symm,
    by rw [hmembers, hmembers']; decide⟩

theorem borrowedUnion_collides : ∃ t ir input, borrowedUnion.tree = .ok t ∧
    t.generate GenerateSettings.default = some (.ok ir) ∧ prepare t GenerateSettings.default = .ok input ∧
      Collision input.types ir := by
  obtain ⟨t, ir, m, m', ht, hir, hm, hm', hunion, hnative, hne⟩ := borrowedUnion_types
  obtain ⟨input, hprepare, -, hiff⟩ := identified_iff_no_collision hir
  exact ⟨t, ir, input, ht, hir, hprepare, not_not.mp fun hnone => hne (hiff.mpr hnone m m' hm hm' hunion hnative)⟩

/-- Names do not identify the unions of every result, though no union leads back to itself. -/
theorem borrowedUnion_not_identified : ∃ t ir, borrowedUnion.tree = .ok t ∧ t.Loaded ∧
    TypeContext.Acyclic t (LeafIndex.ofTree t) ∧ t.generate GenerateSettings.default = some (.ok ir) ∧
      ¬ir.UnionsIdentified := by
  obtain ⟨t, ht, hloaded, hacyclic⟩ := borrowedUnion_tree
  obtain ⟨t', ir, m, m', ht', hir, hm, hm', hunion, hnative, hne⟩ := borrowedUnion_types
  obtain rfl := Except.ok.inj (ht.symm.trans ht')
  exact ⟨t, ir, ht, hloaded, hacyclic, hir, fun hidentified => hne (hidentified m m' hm hm' hunion hnative)⟩

end Generation

end SchemaIr
