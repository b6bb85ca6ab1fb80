import SchemaIr.Loading.Tree
import SchemaIr.Proofs.Enumeration.Deduplication
import SchemaIr.Proofs.Generation.Prepare
import SchemaIr.Proofs.Ir.Parallel
import SchemaIr.Proofs.Ir.Types
import SchemaIr.Proofs.MappedType.Names

/-! # Runs with and without deduplication

Deduplication touches nothing but inline enumerations. A run with it succeeds if the run without it does, and the two
results have the same directories under the same names, with the same fields and keys, and the same identities and
typedefs (`regrouped_of_generate`). Which types the fields and keys have may differ; which of them have one may not. -/

namespace SchemaIr

/-- Results that differ at most in their inline enumerations, and in the types and notes that tell of these. -/
structure Ir.Regrouped (a b : Ir) : Prop where
  directories : ∀ path, Option.Rel (Directory.Matches fun _ _ _ _ => True) (a.directories.get? path)
    (b.directories.get? path)
  names : ∀ path d d', a.directories.get? path = some d → b.directories.get? path = some d' → d.name = d'.name
  references : ∀ path d d' name f f', a.directories.get? path = some d → b.directories.get? path = some d' →
    d.fields.get? name = some f → d'.fields.get? name = some f' → f.directory = f'.directory
  enumerations : ∀ name e, e.kind ≠ .simple → (a.enumerations.get? name = some e ↔ b.enumerations.get? name = some e)

namespace Assembly.Input

/-- The same input with other enumerations. -/
def regroup (input : Input) (enums : EnumSet) (skip : Bool) : Input :=
  { input with enums, settings := { input.settings with skipEnumDedup := skip } }

/-- That a union came down to one member is no error. -/
theorem errors_of_collapsed (b : Bool) (path native : String) :
    (if b then Diagnostics.single (.collapsedUnion path native) else ∅).items.filter (·.isError) = [] := by
  cases b <;> rfl

theorem leafFieldType_errors {input input' : Input} {leaf : NodeId} {owner owner' : String}
    (h : Diagnostics.Agree (fun _ _ => True) (input.types.leafType leaf owner) (input'.types.leafType leaf owner')) :
    (input.leafFieldType owner leaf).diagnostics.items.filter (·.isError) =
      (input'.leafFieldType owner' leaf).diagnostics.items.filter (·.isError) := by
  unfold leafFieldType
  generalize input.types.leafType leaf owner = type at h ⊢
  generalize input'.types.leafType leaf owner' = type' at h ⊢
  cases h with
  | ok _ => rw [errors_of_collapsed, errors_of_collapsed]
  | error problems => rfl
  | endless => rfl

theorem parallel_regroup {input : Input} {enums : EnumSet} (skip : Bool)
    (hnamed : ∀ leaf type, type.isEnumerated = true →
      (input.enums.nameFor? input.tree leaf type).isSome = (enums.nameFor? input.tree leaf type).isSome) :
    Parallel (·.isError) (fun _ _ _ _ => True) input (input.regroup enums skip) := by
  have htypes : ∀ leaf owner owner', Diagnostics.Agree (fun _ _ => True) (input.types.leafType leaf owner)
      ((input.regroup enums skip).types.leafType leaf owner') :=
    TypeContext.leafType_renamed ⟨rfl, rfl, hnamed⟩
  exact {
    tree := rfl
    excluded := rfl
    shadows := rfl
    types := htypes
    told := fun leaf owner owner' => leafFieldType_errors (htypes leaf owner owner')
    keeps := rfl
    fields := fun _ => rfl
    holders := fun _ _ _ _ _ _ => rfl }

end Assembly.Input

namespace Generation
variable {t : SchemaTree} {s : GenerateSettings} {input : Assembly.Input} {enums : EnumSet} {skip skip' : Bool}

namespace Ready
variable (h : Ready t { s with skipEnumDedup := skip } input)
include h

/-- What is prepared with deduplication is prepared without it, too, but for the enumerations. -/
theorem exists_regroup (skip' : Bool) :
    ∃ enums, Ready t { s with skipEnumDedup := skip' } (input.regroup enums skip') := by
  obtain ⟨rfl, hindex, hsettings, hclean, hdirectories, hleaves, henums⟩ := h
  obtain ⟨enums, henums'⟩ := @EnumSet.exists_ofLeaves _ _ _ _ skip' _ _ henums
  refine ⟨enums, rfl, hindex, ?_, hclean, hdirectories, hleaves, henums'⟩
  simp only [Assembly.Input.regroup, hsettings]

theorem parallel_regroup (h' : Ready t { s with skipEnumDedup := skip' } (input.regroup enums skip')) :
    Assembly.Input.Parallel (·.isError) (fun _ _ _ _ => True) input (input.regroup enums skip') := by
  refine Assembly.Input.parallel_regroup skip' fun leaf type henum => ?_
  rw [h.tree]
  exact EnumSet.isSome_nameFor?_eq h.enums h'.enums leaf henum

theorem regrouped (h' : Ready t { s with skipEnumDedup := skip' } (input.regroup enums skip')) {a b : Ir}
    (ha : (input.build ∅).1 = some (.ok a)) (hb : ((input.regroup enums skip').build ∅).1 = some (.ok b)) : a.Regrouped b := by
  -- The names of directories do not depend on enumerations at all.
  have hnames : ((input.regroup enums skip').names ∅).1 = (input.names ∅).1 := rfl
  have hparallel := h.parallel_regroup h'
  refine ⟨fun path => hparallel.directories_match ha hb rfl, fun path d d' hd hd' => ?_, fun path d d' name f f' hd hd' hf hf' => ?_, fun name e hkind => ?_⟩
  · have hname := Assembly.Input.name_of_directory ha hd
    rw [← hnames, Assembly.Input.name_of_directory hb hd'] at hname
    exact (Option.some.inj hname).symm
  · rw [(Assembly.Input.field_of_directory ha hd hf).2, (Assembly.Input.field_of_directory hb hd' hf').2, hnames,
      hparallel.node_eq ha hb rfl hd hd' hf hf']
    rfl
  · rw [Assembly.Input.enumerations_of_build ha, Assembly.Input.enumerations_of_build hb]
    exact EnumSet.get?_own_iff h.enums h'.enums hkind

end Ready

theorem exists_regrouped (skip' : Bool) {a : Ir} (ha : t.generate { s with skipEnumDedup := skip } = some (.ok a)) :
    ∃ b, t.generate { s with skipEnumDedup := skip' } = some (.ok b) ∧ a.Regrouped b := by
  obtain ⟨input, hprepare, ha⟩ := generate_eq_ok ha
  have hready := ready_of_prepare hprepare
  obtain ⟨enums, hready'⟩ := hready.exists_regroup skip'
  obtain ⟨b, hb⟩ := (hready.parallel_regroup hready').exists_build (fun _ herror => herror) (fun _ _ hm => hm) ha
  refine ⟨b, ?_, hready.regrouped hready' ha hb⟩
  rw [generate_of_prepare (prepare_of_ready hready'), hb]

/-- A run succeeds with deduplication if and only if it succeeds without, and the results differ at most in inline
    enumerations. -/
theorem regrouped_of_generate (t : SchemaTree) (s : GenerateSettings) (skip skip' : Bool) :
    ((∃ a, t.generate { s with skipEnumDedup := skip } = some (.ok a)) ↔
      ∃ b, t.generate { s with skipEnumDedup := skip' } = some (.ok b)) ∧
    ∀ a b, t.generate { s with skipEnumDedup := skip } = some (.ok a) → t.generate { s with skipEnumDedup := skip' } = some (.ok b) →
      a.Regrouped b := by
  refine ⟨⟨fun ⟨a, ha⟩ => ?_, fun ⟨b, hb⟩ => ?_⟩, fun a b ha hb => ?_⟩
  · obtain ⟨b, hb, -⟩ := exists_regrouped skip' ha
    exact ⟨b, hb⟩
  · obtain ⟨a, ha, -⟩ := exists_regrouped skip hb
    exact ⟨a, ha⟩
  · obtain ⟨b', hb', hregrouped⟩ := exists_regrouped skip' ha
    obtain rfl : b = b' := Except.ok.inj (Option.some.inj (hb.symm.trans hb'))
    exact hregrouped

/-- Two leaves with the same inline enumeration, and one that refers to either. -/
def eitherSlot : Library :=
  let mode : TypeDescriptor := { TypeDescriptor.ofKind .enumeration with values := [⟨"on", none⟩, ⟨"off", none⟩] }
  let color : TypeDescriptor := { TypeDescriptor.ofKind .identityref with identity := some ⟨"m", "color", ["red"]⟩ }
  let leafref (path : String) : TypeDescriptor := { TypeDescriptor.ofKind .leafref with path := some path }
  let either : TypeDescriptor :=
    { TypeDescriptor.ofKind .union with members := [leafref "/one/slot/mode", leafref "/two/slot/mode"] }
  let node (name : String) (kind : NodeKind) (type : Option TypeDescriptor) (children : List NodeDocument) : NodeDocument :=
    ⟨name, kind, children, type, none, none, none, none⟩
  .ofList [("m", ⟨⟨"m", "urn:m", none, [],
    [node "one" .container none
      [node "slot" .container none [node "mode" .leaf (some mode) [], node "color" .leaf (some color) []]],
     node "two" .container none
      [node "slot" .container none [node "mode" .leaf (some mode) [], node "either" .leaf (some either) []]]]⟩,
    "m.json", false⟩)]

/-- With deduplication the union has one member and comes down to it, without it has two. -/
theorem eitherSlot_regrouped : ∃ t a b, eitherSlot.tree = .ok t ∧
    t.generate { GenerateSettings.default with skipEnumDedup := false } = some (.ok a) ∧
    t.generate { GenerateSettings.default with skipEnumDedup := true } = some (.ok b) ∧ a.Regrouped b ∧
    a.enumerations.size = 2 ∧ b.enumerations.size = 3 ∧
    ∃ d d' f f', a.directories.get? "/m/two/slot" = some d ∧ b.directories.get? "/m/two/slot" = some d' ∧
      d.fields.get? "either" = some f ∧ d'.fields.get? "either" = some f' ∧
      f.type.map (·.isUnion) = some false ∧ f'.type.map (·.isUnion) = some true := by
  have hrun : (eitherSlot.tree.toOption.any fun t =>
      (result? (t.generate { GenerateSettings.default with skipEnumDedup := false })).any fun a =>
        (result? (t.generate { GenerateSettings.default with skipEnumDedup := true })).any fun b =>
          a.enumerations.size == 2 && b.enumerations.size == 3 &&
          (a.directories.get? "/m/two/slot").any fun d => (b.directories.get? "/m/two/slot").any fun d' =>
            (d.fields.get? "either").any fun f => (d'.fields.get? "either").any fun f' =>
              f.type.map (·.isUnion) == some false && f'.type.map (·.isUnion) == some true) = true := by
    decide +kernel
  obtain ⟨t, ht, hfacts⟩ := (Option.any_eq_true ..).mp hrun
  obtain ⟨a, ha, hfacts⟩ := (Option.any_eq_true ..).mp hfacts
  obtain ⟨b, hb, hfacts⟩ := (Option.any_eq_true ..).mp hfacts
  obtain ⟨hsizes, hfacts⟩ := Bool.and_eq_true_iff.mp hfacts
  obtain ⟨d, hd, hfacts⟩ := (Option.any_eq_true ..).mp hfacts
  obtain ⟨d', hd', hfacts⟩ := (Option.any_eq_true ..).mp hfacts
  obtain ⟨f, hf, hfacts⟩ := (Option.any_eq_true ..).mp hfacts
  obtain ⟨f', hf', hunions⟩ := (Option.any_eq_true ..).mp hfacts
  simp only [Bool.and_eq_true, beq_iff_eq] at hsizes hunions
  have ha := some_ok_of_result? ha
  have hb := some_ok_of_result? hb
  have hregrouped := (regrouped_of_generate t .default false true).2 a b ha hb
  exact ⟨t, a, b, ok_of_toOption ht, ha, hb, hregrouped, hsizes.1, hsizes.2, d, d', f, f', hd, hd', hf, hf', hunions.1,
    hunions.2⟩

end Generation

end SchemaIr
