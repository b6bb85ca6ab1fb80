import SchemaIr.Proofs.Directory.Uncompressed
import SchemaIr.Proofs.Generation.Found
import SchemaIr.Proofs.Generation.Targets
import SchemaIr.Proofs.Ir.Alike
import SchemaIr.Proofs.Ir.Types

/-! # Leaving out state

A result without state holds configuration only. Without compression it is moreover the result with state restricted to
configuration: it has the directories and fields of those nodes that are configuration, and the same enumerations
(`state_left_out`). Only names can change, as there are fewer directories to tell apart. -/

namespace SchemaIr

/-! ### Restriction -/

/-- The second fields are those of the first whose nodes are configuration, under their names. -/
structure FieldsRestrict (t : SchemaTree) (owner owner' : String) (fs fs' : Table Field) : Prop where
  nodes : ∀ name c, (∃ f, fs'.get? name = some f ∧ f.node = c) ↔
    (∃ f, fs.get? name = some f ∧ f.node = c) ∧ t.isConfig c = true
  alike : ∀ name f f', fs.get? name = some f → fs'.get? name = some f' → f.Alike owner owner' f'

/-- The same directory with its fields restricted to configuration. -/
structure Directory.Restricts (t : SchemaTree) (d d' : Directory) : Prop extends d.SameNode d' where
  fields : FieldsRestrict t d.name d'.name d.fields d'.fields

namespace Assembly.Input
variable {input : Input} {names names' : Table String} {owner owner' : String}

theorem fieldOrNone_excludeState (names names' : Table String) (owner owner' : String) (path : NodeId → String)
    (name : String) (node : NodeId) :
    BuiltAlike (Field.Alike owner owner') ((input.under .uncompressed).fieldOrNone names owner path name node)
      ((input.under .uncompressedExcludeState).fieldOrNone names' owner' path name node) :=
  fieldOrNone_alike (unshadowed_of_compresses rfl) (unshadowed_of_compresses rfl) names names' path name node

theorem buildFields_restrict {nodes nodes' : Table NodeId} (hnodes : ∀ name c, nodes'.get? name = some c ↔
      nodes.get? name = some c ∧ input.tree.isConfig c = true) (path : NodeId → String) :
    FieldsRestrict input.tree owner owner'
        ((input.under .uncompressed).buildFields names owner path nodes).value
        ((input.under .uncompressedExcludeState).buildFields names' owner' path nodes').value ∧
      (∀ d ∈ ((input.under .uncompressedExcludeState).buildFields names' owner' path nodes').diagnostics.items,
        d ∈ ((input.under .uncompressed).buildFields names owner path nodes).diagnostics.items) ∧
      (((input.under .uncompressed).buildFields names owner path nodes).ends = true →
        ((input.under .uncompressedExcludeState).buildFields names' owner' path nodes').ends = true) := by
  refine ⟨⟨fun name c => ?_, fun name f f' hf hf' => ?_⟩, fun d hd => ?_, fun hends => ?_⟩
  · rw [exists_field_iff, exists_field_iff, hnodes]
    simp only [under_tree, under_excludeModules]
    tauto
  · rw [buildFields_eq, get?_collect] at hf hf'
    obtain ⟨node, hnode, hbuilt⟩ := Option.bind_eq_some_iff.mp hf
    obtain ⟨node', hnode', hbuilt'⟩ := Option.bind_eq_some_iff.mp hf'
    obtain ⟨hboth, -⟩ := (hnodes name node').mp hnode'
    obtain rfl := Option.some.inj (hnode.symm.trans hboth)
    have halike := (@fieldOrNone_excludeState input names names' owner owner' path name node).value
    rw [hbuilt, hbuilt', Option.rel_some_some] at halike
    exact halike
  · rw [buildFields_eq, mem_collect] at hd ⊢
    obtain ⟨name, node, hnode, hd⟩ := hd
    refine ⟨name, node, ((hnodes name node).mp hnode).1, ?_⟩
    rwa [(fieldOrNone_excludeState names names' owner owner' path name node).diagnostics]
  · rw [buildFields_eq, ends_collect_iff] at hends ⊢
    intro name node hnode
    rw [← (@fieldOrNone_excludeState input names names' owner owner' path name node).ends]
    exact hends name node ((hnodes name node).mp hnode).1

/-- A directory that is built with its state is built without it, too, restricted to configuration. -/
theorem buildDirectory_restricts {path : String} {m : MappedDirectory}
    (hconfig : ∀ id, m = .schema id → input.tree.isConfig id = true) {d : Directory}
    (hd : ((input.under .uncompressed).buildDirectory names path m).value = some d) :
    (∃ d', ((input.under .uncompressedExcludeState).buildDirectory names' path m).value = some d' ∧
        d.Restricts input.tree d') ∧
      (∀ problem ∈ ((input.under .uncompressedExcludeState).buildDirectory names' path m).diagnostics.items,
        problem ∈ ((input.under .uncompressed).buildDirectory names path m).diagnostics.items) ∧
      (((input.under .uncompressed).buildDirectory names path m).ends = true →
        ((input.under .uncompressedExcludeState).buildDirectory names' path m).ends = true) := by
  cases m with
  | schema id =>
    cases hnodes : input.tree.fields .uncompressed id with
    | error problems =>
      simp only [buildDirectory, buildSchema, under_tree, under_compression, hnodes] at hd
      cases hd
    | ok nodes =>
      obtain ⟨nodes', hnodes', hrestricted⟩ := Fields.fields_excludeState (hconfig id rfl) hnodes
      simp only [buildDirectory, buildSchema, under_tree, under_compression, hnodes, hnodes'] at hd ⊢
      cases hd
      obtain ⟨hfields, hproblems, hends⟩ := @buildFields_restrict input names names' (names.getD path "")
        (names'.getD path "") nodes nodes' hrestricted (relativePath input.tree id)
      have hkeys := @buildKeys_alike input .uncompressed .uncompressedExcludeState (names.getD path "")
        (names'.getD path "") (unshadowed_of_compresses rfl) (unshadowed_of_compresses rfl) id (fun _ _ _ _ _ => rfl) path
      refine ⟨⟨_, rfl, ⟨rfl, rfl, rfl, hkeys.value⟩, hfields⟩, fun problem hproblem => ?_, fun hended => ?_⟩
      rcases List.mem_append.mp hproblem with hfield | hkey
      · exact List.mem_append_left _ (hproblems problem hfield)
      · refine List.mem_append_right _ ?_
        rwa [hkeys.diagnostics]
      · obtain ⟨hfieldsEnd, hkeysEnd⟩ := Bool.and_eq_true_iff.mp hended
        exact Bool.and_eq_true_iff.mpr ⟨hends hfieldsEnd, hkeys.ends ▸ hkeysEnd⟩
  | fakeRoot rootName nodes =>
    cases hd
    have hrestricted : ∀ name c,
        (nodes.filter fun _ id => (input.under .uncompressedExcludeState).keeps id).get? name = some c ↔
          (nodes.filter fun _ id => (input.under .uncompressed).keeps id).get? name = some c ∧
            input.tree.isConfig c = true := by
      intro name c
      rw [Table.get?_filter_eq_some_iff, Table.get?_filter_eq_some_iff]
      simp [keeps, Fields.isKept, under, Compression.excludesState]
    obtain ⟨hfields, hproblems, hends⟩ := @buildFields_restrict input names names' (names.getD path "")
      (names'.getD path "") _ _ hrestricted (modulePath input.tree)
    exact ⟨⟨_, rfl, ⟨rfl, rfl, rfl, .none⟩, hfields⟩, hproblems, hends⟩

/-! ### Assembled without state -/

/-- A directory is left out if its node is state. -/
theorem get?_kept_excludeState {path : String} {m : MappedDirectory} :
    (input.under .uncompressedExcludeState).kept.get? path = some m ↔
      (input.under .uncompressed).kept.get? path = some m ∧ ∀ id, m = .schema id → input.tree.isConfig id = true := by
  rw [kept, kept, Table.get?_filter_eq_some_iff, Table.get?_filter_eq_some_iff]
  cases m <;> simp [keeps, Fields.isKept, under, Compression.excludesState]

theorem build_excludeState {a : Ir} (h : ((input.under .uncompressed).build ∅).1 = some (.ok a)) :
    ∃ b, ((input.under .uncompressedExcludeState).build ∅).1 = some (.ok b) := by
  refine exists_build_iff_forall.mpr fun path m hkept => ?_
  obtain ⟨hboth, hconfig⟩ := get?_kept_excludeState.mp hkept
  obtain ⟨hended, hclean⟩ := exists_build_iff_forall.mp ⟨a, h⟩ path m hboth
  obtain ⟨d, hd, -⟩ := exists_directory h hboth
  obtain ⟨m', hm', hvalue⟩ := kept_of_directory h hd
  obtain rfl := Option.some.inj (hboth.symm.trans hm')
  obtain ⟨-, hproblems, hends⟩ := buildDirectory_restricts hconfig hvalue
  refine ⟨hends hended, Bool.eq_false_iff.mpr fun herrors => ?_⟩
  -- What is wrong without state would have been wrong with it.
  obtain ⟨problem, hproblem, herr⟩ := Diagnostics.hasErrors_iff.mp herrors
  exact Bool.eq_false_iff.mp hclean (Diagnostics.hasErrors_iff.mpr ⟨problem, hproblems problem hproblem, herr⟩)

variable {a b : Ir}

/-- The directories that both results have at a path. -/
theorem restricts_of_build (ha : ((input.under .uncompressed).build ∅).1 = some (.ok a))
    (hb : ((input.under .uncompressedExcludeState).build ∅).1 = some (.ok b)) {path : String} {d d' : Directory}
    (hd : a.directories.get? path = some d) (hd' : b.directories.get? path = some d') :
    d.Restricts input.tree d' ∧
      ∃ wanted, NameRegistry.Disambiguates wanted d.name ∧ NameRegistry.Disambiguates wanted d'.name := by
  obtain ⟨m, hm, hvalue⟩ := kept_of_directory ha hd
  obtain ⟨m', hm', hvalue'⟩ := kept_of_directory hb hd'
  obtain ⟨hboth, hconfig⟩ := get?_kept_excludeState.mp hm'
  obtain rfl := Option.some.inj (hm.symm.trans hboth)
  obtain ⟨⟨_, hbuilt, hrestricts⟩, -⟩ := buildDirectory_restricts hconfig hvalue
  rw [hvalue'] at hbuilt
  cases hbuilt
  obtain ⟨n, hn, hname⟩ := disambiguates_names (name_of_directory ha hd)
  obtain ⟨n', hn', hname'⟩ := disambiguates_names (name_of_directory hb hd')
  obtain rfl := Option.some.inj (hm.symm.trans hn)
  obtain rfl := Option.some.inj (hm'.symm.trans hn')
  exact ⟨hrestricts, _, hname, hname'⟩

theorem exists_directory_excludeState_iff (hb : ((input.under .uncompressedExcludeState).build ∅).1 = some (.ok b))
    {path : String} : (∃ d', b.directories.get? path = some d') ↔
      ∃ m, (input.under .uncompressed).kept.get? path = some m ∧
        ∀ id, m = .schema id → input.tree.isConfig id = true := by
  constructor
  · rintro ⟨d', hd'⟩
    obtain ⟨m, hm, -⟩ := kept_of_directory hb hd'
    exact ⟨m, get?_kept_excludeState.mp hm⟩
  · rintro ⟨m, hm⟩
    obtain ⟨d', hd', -⟩ := exists_directory hb (get?_kept_excludeState.mpr hm)
    exact ⟨d', hd'⟩

/-! ### Configuration only -/

theorem isConfig_of_kept (hstate : input.settings.compression.excludesState = true) {path : String} {id : NodeId}
    (h : input.kept.get? path = some (.schema id)) : input.tree.isConfig id = true := by
  have hkeep := (Table.get?_filter_eq_some_iff.mp h).2
  simpa [keeps, Fields.isKept, hstate] using hkeep

theorem isConfig_of_field (hstate : input.settings.compression.excludesState = true) {ir : Ir}
    (h : (input.build ∅).1 = some (.ok ir)) {path name : String} {d : Directory} {f : Field}
    (hd : ir.directories.get? path = some d) (hf : d.fields.get? name = some f) : input.tree.isConfig f.node = true := by
  rcases built_of_directory h hd with ⟨id, hkept, hbuilt⟩ | ⟨_, nodes, -, hbuilt⟩
  · obtain ⟨nodes, hnodes, hfields⟩ := hbuilt.fields
    rw [hfields] at hf
    obtain ⟨hnode, -⟩ := exists_field_iff.mp ⟨f, hf, rfl⟩
    obtain ⟨c, hc, hcnode, -⟩ := SchemaTree.mem_candidates_of_fields hnodes (Table.get?_filter_eq_some_iff.mp hkept).2 hnode
    have hkeep := (List.mem_filter.mp hc).2
    rw [← hcnode]
    simpa [Fields.isKept, hstate] using hkeep
  · rw [hbuilt.fields] at hf
    obtain ⟨hnode, -⟩ := exists_field_iff.mp ⟨f, hf, rfl⟩
    have hkeep := (Table.get?_filter_eq_some_iff.mp hnode).2
    simpa [keeps, Fields.isKept, hstate] using hkeep

end Assembly.Input

namespace Generation
variable {t : SchemaTree} {s : GenerateSettings} {input : Assembly.Input} {ir : Ir}

/-- The second result is the first one restricted to configuration: it has the directories of the nodes that are
    configuration, and the fake root if there is one, with the fields of such nodes. The names of directories differ at most
    in the underscores after them. -/
structure Restricts (t : SchemaTree) (s : GenerateSettings) (a b : Ir) : Prop where
  schema : ∀ path, (∃ d, b.directories.get? path = some d ∧ d.isFakeRoot = false) ↔
    ∃ d id, a.directories.get? path = some d ∧ d.isFakeRoot = false ∧ Finds t s path id ∧ t.isConfig id = true
  fakeRoot : ∀ path, (∃ d, b.directories.get? path = some d ∧ d.isFakeRoot = true) ↔
    ∃ d, a.directories.get? path = some d ∧ d.isFakeRoot = true
  directory : ∀ path d d', a.directories.get? path = some d → b.directories.get? path = some d' → d.Restricts t d'
  name : ∀ path d d', a.directories.get? path = some d → b.directories.get? path = some d' →
    ∃ wanted, NameRegistry.Disambiguates wanted d.name ∧ NameRegistry.Disambiguates wanted d'.name
  enumerations : a.enumerations = b.enumerations

/-- What assembling leaves out of the result with state. -/
theorem Ready.restricts (h : Ready t s (input.under .uncompressed)) {a b : Ir}
    (ha : ((input.under .uncompressed).build ∅).1 = some (.ok a)) (hb : ((input.under .uncompressedExcludeState).build ∅).1 = some (.ok b)) :
    Restricts t s a b := by
  have htree : input.tree = t := h.tree
  have hboth : ∀ {path d d'}, a.directories.get? path = some d → b.directories.get? path = some d' →
      d.Restricts t d' ∧ _ := fun hd hd' => htree ▸ Assembly.Input.restricts_of_build ha hb hd hd'
  -- A directory without state stands where one with state does.
  have hbelow : ∀ {path d'}, b.directories.get? path = some d' → ∃ d, a.directories.get? path = some d ∧
      d.isFakeRoot = d'.isFakeRoot := by
    intro path d' hd'
    obtain ⟨m, hm, -⟩ := (Assembly.Input.exists_directory_excludeState_iff hb).mp ⟨d', hd'⟩
    obtain ⟨d, hd, -⟩ := Assembly.Input.exists_directory ha hm
    exact ⟨d, hd, (hboth hd hd').1.isFakeRoot⟩
  refine ⟨fun path => ⟨?_, ?_⟩, fun path => ⟨?_, ?_⟩, fun path d d' hd hd' => (hboth hd hd').1,
    fun path d d' hd hd' => (hboth hd hd').2, ?_⟩
  · rintro ⟨d', hd', hschema⟩
    obtain ⟨d, hd, hroot⟩ := hbelow hd'
    obtain ⟨m, hm, hconfig⟩ := (Assembly.Input.exists_directory_excludeState_iff hb).mp ⟨d', hd'⟩
    obtain ⟨id, hkept, -⟩ := Assembly.Input.schema_of_directory ha hd (hroot.trans hschema)
    obtain rfl := Option.some.inj (hm.symm.trans hkept)
    exact ⟨d, id, hd, hroot.trans hschema, h.finds (Table.get?_filter_eq_some_iff.mp hkept).1, htree ▸ hconfig id rfl⟩
  · rintro ⟨d, id, hd, hschema, hfinds, hconfig⟩
    obtain ⟨id', hkept, -⟩ := Assembly.Input.schema_of_directory ha hd hschema
    have heq := (h.finds (Table.get?_filter_eq_some_iff.mp hkept).1).symm.trans hfinds
    cases heq
    obtain ⟨d', hd'⟩ := (Assembly.Input.exists_directory_excludeState_iff hb).mpr
      ⟨_, hkept, fun _ hm => by cases hm; exact htree ▸ hconfig⟩
    exact ⟨d', hd', (hboth hd hd').1.isFakeRoot ▸ hschema⟩
  · rintro ⟨d', hd', hfake⟩
    obtain ⟨d, hd, hroot⟩ := hbelow hd'
    exact ⟨d, hd, hroot.trans hfake⟩
  · rintro ⟨d, hd, hfake⟩
    obtain ⟨_, _, hkept, -⟩ := Assembly.Input.root_of_directory ha hd hfake
    obtain ⟨d', hd'⟩ := (Assembly.Input.exists_directory_excludeState_iff hb).mpr ⟨_, hkept, fun _ hm => by cases hm⟩
    exact ⟨d', hd', (hboth hd hd').1.isFakeRoot ▸ hfake⟩
  · rw [Assembly.Input.enumerations_of_build ha, Assembly.Input.enumerations_of_build hb]
    rfl

/-- Where state is left out, every directory that is not the fake root and every field is of a node that is configuration.
    Without compression, a result with state has a counterpart without, which is the same one restricted to
    configuration. -/
theorem state_left_out (t : SchemaTree) (s : GenerateSettings) :
    (s.compression.excludesState = true → ∀ ir, t.generate s = some (.ok ir) → ∀ path d, ir.directories.get? path = some d →
      (d.isFakeRoot = false → ∃ id, Finds t s path id ∧ d.path = t.dataPath id ∧ t.isConfig id = true) ∧
        ∀ name f, d.fields.get? name = some f → t.isConfig f.node = true) ∧
    ∀ a, t.generate { s with compression := .uncompressed } = some (.ok a) →
      ∃ b, t.generate { s with compression := .uncompressedExcludeState } = some (.ok b) ∧
        Restricts t { s with compression := .uncompressed } a b := by
  constructor
  · intro hstate ir h path d hd
    obtain ⟨input, hprepare, hbuild⟩ := generate_eq_ok h
    have hready := ready_of_prepare hprepare
    have hstate : input.settings.compression.excludesState = true := hready.settings ▸ hstate
    refine ⟨fun hschema => ?_, fun name f hf => hready.tree ▸ Assembly.Input.isConfig_of_field hstate hbuild hd hf⟩
    obtain ⟨id, hkept, hbuilt⟩ := Assembly.Input.schema_of_directory hbuild hd hschema
    have hfinds := hready.finds (Table.get?_filter_eq_some_iff.mp hkept).1
    exact ⟨id, hfinds, hready.tree ▸ hbuilt.path, hready.tree ▸ Assembly.Input.isConfig_of_kept hstate hkept⟩
  · intro a h
    obtain ⟨input, hprepare, ha⟩ := generate_eq_ok h
    have hready := ready_of_prepare hprepare
    have hsame : input.under .uncompressed = input := by
      rw [Assembly.Input.under, hready.settings, ← hready.settings]
    rw [← hsame] at hready ha
    obtain ⟨b, hb⟩ := Assembly.Input.build_excludeState ha
    refine ⟨b, ?_, hready.restricts ha hb⟩
    have hprepare' : prepare t { s with compression := .uncompressedExcludeState } =
        (prepare t { s with compression := .uncompressed }).map (·.under .uncompressedExcludeState) :=
      @prepare_under t { s with compression := .uncompressed } .uncompressedExcludeState rfl (fun _ => rfl) fun _ => rfl
    rw [hprepare, Except.map] at hprepare'
    rw [generate_of_prepare hprepare', hb]

/-- A container with a leaf, and with state of both kinds. -/
def stateInContainer : Library :=
  let leaf (name : String) (config : Option Bool) : NodeDocument :=
    ⟨name, .leaf, [], some (.ofKind .string), none, config, none, none⟩
  let container (name : String) (config : Option Bool) (children : List NodeDocument) : NodeDocument :=
    ⟨name, .container, children, none, none, config, none, none⟩
  .ofList [("m", ⟨⟨"m", "urn:m", none, [],
    [container "top" none [leaf "set" none, leaf "seen" (some false), container "counters" (some false) [leaf "in" none]]]⟩,
    "m.json", false⟩)]

theorem stateInContainer_left_out : ∃ t a b, stateInContainer.tree = .ok t ∧
    t.generate GenerateSettings.default = some (.ok a) ∧
    t.generate { GenerateSettings.default with compression := .uncompressedExcludeState } = some (.ok b) ∧
    Restricts t GenerateSettings.default a b ∧ (∃ d, a.directories.get? "/m/top/counters" = some d) ∧
    b.directories.get? "/m/top/counters" = none ∧
    ∃ d f, b.directories.get? "/m/top" = some d ∧ d.fields.get? "set" = some f ∧ t.isConfig f.node = true := by
  have hfull : ((field? stateInContainer GenerateSettings.default "/m/top" "seen").any fun r =>
      r.2.1.directories.contains "/m/top/counters") = true := by
    decide +kernel
  have hrestricted : ((field? stateInContainer { GenerateSettings.default with compression := .uncompressedExcludeState }
      "/m/top" "set").any fun r => (r.2.1.directories.get? "/m/top/counters").isNone) = true := by
    decide +kernel
  obtain ⟨⟨t, a, _, _⟩, hfield, hcounters⟩ := (Option.any_eq_true ..).mp hfull
  obtain ⟨⟨t', b, d, f⟩, hfield', hnone⟩ := (Option.any_eq_true ..).mp hrestricted
  obtain ⟨ht, ha, -, -⟩ := field?_eq_some hfield
  obtain ⟨ht', hb, hd, hf⟩ := field?_eq_some hfield'
  obtain rfl : t = t' := Except.ok.inj (ht.symm.trans ht')
  obtain ⟨b', hb', hrestricts⟩ := (state_left_out t GenerateSettings.default).2 a ha
  obtain rfl : b = b' := Except.ok.inj (Option.some.inj (hb.symm.trans hb'))
  obtain ⟨-, hconfig⟩ :=
    (state_left_out t { GenerateSettings.default with compression := .uncompressedExcludeState }).1 rfl b hb _ d hd
  exact ⟨t, a, b, ht, ha, hb, hrestricts, Table.contains_iff.mp hcounters, Option.isNone_iff_eq_none.mp hnone, d, f, hd, hf,
    hconfig _ f hf⟩

end Generation

end SchemaIr
