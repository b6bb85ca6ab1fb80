import SchemaIr.Proofs.Directory.Fields
import SchemaIr.Proofs.Generation.Prepare
import SchemaIr.Proofs.Ir.Built
import SchemaIr.Proofs.Loading.Loaded

/-! # The directories of fields

A field that is a container or list names the directory at the path of its node (`Leads`). Two passes have to
agree on it: discovery, which finds the directories, and the choice of the fields. They do, except for a
wrapper right inside a wrapper, which is a field but no directory, and for a directory in whose place
another one of the same path stands that is left out as state (`Lost`). -/

namespace SchemaIr

namespace Generation
open SchemaTree (Reached Regular)
open Fields (isNestedWrapper Kept)

variable {t : SchemaTree} {s : GenerateSettings} {input : Assembly.Input} {ir : Ir}

/-- The result has a directory at the path of a field's node, and the field names it. -/
def Leads (t : SchemaTree) (ir : Ir) (f : Field) : Prop :=
  ∃ name d, f.directory = some name ∧ ir.directories.get? (t.pathString f.node) = some d ∧ d.name = name

/-- A container or list without a directory of its own: a wrapper right inside a wrapper, where no directory
    stands at its path; or, where state is left out, one at whose path a directory stands that is state. -/
def Lost (t : SchemaTree) (compression : Compression) (id : NodeId) : Prop :=
  isNestedWrapper t compression.compresses id = true ∧
      (discovered t compression.compresses).get? (t.pathString id) = none ∨
    compression.excludesState = true ∧
      ∃ d, (discovered t compression.compresses).get? (t.pathString id) = some (.schema d) ∧ t.isConfig d = false

/-! ### Nodes of fields -/

/-- The fields of the fake root are top-level entities. -/
theorem Prepared.mem_entities (h : Prepared t s input) {path name : String} {fields : Table NodeId}
    (hget : input.kept.get? path = some (.fakeRoot name fields)) {n : String} {id : NodeId}
    (hid : fields.get? n = some id) :
    id ∈ FakeRoot.topDirectories t (discovered t s.compression.compresses) s.compression.compresses ∨
      id ∈ FakeRoot.topLeaves t t.generationRoots s.excludeModules := by
  have hget := (Table.get?_filter_eq_some_iff.mp hget).1
  obtain ⟨-, hfrom⟩ := root_of_addFakeRoot h.directories hget
  exact List.mem_append.mp (hfrom n id hid).1

theorem isDirectory_of_fieldKind {kind : NodeKind} {fieldKind : FieldKind}
    (h : FieldKind.ofNode? kind = some fieldKind) (hk : fieldKind = .container ∨ fieldKind = .list) :
    kind.isDirectory = true := by
  cases kind <;> rcases hk with rfl | rfl <;> simp_all [FieldKind.ofNode?, NodeKind.isDirectory]

/-- The node of a field that is a container or list is reached, and merged only if it is a nested wrapper; and
    the field names what has a name at its path. -/
theorem Prepared.kept_of_field (h : Prepared t s input) (ht : t.Regular) (hs : s.excludeModules = [])
    (hbuild : (input.build ∅).1 = some (.ok ir)) {path name : String} {dir : Directory} {f : Field}
    (hdir : ir.directories.get? path = some dir) (hf : dir.fields.get? name = some f)
    (hk : f.kind = .container ∨ f.kind = .list) :
    Kept t s.compression.compresses f.node ∧ (t.kind f.node).isDirectory = true ∧
      f.directory = (input.names ∅).1.get? (t.pathString f.node) := by
  rcases Assembly.Input.built_of_directory hbuild hdir with ⟨id, hkept, hbuilt⟩ | ⟨rootName, nodes, hkept, hbuilt⟩
  · obtain ⟨hopens, -, hkeep⟩ := h.of_get?_kept ht hkept
    obtain ⟨nodes, hnodes, hfields⟩ := hbuilt.fields
    rw [hfields] at hf
    obtain ⟨node, hnode, rfl, hkind, hdirectory⟩ := Assembly.Input.get?_buildFields hf
    rw [h.tree] at hkind hdirectory
    rw [h.tree, h.settings] at hnodes
    obtain ⟨c, hc, hcnode, -⟩ := SchemaTree.mem_candidates_of_fields hnodes hkeep hnode
    exact ⟨hcnode ▸ Fields.kept_of_candidate ht hopens hc, isDirectory_of_fieldKind hkind hk, hdirectory hk⟩
  · rw [hbuilt.fields] at hf
    obtain ⟨node, hnode, rfl, hkind, hdirectory⟩ := Assembly.Input.get?_buildFields hf
    rw [h.tree] at hkind hdirectory
    have hisdir := isDirectory_of_fieldKind hkind hk
    refine ⟨?_, hisdir, hdirectory hk⟩
    rcases h.mem_entities hkept (Table.get?_filter_eq_some_iff.mp hnode).1 with htop | hleaf
    · obtain ⟨path', hpath'⟩ := FakeRoot.mem_topDirectories htop
      obtain ⟨d, hd, hmem, -⟩ := Discovery.get?_directories_eq_some hpath'
      cases hd
      obtain ⟨hreached, -, hmerged⟩ := (Discovery.directory_mem_findings_iff ht).mp hmem
      exact ⟨hreached, fun htrue => by rw [hmerged] at htrue; cases htrue⟩
    · rw [hs] at hleaf
      have hleafKind := (FakeRoot.mem_topLeaves.mp hleaf).2
      cases hkk : t.kind f.node <;> rw [hkk] at hleafKind hisdir <;> cases hleafKind <;> cases hisdir

/-- A field leads to its directory exactly where a directory is kept at the path of its node. -/
theorem Prepared.leads_iff (h : Prepared t s input) (ht : t.Regular) (hbuild : (input.build ∅).1 = some (.ok ir))
    {f : Field} (hreached : Reached t f.node)
    (hf : f.directory = (input.names ∅).1.get? (t.pathString f.node)) :
    Leads t ir f ↔ ∃ d, (discovered t s.compression.compresses).get? (t.pathString f.node) = some (.schema d) ∧
      Fields.isKept t s.compression.excludesState d = true := by
  have hpath := pathString_ne_root ht hreached
  constructor
  · rintro ⟨-, d, -, hd, -⟩
    obtain ⟨mapped, hkept, -⟩ := Assembly.Input.kept_of_directory hbuild hd
    obtain ⟨id, -, hid⟩ := (h.get?_kept hpath).mp hkept
    exact ⟨id, hid⟩
  · rintro ⟨id, hid, hkeep⟩
    obtain ⟨d, hd, hname⟩ :=
      Assembly.Input.exists_directory hbuild ((h.get?_kept hpath).mpr ⟨id, rfl, hid, hkeep⟩)
    exact ⟨d.name, d, hf.trans hname, hd, rfl⟩

/-! ### Fields and directories -/

/-- In a result without exclusions, a field that is a container or list leads to its directory exactly where its
    node is not lost. -/
theorem leads_iff_not_lost (ht : t.Loaded) (hs : s.excludeModules = []) (h : t.generate s = some (.ok ir))
    {path name : String} {dir : Directory} {f : Field} (hdir : ir.directories.get? path = some dir)
    (hf : dir.fields.get? name = some f) (hk : f.kind = .container ∨ f.kind = .list) :
    Leads t ir f ↔ ¬Lost t s.compression f.node := by
  have hregular := ht.regular
  obtain ⟨input, hprepare, hbuild⟩ := generate_eq_ok h
  have hprepared := prepare_eq_ok hs hprepare
  obtain ⟨⟨hreached, hnested⟩, hkind, hdirectory⟩ := hprepared.kept_of_field hregular hs hbuild hdir hf hk
  rw [hprepared.leads_iff hregular hbuild hreached hdirectory]
  constructor
  · rintro ⟨d, hd, hkeep⟩ (⟨-, hnone⟩ | ⟨hstate, d', hd', hconfig⟩)
    · rw [hd] at hnone
      cases hnone
    · rw [hd] at hd'
      cases hd'
      simp [Fields.isKept, hstate, hconfig] at hkeep
  · intro hlost
    cases hget : (discovered t s.compression.compresses).get? (t.pathString f.node) with
    | none =>
      -- Without a directory at its path the node was not found, which is so only for nested wrappers.
      refine absurd (.inl ⟨hnested ?_, hget⟩) hlost
      refine (Bool.not_eq_false _).mp fun hmerged => ?_
      have hmem := (Discovery.directory_mem_findings_iff hregular).mpr ⟨hreached, hkind, hmerged⟩
      obtain ⟨e, he⟩ := Discovery.exists_get?_directories (t := t) hmem
      rw [discovered, found, he] at hget
      cases hget
    | some mapped =>
      obtain ⟨d, rfl, -⟩ := Discovery.get?_directories_eq_some hget
      refine ⟨d, rfl, (Bool.not_eq_false _).mp fun hkeep => hlost (.inr ?_)⟩
      simp only [Fields.isKept, Bool.or_eq_false_iff, Bool.not_eq_false'] at hkeep
      exact ⟨hkeep.1, d, hget, hkeep.2⟩

/-- A wrapper right inside a wrapper, beside a container that is none. -/
def nestedWrappers : Library :=
  let string := some (TypeDescriptor.ofKind .string)
  let leaf (name : String) : NodeDocument := ⟨name, .leaf, [], string, none, none, none, none⟩
  let container (name : String) (children : List NodeDocument) : NodeDocument :=
    ⟨name, .container, children, none, none, none, none, none⟩
  .ofList [("m", ⟨⟨"m", "urn:m", none, [],
    [container "base" [container "config" [container "state" [leaf "x"]], container "sub" [leaf "y"]]]⟩,
    "m.json", false⟩)]

theorem nestedWrappers_named : nestedWrappers.Named := Library.Named.empty.insert rfl

/-- The field of a directory in the result for a library, by the path of the directory and its name. -/
def field? (lib : Library) (s : GenerateSettings) (path name : String) : Option (SchemaTree × Ir × Directory × Field) := do
  let t ← lib.tree.toOption
  let ir ← (result? (t.generate s))
  let dir ← ir.directories.get? path
  let f ← dir.fields.get? name
  pure (t, ir, dir, f)

theorem field?_eq_some {lib : Library} {path name : String} {r : SchemaTree × Ir × Directory × Field}
    (h : field? lib s path name = some r) : lib.tree = .ok r.1 ∧ r.1.generate s = some (.ok r.2.1) ∧
      r.2.1.directories.get? path = some r.2.2.1 ∧ r.2.2.1.fields.get? name = some r.2.2.2 := by
  simp only [field?, bind, pure, Option.bind_eq_some_iff] at h
  obtain ⟨t, ht, ir, hir, dir, hdir, f, hf, hr⟩ := h
  cases hr
  exact ⟨ok_of_toOption ht, some_ok_of_result? hir, hdir, hf⟩

theorem nestedWrappers_sub_leads : ∃ t ir dir f, t.Loaded ∧
    t.generate { GenerateSettings.default with compression := .preferConfig } = some (.ok ir) ∧
      ir.directories.get? "/m/base" = some dir ∧ dir.fields.get? "sub" = some f ∧ f.kind = .container ∧
      (Leads t ir f ↔ ¬Lost t .preferConfig f.node) := by
  have hrun : (field? nestedWrappers { GenerateSettings.default with compression := .preferConfig } "/m/base" "sub").map
      (fun r => r.2.2.2.kind) = some .container := by
    decide +kernel
  obtain ⟨⟨t, ir, dir, f⟩, hfield, hkind⟩ := Option.map_eq_some_iff.mp hrun
  obtain ⟨ht, hir, hdir, hf⟩ := field?_eq_some hfield
  have hloaded : t.Loaded := ⟨nestedWrappers, nestedWrappers_named, ht⟩
  exact ⟨t, ir, dir, f, hloaded, hir, hdir, hf, hkind, leads_iff_not_lost hloaded rfl hir hdir hf (.inl hkind)⟩

/-- The inner one of two nested wrappers is a field that names no directory. -/
theorem nestedWrappers_state_has_no_directory : ∃ t ir, nestedWrappers.tree = .ok t ∧ t.Loaded ∧
    t.generate { GenerateSettings.default with compression := .preferConfig } = some (.ok ir) ∧
      ¬∀ path dir name f, ir.directories.get? path = some dir → dir.fields.get? name = some f →
        f.kind = .container ∨ f.kind = .list → Leads t ir f := by
  have hrun : (field? nestedWrappers { GenerateSettings.default with compression := .preferConfig } "/m/base"
      "state").map (fun r => (r.2.2.2.kind, r.2.2.2.directory)) = some (.container, none) := by
    decide +kernel
  obtain ⟨⟨t, ir, dir, f⟩, hfield, hf⟩ := Option.map_eq_some_iff.mp hrun
  obtain ⟨hkind, hnone⟩ := Prod.mk.inj hf
  obtain ⟨ht, hir, hdir, hget⟩ := field?_eq_some hfield
  refine ⟨t, ir, ht, ⟨nestedWrappers, nestedWrappers_named, ht⟩, hir, fun hall => ?_⟩
  obtain ⟨name, -, hname, -⟩ := hall _ _ _ _ hdir hget (.inl hkind)
  rw [hnone] at hname
  cases hname

end Generation

end SchemaIr
