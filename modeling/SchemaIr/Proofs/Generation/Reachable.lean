import SchemaIr.Proofs.Directory.Candidates
import SchemaIr.Proofs.Generation.Excluded
import SchemaIr.Proofs.Generation.Image
import SchemaIr.Proofs.Ir.Names

/-! # What the fake root reaches

From the fake root the fields lead on from directory to directory (`Ir.Reaches`). What a directory owns is a field of it
unless another candidate takes the name, and what no directory owns is a field of the fake root if it counts as
top-level. So a directory is reached exactly if nothing of the two goes wrong for it and for the directories above it
(`CutOff`), as long as no wrapper stands right inside a merged one. -/

namespace SchemaIr

/-- The directory at a path is the fake root, or a field of a reached directory names it. -/
inductive Ir.Reaches (ir : Ir) : String → Prop
  | root {d : Directory} : ir.directories.get? FakeRoot.path = some d → ir.Reaches FakeRoot.path
  | follow {path path' name : String} {d d' : Directory} {f : Field} : ir.Reaches path →
      ir.directories.get? path = some d → d.fields.get? name = some f → f.kind = .container ∨ f.kind = .list →
      f.directory = some d'.name → ir.directories.get? path' = some d' → ir.Reaches path'

namespace Generation
open Discovery (isMerged)
open Fields (StateClosed isDeepWrapper owner? candidates isKept)
open SchemaTree (DistinctPaths Offers Opens Reached Regular)

variable {t : SchemaTree} {s : GenerateSettings} {input : Assembly.Input} {ir : Ir}

/-! ### Owners of reached nodes -/

theorem owner_of_opens (ht : t.Regular) {compress : Bool} {q : NodeId} (hq : Opens t q) :
    ∃ p, (if isMerged t compress q then owner? t compress q else some q) = some p ∧ Opens t p ∧
      isMerged t compress p = false := by
  induction q using Nat.strongRecOn with
  | ind q ih =>
    cases hmerged : isMerged t compress q with
    | false => exact ⟨q, rfl, hq, hmerged⟩
    | true =>
      rw [if_pos rfl]
      rcases hq with hroot | ⟨hreached, -⟩
      · have hkind := Discovery.kind_of_mem_generationRoots ht hroot
        simp [isMerged, Discovery.isElided, SchemaTree.isConfigOrState, SchemaTree.isListWrapper,
          SchemaTree.wrappedList?, hkind] at hmerged
      · obtain ⟨p, hp, hoffers⟩ := hreached.exists_opens
        rw [Fields.owner?_of_offers ht (Fields.opens_isChoiceOrCase ht hp) hoffers]
        exact ih p hoffers.bounds.1 hp

/-- What is reached has an owner, and that opens. -/
theorem exists_owner (ht : t.Regular) (compress : Bool) {id : NodeId} (hid : Reached t id) :
    ∃ p, owner? t compress id = some p ∧ Opens t p ∧ isMerged t compress p = false := by
  obtain ⟨q, hq, hoffers⟩ := hid.exists_opens
  rw [Fields.owner?_of_offers ht (Fields.opens_isChoiceOrCase ht hq) hoffers]
  exact owner_of_opens ht hq

/-! ### Nodes that have a directory -/

/-- A node that is shown, and not left out as state. -/
structure Stands (t : SchemaTree) (s : GenerateSettings) (id : NodeId) : Prop extends Shown t s id where
  included : isKept t s.compression.excludesState id = true

theorem Ready.stands_of_get?_kept (h : Ready t s input) (ht : t.Regular) {path : String} {id : NodeId}
    (hget : input.kept.get? path = some (.schema id)) : Stands t s id ∧ t.pathString id = path := by
  obtain ⟨hfound, hkept⟩ := h.foundAt_of_get?_kept ht hget
  exact ⟨⟨hfound.shown ht, hkept⟩, hfound.path⟩

theorem Ready.get?_kept_of_stands (h : Ready t s input) (ht : t.Regular) (hpaths : t.DistinctPaths) {id : NodeId}
    (hid : Stands t s id) : input.kept.get? (t.pathString id) = some (.schema id) := by
  obtain ⟨e, he⟩ := (h.exists_directory_iff ht).mpr ⟨id, hid.toShown, rfl⟩
  obtain ⟨_, heq, hfound⟩ := FoundAt.of_get? ht (h.finds he)
  cases heq
  obtain rfl := hpaths.directory_unique hfound.kind hid.kind hfound.path
  refine Table.get?_filter_eq_some_iff.mpr ⟨he, ?_⟩
  simpa only [Assembly.Input.keeps, h.tree, h.settings] using hid.included

/-! ### Directories that are cut off -/

/-- Why no field leads to a directory from the one above: none owns it, and it does not count as top-level; or another
    candidate of its name comes first. -/
inductive CutOff (t : SchemaTree) (s : GenerateSettings) (id : NodeId) : Prop
  | top : (∀ dir, owner? t s.compression.compresses id = some dir → (t.kind dir).isDirectory = false) →
      FakeRoot.isTopLevel t (discovered t s.compression.compresses) s.compression.compresses (t.pathString id) id = false →
      CutOff t s id
  | taken {dir : NodeId} {c : Fields.Candidate} : owner? t s.compression.compresses id = some dir →
      (t.kind dir).isDirectory = true →
      (candidates t s.compression dir).find? (fun c => t.name c.node = t.name id) = some c → c.node ≠ id →
      CutOff t s id

/-- Neither the directory nor one above it is cut off. -/
def Connected (t : SchemaTree) (s : GenerateSettings) (id : NodeId) : Prop :=
  ∀ a ∈ t.lineage id, (t.kind a).isDirectory = true → isMerged t s.compression.compresses a = false → ¬CutOff t s a

theorem Connected.of_owner {p id : NodeId} (howner : owner? t s.compression.compresses id = some p) (hid : ¬CutOff t s id)
    (hp : ∀ a ∈ t.lineage p, (t.kind a).isDirectory = true → isMerged t s.compression.compresses a = false →
      ¬CutOff t s a) : Connected t s id := by
  intro a ha hkind hmerged
  rw [SchemaTree.lineage_eq] at ha
  rcases List.mem_cons.mp ha with rfl | ha
  · exact hid
  · rcases Fields.mem_ancestors_cases howner ha with habove | hchoice | hmerged'
    · exact hp a habove hkind hmerged
    · rw [NodeKind.isChoiceOrCase_of_isDirectory hkind] at hchoice
      cases hchoice
    · rw [hmerged] at hmerged'
      cases hmerged'

/-! ### Fields that lead on -/

/-- What owns a top-level directory is the root of a module. -/
theorem mem_generationRoots_of_topLevel (ht : t.Regular) {id p : NodeId} (hkind : (t.kind id).isDirectory = true)
    (htop : FakeRoot.isTopLevel t (discovered t s.compression.compresses) s.compression.compresses (t.pathString id) id = true)
    (howner : owner? t s.compression.compresses id = some p) (hopens : Opens t p)
    (hmerged : isMerged t s.compression.compresses p = false) : p ∈ t.generationRoots := by
  refine hopens.resolve_right fun ⟨hreached, hdir⟩ => ?_
  have hmem := (Discovery.directory_mem_findings_iff ht).mpr ⟨hreached, hdir, hmerged⟩
  obtain ⟨e, he⟩ := Discovery.exists_get?_directories (t := t) hmem
  exact FakeRoot.owner?_ne_of_topDirectory ht htop (NodeKind.isChoiceOrCase_of_isDirectory hkind) hreached he howner

theorem connected_of_topLevel (ht : t.Regular) {id : NodeId} (hreached : Reached t id)
    (hkind : (t.kind id).isDirectory = true)
    (htop : FakeRoot.isTopLevel t (discovered t s.compression.compresses) s.compression.compresses (t.pathString id) id =
      true) : Connected t s id := by
  obtain ⟨p, howner, hopens, hmerged⟩ := exists_owner ht s.compression.compresses hreached
  have hroot := mem_generationRoots_of_topLevel ht hkind htop howner hopens hmerged
  have hmodule := Discovery.kind_of_mem_generationRoots ht hroot
  refine .of_owner howner (fun hcut => ?_) fun a ha hdir _ => ?_
  · cases hcut with
    | top _ hnot =>
      rw [htop] at hnot
      cases hnot
    | taken howner' hdir _ _ =>
      rw [howner] at howner'
      cases howner'
      rw [hmodule] at hdir
      cases hdir
  · rw [SchemaTree.lineage_of_root (SchemaTree.parent?_of_mem_generationRoots ht hroot), List.mem_singleton] at ha
    rw [ha, hmodule] at hdir
    cases hdir

/-- Where fields lead to, nothing is cut off. -/
theorem connected_of_field (h : Prepared t s input) (hready : Ready t s input) (ht : t.Regular) (hs : s.excludeModules = [])
    (hbuild : (input.build ∅).1 = some (.ok ir)) {path name : String} {d : Directory} {f : Field}
    (hd : ir.directories.get? path = some d) (hf : d.fields.get? name = some f)
    (hkind : (t.kind f.node).isDirectory = true)
    (habove : ∀ id, input.kept.get? path = some (.schema id) → Connected t s id) : Connected t s f.node := by
  rcases Assembly.Input.built_of_directory hbuild hd with ⟨id, hkept, hbuilt⟩ | ⟨rootName, nodes, hkept, hbuilt⟩
  · obtain ⟨hname, howner, -⟩ := hready.owned_of_field ht hkept hbuilt hf
    have hfield := (hready.exists_field_iff ht hkept hbuilt).mp ⟨f, hf, rfl⟩
    refine .of_owner howner (fun hcut => ?_) (habove id hkept)
    cases hcut with
    | top hnone _ =>
      have hdir := (hready.stands_of_get?_kept ht hkept).1.kind
      rw [hnone id howner] at hdir
      cases hdir
    | taken howner' _ hfind hne =>
      rw [howner] at howner'
      cases howner'
      have hfirst := hfield.first
      rw [← hname, hfind] at hfirst
      exact hne (Option.some.inj hfirst)
  · rw [hbuilt.fields] at hf
    obtain ⟨hnode, -⟩ := Assembly.Input.exists_field_iff.mp ⟨f, hf, rfl⟩
    rcases h.mem_entities hkept (Table.get?_filter_eq_some_iff.mp hnode).1 with htop | hleaf
    · obtain ⟨path', hget, htop⟩ := FakeRoot.isTopLevel_of_mem htop
      obtain ⟨_, heq, hmem, rfl⟩ := Discovery.get?_directories_eq_some hget
      cases heq
      exact connected_of_topLevel ht ((Discovery.directory_mem_findings_iff ht).mp hmem).1 hkind htop
    · rw [hs] at hleaf
      have hleafKind := (FakeRoot.mem_topLeaves.mp hleaf).2
      cases hk : t.kind f.node <;> rw [hk] at hleafKind hkind <;> cases hleafKind <;> cases hkind

theorem connected_of_reaches (h : Prepared t s input) (hready : Ready t s input) (ht : t.Regular)
    (hpaths : t.DistinctPaths) (hs : s.excludeModules = []) (hbuild : (input.build ∅).1 = some (.ok ir)) {path : String}
    (hpath : ir.Reaches path) : ∀ id, input.kept.get? path = some (.schema id) → Connected t s id := by
  induction hpath with
  | root _ =>
    intro id hkept
    obtain ⟨hstands, hpath⟩ := hready.stands_of_get?_kept ht hkept
    exact absurd hpath (pathString_ne_root ht hstands.reached)
  | @follow path path' name d d' f _ hd hf hk hdirectory hd' ih =>
    intro id hkept
    obtain ⟨-, hkind, hname⟩ := h.kept_of_field ht hs hbuild hd hf hk
    rw [hdirectory, eq_comm] at hname
    have hplace := (Assembly.Input.assigned_names input ∅).injective hname (Assembly.Input.name_of_directory hbuild hd')
    obtain ⟨hstands, rfl⟩ := hready.stands_of_get?_kept ht hkept
    obtain rfl := hpaths.directory_unique hkind hstands.kind hplace
    exact connected_of_field h hready ht hs hbuild hd hf hkind ih

/-- A field for a node leads to the directory of the node. -/
theorem reaches_of_field (h : Ready t s input) (ht : t.Regular) (hpaths : t.DistinctPaths) (hbuild : (input.build ∅).1 = some (.ok ir))
    {path name : String} {d : Directory} {f : Field} (hreaches : ir.Reaches path) (hd : ir.directories.get? path = some d)
    (hf : d.fields.get? name = some f) (hstands : Stands t s f.node) : ir.Reaches (t.pathString f.node) := by
  obtain ⟨hkind, hdirectory⟩ := Assembly.Input.field_of_directory hbuild hd hf
  rw [h.tree] at hkind hdirectory
  have hk := FieldKind.container_or_list hkind hstands.kind
  obtain ⟨d', hd', hname⟩ := Assembly.Input.exists_directory hbuild (h.get?_kept_of_stands ht hpaths hstands)
  exact .follow hreaches hd hf hk ((hdirectory.trans (if_pos hstands.kind)).trans hname) hd'

/-- The fake root has a field for a top-level directory. -/
theorem reaches_of_topLevel (h : Prepared t s input) (hready : Ready t s input) (ht : t.Regular) (hpaths : t.DistinctPaths)
    (hs : s.excludeModules = []) (hroot : s.withFakeRoot = true) (hbuild : (input.build ∅).1 = some (.ok ir)) {id : NodeId}
    (hstands : Stands t s id)
    (htop : FakeRoot.isTopLevel t (discovered t s.compression.compresses) s.compression.compresses (t.pathString id) id =
      true) : ir.Reaches (t.pathString id) := by
  obtain ⟨rootName, fields, hget, hfields⟩ := exists_fakeRoot hroot h.directories
  have hentity : fields.get? (t.name id) = some id := by
    refine (hfields _ _).mpr ⟨List.mem_append_left _ (List.mem_filterMap.mpr ?_), rfl⟩
    have hfound : (discovered t s.compression.compresses).get? (t.pathString id) = some (.schema id) := by
      have hkept := hready.get?_kept_of_stands ht hpaths hstands
      obtain ⟨_, heq, hfound, -⟩ := (h.get?_kept (pathString_ne_root ht hstands.reached)).mp hkept
      cases heq
      exact hfound
    exact ⟨_, Table.get?_eq_some_iff.mp hfound, by simp [htop]⟩
  have hkept : input.kept.get? FakeRoot.path = some (.fakeRoot rootName fields) :=
    Table.get?_filter_eq_some_iff.mpr ⟨hget, rfl⟩
  obtain ⟨d, hd, -⟩ := Assembly.Input.exists_directory hbuild hkept
  rcases Assembly.Input.built_of_directory hbuild hd with ⟨_, hschema, -⟩ | ⟨_, _, hkept', hbuilt⟩
  · rw [hkept] at hschema
    cases hschema
  · rw [hkept] at hkept'
    cases hkept'
    have hnode : (fields.filter fun _ id => input.keeps id).get? (t.name id) = some id := by
      refine Table.get?_filter_eq_some_iff.mpr ⟨hentity, ?_⟩
      simpa only [Assembly.Input.keeps, h.tree, h.settings] using hstands.included
    have hincluded : input.tree.isExcluded input.settings.excludeModules id = false := by
      rw [h.settings, hs, SchemaTree.isExcluded_nil]
    have hkind := FieldKind.exists_of_isDirectory hstands.kind
    obtain ⟨f, hf, rfl⟩ := Assembly.Input.exists_field_iff.mpr ⟨hnode, hincluded, h.tree.symm ▸ hkind⟩
    exact reaches_of_field hready ht hpaths hbuild (.root hd) hd (hbuilt.fields ▸ hf) hstands

/-- A directory that stands has the fields that its node has. -/
theorem Ready.exists_field (h : Ready t s input) (ht : t.Regular) (hpaths : t.DistinctPaths)
    (hbuild : (input.build ∅).1 = some (.ok ir)) {p c : NodeId} (hp : Stands t s p) {name : String} (hc : FieldOf t s p name c) :
    ∃ d f, ir.directories.get? (t.pathString p) = some d ∧ d.fields.get? name = some f ∧ f.node = c := by
  have hkept := h.get?_kept_of_stands ht hpaths hp
  obtain ⟨d, hd, -⟩ := Assembly.Input.exists_directory hbuild hkept
  rcases Assembly.Input.built_of_directory hbuild hd with ⟨_, hschema, hbuilt⟩ | ⟨_, _, hroot, -⟩
  · rw [hkept] at hschema
    cases hschema
    obtain ⟨f, hf, hnode⟩ := (h.exists_field_iff ht hkept hbuilt).mpr hc
    exact ⟨d, f, hd, hf, hnode⟩
  · rw [hkept] at hroot
    cases hroot

/-- A directory that is not cut off is a field of the one that owns it. -/
theorem fieldOf_of_owner (ht : t.Regular) (hstate : StateClosed t) (hs : s.excludeModules = []) {id p : NodeId}
    (hid : Stands t s id) (hdeep : ∀ a ∈ t.ancestors id, isDeepWrapper t s.compression.compresses a = false)
    (howner : owner? t s.compression.compresses id = some p) (hp : (t.kind p).isDirectory = true)
    (hnot : ¬CutOff t s id) : FieldOf t s p (t.name id) id := by
  obtain ⟨c, hc, rfl⟩ := Fields.exists_candidate ht hstate hid.kind hid.kept hid.included hdeep howner
  refine ⟨?_, by rw [hs, SchemaTree.isExcluded_nil], FieldKind.exists_of_isDirectory hid.kind⟩
  cases hfind : (candidates t s.compression p).find? fun b => t.name b.node = t.name c.node with
  | none => exact absurd (by simp) (List.find?_eq_none.mp hfind c hc)
  | some first => exact congrArg some (Classical.byContradiction fun hne => hnot (.taken howner hp hfind hne))

/-- What is connected is reached, as long as no wrapper stands right inside a merged one. -/
theorem reaches_of_connected (h : Prepared t s input) (hready : Ready t s input) (ht : t.Regular)
    (hpaths : t.DistinctPaths) (hstate : StateClosed t) (hs : s.excludeModules = []) (hroot : s.withFakeRoot = true)
    (hbuild : (input.build ∅).1 = some (.ok ir)) {id : NodeId} (hid : Stands t s id) (hconnected : Connected t s id)
    (hdeep : ∀ a ∈ t.ancestors id, isDeepWrapper t s.compression.compresses a = false) :
    ir.Reaches (t.pathString id) := by
  induction id using Nat.strongRecOn with
  | ind id ih =>
    obtain ⟨p, howner, hopens, hmerged⟩ := exists_owner ht s.compression.compresses hid.reached
    have hself : id ∈ t.lineage id := by
      rw [SchemaTree.lineage_eq]
      exact List.mem_cons_self
    have hnot : ¬CutOff t s id := hconnected id hself hid.kind hid.kept
    have habove : p ∈ t.ancestors id := Fields.mem_ancestors_of_owner? howner
    rcases hopens with hrootNode | ⟨hreached, hdir⟩
    · refine reaches_of_topLevel h hready ht hpaths hs hroot hbuild hid ((Bool.not_eq_false _).mp fun htop => hnot ?_)
      refine .top (fun d hd => ?_) htop
      rw [howner] at hd
      cases hd
      rw [Discovery.kind_of_mem_generationRoots ht hrootNode]
      rfl
    · have hp : Stands t s p :=
        ⟨⟨hreached, hdir, hmerged, hs ▸ Discovery.passes_nil t p⟩, hstate.isKept hid.included habove⟩
      have hmem : p ∈ t.lineage id := by
        rw [SchemaTree.lineage_eq]
        exact List.mem_cons_of_mem _ habove
      have hlineage := (SchemaTree.lineage_suffix_of_mem hmem).subset
      have hreaches := ih p (SchemaTree.lt_of_mem_ancestors habove) hp (fun a ha => hconnected a (hlineage ha))
        fun a ha => hdeep a (SchemaTree.ancestors_subset habove ha)
      have hfield := fieldOf_of_owner ht hstate hs hid hdeep howner hdir hnot
      obtain ⟨d, f, hd, hf, rfl⟩ := hready.exists_field ht hpaths hbuild hp hfield
      exact reaches_of_field hready ht hpaths hbuild hreaches hd hf hid

/-- In a result with the fake root every directory has a node, and if no wrapper stands right inside a merged one
    above it, then it is reached exactly if neither it nor a directory above it is cut off. -/
theorem reaches_iff_connected (ht : t.Loaded) (hpaths : t.DistinctPaths) (hstate : StateClosed t)
    (hs : s.excludeModules = []) (hroot : s.withFakeRoot = true) (h : t.generate s = some (.ok ir)) {path : String}
    {d : Directory} (hd : ir.directories.get? path = some d) (hpath : path ≠ FakeRoot.path) :
    ∃ id, t.pathString id = path ∧ d.path = t.dataPath id ∧ (t.kind id).isDirectory = true ∧
      ((∀ a ∈ t.ancestors id, isDeepWrapper t s.compression.compresses a = false) →
        (ir.Reaches path ↔ Connected t s id)) := by
  have hregular := ht.regular
  obtain ⟨input, hprepare, hbuild⟩ := generate_eq_ok h
  have hready := ready_of_prepare hprepare
  have hprepared := prepare_eq_ok hs hprepare
  rcases Assembly.Input.built_of_directory hbuild hd with ⟨id, hkept, hbuilt⟩ | ⟨_, _, hkept, -⟩
  · obtain ⟨hstands, rfl⟩ := hready.stands_of_get?_kept hregular hkept
    refine ⟨id, rfl, hready.tree ▸ hbuilt.path, hstands.kind, fun hdeep => ⟨fun hreaches => ?_, fun hconnected => ?_⟩⟩
    · exact connected_of_reaches hprepared hready hregular hpaths hs hbuild hreaches id hkept
    · exact reaches_of_connected hprepared hready hregular hpaths hstate hs hroot hbuild hstands hconnected hdeep
  · obtain ⟨_, hschema, -⟩ := (hprepared.get?_kept hpath).mp hkept
    cases hschema

/-- A wrapper at the top level, and one in a container, each with a container in it. -/
def topWrapper : Library :=
  let leaf (name : String) : NodeDocument := ⟨name, .leaf, [], some (.ofKind .string), none, none, none, none⟩
  let container (name : String) (children : List NodeDocument) : NodeDocument :=
    ⟨name, .container, children, none, none, none, none, none⟩
  .ofList [("m", ⟨⟨"m", "urn:m", none, [],
    [container "config" [container "foo" [leaf "x"]],
      container "top" [container "config" [container "bar" [leaf "y"]]]]⟩, "m.json", false⟩)]

theorem topWrapper_run : ∃ t ir, topWrapper.tree = .ok t ∧ t.Loaded ∧ t.DistinctPaths ∧ StateClosed t ∧
    (∀ a < t.size, isDeepWrapper t true a = false) ∧ t.generate rootedSettings = some (.ok ir) ∧
      (∃ d, ir.directories.get? "/m/top/config/bar" = some d) ∧ ∃ d, ir.directories.get? "/m/config/foo" = some d ∧
        ∀ path dir name f, ir.directories.get? path = some dir → dir.fields.get? name = some f →
          f.directory ≠ some d.name := by
  have hrun : (topWrapper.tree.toOption.any fun t => (result? (t.generate rootedSettings)).any fun ir =>
      (t.ids.all fun a => t.ids.all fun b => (t.kind a).isChoiceOrCase || (t.kind b).isChoiceOrCase ||
        t.pathString a != t.pathString b || a == b) &&
      (t.ids.all fun id => !t.isConfig id || (t.ancestors id).all t.isConfig) &&
      (t.ids.all fun a => !isDeepWrapper t true a) && (ir.directories.get? "/m/top/config/bar").isSome &&
      ((ir.directories.get? "/m/config/foo").any fun d =>
        ir.directories.values.all fun dir => dir.fields.values.all fun f => f.directory != some d.name)) = true := by
    decide +kernel
  obtain ⟨t, ht, hrun⟩ := (Option.any_eq_true ..).mp hrun
  obtain ⟨ir, hir, hfacts⟩ := (Option.any_eq_true ..).mp hrun
  simp only [Bool.and_eq_true] at hfacts
  obtain ⟨⟨⟨⟨hdistinct, hstate⟩, hdeep⟩, hbar⟩, hfoo⟩ := hfacts
  obtain ⟨d, hd, hfree⟩ := (Option.any_eq_true ..).mp hfoo
  have htree := ok_of_toOption ht
  refine ⟨t, ir, htree, ⟨topWrapper, Library.Named.empty.insert rfl, htree⟩, .of_ids hdistinct, .of_ids hstate,
    fun a ha => ?_, some_ok_of_result? hir, Option.isSome_iff_exists.mp hbar, d, hd, fun path dir name f hdir hf => ?_⟩
  · simpa using List.all_eq_true.mp hdeep a (List.mem_range.mpr ha)
  · have hdir' := List.all_eq_true.mp hfree dir (Table.mem_values_iff.mpr ⟨path, hdir⟩)
    simpa using List.all_eq_true.mp hdir' f (Table.mem_values_iff.mpr ⟨name, hf⟩)

theorem topWrapper_bar_reached_iff : ∃ t ir id, topWrapper.tree = .ok t ∧ t.DistinctPaths ∧ StateClosed t ∧
    t.generate rootedSettings = some (.ok ir) ∧ t.pathString id = "/m/top/config/bar" ∧
      (ir.Reaches "/m/top/config/bar" ↔ Connected t rootedSettings id) := by
  obtain ⟨t, ir, htree, ht, hpaths, hstate, hdeep, hir, ⟨d, hd⟩, -⟩ := topWrapper_run
  obtain ⟨id, hpath, -, hkind, hiff⟩ := reaches_iff_connected ht hpaths hstate rfl rfl hir hd (by decide)
  refine ⟨t, ir, id, htree, hpaths, hstate, hir, hpath, hiff fun a ha => hdeep a ?_⟩
  exact Nat.lt_trans (SchemaTree.lt_of_mem_ancestors ha) (SchemaTree.lt_size_of_isDirectory hkind)

/-- The container in the wrapper at the top level is not reached: its path is four segments long, and it is no list. -/
theorem topWrapper_foo_not_reached : ∃ t ir d, topWrapper.tree = .ok t ∧ t.Loaded ∧ t.DistinctPaths ∧ StateClosed t ∧
    t.generate rootedSettings = some (.ok ir) ∧ ir.directories.get? "/m/config/foo" = some d ∧
      ¬ir.Reaches "/m/config/foo" := by
  obtain ⟨t, ir, htree, ht, hpaths, hstate, -, hir, -, d, hd, hfree⟩ := topWrapper_run
  refine ⟨t, ir, d, htree, ht, hpaths, hstate, hir, hd, fun hreaches => ?_⟩
  generalize hpath : "/m/config/foo" = path at hreaches hd
  cases hreaches with
  | root _ => exact absurd hpath (by decide)
  | follow _ hdir hf _ hdirectory hd' =>
    rw [hd] at hd'
    cases hd'
    exact hfree _ _ _ _ hdir hf hdirectory

end Generation

end SchemaIr
