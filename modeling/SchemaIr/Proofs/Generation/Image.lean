import SchemaIr.Proofs.Directory.Ownership
import SchemaIr.Proofs.Generation.Found
import SchemaIr.Proofs.Generation.Targets
import SchemaIr.Proofs.Schema.DistinctPaths

/-! # The uncompressed image of the data tree

Without compression, exclusions and the fake root, a result is the image of the data tree: its directories are the
containers and lists that are reached (`Included`), the fields of each are the nodes right below it, and a field
that is a container or list names its directory (`uncompressed_image`). Where state is left out, all this is so for
configuration alone. No two nodes may share a path, and that the run succeeds rules out nodes of unknown kinds. -/

namespace SchemaIr

namespace Fields
open SchemaTree (Offers Regular)

variable {t : SchemaTree} {compression : Compression} {dir : NodeId}

/-- Without compression the candidates of a node are what it offers. -/
theorem mem_candidates_iff (ht : t.Regular) (hcomp : compression.compresses = false) {c : Candidate} :
    c ∈ candidates t compression dir ↔
      c.origin = .direct ∧ Offers t dir c.node ∧ isKept t compression.excludesState c.node = true := by
  constructor
  · intro hc
    obtain ⟨hc, hkept⟩ := List.mem_filter.mp hc
    rw [sources, if_neg (Bool.eq_false_iff.mp hcomp)] at hc
    obtain ⟨d, hd, hc⟩ := List.mem_flatMap.mp hc
    exact ⟨(mem_resolve_iff.mp hc).1, offers_of_resolve hd hc, hkept⟩
  · rintro ⟨horigin, hoffers, hkept⟩
    have hmem : ⟨c.node, .direct⟩ ∈ candidates t compression dir :=
      direct_mem_candidates ht hoffers (by simp [givesWay, hcomp]) hkept
    rwa [← horigin] at hmem

/-- Without compression the fields of a node are what it offers. -/
theorem get?_fields_iff (ht : t.Regular) (hpaths : t.DistinctPaths) (hcomp : compression.compresses = false)
    {nodes : Table NodeId} (hnodes : t.fields compression dir = .ok nodes)
    (hdir : isKept t compression.excludesState dir = true) {name : String} {a : NodeId} :
    nodes.get? name = some a ↔ Offers t dir a ∧ isKept t compression.excludesState a = true ∧ t.name a = name := by
  constructor
  · intro ha
    obtain ⟨c, hc, rfl, hname⟩ := SchemaTree.mem_candidates_of_fields hnodes hdir ha
    obtain ⟨-, hoffers, hkept⟩ := (mem_candidates_iff ht hcomp).mp hc
    exact ⟨hoffers, hkept, hname⟩
  · rintro ⟨hoffers, hkept, rfl⟩
    have hmem : ⟨a, .direct⟩ ∈ candidates t compression dir := (mem_candidates_iff ht hcomp).mpr ⟨rfl, hoffers, hkept⟩
    rw [SchemaTree.fields_eq_ok hnodes hdir]
    cases hfind : (candidates t compression dir).find? fun c => t.name c.node = t.name a with
    | none => exact absurd (by simp) (List.find?_eq_none.mp hfind _ hmem)
    | some first =>
      -- The first candidate of the name is the only one.
      obtain ⟨-, hfirst, -⟩ := (mem_candidates_iff ht hcomp).mp (List.mem_of_find?_eq_some hfind)
      have hname : t.name first.node = t.name a := by simpa using List.find?_some hfind
      rw [Option.map_some, hpaths.offers_unique ht hfirst hoffers hname]

end Fields

namespace Generation
open SchemaTree (AllOpen DistinctPaths Offers Reached Regular)

variable {t : SchemaTree} {s : GenerateSettings} {input : Assembly.Input} {ir : Ir}

/-! ### Included nodes -/

/-- A container or list that belongs into the result: everything above it is open, and it is configuration where state
    is left out. -/
structure Included (t : SchemaTree) (s : GenerateSettings) (id : NodeId) : Prop where
  kind : (t.kind id).isDirectory = true
  allOpen : t.AllOpen id
  config : s.compression.excludesState = true → t.isConfig id = true

/-- Settings without compression, exclusions and the fake root. -/
structure Plain (s : GenerateSettings) : Prop where
  compression : s.compression = .uncompressed ∨ s.compression = .uncompressedExcludeState
  excludeModules : s.excludeModules = []
  withFakeRoot : s.withFakeRoot = false

theorem Plain.compresses (h : Plain s) : s.compression.compresses = false := by
  rcases h.compression with hc | hc <;> rw [hc] <;> rfl

/-- What is included is assembled at its path, … -/
theorem Ready.get?_kept_of_included (h : Ready t s input) (ht : t.Regular) (hpaths : t.DistinctPaths) (hs : Plain s)
    {id : NodeId} (hid : Included t s id) : input.kept.get? (t.pathString id) = some (.schema id) := by
  have hdirectories := h.directories
  rw [addFakeRoot, hs.withFakeRoot] at hdirectories
  have hfound : .directory id ∈ foundWithout t s := by
    rw [foundWithout, hs.excludeModules, hs.compresses]
    exact (Discovery.directory_mem_findings_iff ht).mpr
      ⟨(SchemaTree.reached_iff ht hid.kind).mpr hid.allOpen, hid.kind, by simp [Discovery.isMerged, Discovery.isElided]⟩
  obtain ⟨e, he⟩ := Discovery.exists_get?_directories (t := t) hfound
  obtain ⟨_, heq, hstands⟩ := FoundAt.of_get? ht he
  cases heq
  obtain rfl := hpaths.directory_unique hstands.kind hid.kind hstands.path
  refine Table.get?_filter_eq_some_iff.mpr ⟨Except.ok.inj hdirectories ▸ he, ?_⟩
  simpa only [Assembly.Input.keeps, h.tree, h.settings] using Fields.isKept_iff.mpr hid.config

/-- … and nothing else is. -/
theorem Ready.included_of_get?_kept (h : Ready t s input) (ht : t.Regular) (hs : Plain s) {path : String}
    {m : MappedDirectory} (hget : input.kept.get? path = some m) :
    ∃ id, m = .schema id ∧ Included t s id ∧ t.pathString id = path := by
  have hdirectories := h.directories
  rw [addFakeRoot, hs.withFakeRoot] at hdirectories
  obtain ⟨hfound, -⟩ := Table.get?_filter_eq_some_iff.mp hget
  rw [← Except.ok.inj hdirectories] at hfound
  obtain ⟨id, rfl, hstands⟩ := FoundAt.of_get? ht hfound
  obtain ⟨-, hkept⟩ := h.foundAt_of_get?_kept ht hget
  exact ⟨id, rfl, ⟨hstands.kind, (SchemaTree.reached_iff ht hstands.kind).mp hstands.reached,
    Fields.isKept_iff.mp hkept⟩, hstands.path⟩

/-! ### Fields of included nodes -/

/-- The directory of an included node has fields for what the node offers. -/
theorem Ready.get?_fields_iff (h : Ready t s input) (ht : t.Regular) (hpaths : t.DistinctPaths) (hs : Plain s)
    {id : NodeId} (hid : Included t s id) {names : Table String} {path : String} {d : Directory}
    (hbuilt : Assembly.Input.SchemaBuilt input names path id d) {name : String} {c : NodeId} :
    (∃ f, d.fields.get? name = some f ∧ f.node = c) ↔
      Offers t id c ∧ (s.compression.excludesState = true → t.isConfig c = true) ∧ t.name c = name := by
  obtain ⟨nodes, hnodes, hfields⟩ := hbuilt.fields
  rw [h.tree, h.settings] at hnodes
  rw [hfields, Assembly.Input.exists_field_iff, h.tree, h.settings, hs.excludeModules, ← Fields.isKept_iff,
    ← Fields.get?_fields_iff ht hpaths hs.compresses hnodes (Fields.isKept_iff.mpr hid.config)]
  refine and_iff_left_of_imp fun hc => ⟨SchemaTree.isExcluded_nil t c, ?_⟩
  obtain ⟨hoffers, -⟩ := (Fields.get?_fields_iff ht hpaths hs.compresses hnodes (Fields.isKept_iff.mpr hid.config)).mp hc
  have hreached := (SchemaTree.reached_iff ht hid.kind).mpr hid.allOpen
  exact h.exists_fieldKind ht hs.excludeModules (SchemaTree.Opens.reached (.inr ⟨hreached, hid.kind⟩) hoffers)

/-! ### The image -/

/-- Where no two nodes share a path, a result without compression, exclusions and the fake root has exactly the
    included nodes for its directories; the directory of each has exactly the nodes right below it for its fields,
    under their names; and every field that is a container or list names the directory at its path. -/
theorem uncompressed_image (ht : t.Loaded) (hpaths : t.DistinctPaths) (hs : Plain s) (h : t.generate s = some (.ok ir)) :
    (∀ path, (∃ d, ir.directories.get? path = some d) ↔ ∃ id, Included t s id ∧ t.pathString id = path) ∧
      (∀ id d, Included t s id → ir.directories.get? (t.pathString id) = some d → ∀ name c,
        (∃ f, d.fields.get? name = some f ∧ f.node = c) ↔
          ((t.kind c).isChoiceOrCase = false ∧ t.dataParent? c = some id) ∧
            (s.compression.excludesState = true → t.isConfig c = true) ∧ t.name c = name) ∧
      ∀ path d name f, ir.directories.get? path = some d → d.fields.get? name = some f →
        f.kind = .container ∨ f.kind = .list →
          ∃ d', ir.directories.get? (t.pathString f.node) = some d' ∧ f.directory = some d'.name := by
  have hregular := ht.regular
  obtain ⟨input, hprepare, hbuild⟩ := generate_eq_ok h
  have hready := ready_of_prepare hprepare
  -- The directory at a path is built for the included node of that path.
  have hbuilt : ∀ {path d}, ir.directories.get? path = some d → ∃ id, Included t s id ∧ t.pathString id = path ∧
      Assembly.Input.SchemaBuilt input (input.names ∅).1 path id d := by
    intro path d hd
    rcases Assembly.Input.built_of_directory hbuild hd with ⟨id, hkept, hschema⟩ | ⟨_, _, hkept, -⟩
    · obtain ⟨id', heq, hid, hpath⟩ := hready.included_of_get?_kept hregular hs hkept
      cases heq
      exact ⟨id, hid, hpath, hschema⟩
    · obtain ⟨_, heq, -⟩ := hready.included_of_get?_kept hregular hs hkept
      cases heq
  refine ⟨fun path => ⟨?_, ?_⟩, fun id d hid hd name c => ?_, fun path d name f hd hf hk => ?_⟩
  · rintro ⟨d, hd⟩
    obtain ⟨id, hid, hpath, -⟩ := hbuilt hd
    exact ⟨id, hid, hpath⟩
  · rintro ⟨id, hid, rfl⟩
    obtain ⟨d, hd, -⟩ :=
      Assembly.Input.exists_directory hbuild (hready.get?_kept_of_included hregular hpaths hs hid)
    exact ⟨d, hd⟩
  · obtain ⟨id', hid', hpath, hschema⟩ := hbuilt hd
    obtain rfl := hpaths.directory_unique hid'.kind hid.kind hpath
    rw [hready.get?_fields_iff hregular hpaths hs hid hschema,
      SchemaTree.offers_iff hregular.matched (NodeKind.isChoiceOrCase_of_isDirectory hid.kind)]
  · obtain ⟨id, hid, -, hschema⟩ := hbuilt hd
    obtain ⟨hoffers, hconfig, -⟩ := (hready.get?_fields_iff hregular hpaths hs hid hschema).mp ⟨f, hf, rfl⟩
    have hprepared := prepare_eq_ok hs.excludeModules hprepare
    obtain ⟨⟨hreached, -⟩, hkind, hdirectory⟩ := hprepared.kept_of_field hregular hs.excludeModules hbuild hd hf hk
    have hincluded : Included t s f.node := ⟨hkind, (SchemaTree.reached_iff hregular hkind).mp hreached, hconfig⟩
    obtain ⟨d', hd', hname⟩ :=
      Assembly.Input.exists_directory hbuild (hready.get?_kept_of_included hregular hpaths hs hincluded)
    exact ⟨d', hd', hdirectory.trans hname⟩

/-- A container that a choice offers beside a leaf. -/
def choiceInContainer : Library :=
  let node (name : String) (kind : NodeKind) (children : List NodeDocument) : NodeDocument :=
    ⟨name, kind, children, none, none, none, none, none⟩
  let leaf (name : String) : NodeDocument :=
    ⟨name, .leaf, [], some (TypeDescriptor.ofKind .string), none, none, none, none⟩
  .ofList [("m", ⟨⟨"m", "urn:m", none, [],
    [node "top" .container
      [leaf "a", node "ch" .choice [node "one" .case [node "inner" .container [leaf "x"]]]]]⟩, "m.json", false⟩)]

theorem choiceInContainer_image : ∃ t ir, choiceInContainer.tree = .ok t ∧
    t.generate GenerateSettings.default = some (.ok ir) ∧ t.DistinctPaths ∧
      (∃ d, ir.directories.get? "/m/top/inner" = some d) ∧
        ∃ id, Included t GenerateSettings.default id ∧ t.pathString id = "/m/top/inner" := by
  have hrun : ((field? choiceInContainer GenerateSettings.default "/m/top/inner" "x").any fun r =>
      (List.range r.1.size).all fun a => (List.range r.1.size).all fun b =>
        (r.1.kind a).isChoiceOrCase || (r.1.kind b).isChoiceOrCase || r.1.pathString a != r.1.pathString b ||
          a == b) = true := by
    decide +kernel
  obtain ⟨⟨t, ir, d, f⟩, hfield, hdistinct⟩ := (Option.any_eq_true ..).mp hrun
  obtain ⟨ht, hir, hd, -⟩ := field?_eq_some hfield
  have hpaths : t.DistinctPaths := fun a b ha hb hka hkb hpath => by
    have hpair := List.all_eq_true.mp (List.all_eq_true.mp hdistinct a (List.mem_range.mpr ha)) b
      (List.mem_range.mpr hb)
    simpa [hka, hkb, hpath] using hpair
  have hloaded : t.Loaded := ⟨choiceInContainer, Library.Named.empty.insert rfl, ht⟩
  have himage := uncompressed_image hloaded hpaths ⟨.inl rfl, rfl, rfl⟩ hir
  exact ⟨t, ir, ht, hir, hpaths, ⟨d, hd⟩, (himage.1 "/m/top/inner").mp ⟨d, hd⟩⟩

end Generation

end SchemaIr
