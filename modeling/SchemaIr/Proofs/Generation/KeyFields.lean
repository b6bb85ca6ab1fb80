import SchemaIr.Proofs.Directory.Candidates
import SchemaIr.Proofs.Directory.Discovered
import SchemaIr.Proofs.Generation.Excluded
import SchemaIr.Proofs.ListKey.Keys
import SchemaIr.Proofs.Loading.Loaded

/-! # The fields of keys

Compression leaves the leafref keys of a writable list out of its fields and looks for the leaves that hold these keys
below the list. What holds a key has a field of its name if the list owns it and nothing stands in for it (`InPlace`), for
then it is a candidate of the list (`exists_candidate_of_holder`). A leaf is in place if it stands in the list, or in a
wrapper, choice or case of it (`inPlace_of_holder`). A leafref key that leads into any other child of the list goes astray
(`Astray`): compression leaves it out, and its leaf is no candidate (`entry_id_has_no_field`). -/

namespace SchemaIr

namespace Fields
open Discovery (isElided isMerged isMerged_of_child)
open ListKey (Holder LeadsBelow)
open SchemaTree (Offers Regular)

variable {t : SchemaTree} {compress : Bool} {compression : Compression} {dir w id : NodeId} {key : String}

/-- A directory owns a node, which stands for itself: it is no choice or case, and merged only if it is a wrapper right
    inside another one. -/
structure InPlace (t : SchemaTree) (compress : Bool) (dir id : NodeId) : Prop where
  owner : owner? t compress id = some dir
  data : (t.kind id).isChoiceOrCase = false
  kept : isMerged t compress id = true → isNestedWrapper t compress id = true

theorem isMerged_of_isLeafLike (h : (t.kind id).isLeafLike = true) : isMerged t compress id = false := by
  refine Discovery.isMerged_eq_false_iff.mpr (.inr (.inr ?_))
  unfold SchemaTree.isConfigOrState SchemaTree.isListWrapper SchemaTree.wrappedList?
  cases hkind : t.kind id <;> rw [hkind] at h <;> cases h <;> exact ⟨rfl, rfl⟩

theorem InPlace.of_isLeafLike (howner : owner? t compress id = some dir) (h : (t.kind id).isLeafLike = true) :
    InPlace t compress dir id :=
  ⟨howner, NodeKind.isChoiceOrCase_of_isLeafLike h, fun hmerged => by
    rw [isMerged_of_isLeafLike h] at hmerged
    cases hmerged⟩

/-! ### Candidates that hold keys -/

/-- A child in place is a candidate, unless it is a leafref and there is compression. -/
theorem candidate_of_child (ht : t.Regular) (hstate : compression.excludesState = false) (hdir : t.kind dir = .list)
    (hid : id ∈ t.children dir) (hplace : InPlace t compression.compresses dir id)
    (hplain : (compression.compresses && (t.node id).isLeafref) = false) :
    ⟨id, .direct⟩ ∈ candidates t compression dir := by
  have hunmerged : isElided t compression.compresses id = false := by
    rw [← isMerged_of_child ht _ hid (by rw [hdir]; rfl)]
    refine Bool.eq_false_iff.mpr fun hmerged => ?_
    have hnested := hplace.kept hmerged
    simp [isNestedWrapper, ht.parent_of_mem hid, SchemaTree.isConfigOrState, hdir] at hnested
  refine direct_mem_candidates ht (.child hid hplace.data) ?_ (by rw [hstate]; rfl)
  rw [givesWay, isOwnLeafrefKey]
  cases hcomp : compression.compresses with
  | false => rfl
  | true =>
    simp only [isElided, hcomp, Bool.true_and, Bool.or_eq_false_iff] at hunmerged hplain
    simp [hunmerged, hplain]

theorem candidate_of_below (ht : t.Regular) (hstate : compression.excludesState = false)
    (hcomp : compression.compresses = true) (hdir : (t.kind dir).isChoiceOrCase = false) (hw : w ∈ t.children dir)
    (hid : id ∈ t.children w) (hplace : InPlace t compression.compresses dir id) :
    ∃ c ∈ candidates t compression dir, c.node = id := by
  have hne : w ≠ dir := Nat.ne_of_gt (SchemaTree.mem_children_bounds hw).1
  -- As the directory owns the node, the child between them is a choice or case, a wrapper, or surrounds a list.
  by_cases hchoice : (t.kind w).isChoiceOrCase = true
  · refine ⟨⟨id, .direct⟩, direct_mem_candidates ht (.through hw hchoice (.child hid hplace.data)) ?_ ?_, rfl⟩
    · simp [givesWay, ht.parent_of_mem hid, hne]
    · rw [hstate]
      rfl
  · rw [Bool.not_eq_true] at hchoice
    have hmerged : isMerged t compression.compresses w = true := by
      refine (Bool.not_eq_false _).mp fun hkept => hne ?_
      have howner := hplace.owner
      rw [owner?_of_kept ht hchoice hkept (.child hid hplace.data)] at howner
      exact Option.some.inj howner
    rw [isMerged_of_child ht _ hw hdir] at hmerged
    simp only [isElided, hcomp, Bool.true_and, Bool.or_eq_true] at hmerged
    rw [candidates_eq_sources hstate]
    cases hwrapper : t.isConfigOrState w with
    | true =>
      have hlist : t.isListWrapper id = false := by
        refine Bool.eq_false_iff.mpr fun hlist => ?_
        have hnested := hplace.kept (by rw [isMerged_of_child ht _ hid hchoice]; simp [isElided, hcomp, hlist])
        simp [isNestedWrapper, hlist] at hnested
      have hkept : isKept t compression.excludesState w = true := by rw [hstate]; rfl
      exact ⟨_, mem_sources_of_wrapper hcomp hw hwrapper (mem_ofWrapper_of_child hkept hid hplace.data hlist), rfl⟩
    | false =>
      rw [hwrapper] at hmerged
      obtain ⟨list, hlist⟩ := Option.isSome_iff_exists.mp (hmerged.resolve_left Bool.false_ne_true)
      obtain rfl := eq_of_offers_wrappedList hlist (.child hid hplace.data)
      exact ⟨_, mem_sources_of_wrappedList hcomp hw hwrapper hlist, rfl⟩

theorem child_of_child? {name : String} (h : t.child? dir name = some id) : id ∈ t.children dir :=
  SchemaTree.mem_children_iff.mpr ⟨name, h⟩

theorem exists_candidate_of_holder (ht : t.Regular) (hstate : compression.excludesState = false)
    (hdir : t.kind dir = .list) (hholder : Holder t compression.compresses dir key id)
    (hfound : ¬ListKey.Lost t compression.compresses dir key) (hplace : InPlace t compression.compresses dir id) :
    ∃ c ∈ candidates t compression dir, c.node = id := by
  cases hholder with
  | self hchild hplain =>
    exact ⟨_, candidate_of_child ht hstate hdir (child_of_child? hchild) hplace hplain, rfl⟩
  | redirected hchild hleafref hleads =>
    obtain ⟨_, _, _, _, _, w, -, -, -, hw, hid⟩ := hleads
    have hcomp := (Bool.and_eq_true_iff.mp hleafref).1
    exact candidate_of_below ht hstate hcomp (by rw [hdir]; rfl) (child_of_child? hw) (child_of_child? hid) hplace
  | lost hchild hleafref hnone => exact absurd ⟨_, hchild, hleafref, hnone⟩ hfound

/-- A leaf that holds a key is in place if it is a child of the list, or of one of its wrappers, choices or cases. -/
theorem inPlace_of_holder (ht : t.Regular) (hdir : t.kind dir = .list) (hholder : Holder t compress dir key id)
    (hleaf : (t.kind id).isLeafLike = true) (hparent : ∀ p, t.parent? id = some p →
      p = dir ∨ t.isConfigOrState p = true ∨ (t.kind p).isChoiceOrCase = true) : InPlace t compress dir id := by
  have hdata : (t.kind dir).isChoiceOrCase = false := by rw [hdir]; rfl
  have hmerged : ∀ compress, isMerged t compress dir = false := fun _ => Discovery.isMerged_of_list hdir
  have hleafData := NodeKind.isChoiceOrCase_of_isLeafLike hleaf
  have hchild : id ∈ t.children dir → InPlace t compress dir id := fun hid =>
    .of_isLeafLike (owner?_of_kept ht hdata (hmerged _) (.child hid hleafData)) hleaf
  cases hholder with
  | self hself _ => exact hchild (child_of_child? hself)
  | lost hself _ _ => exact hchild (child_of_child? hself)
  | redirected _ hleafref hleads =>
    obtain ⟨_, _, _, _, _, w, -, -, -, hw, hid⟩ := hleads
    obtain rfl := (Bool.and_eq_true_iff.mp hleafref).1
    rcases hparent w (ht.parent_of_mem (child_of_child? hid)) with rfl | hwrapper | hchoice
    · exact hchild (child_of_child? hid)
    · refine .of_isLeafLike ?_ hleaf
      exact owner?_of_wrapper hdata (hmerged _) ht (child_of_child? hw) hwrapper (.child (child_of_child? hid) hleafData)
    · refine .of_isLeafLike (owner?_of_kept ht hdata (hmerged _) ?_) hleaf
      exact .through (child_of_child? hw) hchoice (.child (child_of_child? hid) hleafData)

/-- Compression redirects a leafref key into a child of its list that is neither a wrapper nor a choice or case. -/
structure Astray (t : SchemaTree) (compress : Bool) (list : NodeId) (key : String) (leaf : NodeId) : Prop where
  leafref : ∃ own, t.child? list key = some own ∧ (compress && (t.node own).isLeafref) = true
  outside : ∃ p, t.parent? leaf = some p ∧ p ≠ list ∧ t.isConfigOrState p = false ∧ (t.kind p).isChoiceOrCase = false

/-- A leaf that holds a key is in place unless the key goes astray. -/
theorem inPlace_of_not_astray (ht : t.Regular) (hdir : t.kind dir = .list) (hholder : Holder t compress dir key id)
    (hleaf : (t.kind id).isLeafLike = true) (hstraight : ¬Astray t compress dir key id) : InPlace t compress dir id := by
  refine inPlace_of_holder ht hdir hholder hleaf fun p hp => ?_
  have hchild : id ∈ t.children dir → p = dir := fun hid => Option.some.inj (hp.symm.trans (ht.parent_of_mem hid))
  cases hholder with
  | self hself _ => exact .inl (hchild (child_of_child? hself))
  | lost hself _ _ => exact .inl (hchild (child_of_child? hself))
  | redirected hself hleafref _ =>
    refine Classical.byContradiction fun hnot => hstraight ⟨⟨_, hself, hleafref⟩, p, hp, ?_⟩
    simpa only [not_or, Bool.not_eq_true] using hnot

end Fields

namespace Generation
open SchemaTree (Reached Regular)
open Fields (InPlace Astray candidates)
open ListKey (Holder)

variable {t : SchemaTree} {s : GenerateSettings} {input : Assembly.Input} {ir : Ir}

/-- Where nothing is excluded, a directory has fields under the names of its candidates. -/
theorem Ready.exists_field_iff_candidate (h : Ready t s input) (ht : t.Regular) (hs : s.excludeModules = [])
    {names : Table String} {path : String} {id : NodeId} {d : Directory}
    (hkept : input.kept.get? path = some (.schema id)) (hbuilt : Assembly.Input.SchemaBuilt input names path id d)
    {name : String} : (∃ f, d.fields.get? name = some f) ↔ ∃ c ∈ candidates t s.compression id, t.name c.node = name := by
  constructor
  · rintro ⟨f, hf⟩
    obtain ⟨hfirst, -, -⟩ := (h.exists_field_iff ht hkept hbuilt).mp ⟨f, hf, rfl⟩
    obtain ⟨c, hc, -⟩ := Option.map_eq_some_iff.mp hfirst
    exact ⟨c, List.mem_of_find?_eq_some hc, by simpa using List.find?_some hc⟩
  · rintro ⟨c, hc, rfl⟩
    obtain ⟨hstands, -⟩ := h.foundAt_of_get?_kept ht hkept
    cases hfind : (candidates t s.compression id).find? fun e => t.name e.node = t.name c.node with
    | none => exact absurd (by simp) (List.find?_eq_none.mp hfind c hc)
    | some first =>
      have hmem := List.mem_of_find?_eq_some hfind
      have hreached := (Fields.kept_of_candidate ht (.inr ⟨hstands.reached, hstands.kind⟩) hmem).1
      have hfield : FieldOf t s id (t.name c.node) first.node :=
        ⟨by rw [hfind]; rfl, by rw [hs, SchemaTree.isExcluded_nil], h.exists_fieldKind ht hs hreached⟩
      obtain ⟨f, hf, -⟩ := (h.exists_field_iff ht hkept hbuilt).mpr hfield
      exact ⟨f, hf⟩

/-- In a result that keeps state, without exclusions, a list has a field under the name of each node that holds one of its
    keys and is in place. Under that of a leaf it has one exactly if the key does not go astray, or another candidate
    bears the name. -/
theorem field_of_key_iff (ht : t.Loaded) (hs : s.excludeModules = []) (hstate : s.compression.excludesState = false)
    (h : t.generate s = some (.ok ir)) {path : String} {d : Directory} {keys : ListKeys}
    (hd : ir.directories.get? path = some d) (hkeys : d.keys = some keys) :
    ∃ list, t.kind list = .list ∧ t.pathString list = path ∧ ∀ key ∈ keys.keys, ∃ leaf,
      keys.nodes.get? key = some leaf ∧
      (InPlace t s.compression.compresses list leaf → ∃ f, d.fields.get? (t.name leaf) = some f) ∧
      ((t.kind leaf).isLeafLike = true → ((∃ f, d.fields.get? (t.name leaf) = some f) ↔
        (Astray t s.compression.compresses list key leaf →
          ∃ c ∈ candidates t s.compression list, t.name c.node = t.name leaf))) := by
  have hregular := ht.regular
  obtain ⟨input, hprepare, hbuild⟩ := generate_eq_ok h
  have hready := ready_of_prepare hprepare
  rcases Assembly.Input.built_of_directory hbuild hd with ⟨list, hkept, hbuilt⟩ | ⟨_, _, -, hroot⟩
  · obtain ⟨hstands, -⟩ := hready.foundAt_of_get?_kept hregular hkept
    obtain ⟨hlist, -, hsound, hcomplete⟩ :=
      ListKey.listKeys_eq_keys_iff.mp (Assembly.Input.listKeys_of_buildKeys (hbuilt.keys ▸ hkeys))
    simp only [Assembly.Input.types, hready.tree, hready.settings] at hlist hsound hcomplete
    refine ⟨list, hlist, hstands.path, fun key hkey => ?_⟩
    obtain ⟨leaf, _, hholder, hnode, -⟩ := hcomplete.entry key hkey
    have hfound := (hsound key (hcomplete.declared ▸ hkey)).1
    have hcandidate : InPlace t s.compression.compresses list leaf →
        ∃ c ∈ candidates t s.compression list, t.name c.node = t.name leaf := by
      intro hplace
      obtain ⟨c, hc, rfl⟩ := Fields.exists_candidate_of_holder hregular hstate hlist hholder hfound hplace
      exact ⟨c, hc, rfl⟩
    have hfield := @Ready.exists_field_iff_candidate _ _ _ hready hregular hs _ _ _ _ hkept hbuilt (t.name leaf)
    refine ⟨leaf, hnode, fun hplace => hfield.mpr (hcandidate hplace), fun hleaf => hfield.trans ?_⟩
    refine ⟨fun hnamed _ => hnamed, fun hnamed => ?_⟩
    by_cases hastray : Astray t s.compression.compresses list key leaf
    · exact hnamed hastray
    · exact hcandidate (Fields.inPlace_of_not_astray hregular hlist hholder hleaf hastray)
  · rw [hroot.keys] at hkeys
    cases hkeys

/-! ### Two keyed lists -/

/-- A list whose key is held in its wrapper, and one whose key is held in a container that is no wrapper. -/
def keyedLists : Library :=
  let leafref (path : String) : TypeDescriptor := { TypeDescriptor.ofKind .leafref with path := some path }
  let leaf (name : String) (type : TypeDescriptor) : NodeDocument := ⟨name, .leaf, [], some type, none, none, none, none⟩
  let container (name : String) (children : List NodeDocument) : NodeDocument :=
    ⟨name, .container, children, none, none, none, none, none⟩
  let list (name key : String) (children : List NodeDocument) : NodeDocument :=
    ⟨name, .list, children, none, some key, none, none, none⟩
  .ofList [("net", ⟨⟨"net", "urn:net", none, [],
    [list "port" "name" [leaf "name" (leafref "../config/name"), container "config" [leaf "name" (.ofKind .string)]],
      list "entry" "id" [leaf "id" (leafref "../data/id"), container "data" [leaf "id" (.ofKind .string)]]]⟩,
    "net.json", false⟩)]

theorem keyedLists_named : keyedLists.Named := Library.Named.empty.insert rfl

/-- The keys of a directory in the result for a library, and the node that holds one of them. -/
def heldKey? (lib : Library) (s : GenerateSettings) (path key : String) :
    Option (SchemaTree × Ir × Directory × ListKeys × NodeId) := do
  let t ← lib.tree.toOption
  let ir ← (result? (t.generate s))
  let d ← ir.directories.get? path
  let keys ← d.keys
  let leaf ← keys.nodes.get? key
  pure (t, ir, d, keys, leaf)

theorem heldKey?_eq_some {lib : Library} {path key : String} {r : SchemaTree × Ir × Directory × ListKeys × NodeId}
    (h : heldKey? lib s path key = some r) : lib.tree = .ok r.1 ∧ r.1.generate s = some (.ok r.2.1) ∧
      r.2.1.directories.get? path = some r.2.2.1 ∧ r.2.2.1.keys = some r.2.2.2.1 ∧
        r.2.2.2.1.nodes.get? key = some r.2.2.2.2 := by
  simp only [heldKey?, bind, pure, Option.bind_eq_some_iff] at h
  obtain ⟨t, ht, ir, hir, d, hd, keys, hkeys, leaf, hleaf, hr⟩ := h
  cases hr
  exact ⟨ok_of_toOption ht, some_ok_of_result? hir, hd, hkeys, hleaf⟩

theorem port_name_has_field : ∃ (t : SchemaTree) (ir : Ir) (d : Directory) (keys : ListKeys) (leaf : NodeId), t.Loaded ∧
    t.generate { GenerateSettings.default with compression := .preferConfig } = some (.ok ir) ∧
      ir.directories.get? "/net/port" = some d ∧ d.keys = some keys ∧ keys.nodes.get? "name" = some leaf ∧
      (t.parent? leaf).map t.name = some "config" ∧ ∃ f, d.fields.get? (t.name leaf) = some f := by
  have hrun : (heldKey? keyedLists { GenerateSettings.default with compression := .preferConfig } "/net/port" "name").map
      (fun (t, _, _, keys, leaf) => (keys.keys, (t.kind leaf).isLeafLike,
        (t.parent? leaf).map fun p => (t.name p, t.isConfigOrState p))) =
        some (["name"], true, some ("config", true)) := by
    decide +kernel
  obtain ⟨⟨t, ir, d, keys, leaf⟩, hheld, hrun⟩ := Option.map_eq_some_iff.mp hrun
  obtain ⟨ht, hir, hd, hkeys, hleaf⟩ := heldKey?_eq_some hheld
  obtain ⟨hdeclared, hkind, hparent⟩ := Prod.mk.inj hrun |>.imp_right Prod.mk.inj
  obtain ⟨p, hp, hconfig⟩ := Option.map_eq_some_iff.mp hparent
  obtain ⟨hname, hwrapper⟩ := Prod.mk.inj hconfig
  have hloaded : t.Loaded := ⟨keyedLists, keyedLists_named, ht⟩
  obtain ⟨list, -, -, hall⟩ := field_of_key_iff hloaded rfl rfl hir hd hkeys
  obtain ⟨leaf', hleaf', -, hfield⟩ := hall "name" (by rw [hdeclared]; exact List.mem_singleton_self _)
  obtain rfl := Option.some.inj (hleaf.symm.trans hleaf')
  refine ⟨t, ir, d, keys, leaf, hloaded, hir, hd, hkeys, hleaf, by rw [hp, Option.map_some, hname], ?_⟩
  refine (hfield hkind).mpr fun ⟨_, q, hq, _, hplain, _⟩ => ?_
  obtain rfl := Option.some.inj (hp.symm.trans hq)
  rw [hwrapper] at hplain
  cases hplain

/-- The leafref key of a list leads to a leaf in a container that is no wrapper. The result has it for the key, but the
    list has no field of its name. -/
theorem entry_id_has_no_field : ∃ (t : SchemaTree) (ir : Ir) (d : Directory) (keys : ListKeys) (leaf : NodeId), t.Loaded ∧
    t.generate { GenerateSettings.default with compression := .preferConfig } = some (.ok ir) ∧
      ir.directories.get? "/net/entry" = some d ∧ d.keys = some keys ∧ "id" ∈ keys.keys ∧
      keys.nodes.get? "id" = some leaf ∧ t.kind leaf = .leaf ∧ d.fields.get? (t.name leaf) = none := by
  have hrun : ((heldKey? keyedLists { GenerateSettings.default with compression := .preferConfig } "/net/entry" "id").any
      fun (t, _, d, keys, leaf) => keys.keys.contains "id" && t.kind leaf == .leaf &&
        (d.fields.get? (t.name leaf)).isNone) = true := by
    decide +kernel
  obtain ⟨⟨t, ir, d, keys, leaf⟩, hheld, hlacks⟩ := (Option.any_eq_true _ _).mp hrun
  obtain ⟨ht, hir, hd, hkeys, hleaf⟩ := heldKey?_eq_some hheld
  simp only [Bool.and_eq_true, List.contains_iff_mem, beq_iff_eq, Option.isNone_iff_eq_none] at hlacks
  obtain ⟨⟨hdeclared, hkind⟩, hnone⟩ := hlacks
  exact ⟨t, ir, d, keys, leaf, ⟨keyedLists, keyedLists_named, ht⟩, hir, hd, hkeys, hdeclared, hleaf, hkind, hnone⟩

end Generation

end SchemaIr
