import Mathlib.Data.Set.Card
import SchemaIr.Leafref.Index
import SchemaIr.Proofs.Schema.Search
import SchemaIr.Proofs.Schema.Unshadowed
import SchemaIr.Proofs.Table.Lookup

/-! # What the index of a tree has

The index of a tree that grew has the leaves and leaf-lists below the roots of its modules (`Indexed`), shadowed ones
included, but not those below the root of a module that another one has replaced. There is one entry for each of their
paths, which is one of the leaves of this path (`ofTree_exact`). -/

namespace SchemaIr

theorem Table.encard_names {α : Type} (t : Table α) : {name | name ∈ t.names}.encard = t.size := by
  have hnames : {name | name ∈ t.names} = (t.names.toFinset : Set String) := by ext; simp
  rw [hnames, Set.encard_coe_eq_coe_finsetCard, List.toFinset_card_of_nodup t.names_nodup, Table.names, List.length_map]
  rfl

namespace LeafIndex
variable {t : SchemaTree} {leaf id : NodeId} {path : String}

/-! ### The leaves of a tree -/

/-- A leaf or leaf-list whose topmost ancestor is the root of a module. -/
structure Indexed (t : SchemaTree) (id : NodeId) : Prop where
  isLeafLike : (t.kind id).isLeafLike = true
  rooted : ∃ name root, t.roots.get? name = some root ∧ (t.lineage id).getLast? = some root

theorem mem_allLeaves_iff (h : t.Grown) : id ∈ allLeaves t ↔ Indexed t id := by
  -- A root has nothing above it, so it is on the way up from a node only as the last one.
  have htop : ∀ {name root}, t.roots.get? name = some root →
      (root ∈ t.lineage id ↔ (t.lineage id).getLast? = some root) := by
    intro name root hroot
    have hnone := (h.rootsListed.root hroot).2.1
    refine ⟨fun hmem => ?_, List.mem_of_getLast?⟩
    rw [SchemaTree.top_of_mem hmem, SchemaTree.lineage_of_root hnone]
    rfl
  rw [allLeaves, List.mem_filter, List.mem_flatMap]
  constructor
  · rintro ⟨⟨root, hroot, hmem⟩, hkind⟩
    obtain ⟨name, hname⟩ := Table.mem_values_iff.mp hroot
    exact ⟨hkind, name, root, hname, (htop hname).mp (SchemaTree.mem_family_iff.mp hmem)⟩
  · rintro ⟨hkind, name, root, hname, hlast⟩
    refine ⟨⟨root, Table.mem_values_iff.mpr ⟨name, hname⟩, SchemaTree.mem_family_iff.mpr ?_⟩, hkind⟩
    exact (htop hname).mpr hlast

/-! ### The leaves of the index -/

theorem mem_allLeaves_of_leaf? (h : (ofTree t).leaf? path = some leaf) :
    leaf ∈ allLeaves t ∧ t.pathString leaf = path := by
  rw [leaf?, ofTree, Table.get?_ofList] at h
  obtain ⟨id, hid, heq⟩ := List.mem_map.mp (List.mem_reverse.mp (Entries.mem_of_find? h))
  obtain ⟨hpath, rfl⟩ := Prod.mk.inj heq
  exact ⟨hid, hpath⟩

/-- The index has leaves, and knows each by its own path. -/
theorem leaf?_eq_some (h : (ofTree t).leaf? path = some leaf) :
    t.pathString leaf = path ∧ (t.kind leaf).isLeafLike = true := by
  obtain ⟨hmem, hpath⟩ := mem_allLeaves_of_leaf? h
  exact ⟨hpath, (List.mem_filter.mp hmem).2⟩

theorem exists_leaf?_of_mem (h : id ∈ allLeaves t) : ∃ leaf, (ofTree t).leaf? (t.pathString id) = some leaf := by
  refine Option.ne_none_iff_exists'.mp fun hnone => ?_
  rw [leaf?, ofTree, Table.get?_ofList] at hnone
  refine Entries.find?_eq_none_iff.mp hnone (t.pathString id, id) (List.mem_reverse.mpr ?_) rfl
  exact List.mem_map.mpr ⟨id, h, rfl⟩

theorem exists_leaf?_iff (h : t.Grown) :
    (∃ leaf, (ofTree t).leaf? path = some leaf) ↔ ∃ id, Indexed t id ∧ t.pathString id = path := by
  constructor
  · rintro ⟨leaf, hleaf⟩
    obtain ⟨hmem, hpath⟩ := mem_allLeaves_of_leaf? hleaf
    exact ⟨leaf, (mem_allLeaves_iff h).mp hmem, hpath⟩
  · rintro ⟨id, hid, rfl⟩
    exact exists_leaf?_of_mem ((mem_allLeaves_iff h).mpr hid)

theorem leaf?_eq_some_iff (h : t.Grown)
    (hpaths : ∀ a b, Indexed t a → Indexed t b → t.pathString a = t.pathString b → a = b) :
    (ofTree t).leaf? path = some leaf ↔ Indexed t leaf ∧ t.pathString leaf = path := by
  constructor
  · intro hleaf
    obtain ⟨hmem, hpath⟩ := mem_allLeaves_of_leaf? hleaf
    exact ⟨(mem_allLeaves_iff h).mp hmem, hpath⟩
  · rintro ⟨hindexed, rfl⟩
    obtain ⟨found, hfound⟩ := exists_leaf?_of_mem ((mem_allLeaves_iff h).mpr hindexed)
    obtain ⟨hmem, hpath⟩ := mem_allLeaves_of_leaf? hfound
    rw [hfound, hpaths found leaf ((mem_allLeaves_iff h).mp hmem) hindexed hpath]

theorem encard_paths (h : t.Grown) :
    {path | ∃ id, Indexed t id ∧ t.pathString id = path}.encard = (ofTree t).size := by
  have hnames : {path | ∃ id, Indexed t id ∧ t.pathString id = path} = {name | name ∈ (ofTree t).leaves.names} :=
    Set.ext fun path => (exists_leaf?_iff h).symm.trans Table.mem_names_iff.symm
  rw [hnames, Table.encard_names]
  rfl

/-- The searches that build the index of a tree come to an end. It has a leaf at a path exactly if there is a leaf or
    leaf-list with this path below the root of a module, and then it has one of these; there are as many entries as
    different paths of them; and if no two of them share a path, each is found by its own. -/
theorem ofTree_exact (h : t.Grown) :
    (∀ name root, t.roots.get? name = some root → ∃ last, Relation.ReflTransGen (Search.Looks t) (.start root) last ∧
        last.stack = [] ∧ last.found.reverse = t.family root) ∧
      (∀ path, (∃ id, (ofTree t).leaf? path = some id) ↔ ∃ id, Indexed t id ∧ t.pathString id = path) ∧
      (∀ path id, (ofTree t).leaf? path = some id → Indexed t id ∧ t.pathString id = path) ∧
      {path | ∃ id, Indexed t id ∧ t.pathString id = path}.encard = (ofTree t).size ∧
      ((∀ a b, Indexed t a → Indexed t b → t.pathString a = t.pathString b → a = b) →
        ∀ id, Indexed t id → (ofTree t).leaf? (t.pathString id) = some id) := by
  refine ⟨fun name root _ => ?_, fun path => exists_leaf?_iff h, fun path id hid => ?_, encard_paths h,
    fun hpaths id hid => (leaf?_eq_some_iff h hpaths).mpr ⟨hid, rfl⟩⟩
  · obtain ⟨last, hlooks, hend, hrun⟩ := Search.exists_end t (.start root)
    exact ⟨last, hlooks, hend, hrun.symm⟩
  · obtain ⟨hmem, hpath⟩ := mem_allLeaves_of_leaf? hid
    exact ⟨(mem_allLeaves_iff h).mp hmem, hpath⟩

/-- A module with a leaf, which a later module of the same name replaces. In that one a leaf shadows another. -/
def replaced : SchemaTree :=
  (((((SchemaTree.empty.addModule ⟨"m", "urn:m", none, false⟩).addChild 0 (.ofKind "a" .leaf "m")).addModule
    ⟨"m", "urn:m", none, false⟩).addChild 2 (.ofKind "c" .container "m")).addChild 3 (.ofKind "x" .leaf "m")).addChild 3
      (.ofKind "x" .leaf "m")

theorem replaced_exact : replaced.Grown ∧ (ofTree replaced).leaf? "/m/a" = none ∧
    (∃ id, (ofTree replaced).leaf? "/m/c/x" = some id ∧ Indexed replaced id) ∧
    {path | ∃ id, Indexed replaced id ∧ replaced.pathString id = path}.encard = 1 := by
  have hgrown : replaced.Grown :=
    .addChild _ _ (.addChild _ _ (.addChild _ _ (.addModule _ (.addChild _ _ (.addModule _ .empty)))))
  obtain ⟨-, hfound, hindexed, hsize, -⟩ := ofTree_exact hgrown
  have hleaf : (ofTree replaced).leaf? "/m/c/x" = some 5 := by decide +kernel
  have hone : (ofTree replaced).size = 1 := by decide +kernel
  refine ⟨hgrown, by decide +kernel, ⟨5, hleaf, (hindexed _ _ hleaf).1⟩, ?_⟩
  rw [hsize, hone]
  rfl

end LeafIndex
end SchemaIr
