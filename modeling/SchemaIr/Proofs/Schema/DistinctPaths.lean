import SchemaIr.Proofs.Schema.DataTree
import SchemaIr.Proofs.Text.Pieces

/-! # Distinct paths

Most of what is said of directories and fields is said of nodes that are told apart by their paths, as they stand in the
keys of a result (`DistinctPaths`) or segment by segment (`DistinctDataPaths`). -/

namespace SchemaIr

/-- No two nodes of the data tree share a path. -/
def SchemaTree.DistinctPaths (t : SchemaTree) : Prop :=
  ∀ a b, a < t.size → b < t.size → (t.kind a).isChoiceOrCase = false → (t.kind b).isChoiceOrCase = false →
    t.pathString a = t.pathString b → a = b

/-- No two nodes of the data tree have the same segments in their paths. Where names have slashes in them, the paths
    may be the same even so. -/
def SchemaTree.DistinctDataPaths (t : SchemaTree) : Prop :=
  ∀ a b, a < t.size → b < t.size → (t.kind a).isChoiceOrCase = false → (t.kind b).isChoiceOrCase = false →
    t.dataPath a = t.dataPath b → a = b

namespace SchemaTree.DistinctPaths
variable {t : SchemaTree}

/-- A node offers no two nodes of one name. -/
theorem offers_unique (h : t.DistinctPaths) (ht : t.Regular) {p a b : NodeId} (ha : Offers t p a) (hb : Offers t p b)
    (hname : t.name a = t.name b) : a = b := by
  refine h a b ha.bounds.2 hb.bounds.2 ha.isChoiceOrCase hb.isChoiceOrCase ?_
  rw [pathString, pathString, ha.dataPath ht, hb.dataPath ht, hname]

theorem directory_unique (h : t.DistinctPaths) {a b : NodeId} (ha : (t.kind a).isDirectory = true)
    (hb : (t.kind b).isDirectory = true) (hpath : t.pathString a = t.pathString b) : a = b :=
  h a b (lt_size_of_isDirectory ha) (lt_size_of_isDirectory hb) (NodeKind.isChoiceOrCase_of_isDirectory ha)
    (NodeKind.isChoiceOrCase_of_isDirectory hb) hpath

theorem of_ids (h : (t.ids.all fun a => t.ids.all fun b => (t.kind a).isChoiceOrCase || (t.kind b).isChoiceOrCase ||
    t.pathString a != t.pathString b || a == b) = true) : t.DistinctPaths := by
  intro a b ha hb hka hkb hpath
  have hpair := List.all_eq_true.mp (List.all_eq_true.mp h a (List.mem_range.mpr ha)) b (List.mem_range.mpr hb)
  simpa [hka, hkb, hpath] using hpair

theorem distinctDataPaths (h : t.DistinctPaths) : t.DistinctDataPaths := fun a b ha hb hka hkb hpath =>
  h a b ha hb hka hkb (congrArg "/".intercalate hpath)

end SchemaTree.DistinctPaths

/-! ### Names without slashes -/

namespace SchemaTree
variable {t : SchemaTree} (hnames : ∀ id, id < t.size → '/' ∉ (t.name id).toList)
include hnames

theorem slash_notMem_dataPath {c : NodeId} (hc : c < t.size) : ∀ segment ∈ t.dataPath c, '/' ∉ segment.toList := by
  intro segment hsegment
  rw [dataPath_eq] at hsegment
  rcases List.mem_cons.mp hsegment with rfl | hsegment
  · exact List.not_mem_nil
  · obtain ⟨id, hid, rfl⟩ := List.mem_map.mp (List.mem_reverse.mp hsegment)
    exact hnames id (Nat.lt_of_le_of_lt (le_of_mem_lineage (List.mem_filter.mp hid).1) hc)

/-- Where no name has a slash in it, paths are as distinct as their segments. -/
theorem DistinctDataPaths.distinctPaths (h : t.DistinctDataPaths) : t.DistinctPaths := fun a b ha hb hka hkb hpath =>
  h a b ha hb hka hkb (Text.intercalate_inj rfl (dataPath_ne_nil t a) (dataPath_ne_nil t b)
    (slash_notMem_dataPath hnames ha) (slash_notMem_dataPath hnames hb) hpath)

end SchemaTree

end SchemaIr
