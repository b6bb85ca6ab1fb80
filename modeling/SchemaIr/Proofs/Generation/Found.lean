import SchemaIr.Proofs.Directory.Fields
import SchemaIr.Proofs.Generation.Prepare

/-! # Directories that are found

Whatever is excluded, every node whose directory is assembled is found by discovery, at its own path (`FoundAt`). It is
then reached, and compression does not merge it. -/

namespace SchemaIr

namespace Generation
open SchemaTree (Reached Regular)

variable {t : SchemaTree} {s : GenerateSettings} {input : Assembly.Input}

/-- Discovery finds the directory of a node at the path. -/
def Finds (t : SchemaTree) (s : GenerateSettings) (path : String) (id : NodeId) : Prop :=
  (Discovery.directories t (foundWithout t s)).get? path = some (.schema id)

theorem Ready.finds (h : Ready t s input) {path : String} {id : NodeId}
    (hget : input.entities.directories.get? path = some (.schema id)) : Finds t s path id :=
  schema_of_addFakeRoot h.directories hget

/-- Discovery finds the directory of a node at the path of the node. -/
structure FoundAt (t : SchemaTree) (s : GenerateSettings) (path : String) (id : NodeId) : Prop where
  get? : (Discovery.directories t (foundWithout t s)).get? path = some (.schema id)
  path : t.pathString id = path
  reached : Reached t id
  kind : (t.kind id).isDirectory = true
  kept : Discovery.isMerged t s.compression.compresses id = false

theorem FoundAt.of_get? (ht : t.Regular) {path : String} {m : MappedDirectory}
    (h : (Discovery.directories t (foundWithout t s)).get? path = some m) : ∃ id, m = .schema id ∧ FoundAt t s path id := by
  obtain ⟨id, rfl, hmem, hpath⟩ := Discovery.get?_directories_eq_some h
  obtain ⟨hreached, hkind, hkept⟩ :=
    (Discovery.directory_mem_findings_iff ht).mp (Discovery.findings_subset ht s.excludeModules hmem)
  exact ⟨id, rfl, h, hpath, hreached, hkind, hkept⟩

theorem Ready.foundAt_of_get?_kept (h : Ready t s input) (ht : t.Regular) {path : String} {id : NodeId}
    (hget : input.kept.get? path = some (.schema id)) :
    FoundAt t s path id ∧ Fields.isKept t s.compression.excludesState id = true := by
  obtain ⟨hget, hkeep⟩ := Table.get?_filter_eq_some_iff.mp hget
  obtain ⟨_, heq, hfound⟩ := FoundAt.of_get? ht (h.finds hget)
  cases heq
  refine ⟨hfound, ?_⟩
  simpa only [Assembly.Input.keeps, h.tree, h.settings] using hkeep

/-- Where nothing is excluded, what is reached is of a kind that can be a field; any other would be told of. -/
theorem Ready.exists_fieldKind (h : Ready t s input) (ht : t.Regular) (hs : s.excludeModules = []) {c : NodeId}
    (hc : Reached t c) : ∃ kind, FieldKind.ofNode? (t.kind c) = some kind := by
  have hchoice : (t.kind c).isChoiceOrCase = false := by
    obtain ⟨p, -, hoffers⟩ := hc.exists_opens
    exact hoffers.isChoiceOrCase
  have hknown : .unknownKind c ∉ Discovery.own t s.compression.compresses c := fun hmem => by
    refine Bool.eq_false_iff.mp h.clean (Diagnostics.hasErrors_iff.mpr
      ⟨.unknownKind (t.pathString c) (t.kind c).name, List.mem_filterMap.mpr ⟨.unknownKind c, ?_, rfl⟩, rfl⟩)
    rw [foundWithout, hs]
    exact (Discovery.mem_findings_iff ht).mpr ⟨c, hc, hmem⟩
  unfold Discovery.own at hknown
  cases hk : t.kind c <;> simp_all [FieldKind.ofNode?, NodeKind.isChoiceOrCase]

end Generation

end SchemaIr
