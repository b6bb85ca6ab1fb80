import SchemaIr.Proofs.Directory.Fields
import SchemaIr.Proofs.Enumeration.Groups
import SchemaIr.Proofs.Ir.Interchange
import SchemaIr.Proofs.Schema.DataTree

/-! # Nothing to compress

A tree without wrappers, whether of children or of a list, and without leafrefs among the keys of its lists has nothing to
compress (`Incompressible`). Each pass that looks at compression does on it what it does without: the walk, the choice
of fields, the search for the holders of keys, and the contexts of enumerations. -/

namespace SchemaIr

namespace SchemaTree

/-- A child of a list that its key statement names. -/
def IsKey (t : SchemaTree) (list c : NodeId) : Prop :=
  ∃ key ∈ (t.node list).keyNames, t.child? list key = some c ∨ c ∈ t.children list ∧ t.name c = key

/-- There are no containers `config` or `state`, no containers that only surround a list, and no keys that are
    leafrefs. -/
structure Incompressible (t : SchemaTree) : Prop where
  noConfigOrState : ∀ id, t.isConfigOrState id = false
  noListWrapper : ∀ id, t.isListWrapper id = false
  noLeafrefKey : ∀ list c, t.kind list = .list → t.IsKey list c → (t.node c).isLeafref = false

theorem Incompressible.of_ids {t : SchemaTree}
    (hplain : (t.ids.all fun id => !t.isConfigOrState id && !t.isListWrapper id) = true)
    (hkeys : (t.ids.all fun list => (t.node list).keyNames.all fun key =>
      (t.child? list key).toList.all (fun c => !(t.node c).isLeafref) &&
        (t.children list).all fun c => t.name c != key || !(t.node c).isLeafref) = true) : t.Incompressible := by
  have hmem : ∀ {id}, (t.kind id).isDirectory = true → id ∈ t.ids := fun hkind =>
    List.mem_range.mpr (lt_size_of_isDirectory hkind)
  refine ⟨fun id => Bool.eq_false_iff.mpr fun hid => ?_, fun id => Bool.eq_false_iff.mpr fun hid => ?_,
    fun list c hlist hkey => Bool.eq_false_iff.mpr fun hleafref => ?_⟩
  · have hkind := Fields.isDirectory_of_isConfigOrState hid
    have hfalse := List.all_eq_true.mp hplain id (hmem (by rw [hkind]; rfl))
    simp [hid] at hfalse
  · obtain ⟨list, hwrapped⟩ := Option.isSome_iff_exists.mp hid
    have hkind := (Fields.wrappedList?_eq_some hwrapped).1
    have hfalse := List.all_eq_true.mp hplain id (hmem (by rw [hkind]; rfl))
    simp [hid] at hfalse
  · obtain ⟨key, hkey, hc⟩ := hkey
    have hnames := List.all_eq_true.mp (List.all_eq_true.mp hkeys list (hmem (by rw [hlist]; rfl))) key hkey
    obtain ⟨hchild, hchildren⟩ := Bool.and_eq_true_iff.mp hnames
    rcases hc with hc | ⟨hc, hname⟩
    · have hfalse := List.all_eq_true.mp hchild c (by simp [hc])
      simp [hleafref] at hfalse
    · have hfalse := List.all_eq_true.mp hchildren c hc
      simp [hname, hleafref] at hfalse

end SchemaTree

variable {t : SchemaTree} (h : t.Incompressible)
include h

/-! ### Discovery -/

namespace Discovery

theorem isElided_eq (compress : Bool) (id : NodeId) : isElided t compress id = false := by
  rw [isElided, h.noConfigOrState, h.noListWrapper, Bool.or_false, Bool.and_false]

/-- The walk passes through the same nodes. -/
theorem walk_eq (excluded : List String) (compress compress' : Bool) (id : NodeId) :
    walk t excluded compress id = walk t excluded compress' id := by
  induction hn : t.size - id using Nat.strongRecOn generalizing id with
  | ind n ih =>
    subst hn
    rw [walk, walk]
    refine List.flatMap_congr fun child _ => ?_
    obtain ⟨c, hc⟩ := child
    have hbounds := SchemaTree.mem_children_bounds hc
    have hbelow : walk t excluded compress c = walk t excluded compress' c := ih _ (by omega) c rfl
    -- What a choice or case offers is walked one by one.
    have hoffered : ∀ d ∈ t.dataChildren c, walk t excluded compress d = walk t excluded compress' d := fun d hd => by
      have hoffer := SchemaTree.mem_dataChildren_bounds hd
      exact ih _ (by omega) d rfl
    simp only [isElided_eq h, hbelow]
    split
    · rfl
    · cases t.kind c with
      | choice | case =>
        refine List.flatMap_congr fun offered _ => ?_
        obtain ⟨d, hd⟩ := offered
        simp only [hoffered d hd]
      | module | container | list | leaf | leafList | anydata | unknown => rfl

theorem findings_eq (roots : List NodeId) (excluded : List String) (compress compress' : Bool) :
    findings t roots excluded compress = findings t roots excluded compress' :=
  List.flatMap_congr fun id _ => walk_eq h excluded compress compress' id

end Discovery

theorem Entities.discover_eq (roots : List NodeId) (excluded : List String) (compress compress' : Bool) :
    discover t roots excluded compress = discover t roots excluded compress' := by
  unfold discover
  rw [Discovery.findings_eq h roots excluded compress compress']

/-! ### Fields -/

namespace Fields

theorem isOwnLeafrefKey_eq {dir c : NodeId} (hc : c ∈ t.children dir) : isOwnLeafrefKey t dir c = false := by
  refine Bool.eq_false_iff.mpr fun hkey => ?_
  simp only [isOwnLeafrefKey, Bool.and_eq_true, beq_iff_eq, List.contains_iff_mem] at hkey
  obtain ⟨⟨⟨⟨hlist, -⟩, -⟩, hname⟩, hleafref⟩ := hkey
  rw [h.noLeafrefKey dir c hlist ⟨_, hname, .inr ⟨hc, rfl⟩⟩] at hleafref
  cases hleafref

/-- No child makes way, and none comes first. -/
theorem sources_eq (compression : Compression) (dir : NodeId) :
    sources t compression dir = (t.children dir).flatMap (resolve t .direct) := by
  have hfirst : preferred? t compression dir = none := by
    unfold preferred?
    cases t.child? dir compression.preferred with
    | none => rfl
    | some w => simp [h.noConfigOrState w]
  have hchild : ∀ c ∈ t.children dir, ofChild t compression.excludesState dir c = resolve t .direct c := fun c hc =>
    ofChild_eq_resolve (h.noConfigOrState c) (Option.not_isSome_iff_eq_none.mp (Bool.eq_false_iff.mp (h.noListWrapper c)))
      (isOwnLeafrefKey_eq h hc)
  unfold sources
  split
  · simp [hfirst, List.flatMap_congr hchild]
  · rfl

theorem fields_eq {compression compression' : Compression} (hstate : compression.excludesState = compression'.excludesState)
    (dir : NodeId) : t.fields compression dir = t.fields compression' dir := by
  have hcandidates : candidates t compression dir = candidates t compression' dir := by
    rw [candidates, candidates, sources_eq h, sources_eq h, hstate]
  rw [SchemaTree.fields, SchemaTree.fields, chosen, chosen, hcandidates, hstate]

end Fields

/-! ### Keys -/

theorem ListKey.holder_eq (compress : Bool) {list child : NodeId} {key : String} (hlist : t.kind list = .list)
    (hkey : key ∈ (t.node list).keyNames) (hchild : t.child? list key = some child) :
    holder t compress list key child = (child, []) := by
  rw [holder, h.noLeafrefKey list child hlist ⟨key, hkey, .inl hchild⟩, Bool.and_false]
  rfl

/-! ### Enumerations -/

namespace EnumGroups

theorem context_eq (compress compress' : Bool) (leaf : NodeId) : context t compress leaf = context t compress' leaf := by
  unfold context
  simp [h.noConfigOrState]

theorem ofLeaves_compress_eq (leaves : Table NodeId) (compress compress' skipDedup : Bool) :
    ofLeaves t leaves compress skipDedup = ofLeaves t leaves compress' skipDedup := by
  have hsight : sight t compress skipDedup = sight t compress' skipDedup := by
    funext path leaf member
    unfold sight
    rw [context_eq h compress compress']
  unfold ofLeaves allSightings sightings
  rw [hsight]

end EnumGroups

theorem EnumSet.ofLeaves_compress_eq (leaves : Table NodeId) (compress compress' skipDedup : Bool)
    (registry : NameRegistry) :
    ofLeaves t leaves compress skipDedup registry = ofLeaves t leaves compress' skipDedup registry := by
  unfold ofLeaves
  rw [EnumGroups.ofLeaves_compress_eq h leaves compress compress']

/-! ### Compressions -/

theorem Assembly.Input.shadowPath?_eq_none (leaf : NodeId) (schemaPath : String) : shadowPath? t leaf schemaPath = none := by
  unfold shadowPath?
  cases t.parent? leaf with
  | none => rfl
  | some p => simp [h.noConfigOrState p]

/-- All compressions that leave out the same state can be interchanged. -/
theorem SchemaTree.Incompressible.interchangeable {compression compression' : Compression}
    (hstate : compression.excludesState = compression'.excludesState) :
    Assembly.Input.Interchangeable t compression compression' where
  state := hstate
  fields := Fields.fields_eq h hstate
  holders list hlist key hkey child hchild := by
    rw [ListKey.holder_eq h _ hlist hkey hchild, ListKey.holder_eq h _ hlist hkey hchild]
  unshadowed _ := Assembly.Input.shadowPath?_eq_none h
  unshadowed' _ := Assembly.Input.shadowPath?_eq_none h

end SchemaIr
