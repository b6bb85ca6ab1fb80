import SchemaIr.Proofs.Directory.Fields
import SchemaIr.Proofs.Schema.DistinctPaths
import SchemaIr.Proofs.Schema.Grown

/-! # Fields and the preferred wrapper

Which wrapper is preferred decides on the order of candidates only. A directory has fields of the same names with either
preference (`contains_fields_eq`), and a leaf of the preferred wrapper stands for its name, as long as nothing else in
the wrapper does (`get?_fields_of_preferred`). -/

namespace SchemaIr

namespace SchemaTree
variable {t : SchemaTree}

/-- A container of a directory with a leaf or leaf-list in it, and no list of the same name that stands alone in a
    container there. -/
structure Wraps (t : SchemaTree) (dir : NodeId) (wrapper : String) (w : NodeId) (name : String) (leaf : NodeId) : Prop where
  outer : t.child? dir wrapper = some w
  container : t.kind w = .container
  inner : t.child? w name = some leaf
  isLeafLike : (t.kind leaf).isLeafLike = true
  unlisted : ∀ c ∈ t.children w, ∀ list, t.wrappedList? c = some list → t.name list ≠ name

namespace Wraps
variable {dir w leaf : NodeId} {wrapper name : String} (h : t.Wraps dir wrapper w name leaf)
include h

theorem not_isChoiceOrCase : (t.kind leaf).isChoiceOrCase = false := by
  have hleaf := h.isLeafLike
  cases hkind : t.kind leaf <;> rw [hkind] at hleaf <;> first | rfl | cases hleaf

theorem isConfigOrState (ht : t.Rooted) (hwrapper : wrapper = "config" ∨ wrapper = "state") :
    t.isConfigOrState w = true := by
  rw [SchemaTree.isConfigOrState, h.container, (ht.up h.outer).2]
  rcases hwrapper with rfl | rfl <;> rfl

theorem offers : Offers t w leaf :=
  .child (mem_children_iff.mpr ⟨name, h.inner⟩) h.not_isChoiceOrCase

theorem dataPath (ht : t.Rooted) : t.dataPath leaf = t.dataPath dir ++ [wrapper, name] := by
  have hwrapper : Offers t dir w :=
    .child (mem_children_iff.mpr ⟨wrapper, h.outer⟩) (by rw [h.container]; rfl)
  rw [ht.dataPath_of_offers h.offers, ht.dataPath_of_offers hwrapper, (ht.up h.outer).2, (ht.up h.inner).2,
    List.append_assoc]
  rfl

end Wraps

end SchemaTree

namespace Fields
open SchemaTree (Offers)

variable {t : SchemaTree} {dir w leaf : NodeId} {wrapper name : String}

/-- What a wrapper contributes it offers itself, unless it is a list that makes the container around it give way. -/
theorem offers_of_mem_ofWrapper {noState : Bool} {c : Candidate} (h : c ∈ ofWrapper t noState w) :
    Offers t w c.node ∨ ∃ d ∈ t.children w, t.wrappedList? d = some c.node := by
  unfold ofWrapper at h
  split at h
  · obtain ⟨d, hd, hc⟩ := List.mem_flatMap.mp h
    split at hc
    · rename_i list hlist
      obtain rfl := List.mem_singleton.mp hc
      exact .inr ⟨d, hd, hlist⟩
    · obtain ⟨-, ⟨hdata, hnode⟩ | ⟨hchoice, hoffers⟩⟩ := mem_resolve_iff.mp hc
      · exact .inl (hnode ▸ .child hd hdata)
      · exact .inl (.through hd hchoice hoffers)
  · cases h

/-- Of what a wrapper contributes, only the leaf has its name. -/
theorem node_eq_of_mem_ofWrapper (ht : t.Rooted) (hdistinct : t.DistinctDataPaths) (h : t.Wraps dir wrapper w name leaf)
    {noState : Bool} {c : Candidate} (hc : c ∈ ofWrapper t noState w) (hname : t.name c.node = name) : c.node = leaf := by
  rcases offers_of_mem_ofWrapper hc with hoffers | ⟨d, hd, hlist⟩
  · refine hdistinct _ _ hoffers.bounds.2 h.offers.bounds.2 hoffers.isChoiceOrCase h.not_isChoiceOrCase ?_
    rw [ht.dataPath_of_offers hoffers, ht.dataPath_of_offers h.offers, hname, (ht.up h.inner).2]
  · exact absurd hname (h.unlisted d hd _ hlist)

theorem mem_ofWrapper_of_wraps (h : t.Wraps dir wrapper w name leaf) : ⟨leaf, .wrapper⟩ ∈ ofWrapper t false w := by
  have hplain : t.wrappedList? leaf = none := by
    refine Option.eq_none_iff_forall_ne_some.mpr fun list hlist => ?_
    have hleaf := h.isLeafLike
    rw [(wrappedList?_eq_some hlist).1] at hleaf
    cases hleaf
  refine List.mem_flatMap.mpr ⟨leaf, SchemaTree.mem_children_iff.mpr ⟨name, h.inner⟩, ?_⟩
  rw [hplain]
  exact mem_resolve_iff.mpr ⟨rfl, .inl ⟨h.not_isChoiceOrCase, rfl⟩⟩

end Fields

/-! ### Fields -/

namespace SchemaTree
open Fields

variable {t : SchemaTree} {compression compression' : Compression} {dir w leaf : NodeId} {name : String}
  {nodes nodes' : Table NodeId}

theorem contains_fields_iff (h : t.fields compression dir = .ok nodes)
    (hkept : isKept t compression.excludesState dir = true) :
    nodes.contains name = true ↔ ∃ c ∈ candidates t compression dir, t.name c.node = name := by
  rw [Table.contains, fields_eq_ok h hkept, Option.isSome_map, List.find?_isSome]
  simp

/-- Two compressions that leave out the same state give fields of the same names. -/
theorem contains_fields_eq (h : t.fields compression dir = .ok nodes) (h' : t.fields compression' dir = .ok nodes')
    (hcomp : compression.compresses = true) (hcomp' : compression'.compresses = true)
    (hstate : compression'.excludesState = compression.excludesState)
    (hkept : isKept t compression.excludesState dir = true) (name : String) : nodes.contains name = nodes'.contains name := by
  rw [Bool.eq_iff_iff, contains_fields_iff h hkept, contains_fields_iff h' (hstate ▸ hkept)]
  simp only [candidates, List.mem_filter, mem_sources_iff hcomp, mem_sources_iff hcomp', hstate]

theorem preferred_eq (compression : Compression) : compression.preferred = "config" ∨ compression.preferred = "state" := by
  cases compression <;> simp [Compression.preferred]

theorem get?_fields_of_preferred (ht : t.Rooted) (hdistinct : t.DistinctDataPaths) (hcomp : compression.compresses = true)
    (hstate : compression.excludesState = false) (hwraps : t.Wraps dir compression.preferred w name leaf)
    (h : t.fields compression dir = .ok nodes) : nodes.get? name = some leaf := by
  have hfirst : preferred? t compression dir = some w :=
    Option.filter_eq_some_iff.mpr ⟨hwraps.outer, hwraps.isConfigOrState ht (preferred_eq compression)⟩
  have hkept : isKept t compression.excludesState dir = true := by
    rw [hstate]
    rfl
  rw [fields_eq_ok h hkept, candidates_eq_sources hstate dir, sources, if_pos hcomp, hfirst, hstate, List.find?_append]
  -- The preferred wrapper goes first, and nothing but the leaf has the name in it.
  obtain ⟨c, hc⟩ : ∃ c, (ofWrapper t false w).find? (fun c => decide (t.name c.node = name)) = some c := by
    refine Option.isSome_iff_exists.mp (List.find?_isSome.mpr ⟨_, mem_ofWrapper_of_wraps hwraps, ?_⟩)
    exact decide_eq_true (ht.up hwraps.inner).2
  have hnode : c.node = leaf :=
    node_eq_of_mem_ofWrapper ht hdistinct hwraps (List.mem_of_find?_eq_some hc) (by simpa using List.find?_some hc)
  simp [hc, hnode]

end SchemaTree

end SchemaIr
