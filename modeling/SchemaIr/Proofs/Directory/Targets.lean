import Mathlib.Logic.Relation
import SchemaIr.Proofs.Directory.Discovery
import SchemaIr.Proofs.Leafref.Chain
import SchemaIr.Proofs.Schema.Alternatives
import SchemaIr.Proofs.Table.Order

/-! # Collecting the targets of leafrefs

From the roots one leaf after another is seen, and excluded nodes and all below them are not (`Seen`). A target is an
enumerated node to which a leafref path of a seen leaf leads, at whatever depth of unions the path stands (`IsTarget`).
Collecting adds the targets and leaves all other entries alone (`Collected`).

The nodes can be looked at in any order (`Look`): each look leaves fewer nodes to see, and what a path can come to hold
is settled from the start (`Outcome`). So every walk ends, with the same paths, and if the index is that of the tree with
the same table (`addLeafrefTargets_exact`). -/

namespace SchemaIr

namespace Entities
open Discovery (isEnumLeaf)
open Relation

variable {t : SchemaTree} {index : LeafIndex} {roots pending pending' rest : List NodeId} {excluded : List String}
  {leaves leaves' enumLeaves : Table NodeId} {id leaf target : NodeId} {path : String}

/-! ### What is seen -/

/-- A node is seen from another one that it is or that it stands below, if no node on the way is excluded, the two
    included, and there is no leaf between them. -/
inductive Seen (t : SchemaTree) (excluded : List String) : NodeId → NodeId → Prop
  | self {id : NodeId} : t.isExcluded excluded id = false → Seen t excluded id id
  | deeper {id child v : NodeId} {name : String} : t.isExcluded excluded id = false → (t.kind id).isLeafLike = false →
      t.child? id name = some child → Seen t excluded child v → Seen t excluded id v

theorem Seen.start (h : Seen t excluded id leaf) : t.isExcluded excluded id = false := by
  cases h with
  | self hid => exact hid
  | deeper hid _ _ _ => exact hid

theorem mem_withoutExcluded {ids : List NodeId} :
    id ∈ t.withoutExcluded excluded ids ↔ id ∈ ids ∧ t.isExcluded excluded id = false := by
  rw [SchemaTree.withoutExcluded, List.mem_filter, Bool.not_eq_true']

theorem visible_leaf (h : (t.kind id).isLeafLike = true) : visible t excluded id = [id] := by
  rw [visible, if_pos h]

/-- What is visible from a node that is no leaf: the node, and what is visible from its children. -/
theorem visible_inner (h : (t.kind id).isLeafLike = false) :
    visible t excluded id = id :: (t.withoutExcluded excluded (t.children id)).flatMap (visible t excluded) := by
  have hsplit : ∀ ids : List NodeId, ids.flatMap (fun c => if t.isExcluded excluded c then [] else visible t excluded c) =
      (t.withoutExcluded excluded ids).flatMap (visible t excluded) := by
    intro ids
    induction ids with
    | nil => rfl
    | cons c rest ih => cases hc : t.isExcluded excluded c <;> simp_all [SchemaTree.withoutExcluded]
  rw [visible, if_neg (Bool.eq_false_iff.mp h), ← hsplit,
    List.flatMap_subtype (g := fun c => if t.isExcluded excluded c then [] else visible t excluded c) fun _ _ => rfl,
    List.unattach_attach]

theorem mem_visible_iff_seen (h : t.isExcluded excluded id = false) :
    leaf ∈ visible t excluded id ↔ Seen t excluded id leaf := by
  constructor
  · induction hn : t.size - id using Nat.strongRecOn generalizing id with
    | ind n ih =>
      intro hleaf
      cases hkind : (t.kind id).isLeafLike with
      | true =>
        rw [visible_leaf hkind] at hleaf
        obtain rfl := List.mem_singleton.mp hleaf
        exact .self h
      | false =>
        rw [visible_inner hkind] at hleaf
        rcases List.mem_cons.mp hleaf with rfl | hleaf
        · exact .self h
        · obtain ⟨child, hchild, hleaf⟩ := List.mem_flatMap.mp hleaf
          obtain ⟨hchild, hincluded⟩ := mem_withoutExcluded.mp hchild
          obtain ⟨name, hname⟩ := Table.mem_values_iff.mp hchild
          have hbounds := SchemaTree.mem_children_bounds hchild
          exact .deeper h hkind hname (ih (t.size - child) (by omega) hincluded rfl hleaf)
  · intro hseen
    clear h
    induction hseen with
    | self _ =>
      rw [visible]
      exact List.mem_cons_self
    | deeper _ hkind hname hbelow ih =>
      rw [visible_inner hkind]
      refine List.mem_cons_of_mem _ (List.mem_flatMap.mpr ⟨_, mem_withoutExcluded.mpr ⟨?_, hbelow.start⟩, ih⟩)
      exact Table.mem_values_iff.mpr ⟨_, hname⟩

/-! ### Targets -/

/-- Some alternative of a node's type is enumerated. -/
def Enumerated (t : SchemaTree) (id : NodeId) : Prop :=
  ∃ type m, (t.node id).type = some type ∧ type.IsAlternative m ∧ m.isEnumerated = true

/-- The path of a leafref among the alternatives of a leaf's type leads along leafrefs to a node. -/
def RefersTo (t : SchemaTree) (index : LeafIndex) (leaf target : NodeId) : Prop :=
  ∃ type ref path, (t.node leaf).type = some type ∧ type.IsAlternative ref ∧ ref.kind = .leafref ∧
    ref.path = some path ∧ index.chainTarget? t leaf path = some target

/-- An enumerated node to which a leaf refers that is seen from a root. -/
def IsTarget (t : SchemaTree) (index : LeafIndex) (roots : List NodeId) (excluded : List String) (target : NodeId) :
    Prop :=
  Enumerated t target ∧ ∃ root ∈ roots, ∃ leaf, Seen t excluded root leaf ∧ (t.kind leaf).isLeafLike = true ∧
    RefersTo t index leaf target

theorem isEnumLeaf_iff : isEnumLeaf t id = true ↔ Enumerated t id := by
  unfold isEnumLeaf Enumerated
  cases (t.node id).type with
  | none => simp
  | some type => simp [TypeDescriptor.containsEnumerated_iff]

theorem mem_leafrefPaths_iff {type : TypeDescriptor} : path ∈ type.leafrefPaths ↔
    ∃ ref, type.IsAlternative ref ∧ ref.kind = .leafref ∧ ref.path = some path := by
  simp only [TypeDescriptor.leafrefPaths, List.mem_filterMap, TypeDescriptor.mem_alternatives_iff,
    TypeDescriptor.isLeafref, Option.ite_none_right_eq_some, beq_iff_eq]

theorem mem_enumTargets_iff_refersTo : target ∈ enumTargets t index leaf ↔
    Enumerated t target ∧ (t.kind leaf).isLeafLike = true ∧ RefersTo t index leaf target := by
  unfold enumTargets RefersTo
  cases hkind : (t.kind leaf).isLeafLike with
  | false => simp
  | true =>
    cases htype : (t.node leaf).type with
    | none => simp
    | some type =>
      simp only [if_true, List.mem_filter, List.mem_filterMap, mem_leafrefPaths_iff, isEnumLeaf_iff, Option.some.injEq,
        true_and]
      grind

/-! ### Looking at nodes -/

/-- Where a collection stands: the nodes that are still to be looked at, and what is collected. -/
structure Collection where
  pending : List NodeId
  leaves : Table NodeId

/-- Writes the targets to which a node refers. -/
def writeTargets (t : SchemaTree) (index : LeafIndex) (leaves : Table NodeId) (id : NodeId) : Table NodeId :=
  (enumTargets t index id).foldl (fun leaves d => leaves.insert (t.pathString d) d) leaves

/-- One look at any of the pending nodes: the targets of a leaf are written, and another node makes way for its children,
    as far as they are not excluded. -/
inductive Look (t : SchemaTree) (index : LeafIndex) (excluded : List String) : Collection → Collection → Prop
  | leaf {pending rest : List NodeId} {leaves : Table NodeId} {id : NodeId} : pending.Perm (id :: rest) →
      (t.kind id).isLeafLike = true → Look t index excluded ⟨pending, leaves⟩ ⟨rest, writeTargets t index leaves id⟩
  | inner {pending pending' rest : List NodeId} {leaves : Table NodeId} {id : NodeId} : pending.Perm (id :: rest) →
      (t.kind id).isLeafLike = false → pending'.Perm (t.withoutExcluded excluded (t.children id) ++ rest) →
      Look t index excluded ⟨pending, leaves⟩ ⟨pending', leaves⟩

/-- The nodes that the pending ones bring, themselves included. -/
def ahead (t : SchemaTree) (excluded : List String) (pending : List NodeId) : List NodeId :=
  pending.flatMap (visible t excluded)

theorem ahead_cons_leaf (h : (t.kind id).isLeafLike = true) : ahead t excluded (id :: rest) = id :: ahead t excluded rest := by
  rw [ahead, List.flatMap_cons, visible_leaf h, List.singleton_append, ahead]

theorem ahead_cons_inner (h : (t.kind id).isLeafLike = false) : ahead t excluded (id :: rest) =
    id :: ahead t excluded (t.withoutExcluded excluded (t.children id) ++ rest) := by
  rw [ahead, List.flatMap_cons, visible_inner h, List.cons_append, ahead, List.flatMap_append]

theorem ahead_perm_leaf (h : pending.Perm (id :: rest)) (hkind : (t.kind id).isLeafLike = true) :
    (ahead t excluded pending).Perm (id :: ahead t excluded rest) := by
  rw [← ahead_cons_leaf hkind]
  exact h.flatMap_right _

theorem ahead_perm_inner (h : pending.Perm (id :: rest)) (hkind : (t.kind id).isLeafLike = false)
    (h' : pending'.Perm (t.withoutExcluded excluded (t.children id) ++ rest)) :
    (ahead t excluded pending).Perm (id :: ahead t excluded pending') := by
  refine List.Perm.trans ?_ ((h'.flatMap_right _).symm.cons id)
  rw [← ahead, ← ahead_cons_inner hkind]
  exact h.flatMap_right _

/-- No walk goes on for ever. -/
theorem wellFounded_look (t : SchemaTree) (index : LeafIndex) (excluded : List String) :
    WellFounded fun s' s => Look t index excluded s s' := by
  -- A look takes one node away from those that are ahead.
  refine Subrelation.wf (fun {s' s} h => ?_) (measure fun s : Collection => (ahead t excluded s.pending).length).wf
  cases h with
  | leaf hpending hkind => exact Nat.lt_of_succ_le (ahead_perm_leaf hpending hkind).length_eq.ge
  | inner hpending hkind hpending' => exact Nat.lt_of_succ_le (ahead_perm_inner hpending hkind hpending').length_eq.ge

/-- A walk is at its end where no node is pending. -/
theorem no_look_iff {s : Collection} : (∀ s', ¬Look t index excluded s s') ↔ s.pending = [] := by
  obtain ⟨pending, leaves⟩ := s
  constructor
  · intro hnone
    cases pending with
    | nil => rfl
    | cons id rest =>
      cases hkind : (t.kind id).isLeafLike with
      | true => exact absurd (.leaf (.refl _) hkind) (hnone _)
      | false => exact absurd (.inner (.refl _) hkind (.refl _)) (hnone _)
  · rintro rfl s' h
    cases h with
    | leaf hpending _ => cases hpending.nil_eq
    | inner hpending _ _ => cases hpending.nil_eq

theorem writeTargets_inner (h : (t.kind id).isLeafLike = false) : writeTargets t index leaves id = leaves := by
  rw [writeTargets, enumTargets, h]
  rfl

theorem looks_to_end (s : Collection) : ReflTransGen (Look t index excluded) s
    ⟨[], (ahead t excluded s.pending).foldl (writeTargets t index) s.leaves⟩ := by
  induction s using (wellFounded_look t index excluded).induction with
  | _ s ih =>
    obtain ⟨pending, leaves⟩ := s
    cases pending with
    | nil => exact .refl
    | cons id rest =>
      cases hkind : (t.kind id).isLeafLike with
      | true =>
        have hlook : Look t index excluded ⟨id :: rest, leaves⟩ ⟨rest, writeTargets t index leaves id⟩ :=
          .leaf (.refl _) hkind
        rw [ahead_cons_leaf hkind, List.foldl_cons]
        exact .head hlook (ih _ hlook)
      | false =>
        have hlook : Look t index excluded ⟨id :: rest, leaves⟩
            ⟨t.withoutExcluded excluded (t.children id) ++ rest, leaves⟩ := .inner (.refl _) hkind (.refl _)
        rw [ahead_cons_inner hkind, List.foldl_cons, writeTargets_inner hkind]
        exact .head hlook (ih _ hlook)

/-! ### Outcomes -/

/-- A node to which one of those refers that are ahead. -/
def Ahead (t : SchemaTree) (index : LeafIndex) (excluded : List String) (pending : List NodeId) (target : NodeId) : Prop :=
  ∃ id ∈ ahead t excluded pending, target ∈ enumTargets t index id

/-- What may stand at a path in the end: a target that is ahead, or what is there if no such target has the path. -/
inductive Outcome (t : SchemaTree) (index : LeafIndex) (excluded : List String) (s : Collection) (path : String) :
    Option NodeId → Prop
  | target {d : NodeId} : Ahead t index excluded s.pending d → t.pathString d = path →
      Outcome t index excluded s path (some d)
  | kept : (∀ d, Ahead t index excluded s.pending d → t.pathString d ≠ path) →
      Outcome t index excluded s path (s.leaves.get? path)

theorem get?_writeTargets (t : SchemaTree) (index : LeafIndex) (leaves : Table NodeId) (id : NodeId) (path : String) :
    (∃ d ∈ enumTargets t index id, t.pathString d = path ∧ (writeTargets t index leaves id).get? path = some d) ∨
      (∀ d ∈ enumTargets t index id, t.pathString d ≠ path) ∧
        (writeTargets t index leaves id).get? path = leaves.get? path := by
  have hwritten : writeTargets t index leaves id =
      ((enumTargets t index id).map fun d => (t.pathString d, d)).foldl (fun leaves e => leaves.insert e.1 e.2) leaves := by
    rw [writeTargets, List.foldl_map]
  rw [hwritten, Table.get?_foldl_insert]
  cases hfind : Entries.find? path ((enumTargets t index id).map fun d => (t.pathString d, d)).reverse with
  | some d =>
    obtain ⟨_, hd, heq⟩ := List.mem_map.mp (List.mem_reverse.mp (Entries.mem_of_find? hfind))
    obtain ⟨hpath, rfl⟩ := Prod.mk.inj heq
    exact .inl ⟨_, hd, hpath, rfl⟩
  | none =>
    refine .inr ⟨fun d hd => ?_, rfl⟩
    exact Entries.find?_eq_none_iff.mp hfind (t.pathString d, d) (List.mem_reverse.mpr (List.mem_map_of_mem hd))

/-- A look settles nothing that was not possible before. -/
theorem Look.outcome {s s' : Collection} (h : Look t index excluded s s') {v : Option NodeId}
    (hv : Outcome t index excluded s' path v) : Outcome t index excluded s path v := by
  cases h with
  | @leaf pending rest leaves id hpending hkind =>
    have hahead : ∀ d, Ahead t index excluded pending d ↔ d ∈ enumTargets t index id ∨ Ahead t index excluded rest d := by
      intro d
      simp only [Ahead, (ahead_perm_leaf hpending hkind).mem_iff, List.mem_cons, exists_eq_or_imp]
    cases hv with
    | target hd hpath => exact .target ((hahead _).mpr (.inr hd)) hpath
    | kept hnone =>
      rcases get?_writeTargets t index leaves id path with ⟨d, hd, hpath, hget⟩ | ⟨hother, hget⟩
      · exact hget ▸ .target ((hahead d).mpr (.inl hd)) hpath
      · refine hget ▸ .kept fun d hd => ?_
        exact ((hahead d).mp hd).elim (hother d) (hnone d)
  | @inner pending pending' rest leaves id hpending hkind hpending' =>
    have hahead : ∀ d, Ahead t index excluded pending d ↔ Ahead t index excluded pending' d := by
      intro d
      have hid : ¬d ∈ enumTargets t index id := by simp [mem_enumTargets_iff_refersTo, hkind]
      simp only [Ahead, (ahead_perm_inner hpending hkind hpending').mem_iff, List.mem_cons, exists_eq_or_imp, hid, false_or]
    cases hv with
    | target hd hpath => exact .target ((hahead _).mpr hd) hpath
    | kept hnone => exact .kept fun d hd => hnone d ((hahead d).mp hd)

theorem outcome_of_looks {s : Collection} (h : ReflTransGen (Look t index excluded) s ⟨[], leaves⟩) (path : String) :
    Outcome t index excluded s path (leaves.get? path) := by
  induction h using ReflTransGen.head_induction_on with
  | refl => exact .kept fun d ⟨_, hid, _⟩ => absurd hid List.not_mem_nil
  | head hlook _ ih => exact hlook.outcome ih

theorem ahead_iff_isTarget : Ahead t index excluded (t.withoutExcluded excluded roots) target ↔
    IsTarget t index roots excluded target := by
  simp only [Ahead, ahead, List.mem_flatMap, mem_withoutExcluded, mem_enumTargets_iff_refersTo, IsTarget]
  constructor
  · rintro ⟨leaf, ⟨root, ⟨hroot, hincluded⟩, hleaf⟩, henum, hkind, hrefers⟩
    exact ⟨henum, root, hroot, leaf, (mem_visible_iff_seen hincluded).mp hleaf, hkind, hrefers⟩
  · rintro ⟨henum, root, hroot, leaf, hseen, hkind, hrefers⟩
    exact ⟨leaf, ⟨root, ⟨hroot, hseen.start⟩, (mem_visible_iff_seen hseen.start).mpr hseen⟩, henum, hkind, hrefers⟩

/-! ### What is collected -/

/-- The targets are collected: they stand at their paths, and nothing else has changed. -/
structure Collected (t : SchemaTree) (index : LeafIndex) (roots : List NodeId) (excluded : List String)
    (enumLeaves leaves : Table NodeId) : Prop where
  contains_iff : ∀ path, leaves.contains path = true ↔
    enumLeaves.contains path = true ∨ ∃ target, IsTarget t index roots excluded target ∧ t.pathString target = path
  target : ∀ path, (∃ target, IsTarget t index roots excluded target ∧ t.pathString target = path) →
    ∃ target, IsTarget t index roots excluded target ∧ t.pathString target = path ∧ leaves.get? path = some target
  kept : ∀ path, (∀ target, IsTarget t index roots excluded target → t.pathString target ≠ path) →
    leaves.get? path = enumLeaves.get? path

theorem collected_of_looks
    (h : ReflTransGen (Look t index excluded) ⟨t.withoutExcluded excluded roots, enumLeaves⟩ ⟨[], leaves⟩) :
    Collected t index roots excluded enumLeaves leaves := by
  have houtcome : ∀ path, (∃ d, IsTarget t index roots excluded d ∧ t.pathString d = path ∧ leaves.get? path = some d) ∨
      (∀ d, IsTarget t index roots excluded d → t.pathString d ≠ path) ∧ leaves.get? path = enumLeaves.get? path := by
    intro path
    have hpath := outcome_of_looks h path
    generalize leaves.get? path = v at hpath
    cases hpath with
    | target hd hpath => exact .inl ⟨_, ahead_iff_isTarget.mp hd, hpath, rfl⟩
    | kept hnone => exact .inr ⟨fun d hd => hnone d (ahead_iff_isTarget.mpr hd), rfl⟩
  refine ⟨fun path => ?_, fun path ⟨d, hd, hpath⟩ => ?_, fun path hnone => ?_⟩
  · rw [Table.contains_iff, Table.contains_iff]
    rcases houtcome path with ⟨d, hd, hpath, hget⟩ | ⟨hnone, hget⟩
    · exact iff_of_true ⟨d, hget⟩ (.inr ⟨d, hd, hpath⟩)
    · rw [hget]
      exact (or_iff_left fun ⟨d, hd, hpath⟩ => hnone d hd hpath).symm
  · exact (houtcome path).resolve_right fun ⟨hnone, _⟩ => hnone d hd hpath
  · rcases houtcome path with ⟨d, hd, hpath, -⟩ | ⟨-, hget⟩
    · exact absurd hpath (hnone d hd)
    · exact hget

theorem collected_addLeafrefTargets (t : SchemaTree) (index : LeafIndex) (roots : List NodeId) (excluded : List String)
    (enumLeaves : Table NodeId) :
    Collected t index roots excluded enumLeaves (addLeafrefTargets t index roots excluded enumLeaves) :=
  collected_of_looks (looks_to_end _)

/-- In the index of the tree, two targets at one path are the same. -/
theorem IsTarget.unique {other : NodeId} (h : IsTarget t (LeafIndex.ofTree t) roots excluded target)
    (h' : IsTarget t (LeafIndex.ofTree t) roots excluded other) (hpath : t.pathString target = t.pathString other) :
    target = other := by
  obtain ⟨-, _, -, _, -, -, _, _, _, -, -, -, -, hchain⟩ := h
  obtain ⟨-, _, -, _, -, -, _, _, _, -, -, -, -, hchain'⟩ := h'
  have hleaf := LeafIndex.leaf?_of_chainTarget? hchain
  rw [hpath, LeafIndex.leaf?_of_chainTarget? hchain'] at hleaf
  exact (Option.some.inj hleaf).symm

theorem Collected.unique (h : Collected t (LeafIndex.ofTree t) roots excluded enumLeaves leaves)
    (h' : Collected t (LeafIndex.ofTree t) roots excluded enumLeaves leaves') : leaves = leaves' := by
  refine Table.ext_get? fun path => ?_
  by_cases hany : ∃ target, IsTarget t (LeafIndex.ofTree t) roots excluded target ∧ t.pathString target = path
  · obtain ⟨target, htarget, rfl, hget⟩ := h.target path hany
    obtain ⟨other, hother, hpath, hget'⟩ := h'.target _ hany
    rw [hget, hget', hother.unique htarget hpath]
  · have hnone := fun target htarget hpath => hany ⟨target, htarget, hpath⟩
    rw [h.kept path hnone, h'.kept path hnone]

/-- Collecting adds the paths of the targets, where the targets then stand, and leaves what stands at other paths alone. So
    does every walk in which pending nodes are looked at in some order: it ends, where no node is pending any more, and
    if the index is that of the tree it ends with the same table. -/
theorem addLeafrefTargets_exact (t : SchemaTree) (index : LeafIndex) (roots : List NodeId) (excluded : List String)
    (enumLeaves : Table NodeId) :
    Collected t index roots excluded enumLeaves (addLeafrefTargets t index roots excluded enumLeaves) ∧
      (WellFounded fun s' s => Look t index excluded s s') ∧
      (∀ s, (∀ s', ¬Look t index excluded s s') ↔ s.pending = []) ∧
      ∀ leaves, ReflTransGen (Look t index excluded) ⟨t.withoutExcluded excluded roots, enumLeaves⟩ ⟨[], leaves⟩ →
        Collected t index roots excluded enumLeaves leaves ∧
          (index = LeafIndex.ofTree t → leaves = addLeafrefTargets t index roots excluded enumLeaves) := by
  have hcollected := collected_addLeafrefTargets t index roots excluded enumLeaves
  refine ⟨hcollected, wellFounded_look t index excluded, fun _ => no_look_iff, fun leaves hlooks => ?_⟩
  have hleaves := collected_of_looks hlooks
  refine ⟨hleaves, ?_⟩
  rintro rfl
  exact hleaves.unique hcollected

end Entities

end SchemaIr
