import SchemaIr.Proofs.Directory.Targets

/-! # The enumerated leaves to which leafrefs lead

Besides what discovery finds, the enumerated leaves are collected to which leafrefs lead: all leafrefs that are
visible from the given roots (`Visible`), each up to the end of its chain (`LeafrefTarget`). Nothing is excluded here,
so that these are the targets of `SchemaIr.Proofs.Directory.Targets` without exclusions (`leafrefTarget_iff`). The index
has one leaf for every path; so a path has one such leaf at most, and this one takes the place of what was found there
(`get?_addLeafrefTargets_iff`). -/

namespace SchemaIr

namespace Entities
open Discovery (isEnumLeaf)
open SchemaTree (Offers Descends)

/-! ### What is visible -/

/-- A node below another one, with no leaf in between; or the node itself. -/
inductive Visible (t : SchemaTree) : NodeId → NodeId → Prop
  | self {id : NodeId} : Visible t id id
  | deeper {id child v : NodeId} : (t.kind id).isLeafLike = false → child ∈ t.children id → Visible t child v →
      Visible t id v

variable {t : SchemaTree} {roots : List NodeId}

theorem visible_iff_seen {id v : NodeId} : Visible t id v ↔ Seen t [] id v := by
  constructor
  · intro h
    induction h with
    | self => exact .self (t.isExcluded_nil _)
    | deeper hkind hc _ ih =>
      obtain ⟨name, hname⟩ := Table.mem_values_iff.mp hc
      exact .deeper (t.isExcluded_nil _) hkind hname ih
  · intro h
    induction h with
    | self _ => exact .self
    | deeper _ hkind hname _ ih => exact .deeper hkind (Table.mem_values_iff.mpr ⟨_, hname⟩) ih

theorem Visible.trans {a b c : NodeId} (h : Visible t a b) (h' : Visible t b c) : Visible t a c := by
  induction h with
  | self => exact h'
  | deeper hkind hc _ ih => exact .deeper hkind hc (ih h')

theorem visible_of_offers {p c : NodeId} (h : Offers t p c) (hp : (t.kind p).isLeafLike = false) : Visible t p c := by
  induction h with
  | child hc _ => exact .deeper hp hc .self
  | through hd hchoice _ ih =>
    refine .deeper hp hd (ih ?_)
    cases hkind : t.kind _ <;> rw [hkind] at hchoice <;> cases hchoice <;> rfl

/-- What is reached below a node is visible from it. -/
theorem visible_of_descends {p c : NodeId} (h : Descends t p c) (hp : (t.kind p).isLeafLike = false) :
    Visible t p c := by
  induction h with
  | offered ho => exact visible_of_offers ho hp
  | @deeper p d c ho hdir _ ih =>
    refine (visible_of_offers ho hp).trans (ih ?_)
    cases hkind : t.kind d <;> rw [hkind] at hdir <;> cases hdir <;> rfl

/-! ### Targets -/

/-- An enumerated leaf at the end of a chain that a visible leafref begins, be it the type of a leaf or an
    alternative of a union. -/
def LeafrefTarget (t : SchemaTree) (roots : List NodeId) (target : NodeId) : Prop :=
  isEnumLeaf t target = true ∧
    ∃ root ∈ roots, ∃ leaf type, Visible t root leaf ∧ (t.kind leaf).isLeafLike = true ∧
      (t.node leaf).type = some type ∧
        ∃ path ∈ type.leafrefPaths, (LeafIndex.ofTree t).chainTarget? t leaf path = some target

theorem leafrefTarget_iff {target : NodeId} :
    LeafrefTarget t roots target ↔ IsTarget t (LeafIndex.ofTree t) roots [] target := by
  simp only [LeafrefTarget, IsTarget, RefersTo, isEnumLeaf_iff, visible_iff_seen, mem_leafrefPaths_iff]
  grind

theorem LeafrefTarget.leaf? {target : NodeId} (h : LeafrefTarget t roots target) :
    (LeafIndex.ofTree t).leaf? (t.pathString target) = some target := by
  obtain ⟨-, _, -, _, _, -, -, -, _, -, htarget⟩ := h
  exact LeafIndex.leaf?_of_chainTarget? htarget

theorem LeafrefTarget.isLeafLike {target : NodeId} (h : LeafrefTarget t roots target) :
    (t.kind target).isLeafLike = true :=
  (LeafIndex.leaf?_eq_some h.leaf?).2

/-- A target stands at its path, and all else where no target does. -/
theorem get?_addLeafrefTargets_iff {enumLeaves : Table NodeId} {path : String} {leaf : NodeId} :
    (addLeafrefTargets t (LeafIndex.ofTree t) roots [] enumLeaves).get? path = some leaf ↔
      LeafrefTarget t roots leaf ∧ t.pathString leaf = path ∨
        enumLeaves.get? path = some leaf ∧ ∀ target, LeafrefTarget t roots target → t.pathString target ≠ path := by
  simp only [leafrefTarget_iff]
  have hcollected := collected_addLeafrefTargets t (LeafIndex.ofTree t) roots [] enumLeaves
  by_cases hany : ∃ target, IsTarget t (LeafIndex.ofTree t) roots [] target ∧ t.pathString target = path
  · obtain ⟨target, htarget, rfl, hget⟩ := hcollected.target path hany
    rw [hget]
    constructor
    · rintro ⟨⟩
      exact .inl ⟨htarget, rfl⟩
    · rintro (⟨hleaf, hpath⟩ | ⟨-, hnone⟩)
      · rw [hleaf.unique htarget hpath]
      · exact absurd rfl (hnone target htarget)
  · have hnone : ∀ target, IsTarget t (LeafIndex.ofTree t) roots [] target → t.pathString target ≠ path :=
      fun target htarget hpath => hany ⟨target, htarget, hpath⟩
    rw [hcollected.kept path hnone]
    exact ⟨fun hget => .inr ⟨hget, hnone⟩, fun h => (h.resolve_left fun ⟨hleaf, hpath⟩ => hnone leaf hleaf hpath).1⟩

end Entities

end SchemaIr
