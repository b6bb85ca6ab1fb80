import SchemaIr.Proofs.Schema.DistinctPaths
import SchemaIr.Proofs.Schema.Grown

/-! # Trees that show all of their nodes

A tree that grew may hide nodes: a child behind a younger one of the same name, a module behind a later one of the same
name. Where no child is hidden and the paths of nodes differ, none is, and the tree is regular (`Grown.regular`). -/

namespace SchemaIr.SchemaTree

variable {t : SchemaTree}

/-- No child is shadowed by a younger one of the same name. -/
def Unshadowed (t : SchemaTree) : Prop := ∀ p c : NodeId, t.parent? c = some p → t.child? p (t.name c) = some c

theorem Unshadowed.of_ids (h : (t.ids.all fun c => (t.parent? c).all fun p => t.child? p (t.name c) == some c) = true) :
    t.Unshadowed := fun p c hp => by
  have hc := List.all_eq_true.mp h c (List.mem_range.mpr (lt_size_of_parent? hp))
  simpa [hp] using hc

/-- Where no child is shadowed, the links down are the links up. -/
theorem Rooted.matched (h : t.Rooted) (hshadow : t.Unshadowed) : t.Matched :=
  ⟨h.parent_of_mem, fun {p c} hp => mem_children_iff.mpr ⟨t.name c, hshadow p c hp⟩⟩

/-! ### The table of roots -/

/-- The table of roots has a root for the name of every module, and nothing else. -/
structure RootsListed (t : SchemaTree) : Prop where
  root : ∀ {name : String} {r : NodeId}, t.roots.get? name = some r →
    r < t.size ∧ t.parent? r = none ∧ t.name r = name ∧ t.kind r = .module
  listed : ∀ {r : NodeId}, r < t.size → t.parent? r = none → ∃ s, t.roots.get? (t.name r) = some s

namespace RootsListed

theorem empty : SchemaTree.empty.RootsListed where
  root h := by cases h
  listed h := by cases h

theorem addModule (h : t.RootsListed) (info : ModuleInfo) : (t.addModule info).RootsListed where
  root {name r} hr := by
    rw [roots_addModule, Table.get?_insert] at hr
    rw [size_addModule, parent?_addModule, SchemaTree.name, kind, node_addModule]
    split at hr
    · rename_i hname
      cases hr
      rw [if_pos rfl]
      exact ⟨Nat.lt_succ_self _, by simp [parent?, size], hname.symm, rfl⟩
    · obtain ⟨hlt, hrest⟩ := h.root hr
      rw [if_neg (Nat.ne_of_lt hlt)]
      exact ⟨Nat.lt_succ_of_lt hlt, hrest⟩
  listed {r} hr hnone := by
    rw [size_addModule] at hr
    rw [parent?_addModule] at hnone
    rw [roots_addModule, SchemaTree.name, node_addModule, Table.get?_insert]
    split
    · exact ⟨t.size, if_pos rfl⟩
    · rename_i hne
      obtain ⟨s, hs⟩ := h.listed (Nat.lt_of_le_of_ne (Nat.le_of_lt_succ hr) hne) hnone
      split
      · exact ⟨t.size, rfl⟩
      · exact ⟨s, hs⟩

theorem addChild (h : t.RootsListed) (parent : NodeId) (n : Node) : (t.addChild parent n).RootsListed := by
  by_cases hp : parent < t.size
  · refine ⟨fun {name r} hr => ?_, fun {r} hr hnone => ?_⟩
    · rw [roots_addChild hp] at hr
      obtain ⟨hlt, hrest⟩ := h.root hr
      have hne := Nat.ne_of_lt hlt
      rw [size_addChild hp, parent?_addChild hp, SchemaTree.name, kind, node_addChild hp, if_neg hne, if_neg hne]
      exact ⟨Nat.lt_succ_of_lt hlt, hrest⟩
    · rw [size_addChild hp] at hr
      rw [parent?_addChild hp] at hnone
      rw [roots_addChild hp, SchemaTree.name, node_addChild hp]
      split at hnone
      · cases hnone
      · rename_i hne
        rw [if_neg hne]
        exact h.listed (Nat.lt_of_le_of_ne (Nat.le_of_lt_succ hr) hne) hnone
  · have hsame : t.addChild parent n = t := dif_neg hp
    rwa [hsame]

/-- The table of roots stays right where nodes keep their names and kinds. -/
theorem restate (h : t.RootsListed) (id : NodeId) {f : Node → Node} (hname : ∀ n, (f n).name = n.name)
    (hkind : ∀ n, (f n).kind = n.kind) : (t.restate id f).RootsListed where
  root hr := by
    rw [size_restate, parent?_restate, SchemaTree.name, kind, node_restate t id hname, node_restate t id hkind]
    exact h.root hr
  listed hr hnone := by
    rw [size_restate] at hr
    rw [parent?_restate] at hnone
    rw [SchemaTree.name, node_restate t id hname]
    exact h.listed hr hnone

end RootsListed

theorem Grown.rootsListed (h : t.Grown) : t.RootsListed := by
  induction h with
  | empty => exact .empty
  | addModule info _ ih => exact ih.addModule info
  | addChild parent node _ ih => exact ih.addChild parent node
  | setConfig id config _ ih => exact ih.restate id (fun _ => rfl) fun _ => rfl
  | setModule id module _ ih => exact ih.restate id (fun _ => rfl) fun _ => rfl
  | setDefault id value _ ih => exact ih.restate id (fun _ => rfl) fun _ => rfl

/-- What a module says about itself is known under its name, and there is a root for it. -/
theorem Grown.exists_root (h : t.Grown) {name : String} {info : ModuleInfo} (hinfo : t.modules.get? name = some info) :
    info.name = name ∧ ∃ r, t.roots.get? name = some r := by
  induction h with
  | empty => cases hinfo
  | @addModule t added _ ih =>
    have hinfo : (t.modules.insert added.name added).get? name = some info := hinfo
    rw [Table.get?_insert] at hinfo
    rw [roots_addModule, Table.get?_insert]
    split at hinfo
    · rename_i hname
      cases hinfo
      exact ⟨hname.symm, t.size, if_pos hname⟩
    · rename_i hne
      rw [if_neg hne]
      exact ih hinfo
  | @addChild t parent node _ ih =>
    by_cases hp : parent < t.size
    · have hmodules : (t.addChild parent node).modules = t.modules := by
        simp only [size] at hp
        simp [SchemaTree.addChild, hp]
      rw [hmodules] at hinfo
      rw [roots_addChild hp]
      exact ih hinfo
    · have hsame : t.addChild parent node = t := dif_neg hp
      rw [hsame] at hinfo ⊢
      exact ih hinfo
  | setConfig _ _ _ ih => exact ih hinfo
  | setModule _ _ _ ih => exact ih hinfo
  | setDefault _ _ _ ih => exact ih hinfo

/-! ### Regular trees -/

/-- A tree that hides no child and tells its nodes apart by their paths is regular. -/
theorem Grown.regular (h : t.Grown) (hshadow : t.Unshadowed) (hpaths : t.DistinctPaths) : t.Regular where
  up := h.rooted.up
  down hparent := hshadow _ _ hparent
  root := h.rootsListed.root
  orphan {r} hr hnone := by
    obtain ⟨s, hs⟩ := h.rootsListed.listed hr hnone
    obtain ⟨hslt, hsnone, hsname, hskind⟩ := h.rootsListed.root hs
    have hkind := h.rooted.orphan hr hnone
    -- The root that is listed under the name has the same path, and so is the same.
    have hsr : s = r := by
      have hsdata : (t.kind s).isChoiceOrCase = false := by rw [hskind]; rfl
      have hdata : (t.kind r).isChoiceOrCase = false := by rw [hkind]; rfl
      refine hpaths s r hslt hr hsdata hdata ?_
      rw [pathString, pathString, dataPath_of_top hsnone hsdata, dataPath_of_top hnone hdata, hsname]
    rw [hs, hsr]

end SchemaIr.SchemaTree
