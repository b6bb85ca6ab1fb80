import SchemaIr.Proofs.Table.Lookup
import SchemaIr.Schema.Growth

/-! # Regular trees

In a regular tree the links up and down say the same: a node is the child of its parent under its own name,
and a node without parent is the root of the module of its name. Growth that shadows no child and replaces
no module keeps a tree regular (`Regular.addModule`, `Regular.addChild`). -/

namespace SchemaIr.SchemaTree

variable {t u : SchemaTree}

/-! ### What growth changes -/

theorem node_eq (t : SchemaTree) (id : NodeId) :
    t.node id = (t.entries[id]?.map Entry.node).getD (Node.ofKind "" .unknown "") := by
  unfold node
  cases t.entries[id]? <;> rfl

theorem child?_eq (t : SchemaTree) (id : NodeId) (name : String) :
    t.child? id name = t.entries[id]?.bind fun e => e.children.get? name := by
  unfold child? childTable
  cases t.entries[id]? <;> rfl

theorem mem_children_iff {id c : NodeId} : c ∈ t.children id ↔ ∃ name, t.child? id name = some c :=
  Table.mem_values_iff

theorem entry_addModule (t : SchemaTree) (info : ModuleInfo) (id : NodeId) :
    (t.addModule info).entries[id]? =
      if id = t.size then some ⟨.ofKind info.name .module info.name, none, ∅⟩ else t.entries[id]? := by
  simp only [addModule, Array.getElem?_push, size]
  rfl

theorem size_addModule (t : SchemaTree) (info : ModuleInfo) : (t.addModule info).size = t.size + 1 := by
  simp [addModule, size]

/-- A new module has neither parent nor children. -/
theorem parent?_addModule (t : SchemaTree) (info : ModuleInfo) (id : NodeId) :
    (t.addModule info).parent? id = t.parent? id := by
  simp only [parent?, entry_addModule]
  split
  · rename_i hid
    simp [hid, size]
  · rfl

theorem child?_addModule (t : SchemaTree) (info : ModuleInfo) (id : NodeId) (name : String) :
    (t.addModule info).child? id name = t.child? id name := by
  rw [child?_eq, child?_eq, entry_addModule]
  split
  · rename_i hid
    simp only [hid, size, Nat.lt_irrefl, not_false_eq_true, getElem?_neg, Option.bind_some, Option.bind_none]
    rfl
  · rfl

theorem node_addModule (t : SchemaTree) (info : ModuleInfo) (id : NodeId) : (t.addModule info).node id =
    if id = t.size then .ofKind info.name .module info.name else t.node id := by
  rw [node_eq, node_eq, entry_addModule]
  split <;> rfl

theorem roots_addModule (t : SchemaTree) (info : ModuleInfo) :
    (t.addModule info).roots = t.roots.insert info.name t.size := rfl

section Child
variable {parent : NodeId} (h : parent < t.size) (n : Node)
include h

theorem size_addChild : (t.addChild parent n).size = t.size + 1 := by
  simp only [size] at h ⊢
  simp [addChild, h]

theorem roots_addChild : (t.addChild parent n).roots = t.roots := by
  simp only [size] at h
  simp [addChild, h]

theorem entry_addChild (id : NodeId) : (t.addChild parent n).entries[id]? =
    if id = t.size then some ⟨n, some parent, ∅⟩
    else t.entries[id]?.map fun e =>
      if parent = id then { e with children := e.children.insert n.name t.size } else e := by
  have hlt : parent < t.entries.size := h
  simp only [addChild, hlt, ↓reduceDIte, Array.getElem?_push, Array.size_modify, Array.getElem?_modify]
  by_cases hid : id = t.size
  · have hid' : id = t.entries.size := hid
    rw [if_pos hid, if_pos hid']
  · have hid' : id ≠ t.entries.size := hid
    rw [if_neg hid, if_neg hid']
    split
    · rfl
    · cases t.entries[id]? <;> rfl

theorem node_addChild (id : NodeId) :
    (t.addChild parent n).node id = if id = t.size then n else t.node id := by
  rw [node_eq, node_eq, entry_addChild h]
  split
  · rfl
  · cases t.entries[id]? with
    | none => rfl
    | some e =>
      simp only [Option.map_some]
      split <;> rfl

theorem parent?_addChild (id : NodeId) :
    (t.addChild parent n).parent? id = if id = t.size then some parent else t.parent? id := by
  simp only [parent?, entry_addChild h]
  split
  · rfl
  · cases t.entries[id]? with
    | none => rfl
    | some e =>
      simp only [Option.map_some, Option.bind_some]
      split <;> rfl

theorem child?_addChild (id : NodeId) (name : String) : (t.addChild parent n).child? id name =
    if id = parent ∧ name = n.name then some t.size else t.child? id name := by
  rw [child?_eq, child?_eq, entry_addChild h]
  by_cases hid : id = t.size
  · have hne : ¬(id = parent ∧ name = n.name) := fun hp => Nat.lt_irrefl _ (hid ▸ hp.1 ▸ h)
    have hnone : t.entries[id]? = none := Array.getElem?_eq_none (by simp [hid, size])
    simp only [if_pos hid, if_neg hne, hnone]
    rfl
  · rw [if_neg hid]
    obtain ⟨e, he⟩ | hnone : (∃ e, t.entries[id]? = some e) ∨ t.entries[id]? = none := by
      cases t.entries[id]? <;> simp
    · simp only [he, Option.map_some, Option.bind_some]
      by_cases hp : parent = id
      · simp [hp, Table.get?_insert]
      · simp [hp, Ne.symm hp]
    · have hne : id ≠ parent := fun hp => by
        rw [Array.getElem?_eq_none_iff] at hnone
        exact Nat.not_le_of_lt h (hp ▸ hnone)
      simp [hnone, hne]

end Child

/-! ### Regular trees -/

/-- The links up and down agree, and the nodes without parent are the roots of the modules. -/
structure Regular (t : SchemaTree) : Prop where
  /-- A child has the node for its parent and stands under its name. -/
  up : ∀ {id c : NodeId} {name : String}, t.child? id name = some c → t.parent? c = some id ∧ t.name c = name
  /-- A node with a parent is its child. -/
  down : ∀ {id c : NodeId}, t.parent? c = some id → t.child? id (t.name c) = some c
  /-- The root of a module has no parent and is named like the module. -/
  root : ∀ {name : String} {r : NodeId}, t.roots.get? name = some r →
    r < t.size ∧ t.parent? r = none ∧ t.name r = name ∧ t.kind r = .module
  /-- A node without parent is the root of a module. -/
  orphan : ∀ {r : NodeId}, r < t.size → t.parent? r = none → t.roots.get? (t.name r) = some r

namespace Regular

theorem parent_of_mem (h : t.Regular) {id c : NodeId} (hc : c ∈ t.children id) : t.parent? c = some id := by
  obtain ⟨name, hname⟩ := mem_children_iff.mp hc
  exact (h.up hname).1

theorem empty : SchemaTree.empty.Regular where
  up h := by simp [SchemaTree.empty, child?_eq] at h
  down h := by simp [SchemaTree.empty, parent?] at h
  root h := by cases h
  orphan h := by cases h

theorem addModule (h : t.Regular) {info : ModuleInfo} (hnew : t.roots.get? info.name = none) :
    (t.addModule info).Regular := by
  have hname : ∀ id, id ≠ t.size → (t.addModule info).name id = t.name id := fun id hid => by
    rw [SchemaTree.name, node_addModule, if_neg hid]
    rfl
  have hnew_name : (t.addModule info).name t.size = info.name := by
    rw [SchemaTree.name, node_addModule, if_pos rfl]
    rfl
  refine ⟨fun {id c name} hc => ?_, fun {id c} hp => ?_, fun {name r} hr => ?_, fun {r} hr hp => ?_⟩
  · rw [child?_addModule] at hc
    obtain ⟨hp, hn⟩ := h.up hc
    rw [parent?_addModule, hname c (Nat.ne_of_lt (lt_size_of_parent? hp))]
    exact ⟨hp, hn⟩
  · rw [parent?_addModule] at hp
    rw [hname c (Nat.ne_of_lt (lt_size_of_parent? hp)), child?_addModule]
    exact h.down hp
  · rw [roots_addModule, Table.get?_insert] at hr
    rw [size_addModule, parent?_addModule]
    split at hr
    · rename_i hn
      cases hr
      refine ⟨Nat.lt_succ_self _, by simp [parent?, size], hnew_name.trans hn.symm, ?_⟩
      rw [kind, node_addModule, if_pos rfl]
      rfl
    · obtain ⟨hlt, hp, hn, hk⟩ := h.root hr
      have hne := Nat.ne_of_lt hlt
      refine ⟨Nat.lt_succ_of_lt hlt, hp, (hname r hne).trans hn, ?_⟩
      rw [kind, node_addModule, if_neg hne]
      exact hk
  · rw [parent?_addModule] at hp
    rw [roots_addModule, Table.get?_insert]
    rw [size_addModule] at hr
    by_cases hrt : r = t.size
    · subst hrt
      rw [if_pos hnew_name]
    · -- An older root keeps its name, which the new one does not have.
      have hrn := h.orphan (Nat.lt_of_le_of_ne (Nat.le_of_lt_succ hr) hrt) hp
      rw [hname r hrt, if_neg fun heq => ?_]
      · exact hrn
      · rw [heq, hnew] at hrn
        cases hrn

theorem addChild (h : t.Regular) {parent : NodeId} (hp : parent < t.size) {n : Node}
    (hnew : t.child? parent n.name = none) : (t.addChild parent n).Regular := by
  have hname : ∀ id, id ≠ t.size → (t.addChild parent n).name id = t.name id := fun id hid => by
    rw [SchemaTree.name, node_addChild hp, if_neg hid]
    rfl
  have hnew_name : (t.addChild parent n).name t.size = n.name := by
    rw [SchemaTree.name, node_addChild hp, if_pos rfl]
  refine ⟨fun {id c name} hc => ?_, fun {id c} hc => ?_, fun {name r} hr => ?_, fun {r} hr hor => ?_⟩
  · rw [child?_addChild hp] at hc
    rw [parent?_addChild hp]
    split at hc
    · rename_i heq
      cases hc
      exact ⟨by rw [if_pos rfl, heq.1], hnew_name.trans heq.2.symm⟩
    · obtain ⟨hpc, hn⟩ := h.up hc
      have hne := Nat.ne_of_lt (lt_size_of_parent? hpc)
      rw [if_neg hne, hname c hne]
      exact ⟨hpc, hn⟩
  · rw [parent?_addChild hp] at hc
    rw [child?_addChild hp]
    split at hc
    · rename_i heq
      cases hc
      rw [heq, hnew_name, if_pos ⟨rfl, rfl⟩]
    · rename_i hne
      have hdown := h.down hc
      rw [hname c hne, if_neg fun heq => ?_]
      · exact hdown
      · rw [heq.1, heq.2, hnew] at hdown
        cases hdown
  · rw [roots_addChild hp] at hr
    obtain ⟨hlt, hpr, hn, hk⟩ := h.root hr
    have hne := Nat.ne_of_lt hlt
    rw [size_addChild hp, parent?_addChild hp, if_neg hne, hname r hne, kind, node_addChild hp, if_neg hne]
    exact ⟨Nat.lt_succ_of_lt hlt, hpr, hn, hk⟩
  · rw [parent?_addChild hp] at hor
    split at hor
    · cases hor
    · rename_i hne
      rw [size_addChild hp] at hr
      rw [roots_addChild hp, hname r hne]
      exact h.orphan (Nat.lt_of_le_of_ne (Nat.le_of_lt_succ hr) hne) hor

end Regular

end SchemaIr.SchemaTree
