import SchemaIr.Schema.Tree

/-! # Growing a schema tree

A tree grows node by node, from the empty tree: a module adds a root, a child is added under a node that is
already there. Both number the new node with the size of the tree before it. What a node states about
its config flag, module and default may be settled later. -/

namespace SchemaIr

/-- A second child of one name. -/
structure DuplicateChild where
  /-- The data path of the parent. -/
  parent : String
  name : String
  deriving DecidableEq, Repr

/-! ### Links under growth -/

namespace Linked

theorem empty : Linked #[] := ⟨by simp, by simp⟩

/-- A new root has no links. -/
theorem push_root {entries : Array Entry} (h : Linked entries) (n : Node) :
    Linked (entries.push ⟨n, none, ∅⟩) := by
  refine ⟨fun {id e} he => ?_, fun {id e} he => ?_⟩ <;>
    rw [Array.getElem?_push] at he <;> split at he
  · cases he; simp
  · exact h.parent_lt he
  · cases he; intro _ _ hc; cases hc
  · intro name c hc
    have := h.child_bounds he name c hc
    simp only [Array.size_push]
    omega

/-- Changing what a node states leaves the links alone. -/
theorem modify_node {entries : Array Entry} (h : Linked entries) (id : NodeId) (f : Node → Node) :
    Linked (entries.modify id fun e => { e with node := f e.node }) := by
  have back : ∀ {j : Nat} {e : Entry},
      (entries.modify id fun e => { e with node := f e.node })[j]? = some e →
        ∃ e', entries[j]? = some e' ∧ e.parent = e'.parent ∧ e.children = e'.children := by
    intro j e he
    rw [Array.getElem?_modify] at he
    split at he
    · obtain ⟨e', he', rfl⟩ := Option.map_eq_some_iff.mp he
      exact ⟨e', he', rfl, rfl⟩
    · exact ⟨e, he, rfl, rfl⟩
  refine ⟨fun he p hp => ?_, fun he name c hc => ?_⟩ <;> obtain ⟨e', he', hparent, hchildren⟩ := back he
  · exact h.parent_lt he' p (hparent ▸ hp)
  · simpa using h.child_bounds he' name c (hchildren ▸ hc)

/-- A new child is younger than its parent, which gains the link to it. -/
theorem push_child {entries : Array Entry} (h : Linked entries) {parent : Nat}
    (hp : parent < entries.size) (n : Node) :
    Linked ((entries.modify parent fun e =>
      { e with children := e.children.insert n.name entries.size }).push ⟨n, some parent, ∅⟩) := by
  have back : ∀ {j : Nat} {e : Entry},
      (entries.modify parent fun e => { e with children := e.children.insert n.name entries.size })[j]?
          = some e →
        ∃ e', entries[j]? = some e' ∧ e.parent = e'.parent ∧
          ∀ (name : String) (c : Nat), (name, c) ∈ e.children.entries →
            c = entries.size ∨ (name, c) ∈ e'.children.entries := by
    intro j e he
    rw [Array.getElem?_modify] at he
    split at he
    · obtain ⟨e', he', rfl⟩ := Option.map_eq_some_iff.mp he
      refine ⟨e', he', rfl, fun name c hc => ?_⟩
      exact (Table.mem_entries_insert hc).imp_left fun hc => (Prod.mk.inj hc).2
    · exact ⟨e, he, rfl, fun _ _ hc => .inr hc⟩
  refine ⟨fun {id e} he => ?_, fun {id e} he => ?_⟩ <;>
    rw [Array.getElem?_push] at he <;> split at he
  · rename_i hid
    cases he
    rintro p ⟨⟩
    simpa [hid] using hp
  · obtain ⟨e', he', hparent, _⟩ := back he
    exact fun p hp => h.parent_lt he' p (hparent ▸ hp)
  · cases he; intro _ _ hc; cases hc
  · obtain ⟨e', he', _, hchildren⟩ := back he
    intro name c hc
    simp only [Array.size_push, Array.size_modify]
    rcases hchildren name c hc with hc | hc
    · have := (Array.getElem?_eq_some_iff.mp he').1
      omega
    · have := h.child_bounds he' name c hc
      omega

end Linked

/-! ### Growth -/

namespace SchemaTree

/-- The tree without modules. -/
def empty : SchemaTree := ⟨#[], ∅, ∅, .empty⟩

instance : Inhabited SchemaTree := ⟨empty⟩

/-- Adds a module with its root. A module of the same name gives up its place in the tables. -/
def addModule (t : SchemaTree) (info : ModuleInfo) : SchemaTree where
  entries := t.entries.push ⟨.ofKind info.name .module info.name, none, ∅⟩
  modules := t.modules.insert info.name info
  roots := t.roots.insert info.name t.size
  linked := t.linked.push_root _

/-- Adds a child under a node, shadowing an older child of the same name. -/
def addChild (t : SchemaTree) (parent : NodeId) (node : Node) : SchemaTree :=
  if h : parent < t.entries.size then
    { t with
      entries := (t.entries.modify parent fun e =>
        { e with children := e.children.insert node.name t.entries.size }).push ⟨node, some parent, ∅⟩
      linked := t.linked.push_child h node }
  else t

/-- Adds a child under a node that has none of its name. -/
def addNewChild (t : SchemaTree) (parent : NodeId) (node : Node) : Except DuplicateChild SchemaTree :=
  if (t.child? parent node.name).isSome then .error ⟨t.pathString parent, node.name⟩
  else .ok (t.addChild parent node)

/-- Changes what a node states. -/
def restate (t : SchemaTree) (id : NodeId) (f : Node → Node) : SchemaTree where
  entries := t.entries.modify id fun e => { e with node := f e.node }
  modules := t.modules
  roots := t.roots
  linked := t.linked.modify_node id f

def setConfig (t : SchemaTree) (id : NodeId) (config : Bool) : SchemaTree :=
  t.restate id fun n => { n with config := .ofStatement (some config) }

def setModule (t : SchemaTree) (id : NodeId) (module : String) : SchemaTree :=
  t.restate id fun n => { n with module }

def setDefault (t : SchemaTree) (id : NodeId) (value : String) : SchemaTree :=
  t.restate id fun n => { n with default := some value }

end SchemaTree

end SchemaIr
