import SchemaIr.Table
import SchemaIr.Schema.Node

/-! # The schema tree

A schema tree is an array of nodes, numbered in the order of their creation, each linked to its parent and
to its children by name. Besides the nodes the tree holds the table of its modules and the root node of
each module.

A parent is always older than its children (`Linked`), so the way up from a node and the way down to the
leaves both end, and the links form a forest. Two siblings may share a name only if the younger one
shadows the older one: the child table then names the younger one, while the older one keeps its parent.

A path of a node lists the names from the root down, after one empty segment. Schema paths name every
ancestor; data paths leave out choices and cases. -/

namespace SchemaIr

/-- A node's number, counting from 0 in the order of creation. -/
abbrev NodeId := Nat

/-- A node with its links. -/
structure Entry where
  node : Node
  parent : Option NodeId
  /-- The children by name. -/
  children : Table NodeId

/-- The links point from older parents to younger children, and to nodes of the tree only. -/
structure Linked (entries : Array Entry) : Prop where
  parent_lt : ∀ {id : Nat} {e : Entry}, entries[id]? = some e → ∀ p : Nat, e.parent = some p → p < id
  child_bounds : ∀ {id : Nat} {e : Entry}, entries[id]? = some e →
    ∀ (name : String) (c : Nat), (name, c) ∈ e.children.entries → id < c ∧ c < entries.size

/-- The schema of a set of modules. -/
structure SchemaTree where
  entries : Array Entry
  /-- What each module says about itself. -/
  modules : Table ModuleInfo
  /-- The root node of each module. -/
  roots : Table NodeId
  linked : Linked entries

namespace SchemaTree

/-! ### Nodes and links -/

/-- The number of nodes. -/
def size (t : SchemaTree) : Nat := t.entries.size

/-- The nodes of a tree in order of creation. -/
def ids (t : SchemaTree) : List NodeId := List.range t.size

/-- What the schema states at a node. A number of no node is answered with a nameless unknown statement. -/
def node (t : SchemaTree) (id : NodeId) : Node :=
  match t.entries[id]? with
  | some e => e.node
  | none => Node.ofKind "" .unknown ""

def kind (t : SchemaTree) (id : NodeId) : NodeKind := (t.node id).kind

def name (t : SchemaTree) (id : NodeId) : String := (t.node id).name

def parent? (t : SchemaTree) (id : NodeId) : Option NodeId := t.entries[id]?.bind (·.parent)

/-- The children of a node by name. -/
def childTable (t : SchemaTree) (id : NodeId) : Table NodeId :=
  match t.entries[id]? with
  | some e => e.children
  | none => ∅

/-- The children of a node in name order; shadowed ones are left out. -/
def children (t : SchemaTree) (id : NodeId) : List NodeId := (t.childTable id).values

def child? (t : SchemaTree) (id : NodeId) (name : String) : Option NodeId := (t.childTable id).get? name

theorem parent?_lt {t : SchemaTree} {id p : Nat} (h : t.parent? id = some p) : p < id := by
  obtain ⟨e, he, hp⟩ := Option.bind_eq_some_iff.mp h
  exact t.linked.parent_lt he p hp

theorem lt_size_of_parent? {t : SchemaTree} {id p : Nat} (h : t.parent? id = some p) : id < t.size := by
  obtain ⟨e, he, _⟩ := Option.bind_eq_some_iff.mp h
  exact (Array.getElem?_eq_some_iff.mp he).1

theorem mem_children_bounds {t : SchemaTree} {id c : Nat} (h : c ∈ t.children id) :
    id < c ∧ c < t.size := by
  obtain ⟨x, hx, rfl⟩ := List.mem_map.mp h
  unfold childTable at hx
  split at hx
  · rename_i e he
    exact t.linked.child_bounds he x.1 x.2 hx
  · cases hx

/-! ### Upwards -/

/-- A node and its ancestors, from the node up to its root. -/
def lineage (t : SchemaTree) (id : NodeId) : List NodeId :=
  id :: match _h : t.parent? id with
    | some p => t.lineage p
    | none => []
termination_by id
decreasing_by exact parent?_lt ‹_›

/-- The ancestors of a node, the nearest one first. -/
def ancestors (t : SchemaTree) (id : NodeId) : List NodeId := (t.lineage id).tail

/-- The nodes of a list that have a place in the data tree. -/
def dataNodes (t : SchemaTree) (ids : List NodeId) : List NodeId :=
  ids.filter fun id => !(t.kind id).isChoiceOrCase

/-- The closest ancestor that is neither choice nor case. -/
def dataParent? (t : SchemaTree) (id : NodeId) : Option NodeId := (t.dataNodes (t.ancestors id)).head?

/-- The path of the names of a node and all its ancestors. -/
def schemaPath (t : SchemaTree) (id : NodeId) : List String :=
  "" :: ((t.lineage id).map t.name).reverse

/-- The path of a node in the data tree, without choices and cases. -/
def dataPath (t : SchemaTree) (id : NodeId) : List String :=
  "" :: ((t.dataNodes (t.lineage id)).map t.name).reverse

/-- The data path as text, by which directories and leaves are known. -/
def pathString (t : SchemaTree) (id : NodeId) : String := "/".intercalate (t.dataPath id)

/-- The name of the topmost ancestor, which for a loaded tree is the module the node stands in. -/
def rootModule (t : SchemaTree) (id : NodeId) : String := t.name ((t.lineage id).getLast?.getD id)

/-- The nearest stated flag on the way up decides; by default a node is configuration. -/
def isConfig (t : SchemaTree) (id : NodeId) : Bool :=
  ((t.lineage id).findSome? fun n => (t.node n).config.statement).getD true

/-! ### Modules -/

/-- The namespace of the module that defines a node. -/
def namespaceOf? (t : SchemaTree) (id : NodeId) : Option String :=
  (t.modules.get? (t.node id).module).map (·.uri)

/-- The roots to generate for: those of the modules not loaded for an import alone, in name order. -/
def generationRoots (t : SchemaTree) : List NodeId :=
  (t.roots.filter fun module _ => !((t.modules.get? module).map (·.importedOnly)).getD false).values

/-! ### Downwards -/

/-- A container that parts intended configuration from operational state. -/
def isConfigOrState (t : SchemaTree) (id : NodeId) : Bool :=
  t.kind id == .container && (t.name id == "config" || t.name id == "state")

/-- The list that a container surrounds, if the list is all that it holds. -/
def wrappedList? (t : SchemaTree) (id : NodeId) : Option NodeId :=
  match t.kind id, t.children id with
  | .container, [c] => if t.kind c = .list then some c else none
  | _, _ => none

/-- A container that only surrounds a list. -/
def isListWrapper (t : SchemaTree) (id : NodeId) : Bool := (t.wrappedList? id).isSome

/-- The children of a node in the data tree: a choice or case is replaced by what it offers. -/
def dataChildren (t : SchemaTree) (id : NodeId) : List NodeId :=
  (t.children id).attach.flatMap fun ⟨c, _⟩ =>
    if (t.kind c).isChoiceOrCase then t.dataChildren c else [c]
termination_by t.size - id
decreasing_by
  have := mem_children_bounds ‹c ∈ t.children id›
  omega

theorem mem_dataChildren_bounds {t : SchemaTree} {id c : Nat} (h : c ∈ t.dataChildren id) :
    id < c ∧ c < t.size := by
  induction id using dataChildren.induct t with
  | case1 id ih =>
    rw [dataChildren] at h
    obtain ⟨⟨d, hd⟩, _, h⟩ := List.mem_flatMap.mp h
    have hb := mem_children_bounds hd
    dsimp only at h
    split at h
    · have := ih d hd h
      omega
    · have hcd : c = d := by simpa using h
      omega

/-- Every node whose parent is the given one, in order of creation, shadowed ones included. -/
def offspring (t : SchemaTree) (id : NodeId) : List NodeId := t.ids.filter fun c => t.parent? c == some id

theorem mem_offspring_bounds {t : SchemaTree} {id c : Nat} (h : c ∈ t.offspring id) :
    id < c ∧ c < t.size := by
  have h' : t.parent? c = some id := by simpa using (List.mem_filter.mp h).2
  exact ⟨parent?_lt h', lt_size_of_parent? h'⟩

theorem length_offspring_le (t : SchemaTree) (id : NodeId) : (t.offspring id).length ≤ t.size :=
  Nat.le_trans (List.length_filter_le ..) (Nat.le_of_eq List.length_range)

end SchemaTree

end SchemaIr
