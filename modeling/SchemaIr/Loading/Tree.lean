import SchemaIr.Loading.Library
import SchemaIr.Schema.Growth

/-! # The schema tree of a library

The tree of a library holds its modules in name order, each with its nodes in the order of its document, every
node before its children. A node that states no module is defined by that of its parent. The module of a
node must be in the library, and two siblings must not share a name. -/

namespace SchemaIr

namespace NodeDocument

/-- The node that a document states, defined by a module. -/
def node (n : NodeDocument) (module : String) : Node :=
  ⟨n.name, n.kind, n.type, n.key, .ofStatement n.config, module, n.default⟩

end NodeDocument

namespace Library

mutual

/-- Grows a node of a module's document, and all below it, under a parent. -/
def growNode (lib : Library) (source : LoadedModule) (parent : NodeId) (parentModule : String)
    (t : SchemaTree) : NodeDocument → Except LoadError SchemaTree
  | ⟨name, kind, children, type, key, config, module, default⟩ =>
    let defining := module.getD parentModule
    if lib.contains defining then
      let node := NodeDocument.node ⟨name, kind, [], type, key, config, module, default⟩ defining
      match t.addNewChild parent node with
      | .ok grown => growNodes lib source t.size defining grown children
      | .error d => .error (.malformed source.path ("duplicate node " ++ d.name ++ " under " ++ d.parent))
    else .error (.unresolved source.document.name defining)

/-- Grows nodes of a module's document, and all below them, under a parent. -/
def growNodes (lib : Library) (source : LoadedModule) (parent : NodeId) (parentModule : String)
    (t : SchemaTree) : List NodeDocument → Except LoadError SchemaTree
  | [] => .ok t
  | n :: ns => do
    let t ← growNode lib source parent parentModule t n
    growNodes lib source parent parentModule t ns

end

/-- Grows a module with all its nodes. -/
def growModule (lib : Library) (t : SchemaTree) (m : LoadedModule) : Except LoadError SchemaTree :=
  let document := m.document
  growNodes lib m t.size document.name
    (t.addModule ⟨document.name, document.uri, document.shortName, m.importedOnly⟩) document.children

/-- The schema tree of a library. -/
def tree (lib : Library) : Except LoadError SchemaTree := lib.values.foldlM (growModule lib) .empty

end Library

/-- The schema tree of the requested files and everything that they import. -/
def SchemaTree.load (disk : Disk) (paths searchPaths : List String) : Except LoadError SchemaTree := do
  let lib ← Library.load disk paths searchPaths
  lib.tree

end SchemaIr
