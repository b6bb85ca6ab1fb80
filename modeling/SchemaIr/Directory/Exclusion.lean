import SchemaIr.Schema.Tree

/-! # Excluded modules

A node is excluded if its module has the namespace of a module that is named for exclusion: modules of one
namespace are excluded together. -/

namespace SchemaIr.SchemaTree

/-- The node belongs to the namespace of one of the named modules. -/
def isExcluded (t : SchemaTree) (excluded : List String) (id : NodeId) : Bool :=
  match t.namespaceOf? id with
  | none => false
  | some uri => excluded.any fun name => ((t.modules.get? name).map (·.uri == uri)).getD false

/-- The nodes of a list that are not excluded. -/
def withoutExcluded (t : SchemaTree) (excluded : List String) (ids : List NodeId) : List NodeId :=
  ids.filter (!t.isExcluded excluded ·)

end SchemaIr.SchemaTree
