import SchemaIr.Leafref.Path
import SchemaIr.Schema.Search

/-! # Where leafrefs lead

The leaf index finds the leaves and leaf-lists of a tree by data path, and modules by short name. A leafref
path leads from its context to a data path, and through the index to a leaf, which may be a leafref itself;
a chain of leafrefs is followed to its end, up to a bound. -/

namespace SchemaIr

/-- The leaves and leaf-lists of a tree by data path, and its modules by short name. -/
structure LeafIndex where
  leaves : Table NodeId
  modules : Table String

namespace LeafIndex

/-- Every leaf and leaf-list of a tree: module after module by name, each in the order of `family`. -/
def allLeaves (t : SchemaTree) : List NodeId :=
  (t.roots.values.flatMap t.family).filter fun id => (t.kind id).isLeafLike

/-- The index of a tree. Of two leaves with one path the later one is found, and of two modules with one
    short name the later one by name. -/
def ofTree (t : SchemaTree) : LeafIndex where
  leaves := Table.ofList ((allLeaves t).map fun id => (t.pathString id, id))
  modules := Table.ofList (t.modules.values.filterMap fun m => m.shortName.map (·, m.name))

/-- The number of paths with a leaf. -/
def size (index : LeafIndex) : Nat := index.leaves.size

def leaf? (index : LeafIndex) (path : String) : Option NodeId := index.leaves.get? path

def module? (index : LeafIndex) (shortName : String) : Option String := index.modules.get? shortName

/-! ### Paths -/

/-- The module that an absolute path begins in: the one with the short name of the first step, or else the
    one of that name; without a qualifier the module of the context. -/
def firstModule (index : LeafIndex) (t : SchemaTree) (context : NodeId) : Option String → String
  | some qualifier => (index.module? qualifier).getD qualifier
  | none => t.rootModule context

/-- Takes one step of a relative path from a data path. No step leads above the module. -/
def takeStep (segments : List String) (step : String) : Option (List String) :=
  let step := Text.trim step
  if step = "." then some segments
  else if step = ".." then if segments.length ≤ 2 then none else some segments.dropLast
  else some (segments ++ [Leafref.unqualified step])

/-- The data path to which a leafref path leads from its context. -/
def targetPath? (index : LeafIndex) (t : SchemaTree) (context : NodeId) (path : String) : Option String :=
  let path := Text.trim (Leafref.withoutPredicates path)
  let steps := Text.steps path
  if path.toList.head? = some '/' then
    match steps with
    | [] => none
    | first :: rest =>
      let (qualifier, name) := Leafref.qualified first
      some ("/".intercalate
        ("" :: index.firstModule t context qualifier :: name :: rest.map Leafref.unqualified))
  else (steps.foldlM takeStep (t.dataPath context)).map ("/".intercalate ·)

/-! ### Targets -/

/-- The leaf to which a leafref path leads. -/
def target? (index : LeafIndex) (t : SchemaTree) (context : NodeId) (path : String) : Option NodeId :=
  (index.targetPath? t context path).bind index.leaf?

/-- The largest number of leafrefs that are followed after the first one, plus one. -/
def maxChain : Nat := 32

/-- Follows a chain of leafrefs from a node to the first one that is none, in at most `fuel` looks. -/
def follow (index : LeafIndex) (t : SchemaTree) : Nat → NodeId → Option NodeId
  | 0, _ => none
  | fuel + 1, id =>
    match (t.node id).type with
    | some type =>
      if type.isLeafref then do
        let path ← type.path
        let next ← index.target? t id path
        follow index t fuel next
      else some id
    | none => some id

/-- The node at the end of the chain of leafrefs that a path begins. -/
def chainTarget? (index : LeafIndex) (t : SchemaTree) (context : NodeId) (path : String) : Option NodeId :=
  (index.target? t context path).bind (index.follow t maxChain)

end LeafIndex

end SchemaIr
