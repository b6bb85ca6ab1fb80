import SchemaIr.Diagnostic.Batch
import SchemaIr.Directory.Exclusion
import SchemaIr.Leafref.Index

/-! # Discovery

Discovery walks the tree down from the roots and finds what becomes a generated type: the directories, which
are the containers and lists that are kept, and the leaves with an enumeration among their types. The walk
passes through choices and cases, and under compression also through the containers that are elided; a
container or list that a choice offers is always kept. Nothing below an excluded node is found.

`walk` gives what is found in the order of the walk; of two findings with one path the later one stands. -/

namespace SchemaIr

/-- A generated directory: a container or list, or the root made up over all modules. -/
inductive MappedDirectory
  | schema (id : NodeId)
  | fakeRoot (name : String) (fields : Table NodeId)

/-- The directories by path, and the enumerated leaves by path. -/
structure Entities where
  directories : Table MappedDirectory
  enumLeaves : Table NodeId

namespace Discovery

/-- One thing that the walk finds. -/
inductive Finding
  | directory (id : NodeId)
  | enumLeaf (id : NodeId)
  /-- A node of a kind that has no place where it stands. -/
  | unknownKind (id : NodeId)
  deriving DecidableEq, Repr

/-- The node's type is enumerated or has an enumerated alternative. -/
def isEnumLeaf (t : SchemaTree) (id : NodeId) : Bool :=
  ((t.node id).type.map (·.containsEnumerated)).getD false

/-- What a leaf is found to be. -/
def leafFinding (t : SchemaTree) (id : NodeId) : List Finding := if isEnumLeaf t id then [.enumLeaf id] else []

/-- A container or list that the walk passes through without keeping it. -/
def isElided (t : SchemaTree) (compress : Bool) (id : NodeId) : Bool :=
  compress && (t.isConfigOrState id || t.isListWrapper id)

/-- What the walk finds below a node. -/
def walk (t : SchemaTree) (excluded : List String) (compress : Bool) (id : NodeId) : List Finding :=
  (t.children id).attach.flatMap fun ⟨c, _⟩ =>
    if t.isExcluded excluded c then []
    else
      match t.kind c with
      | .leaf | .leafList => leafFinding t c
      | .container | .list =>
        if isElided t compress c then walk t excluded compress c
        else .directory c :: walk t excluded compress c
      | .choice | .case =>
        (t.dataChildren c).attach.flatMap fun ⟨d, _⟩ =>
          if t.isExcluded excluded d then []
          else
            match t.kind d with
            | .leaf | .leafList => leafFinding t d
            | .container | .list => .directory d :: walk t excluded compress d
            | .anydata => []
            | .choice | .case | .module | .unknown => [.unknownKind d]
      | .anydata => []
      | .module | .unknown => [.unknownKind c]
termination_by t.size - id
decreasing_by
  all_goals
    have := SchemaTree.mem_children_bounds ‹c ∈ t.children id›
    first
    | exact Nat.sub_lt_sub_left (Nat.lt_trans this.1 this.2) this.1
    | have hd := SchemaTree.mem_dataChildren_bounds ‹d ∈ t.dataChildren c›
      exact Nat.sub_lt_sub_left (by omega) (by omega)

/-- What the walk finds below the roots that are not excluded. -/
def findings (t : SchemaTree) (roots : List NodeId) (excluded : List String) (compress : Bool) : List Finding :=
  (t.withoutExcluded excluded roots).flatMap (walk t excluded compress)

/-- The problem that a finding is, if it is one. -/
def problem? (t : SchemaTree) : Finding → Option Diagnostic
  | .unknownKind id => some (.unknownKind (t.pathString id) (t.kind id).name)
  | _ => none

/-- The directories among findings, by path. -/
def directories (t : SchemaTree) (found : List Finding) : Table MappedDirectory :=
  Table.ofList (found.filterMap fun
    | .directory id => some (t.pathString id, .schema id)
    | _ => none)

/-- The enumerated leaves among findings, by path. -/
def enumLeaves (t : SchemaTree) (found : List Finding) : Table NodeId :=
  Table.ofList (found.filterMap fun
    | .enumLeaf id => some (t.pathString id, id)
    | _ => none)

end Discovery

namespace Entities
open Discovery

/-- The directories and enumerated leaves of a tree. -/
def discover (t : SchemaTree) (roots : List NodeId) (excluded : List String) (compress : Bool) :
    Except Diagnostics Entities :=
  let found := findings t roots excluded compress
  Diagnostics.settle ⟨found.filterMap (problem? t)⟩ ⟨Discovery.directories t found, Discovery.enumLeaves t found⟩

/-! ### Leafref targets -/

/-- The nodes that are visible from a node on, excluded ones and what lies below them or below leaves left
    out. -/
def visible (t : SchemaTree) (excluded : List String) (id : NodeId) : List NodeId :=
  id :: if (t.kind id).isLeafLike then []
    else (t.children id).attach.flatMap fun ⟨c, _⟩ =>
      if t.isExcluded excluded c then [] else visible t excluded c
termination_by t.size - id
decreasing_by
  have := SchemaTree.mem_children_bounds ‹c ∈ t.children id›
  exact Nat.sub_lt_sub_left (Nat.lt_trans this.1 this.2) this.1

/-- The enumerated leaves to which the leafrefs of a leaf lead. -/
def enumTargets (t : SchemaTree) (index : LeafIndex) (leaf : NodeId) : List NodeId :=
  if (t.kind leaf).isLeafLike then
    match (t.node leaf).type with
    | none => []
    | some type => (type.leafrefPaths.filterMap (index.chainTarget? t leaf)).filter (isEnumLeaf t)
  else []

/-- Adds the enumerated leaves to which visible leafrefs lead, so that their enumerations are named even
    where the leaves themselves are not generated. -/
def addLeafrefTargets (t : SchemaTree) (index : LeafIndex) (roots : List NodeId) (excluded : List String)
    (enumLeaves : Table NodeId) : Table NodeId :=
  ((t.withoutExcluded excluded roots).flatMap (visible t excluded)).foldl
    (fun leaves id => (enumTargets t index id).foldl (fun leaves d => leaves.insert (t.pathString d) d) leaves)
    enumLeaves

end Entities

end SchemaIr
