import SchemaIr.ListKey.Closest
import SchemaIr.MappedType.Resolve

/-! # List keys

The keys of a list are leaves among its children, named by the list's key statement. Under compression a
key that is a leafref stands for the leaf that it refers to, two steps below the list, and its type is the
type of that leaf. A list without keys must be read-only. -/

namespace SchemaIr

/-- The keys of a list. -/
structure ListKeys where
  /-- The key names in the order of the key statement. -/
  keys : List String
  types : Table MappedType
  /-- The leaf that holds each key. -/
  nodes : Table NodeId
  /-- The data path of that leaf. -/
  paths : Table String

namespace ListKey

/-- The leaf two steps below a list to which a leafref key refers. -/
def redirect? (t : SchemaTree) (list key : NodeId) : Option NodeId := do
  let type ← (t.node key).type
  let path ← type.path
  match (Text.steps (Leafref.withoutPredicates path)).reverse with
  | leaf :: dir :: _ =>
    let container ← t.child? list (Leafref.unqualified dir)
    t.child? container (Leafref.unqualified leaf)
  | _ => none

/-- The leaf that holds a key, and what is wrong if a leafref key leads nowhere. -/
def holder (t : SchemaTree) (compress : Bool) (list : NodeId) (key : String) (leaf : NodeId) :
    NodeId × List Diagnostic :=
  if compress && (t.node leaf).isLeafref then
    match redirect? t list leaf with
    | some target => (target, [])
    | none => (leaf, [.lostKey (t.pathString list) key])
  else (leaf, [])

/-- The keys found so far and what is wrong with them. -/
structure Found where
  keys : ListKeys
  problems : Diagnostics
  /-- The types of all of them could be mapped to the end. -/
  ends : Bool

/-- Finds one more key. -/
def find (ctx : TypeContext) (compress : Bool) (list : NodeId) (owner : String) (found : Found)
    (key : String) : Found :=
  let t := ctx.tree
  match t.child? list key with
  | none =>
    let hint := closest? key ((t.children list).map t.name)
    { found with problems := found.problems.push (.noSuchKey (t.pathString list) key hint) }
  | some child =>
    let (leaf, lost) := holder t compress list key child
    let nodes := found.keys.nodes.insert key leaf
    let paths := found.keys.paths.insert key (t.pathString leaf)
    match ctx.leafType leaf owner with
    | some (.ok type) =>
      ⟨{ found.keys with nodes, paths, types := found.keys.types.insert key type },
        found.problems ++ ⟨lost⟩, found.ends⟩
    | some (.error problems) =>
      ⟨{ found.keys with nodes, paths }, found.problems ++ ⟨lost⟩ ++ problems, found.ends⟩
    | none => ⟨{ found.keys with nodes, paths }, found.problems ++ ⟨lost⟩, false⟩

end ListKey

/-- The keys of a list; none if the list is read-only and has none. There is no answer if the type of some key
    cannot be mapped to its end. -/
def TypeContext.listKeys (ctx : TypeContext) (compress : Bool) (list : NodeId) (owner : String) :
    Option (Except Diagnostics (Option ListKeys)) :=
  let t := ctx.tree
  let names := (t.node list).keyNames
  if t.kind list ≠ .list then some (.error (.single (.noList (t.pathString list) (t.kind list).name)))
  else if names.isEmpty then
    some (if t.isConfig list then .error (.single (.noListKey (t.pathString list))) else .ok none)
  else
    let found := names.foldl (ListKey.find ctx compress list owner) ⟨⟨names, ∅, ∅, ∅⟩, ∅, true⟩
    if found.ends then some (found.problems.settle (some found.keys)) else none

end SchemaIr
