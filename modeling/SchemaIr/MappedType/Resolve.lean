import SchemaIr.Enumeration.Set
import SchemaIr.Leafref.Index
import SchemaIr.MappedType.Basic

/-! # Mapping the types of leaves

A leaf's type is mapped alternative by alternative, where the members of a nested union stand in its place.
A leafref is mapped as the type of the leaf at the end of its chain, which may be a union and hold further
leafrefs. Along a union that leads back to itself in this way the mapping would not end: `mapType` counts the
leafrefs that it may still follow and has no answer once they are used up. A mapping that ends at all follows
no more leafrefs than there are nodes, so that no answer under that bound means that there is none. -/

namespace SchemaIr

/-- What the mapping of types reads. -/
structure TypeContext where
  tree : SchemaTree
  index : LeafIndex
  enums : EnumSet

namespace TypeContext

/-- A mapped type with what went wrong in mapping it. -/
structure Outcome where
  mapped : MappedType
  problems : List Diagnostic

/-- A type that could not be mapped. -/
def failed (d : Diagnostic) : Outcome := ⟨.unresolved, [d]⟩

/-- Maps a type that is no union; `follow` maps the type of a leafref's target. -/
def mapAlternative (ctx : TypeContext) (follow : NodeId → TypeDescriptor → Option Outcome) (leaf : NodeId)
    (type : TypeDescriptor) : Option Outcome :=
  let leafPath := ctx.tree.pathString leaf
  if type.isLeafref then
    let path := type.path.getD ""
    let target := do
      let target ← ctx.index.chainTarget? ctx.tree leaf path
      let type ← (ctx.tree.node target).type
      pure (target, type)
    match target with
    | some (target, type) => follow target type
    | none => some (failed (.lostLeafref leafPath path))
  else if type.isEnumerated then
    match ctx.enums.nameFor? ctx.tree leaf type with
    | some name => some ⟨.enumerated name, []⟩
    | none => some (failed (.noEnumeration leafPath type.kind.name))
  else
    match MappedType.ofKind? type.kind with
    | some mapped => some ⟨mapped, []⟩
    | none => some (failed (.unsupported leafPath type.kind.name))

/-- The name of the union that a leaf declares. -/
def unionName (ctx : TypeContext) (owner : String) (leaf : NodeId) : String :=
  owner ++ "_" ++ Naming.camel (ctx.tree.name leaf) ++ "_Union"

/-- Maps one more alternative of a union. -/
def addMember (ctx : TypeContext) (follow : NodeId → TypeDescriptor → Option Outcome) (leaf : NodeId)
    (st : MappedType.Members × List Diagnostic) (type : TypeDescriptor) :
    Option (MappedType.Members × List Diagnostic) :=
  (mapAlternative ctx follow leaf type).map fun out => (st.1.add out.mapped, st.2 ++ out.problems)

mutual

/-- Takes one more member of a union to the member types found so far: a nested union gives its own members in
    its place. -/
def collectMember (ctx : TypeContext) (follow : NodeId → TypeDescriptor → Option Outcome) (leaf : NodeId)
    (st : MappedType.Members × List Diagnostic) :
    TypeDescriptor → Option (MappedType.Members × List Diagnostic)
  | ⟨kind, typedef, members, path, values, identity, default⟩ =>
    if kind = .union then collectMembers ctx follow leaf st members
    else addMember ctx follow leaf st ⟨kind, typedef, members, path, values, identity, default⟩

/-- Takes further members of a union, in order, to the member types found so far. -/
def collectMembers (ctx : TypeContext) (follow : NodeId → TypeDescriptor → Option Outcome) (leaf : NodeId)
    (st : MappedType.Members × List Diagnostic) :
    List TypeDescriptor → Option (MappedType.Members × List Diagnostic)
  | [] => some st
  | type :: types => do
    let st ← collectMember ctx follow leaf st type
    collectMembers ctx follow leaf st types

end

/-- Maps the members of a union, in order, into its member types. -/
def mapMembers (ctx : TypeContext) (follow : NodeId → TypeDescriptor → Option Outcome) (leaf : NodeId)
    (members : List TypeDescriptor) : Option (MappedType.Members × List Diagnostic) :=
  collectMembers ctx follow leaf (⟨[], ∅⟩, []) members

/-- Maps a union. Without member types it is an error if some union in it is empty; otherwise the members
    have told what is wrong with them. -/
def mapUnion (ctx : TypeContext) (owner : String) (follow : NodeId → TypeDescriptor → Option Outcome)
    (leaf : NodeId) (type : TypeDescriptor) : Option Outcome := do
  let (ms, problems) ← mapMembers ctx follow leaf type.members
  let empty :=
    if ms.types.isEmpty && type.hasEmptyUnion then [.noUnionMembers (ctx.tree.pathString leaf)] else []
  pure ⟨.ofMembers (ctx.unionName owner leaf) ms, problems ++ empty⟩

/-- Maps a type as that of a leaf; the first argument bounds the leafrefs that are followed. -/
def mapType (ctx : TypeContext) (owner : String) : Nat → NodeId → TypeDescriptor → Option Outcome
  | 0, _, _ => none
  | leafrefs + 1, leaf, type =>
    if type.isUnion then mapUnion ctx owner (mapType ctx owner leafrefs) leaf type
    else mapAlternative ctx (mapType ctx owner leafrefs) leaf type

/-- A bound on the leafrefs that a mapping follows, if it ends. -/
def bound (ctx : TypeContext) : Nat := ctx.tree.size + 2

/-- The mapped type of a leaf's descriptor; none if the mapping does not end. -/
def resolve (ctx : TypeContext) (owner : String) (leaf : NodeId) (type : TypeDescriptor) :
    Option (Except Diagnostics MappedType) :=
  (ctx.mapType owner ctx.bound leaf type).map fun out => Diagnostics.settle ⟨out.problems⟩ out.mapped

/-- The mapped type of a descriptor that is taken for a union, whatever it is: a descriptor without members
    has none. There is no answer if the mapping does not end. -/
def flattenUnion (ctx : TypeContext) (owner : String) (leaf : NodeId) (type : TypeDescriptor) :
    Option (Except Diagnostics MappedType) :=
  (mapUnion ctx owner (ctx.mapType owner ctx.bound) leaf type).map fun out =>
    Diagnostics.settle ⟨out.problems⟩ out.mapped

/-- The mapped type of a leaf, with the default that the leaf or else its type states; none if the mapping does
    not end. -/
def leafType (ctx : TypeContext) (leaf : NodeId) (owner : String) : Option (Except Diagnostics MappedType) :=
  let node := ctx.tree.node leaf
  match node.type with
  | none => some (.error (.single (.untyped (ctx.tree.pathString leaf) node.kind.name)))
  | some type =>
    (ctx.resolve owner leaf type).map fun result =>
      result.map fun mapped =>
        { mapped with default := (node.default <|> type.default).map mapped.defaultToken }

end TypeContext

end SchemaIr
