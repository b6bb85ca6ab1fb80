import SchemaIr.Enumeration.Group
import SchemaIr.Naming.Camel
import SchemaIr.Naming.Registry

/-! # Named enumerations

Each group of enumerations gets a name that no other has. Identities are named first, then typedefs, then
inline enumerations, all out of one registry.

An identity's name is settled by its module and name; two identities of one name, or one whose name is
taken, are an error. Typedefs with one name are told apart by underscores. An inline enumeration is named by
its module and the last two segments of its context, and by one segment more as long as another group, or
the registry, has the same name; where the context is used up, underscores tell them apart. -/

namespace SchemaIr

/-- A generated enumeration. -/
structure Enumeration where
  name : String
  kind : EnumKind
  module : String
  values : List String
  /-- The leaf sighted first. -/
  node : NodeId
  /-- The path of that leaf. -/
  representativePath : String
  /-- The paths of all leaves with this enumeration, in order. -/
  leafPaths : List String
  deriving DecidableEq, Repr

/-- The generated enumerations by name, and the names by which leaves refer to them. -/
structure EnumSet where
  enumerations : Table Enumeration
  /-- By the key of the identity. -/
  identityNames : Table String
  /-- By the key of the typedef. -/
  typedefNames : Table String
  /-- By the path of the leaf. -/
  inlineNames : Table String

namespace EnumSet

/-- The set without enumerations. -/
def empty : EnumSet := ⟨∅, ∅, ∅, ∅⟩

instance : EmptyCollection EnumSet := ⟨empty⟩

/-- The name of the enumeration that an alternative of a leaf's type stands for. -/
def nameFor? (set : EnumSet) (t : SchemaTree) (leaf : NodeId) (member : TypeDescriptor) : Option String :=
  match member.kind with
  | .identityref =>
    member.identity.bind fun i => set.identityNames.get? (EnumGroups.ownKey i.module i.base)
  | .enumeration =>
    match member.typedef with
    | some d => set.typedefNames.get? (EnumGroups.ownKey d.module d.name)
    | none => set.inlineNames.get? (t.pathString leaf)
  | _ => none

/-! ### Identities and typedefs -/

/-- The name that an identity or typedef wants. -/
def ownName (g : EnumGroup) : String := Naming.camel g.module ++ "_" ++ Naming.camel g.localName

/-- The keys of groups by the name that each wants. -/
def byName (groups : Table EnumGroup) : Table (List String) :=
  groups.entries.foldl (fun t (key, g) => t.insert (ownName g) (t.getD (ownName g) [] ++ [key])) ∅

/-- The names given to identities by key, and the conflicts. -/
structure IdentityNames where
  names : Table String
  registry : NameRegistry
  conflicts : List Diagnostic

/-- Names the identities that want one name. -/
def nameIdentity (st : IdentityNames) : String × List String → IdentityNames
  | (name, [key]) =>
    match st.registry.insert name with
    | (true, registry) => { st with names := st.names.insert key name, registry }
    | (false, _) => { st with conflicts := st.conflicts ++ [.takenIdentityName key name] }
  | (name, keys) => { st with conflicts := st.conflicts ++ [.sameIdentityName keys name] }

/-- Names all identities. -/
def nameIdentities (identities : Table EnumGroup) (registry : NameRegistry) : IdentityNames :=
  (byName identities).entries.foldl nameIdentity ⟨∅, registry, []⟩

/-- Names all typedefs. -/
def nameTypedefs (typedefs : Table EnumGroup) (registry : NameRegistry) : Table String × NameRegistry :=
  registry.resolveClashes ((byName typedefs).map fun _ keys => NameSet.ofNames keys)

/-! ### Inline enumerations -/

/-- An inline enumeration that wants the name of its module and the last `level` segments of its context. -/
structure Pending where
  group : EnumGroup
  level : Nat

/-- The name that it wants. -/
def Pending.candidate (p : Pending) : String :=
  Naming.qualify p.group.module (p.group.context.drop (p.group.context.length - p.level))

/-- The whole context is in the name. -/
def Pending.exhausted (p : Pending) : Bool := p.group.context.length ≤ p.level

/-- Where the naming of inline enumerations stands. -/
structure InlineNames where
  /-- The names given so far, by representative path. -/
  names : Table String
  registry : NameRegistry
  /-- The representative paths for which one name is left to want, by that name. -/
  exhausted : Table NameSet
  /-- The ones that want a longer name. -/
  next : List Pending

/-- Puts off one of several that want the same name. -/
def putOff (name : String) (st : InlineNames) (p : Pending) : InlineNames :=
  if p.exhausted then
    let paths := (st.exhausted.getD name ∅).add p.group.representativePath
    { st with exhausted := st.exhausted.insert name paths }
  else { st with next := st.next ++ [{ p with level := p.level + 1 }] }

/-- Gives a name to the only one that wants it, if it is free. -/
def nameCandidate (st : InlineNames) : String × List Pending → InlineNames
  | (name, [p]) =>
    match st.registry.insert name with
    | (true, registry) => { st with names := st.names.insert p.group.representativePath name, registry }
    | (false, _) => putOff name st p
  | (name, ps) => ps.foldl (putOff name) st

/-- The pending ones by the name that each wants. -/
def byCandidate (ps : List Pending) : Table (List Pending) :=
  ps.foldl (fun t p => t.insert p.candidate (t.getD p.candidate [] ++ [p])) ∅

/-- Names inline enumerations in rounds, each with longer names than the one before. -/
def nameRounds : Nat → InlineNames → InlineNames
  | 0, st => st
  | rounds + 1, st =>
    if st.next.isEmpty then st
    else nameRounds rounds ((byCandidate st.next).entries.foldl nameCandidate { st with next := [] })

/-- Names all inline enumerations. No context is longer than the number of rounds. -/
def nameInline (inline : Table EnumGroup) (registry : NameRegistry) : Table String × NameRegistry :=
  let pending := inline.values.map fun g => Pending.mk g (min g.context.length 2)
  let rounds := (inline.values.map (·.context.length)).foldl max 0 + 1
  let st := nameRounds rounds ⟨∅, registry, ∅, pending⟩
  let (more, registry) := st.registry.resolveClashes st.exhausted
  (st.names.union more, registry)

/-! ### The set -/

/-- The enumeration that a named group is. -/
def ofGroup (name : String) (g : EnumGroup) : Enumeration :=
  ⟨name, g.kind, g.module, g.values, g.node, g.representativePath, g.leafPaths.names⟩

/-- Adds a named identity. -/
def addIdentity (names : Table String) (set : EnumSet) : String × EnumGroup → EnumSet
  | (key, g) =>
    match names.get? key with
    | some name =>
      { set with
        enumerations := set.enumerations.insert name (ofGroup name g)
        identityNames := set.identityNames.insert key name }
    | none => set

/-- Adds a named typedef. -/
def addTypedef (names : Table String) (set : EnumSet) : String × EnumGroup → EnumSet
  | (key, g) =>
    match names.get? key with
    | some name =>
      { set with
        enumerations := set.enumerations.insert name (ofGroup name g)
        typedefNames := set.typedefNames.insert key name }
    | none => set

/-- Adds a named inline enumeration, by which every one of its leaves is known. -/
def addInline (names : Table String) (set : EnumSet) (g : EnumGroup) : EnumSet :=
  match names.get? g.representativePath with
  | some name =>
    { set with
      enumerations := set.enumerations.insert name (ofGroup name g)
      inlineNames := g.leafPaths.names.foldl (fun t path => t.insert path name) set.inlineNames }
  | none => set

/-- The named enumerations of a tree's enumerated leaves. Names are given out even where the result is an
    error. -/
def ofLeaves (t : SchemaTree) (enumLeaves : Table NodeId) (compress skipDedup : Bool)
    (registry : NameRegistry) : Except Diagnostics EnumSet × NameRegistry :=
  let (groups, problems) := EnumGroups.ofLeaves t enumLeaves compress skipDedup
  let identities := nameIdentities groups.identities registry
  let (typedefNames, registry) := nameTypedefs groups.typedefs identities.registry
  let (inlineNames, registry) := nameInline groups.inline registry
  let set := groups.identities.entries.foldl (addIdentity identities.names) ∅
  let set := groups.typedefs.entries.foldl (addTypedef typedefNames) set
  let set := groups.inline.values.foldl (addInline inlineNames) set
  (Diagnostics.settle ⟨problems ++ identities.conflicts⟩ set, registry)

end EnumSet

end SchemaIr
