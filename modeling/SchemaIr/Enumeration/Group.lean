import SchemaIr.Diagnostic.Batch
import SchemaIr.Schema.Tree

/-! # Groups of enumerations

Logically identical enumerations are generated once. Every enumeration and identityref of every enumerated
leaf is sighted, and sightings with one key form a group: identities by the module and name of their base,
typedefs by their module and name, and inline enumerations by their context. The first sighting of a group
says what it holds; the paths of all its leaves are kept.

The context of an inline enumeration is the data path of its leaf within the module. Two of them are
identical if their leaves agree in module, name, parent and values; with deduplication off each leaf has a
group of its own. -/

namespace SchemaIr

/-- How an enumeration was declared. -/
inductive EnumKind
  /-- Inline, at its leaf. -/
  | simple
  | typedef
  | identity
  deriving DecidableEq, Repr

namespace EnumKind

def name : EnumKind → String
  | simple => "simple"
  | typedef => "typedef"
  | identity => "identity"

end EnumKind

/-- Identical enumerations. -/
structure EnumGroup where
  kind : EnumKind
  module : String
  /-- The name within the module: that of the identity, the typedef or the leaf. -/
  localName : String
  values : List String
  /-- The leaf sighted first. -/
  node : NodeId
  /-- The path of that leaf. -/
  representativePath : String
  /-- The path of an inline enumeration's leaf within the module; empty for the others. -/
  context : List String
  /-- The paths of all leaves. -/
  leafPaths : NameSet

/-- The groups of each kind by key. -/
structure EnumGroups where
  identities : Table EnumGroup
  typedefs : Table EnumGroup
  inline : Table EnumGroup

namespace EnumGroups

/-! ### Keys -/

/-- The key of an identity or typedef. -/
def ownKey (module name : String) : String := module ++ "/" ++ name

/-- The data path of a leaf within its module; under compression the wrappers are left out. -/
def context (t : SchemaTree) (compress : Bool) (leaf : NodeId) : List String :=
  let inModule := (t.dataNodes (t.ancestors leaf)).takeWhile (t.kind · ≠ .module)
  let kept := inModule.filter fun id => !(compress && t.isConfigOrState id)
  (kept.map t.name).reverse ++ [t.name leaf]

/-- The key of an inline enumeration. -/
def inlineKey (t : SchemaTree) (skipDedup : Bool) (leaf : NodeId) (context values : List String) : String :=
  if skipDedup then t.rootModule leaf ++ ":/" ++ "/".intercalate context
  else
    "|".intercalate
      [(t.node leaf).module, context.dropLast.getLast?.getD "", t.name leaf, ",".intercalate values]

/-! ### Sightings -/

/-- One enumeration at one leaf. -/
structure Sighting where
  key : String
  group : EnumGroup

/-- The distinct texts of a list, in order of their first occurrence. -/
def distinct (values : List String) : List String :=
  values.foldl (fun seen v => if v ∈ seen then seen else seen ++ [v]) []

/-- The sighting that an enumerated alternative is, or what is wrong with it. -/
def sight (t : SchemaTree) (compress skipDedup : Bool) (path : String) (leaf : NodeId)
    (member : TypeDescriptor) : Except Diagnostic Sighting :=
  let values := member.values.map (·.name)
  let paths := NameSet.ofNames [path]
  if member.kind = .identityref then
    match member.identity.filter (·.base ≠ "") with
    | none => .error (.noIdentityBase path)
    | some i =>
      .ok ⟨ownKey i.module i.base, ⟨.identity, i.module, i.base, distinct i.values, leaf, path, [], paths⟩⟩
  else
    match member.typedef with
    | some d => .ok ⟨ownKey d.module d.name, ⟨.typedef, d.module, d.name, values, leaf, path, [], paths⟩⟩
    | none =>
      let context := context t compress leaf
      .ok ⟨inlineKey t skipDedup leaf context values,
        ⟨.simple, (t.node leaf).module, t.name leaf, values, leaf, path, context, paths⟩⟩

/-- The sightings at a leaf, and what is wrong there. A leaf without type, with an empty union or with
    several inline enumerations has no sightings. -/
def sightings (t : SchemaTree) (compress skipDedup : Bool) (path : String) (leaf : NodeId) :
    List (Except Diagnostic Sighting) :=
  match (t.node leaf).type with
  | none => [.error (.untypedEnum path)]
  | some type =>
    if type.hasEmptyUnion then [.error (.noUnionMembers path)]
    else
      let members := type.enumeratedMembers
      if 1 < (members.filter (·.isInlineEnum)).length then [.error (.manyInlineEnums path)]
      else members.map (sight t compress skipDedup path leaf)

/-- The sightings at all enumerated leaves, in the order of their paths. -/
def allSightings (t : SchemaTree) (enumLeaves : Table NodeId) (compress skipDedup : Bool) :
    List (Except Diagnostic Sighting) :=
  enumLeaves.entries.flatMap fun (path, leaf) => sightings t compress skipDedup path leaf

/-! ### Groups -/

def empty : EnumGroups := ⟨∅, ∅, ∅⟩

/-- Joins a sighting with the group of its key, or founds the group. -/
def join (groups : Table EnumGroup) (s : Sighting) : Table EnumGroup :=
  match groups.get? s.key with
  | some g => groups.insert s.key { g with leafPaths := g.leafPaths.union s.group.leafPaths }
  | none => groups.insert s.key s.group

/-- Adds a sighting to the groups of its kind. -/
def add (groups : EnumGroups) (s : Sighting) : EnumGroups :=
  match s.group.kind with
  | .identity => { groups with identities := join groups.identities s }
  | .typedef => { groups with typedefs := join groups.typedefs s }
  | .simple => { groups with inline := join groups.inline s }

/-- The groups of a tree's enumerated leaves, and what is wrong at the leaves. -/
def ofLeaves (t : SchemaTree) (enumLeaves : Table NodeId) (compress skipDedup : Bool) :
    EnumGroups × List Diagnostic :=
  (allSightings t enumLeaves compress skipDedup).foldl
    (fun (groups, problems) s =>
      match s with
      | .ok s => (groups.add s, problems)
      | .error d => (groups, problems ++ [d]))
    (empty, [])

end EnumGroups

end SchemaIr
