/-! # Type descriptors

The type that a leaf or leaf-list declares. A descriptor is plain data: which enumeration, which union
member or which leafref target it stands for is settled by the passes that read it.

A union may nest further unions. Everything the passes ask of a union they ask of its alternatives, the
members left when every nested union is spliced in place (`TypeDescriptor.alternatives`). -/

namespace SchemaIr

/-! ### Kinds -/

/-- The built-in types. -/
inductive TypeKind
  | int8 | int16 | int32 | int64
  | uint8 | uint16 | uint32 | uint64
  | string | boolean | decimal64 | binary
  | enumeration | identityref | union | leafref
  | empty | instanceIdentifier | bits
  /-- Any type that is not built in. -/
  | unknown
  deriving DecidableEq, Repr

namespace TypeKind

/-- The kinds in the order of their declaration. -/
def all : List TypeKind :=
  [int8, int16, int32, int64, uint8, uint16, uint32, uint64, string, boolean, decimal64, binary,
    enumeration, identityref, union, leafref, empty, instanceIdentifier, bits, unknown]

/-- The name of a kind in documents and messages. -/
def name : TypeKind → String
  | int8 => "int8"
  | int16 => "int16"
  | int32 => "int32"
  | int64 => "int64"
  | uint8 => "uint8"
  | uint16 => "uint16"
  | uint32 => "uint32"
  | uint64 => "uint64"
  | string => "string"
  | boolean => "boolean"
  | decimal64 => "decimal64"
  | binary => "binary"
  | enumeration => "enumeration"
  | identityref => "identityref"
  | union => "union"
  | leafref => "leafref"
  | empty => "empty"
  | instanceIdentifier => "instance-identifier"
  | bits => "bits"
  | unknown => "unknown"

/-- The kind with a name; a name of no kind stands for `unknown`. -/
def ofName (s : String) : TypeKind := (all.find? (·.name == s)).getD unknown

end TypeKind

/-! ### Descriptors -/

/-- One value of an enumeration, with its number if it states one. -/
structure EnumValue where
  name : String
  value : Option Int
  deriving DecidableEq, Repr

/-- The typedef that a type was declared through. -/
structure TypedefRef where
  module : String
  name : String
  deriving DecidableEq, Repr

/-- The base of an identityref, with the identities derived from it. -/
structure IdentityRef where
  module : String
  base : String
  values : List String
  deriving DecidableEq, Repr

/-- The declared type of a leaf or leaf-list. -/
structure TypeDescriptor where
  kind : TypeKind
  typedef : Option TypedefRef
  /-- The members of a union. -/
  members : List TypeDescriptor
  /-- The path of a leafref. -/
  path : Option String
  /-- The values of an enumeration. -/
  values : List EnumValue
  identity : Option IdentityRef
  default : Option String
  deriving Repr

namespace TypeDescriptor

/-- The descriptor of a kind with nothing else stated. -/
def ofKind (kind : TypeKind) : TypeDescriptor := ⟨kind, none, [], none, [], none, none⟩

instance : Inhabited TypeDescriptor := ⟨ofKind .unknown⟩

/-- An enumeration or identityref; its values get a generated name. -/
def isEnumerated (t : TypeDescriptor) : Bool := t.kind == .enumeration || t.kind == .identityref

def isUnion (t : TypeDescriptor) : Bool := t.kind == .union

def isLeafref (t : TypeDescriptor) : Bool := t.kind == .leafref

/-- An enumeration that belongs to its leaf, because no typedef declares it. -/
def isInlineEnum (t : TypeDescriptor) : Bool := t.kind == .enumeration && t.typedef.isNone

mutual

/-- The members of a union with nested unions spliced in place; any other type is its own single
    alternative. -/
def alternatives : TypeDescriptor → List TypeDescriptor
  | ⟨kind, typedef, members, path, values, identity, default⟩ =>
    if kind = .union then alternativesOf members
    else [⟨kind, typedef, members, path, values, identity, default⟩]

/-- The alternatives of a list of members, in order. -/
def alternativesOf : List TypeDescriptor → List TypeDescriptor
  | [] => []
  | t :: ts => alternatives t ++ alternativesOf ts

end

mutual

/-- A union without members, or one that has such a union among its members. -/
def hasEmptyUnion : TypeDescriptor → Bool
  | ⟨kind, _, members, _, _, _, _⟩ => kind == .union && (members.isEmpty || anyEmptyUnion members)

/-- Whether some member has an empty union. -/
def anyEmptyUnion : List TypeDescriptor → Bool
  | [] => false
  | t :: ts => hasEmptyUnion t || anyEmptyUnion ts

end

/-- The alternatives of the members of a type, which for a union are its own. -/
def memberAlternatives (t : TypeDescriptor) : List TypeDescriptor := alternativesOf t.members

/-- The enumerations and identityrefs of a type, in order. -/
def enumeratedMembers (t : TypeDescriptor) : List TypeDescriptor := t.alternatives.filter isEnumerated

/-- The type is enumerated or is a union with an enumerated alternative. -/
def containsEnumerated (t : TypeDescriptor) : Bool := t.alternatives.any isEnumerated

/-- The paths of the leafrefs among the alternatives, in order. -/
def leafrefPaths (t : TypeDescriptor) : List String :=
  t.alternatives.filterMap fun a => if a.isLeafref then a.path else none

end TypeDescriptor

end SchemaIr
