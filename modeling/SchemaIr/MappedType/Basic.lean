import SchemaIr.Leafref.Path
import SchemaIr.Naming.Camel
import SchemaIr.Schema.TypeDescriptor
import SchemaIr.Table
import SchemaIr.Text.Quoted

/-! # Mapped types

A mapped type is what a leaf's type becomes in the result: a native type with its zero value, and a default
if the leaf states one. Enumerations and unions are known by generated names, which the native type carries
behind a mark. A union lists its member types, no native type twice, and the position of each. -/

namespace SchemaIr

/-- The type of a generated field. -/
structure MappedType where
  native : String
  /-- The position of each member of a union, by its native type. -/
  positions : Table Nat
  members : List MappedType
  /-- The values are those of a generated enumeration. -/
  isEnumerated : Bool
  /-- The value of a field that is not set. -/
  zero : String
  default : Option String

namespace MappedType

/-- The mark of native types that are generated enumerations. -/
def enumMark : String := "enum:"

/-- The mark of native types that are generated unions. -/
def unionMark : String := "union:"

/-- The text after a mark. -/
def afterMark? (mark text : String) : Option String :=
  if mark.toList.isPrefixOf text.toList then some (String.ofList (text.toList.drop mark.length)) else none

/-- A type with nothing but a zero value. -/
def scalar (native zero : String) : MappedType := ⟨native, ∅, [], false, zero, none⟩

/-- The type of a generated enumeration. -/
def enumerated (name : String) : MappedType := ⟨enumMark ++ name, ∅, [], true, name ++ "_UNSET", none⟩

/-- Stands for a type that could not be mapped; it has no native type. -/
def unresolved : MappedType := scalar "" ""

def isUnion (m : MappedType) : Bool := (afterMark? unionMark m.native).isSome

/-- The name of the generated enumeration. -/
def enumName? (m : MappedType) : Option String := afterMark? enumMark m.native

/-- The native types of the members of a union. -/
def memberNatives (m : MappedType) : List String := m.members.map (·.native)

/-- The mapped type of a kind that maps to the same type everywhere. -/
def ofKind? (kind : TypeKind) : Option MappedType :=
  match kind with
  | .int8 | .int16 | .int32 | .int64 | .uint8 | .uint16 | .uint32 | .uint64 => some (scalar kind.name "0")
  | .string => some (scalar "string" "\"\"")
  | .boolean => some (scalar "bool" "false")
  | .decimal64 => some (scalar "decimal64" "0.0")
  | .binary => some (scalar "binary" "[]")
  | .empty => some (scalar "empty" "false")
  | .bits => some (scalar "bits" "[]")
  | .instanceIdentifier => some (scalar "instance-identifier" "\"\"")
  | .enumeration | .identityref | .union | .leafref | .unknown => none

/-- A stated default as a value of the type: enumerated values by their generated name, texts in quotes, and
    all others as they are. -/
def defaultToken (m : MappedType) (default : String) : String :=
  match m.enumName? with
  | some name => name ++ "_" ++ Naming.camel (Leafref.unqualified default)
  | none =>
    if m.native = "string" ∨ m.native = "instance-identifier" then Text.quote default else default

/-! ### Unions -/

/-- The member types of a union found so far. -/
structure Members where
  types : List MappedType
  positions : Table Nat

/-- Adds a member type, unless it could not be mapped or is there already. -/
def Members.add (ms : Members) (m : MappedType) : Members :=
  if m.native = "" ∨ ms.positions.contains m.native then ms
  else ⟨ms.types ++ [m], ms.positions.insert m.native ms.types.length⟩

/-- The type of a union with a name: a single member stands for itself. -/
def ofMembers (name : String) (ms : Members) : MappedType :=
  match ms.types with
  | [] => unresolved
  | [m] => m
  | types => ⟨unionMark ++ name, ms.positions, types, false, "null", none⟩

end MappedType

end SchemaIr
