import SchemaIr.Schema.TypeDescriptor
import SchemaIr.Json.Decode

/-! # Type descriptors in documents

How a type descriptor is written in a document and read from one. A written descriptor leaves out what it
does not state; a kind that is not built in is written, and reads, as `unknown`. -/

namespace SchemaIr
open Json

/-! ### Writing -/

def EnumValue.toJson (v : EnumValue) : Value :=
  .obj (("name", .str v.name) :: Value.member? "value" .int v.value)

def TypedefRef.toJson (r : TypedefRef) : Value := .obj [("module", .str r.module), ("name", .str r.name)]

def IdentityRef.toJson (r : IdentityRef) : Value :=
  .obj [("module", .str r.module), ("base", .str r.base), ("values", .texts r.values)]

namespace TypeDescriptor

/-- The members of a written descriptor, those of its union members already written. -/
def jsonMembers (t : TypeDescriptor) (union : List Value) : List (String × Value) :=
  ("kind", .str t.kind.name) ::
    (Value.member? "typedef" TypedefRef.toJson t.typedef ++ Value.listMember "union" id union ++
      Value.member? "path" .str t.path ++ Value.listMember "enum" EnumValue.toJson t.values ++
      Value.member? "identity" IdentityRef.toJson t.identity ++ Value.member? "default" .str t.default)

mutual

/-- The descriptor as a document gives it. -/
def toJson : TypeDescriptor → Value
  | ⟨kind, typedef, members, path, values, identity, default⟩ =>
    .obj (jsonMembers ⟨kind, typedef, [], path, values, identity, default⟩ (toJsons members))

/-- The members of a union as a document gives them. -/
def toJsons : List TypeDescriptor → List Value
  | [] => []
  | t :: ts => toJson t :: toJsons ts

end

end TypeDescriptor

/-! ### Reading -/

/-- A kind by its name; any other name reads as `unknown`. -/
def TypeKind.decode (depth : Nat) : Decoder TypeKind := Decode.choice depth fun s => .ok (ofName s)

def EnumValue.decode (depth : Nat) : Decoder EnumValue :=
  Decode.record "EnumValue" depth
    [Decode.field "name" Decode.string fun name v => { v with name },
      Decode.fieldOr "value" (Decode.optional Decode.int64) fun value v => { v with value }]
    ⟨"", none⟩

def TypedefRef.decode (depth : Nat) : Decoder TypedefRef :=
  Decode.record "TypedefRef" depth
    [Decode.field "module" Decode.string fun module r => { r with module },
      Decode.field "name" Decode.string fun name r => { r with name }]
    ⟨"", ""⟩

def IdentityRef.decode (depth : Nat) : Decoder IdentityRef :=
  Decode.record "IdentityRef" depth
    [Decode.field "module" Decode.string fun module r => { r with module },
      Decode.fieldOr "base" Decode.string fun base r => { r with base },
      Decode.fieldOr "values" (Decode.list (depth - 1) Decode.string) fun values r => { r with values }]
    ⟨"", "", []⟩

namespace TypeDescriptor

/-- The descriptor that states nothing. -/
def blank : TypeDescriptor := ofKind .unknown

/-- The fields of a descriptor at a depth, given how the members of a union are read. -/
def fields (depth : Nat) (members : Decoder (List TypeDescriptor)) : List (Decode.Field TypeDescriptor) :=
  [Decode.field "kind" (TypeKind.decode depth) fun kind t => { t with kind },
    Decode.fieldOr "typedef" (Decode.optional (TypedefRef.decode depth)) fun typedef t => { t with typedef },
    Decode.fieldOr "union" members fun members t => { t with members },
    Decode.fieldOr "path" (Decode.optional Decode.string) fun path t => { t with path },
    Decode.fieldOr "enum" (Decode.list depth (EnumValue.decode (depth - 1))) fun values t =>
      { t with values },
    Decode.fieldOr "identity" (Decode.optional (IdentityRef.decode depth)) fun identity t =>
      { t with identity },
    Decode.fieldOr "default" (Decode.optional Decode.string) fun default t => { t with default }]

mutual

/-- A descriptor; its array or object takes one level. -/
def decode : Nat → Decoder TypeDescriptor
  | 0 => Decode.record "TypeDescriptor" 0 (fields 0 (Decode.list 0 fun _ => .error .tooDeep)) blank
  | depth + 1 => Decode.record "TypeDescriptor" (depth + 1) (fields depth (decodeMembers depth)) blank

/-- The members of a union; their array takes one level. -/
def decodeMembers : Nat → Decoder (List TypeDescriptor)
  | 0 => Decode.list 0 fun _ => .error .tooDeep
  | depth + 1 => Decode.list (depth + 1) (decode depth)

end

end TypeDescriptor

end SchemaIr
