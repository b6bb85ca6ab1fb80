import SchemaIr.Json.Decode
import SchemaIr.MappedType.Basic

/-! # Mapped types in documents

How a mapped type is written in a document and read from one. A written type leaves out members, positions
and default where it has none. -/

namespace SchemaIr.MappedType
open Json

/-- A table as a document gives it, unless it is empty. -/
def tableMember (name : String) (t : Table Nat) : List (String × Value) :=
  if t.isEmpty then [] else [(name, .obj (t.entries.map fun (k, n) => (k, .int n)))]

/-- The members of a written type, those of its union already written. -/
def jsonMembers (m : MappedType) (members : List Value) : List (String × Value) :=
  ("native_type", .str m.native) ::
    (tableMember "union_types" m.positions ++ Value.listMember "union_members" id members ++
      [("is_enumerated_value", .bool m.isEnumerated), ("zero_value", .str m.zero)] ++
      Value.member? "default_value" .str m.default)

mutual

/-- The type as a document gives it. -/
def toJson : MappedType → Value
  | ⟨native, positions, members, isEnumerated, zero, default⟩ =>
    .obj (jsonMembers ⟨native, positions, [], isEnumerated, zero, default⟩ (toJsons members))

/-- The members of a union as a document gives them. -/
def toJsons : List MappedType → List Value
  | [] => []
  | m :: ms => toJson m :: toJsons ms

end

/-- The fields of a mapped type at a depth, given how the members of a union are read. -/
def fields (depth : Nat) (members : Decoder (List MappedType)) : List (Decode.Field MappedType) :=
  [Decode.field "native_type" Decode.string fun native m => { m with native },
    Decode.fieldOr "union_types" (Decode.table depth Decode.natural) fun positions m => { m with positions },
    Decode.fieldOr "union_members" members fun members m => { m with members },
    Decode.fieldOr "is_enumerated_value" Decode.boolean fun isEnumerated m => { m with isEnumerated },
    Decode.field "zero_value" Decode.string fun zero m => { m with zero },
    Decode.fieldOr "default_value" (Decode.optional Decode.string) fun default m => { m with default }]

mutual

/-- A mapped type; its array or object takes one level. -/
def decode : Nat → Decoder MappedType
  | 0 => Decode.record "MappedType" 0 (fields 0 (Decode.list 0 fun _ => .error .tooDeep)) unresolved
  | depth + 1 => Decode.record "MappedType" (depth + 1) (fields depth (decodeMembers depth)) unresolved

/-- The members of a union; their array takes one level. -/
def decodeMembers : Nat → Decoder (List MappedType)
  | 0 => Decode.list 0 fun _ => .error .tooDeep
  | depth + 1 => Decode.list (depth + 1) (decode depth)

end

end SchemaIr.MappedType
