import SchemaIr.Schema.Node
import SchemaIr.Schema.TypeDocument

/-! # Module documents

A module document is one module as its parser hands it over: what the module says about itself, the names
of the modules it imports, and its nodes. A written document states every field, `null` where there is
nothing; a read one may leave out all but the names, the kinds and the namespace. -/

namespace SchemaIr
open Json

/-- A node of a module document. -/
structure NodeDocument where
  name : String
  kind : NodeKind
  children : List NodeDocument
  type : Option TypeDescriptor
  key : Option String
  config : Option Bool
  /-- The module that defines the node, where it is not that of the parent. -/
  module : Option String
  default : Option String
  deriving Repr

/-- A module document. -/
structure ModuleDocument where
  name : String
  /-- The namespace URI. -/
  uri : String
  /-- The name by which leafref paths refer to the module. -/
  shortName : Option String
  imports : List String
  children : List NodeDocument
  deriving Repr

/-! ### Writing -/

namespace NodeDocument

mutual

/-- The node as a document gives it. -/
def toJson : NodeDocument → Value
  | ⟨name, kind, children, type, key, config, module, default⟩ =>
    .obj
      [("name", .str name), ("kind", .str kind.name), ("children", .arr (toJsons children)),
        ("type", .ofOption TypeDescriptor.toJson type), ("key", .ofOption .str key),
        ("config", .ofOption .bool config), ("module", .ofOption .str module),
        ("default", .ofOption .str default)]

/-- A list of nodes as a document gives it. -/
def toJsons : List NodeDocument → List Value
  | [] => []
  | n :: ns => toJson n :: toJsons ns

end

end NodeDocument

def ModuleDocument.toJson (m : ModuleDocument) : Value :=
  .obj
    [("name", .str m.name), ("namespace", .str m.uri), ("prefix", .ofOption .str m.shortName),
      ("imports", .texts m.imports), ("children", .arr (NodeDocument.toJsons m.children))]

/-! ### Reading -/

/-- A kind by its name; any other name reads as `unknown`. -/
def NodeKind.decode (depth : Nat) : Decoder NodeKind := Decode.choice depth fun s => .ok (ofName s)

namespace NodeDocument

/-- The node that states nothing. -/
def blank : NodeDocument := ⟨"", .unknown, [], none, none, none, none, none⟩

/-- The fields of a node at a depth, given how its children are read. -/
def fields (depth : Nat) (children : Decoder (List NodeDocument)) : List (Decode.Field NodeDocument) :=
  [Decode.field "name" Decode.string fun name n => { n with name },
    Decode.field "kind" (NodeKind.decode depth) fun kind n => { n with kind },
    Decode.fieldOr "children" children fun children n => { n with children },
    Decode.fieldOr "type" (Decode.optional (TypeDescriptor.decode depth)) fun type n => { n with type },
    Decode.fieldOr "key" (Decode.optional Decode.string) fun key n => { n with key },
    Decode.fieldOr "config" (Decode.optional Decode.boolean) fun config n => { n with config },
    Decode.fieldOr "module" (Decode.optional Decode.string) fun module n => { n with module },
    Decode.fieldOr "default" (Decode.optional Decode.string) fun default n => { n with default }]

mutual

/-- A node; its array or object takes one level. -/
def decode : Nat → Decoder NodeDocument
  | 0 => Decode.record "NodeDoc" 0 (fields 0 (Decode.list 0 fun _ => .error .tooDeep)) blank
  | depth + 1 => Decode.record "NodeDoc" (depth + 1) (fields depth (decodeChildren depth)) blank

/-- A list of nodes; its array takes one level. -/
def decodeChildren : Nat → Decoder (List NodeDocument)
  | 0 => Decode.list 0 fun _ => .error .tooDeep
  | depth + 1 => Decode.list (depth + 1) (decode depth)

end

end NodeDocument

/-- A module document. -/
def ModuleDocument.decode (depth : Nat) : Decoder ModuleDocument :=
  Decode.record "ModuleDoc" depth
    [Decode.field "name" Decode.string fun name m => { m with name },
      Decode.field "namespace" Decode.string fun uri m => { m with uri },
      Decode.fieldOr "prefix" (Decode.optional Decode.string) fun shortName m => { m with shortName },
      Decode.fieldOr "imports" (Decode.list (depth - 1) Decode.string) fun imports m => { m with imports },
      Decode.fieldOr "children" (NodeDocument.decodeChildren (depth - 1)) fun children m =>
        { m with children }]
    ⟨"", "", none, [], []⟩

end SchemaIr
