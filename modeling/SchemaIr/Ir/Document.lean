import SchemaIr.Diagnostic.Document
import SchemaIr.Ir.Basic
import SchemaIr.MappedType.Document

/-! # The intermediate representation as JSON

How the result of a run is written. Members are in a fixed order, tables in the order of their names, and
what a field or directory does not have is left out. The numbers of nodes are not written. -/

namespace SchemaIr
open Json

/-- A table as an object. -/
def Table.toJson {α : Type} (f : α → Value) (t : Table α) : Value :=
  .obj (t.entries.map fun (k, a) => (k, f a))

def Field.toJson (f : Field) : Value :=
  .obj
    ([("name", .str f.name), ("kind", .str f.kind.name), ("schema_path", .str f.schemaPath)] ++
      Value.member? "shadow_path" .str f.shadowPath ++
      Value.member? "mapped_type" MappedType.toJson f.type ++
      Value.member? "directory" .str f.directory ++ [("module", .str f.module)])

def ListKeys.toJson (k : ListKeys) : Value :=
  .obj
    [("keys", .texts k.keys), ("key_types", k.types.toJson MappedType.toJson),
      ("key_paths", k.paths.toJson .str)]

def Directory.toJson (d : Directory) : Value :=
  .obj
    ([("name", .str d.name), ("path", .texts d.path), ("fields", d.fields.toJson Field.toJson)] ++
      Value.member? "list_keys" ListKeys.toJson d.keys ++ [("is_fake_root", .bool d.isFakeRoot)] ++
      Value.member? "belonging_module" .str d.module)

def Enumeration.toJson (e : Enumeration) : Value :=
  .obj
    [("name", .str e.name), ("kind", .str e.kind.name), ("module", .str e.module),
      ("values", .texts e.values), ("representative_path", .str e.representativePath),
      ("leaf_paths", .texts e.leafPaths)]

def Ir.toJson (ir : Ir) : Value :=
  .obj
    ([("directories", ir.directories.toJson Directory.toJson),
        ("enums", ir.enumerations.toJson Enumeration.toJson)] ++
      if ir.notes.isEmpty then [] else [("diagnostics", ir.notes.toJson)])

end SchemaIr
