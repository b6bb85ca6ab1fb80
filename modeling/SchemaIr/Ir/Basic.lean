import SchemaIr.Diagnostic.Batch
import SchemaIr.Directory.FakeRoot
import SchemaIr.Enumeration.Set
import SchemaIr.ListKey.Basic

/-! # The intermediate representation

The result of a run, from which code is generated: every directory with its named and typed fields, the
enumerations, and the notes of the run. Directories are known by path, fields and enumerations by name, and
all are listed in the order of these. -/

namespace SchemaIr

/-- The kinds of fields. -/
inductive FieldKind
  | leaf | leafList | container | list | anydata
  deriving DecidableEq, Repr

namespace FieldKind

def name : FieldKind → String
  | leaf => "leaf"
  | leafList => "leaf-list"
  | container => "container"
  | list => "list"
  | anydata => "anydata"

/-- The field kind of a node; modules, choices, cases and unknown nodes are no fields. -/
def ofNode? : NodeKind → Option FieldKind
  | .leaf => some leaf
  | .leafList => some leafList
  | .container => some container
  | .list => some list
  | .anydata => some anydata
  | .module | .choice | .case | .unknown => none

end FieldKind

/-- A field of a directory. -/
structure Field where
  name : String
  kind : FieldKind
  /-- The node that the field stands for. -/
  node : NodeId
  /-- The data path of the node from the directory on; in the fake root, from the module on. -/
  schemaPath : String
  /-- The same path through the other of `config` and `state`, if the leaf is in both. -/
  shadowPath : Option String
  /-- The type of a leaf or leaf-list. -/
  type : Option MappedType
  /-- The name of the directory that a container or list is. -/
  directory : Option String
  /-- The module that defines the node. -/
  module : String

/-- A generated directory. -/
structure Directory where
  name : String
  /-- The segments of the data path. -/
  path : List String
  fields : Table Field
  keys : Option ListKeys
  isFakeRoot : Bool
  /-- The module that defines the directory's node; the fake root has none. -/
  module : Option String

namespace Directory

/-- The path as text. -/
def pathString (d : Directory) : String := if d.isFakeRoot then FakeRoot.path else "/".intercalate d.path

end Directory

/-- The result of a run. -/
structure Ir where
  directories : Table Directory
  enumerations : Table Enumeration
  /-- The notes of the run, in order. -/
  notes : Diagnostics

namespace Ir

/-- The result without anything in it. -/
def empty : Ir := ⟨∅, ∅, ∅⟩

instance : EmptyCollection Ir := ⟨empty⟩

def directory? (ir : Ir) (path : String) : Option Directory := ir.directories.get? path

/-- The first directory with a name, in the order of paths. -/
def directoryNamed? (ir : Ir) (name : String) : Option Directory := ir.directories.values.find? (·.name == name)

end Ir

end SchemaIr
