import SchemaIr.Schema.TypeDescriptor
import SchemaIr.Text.Pieces

/-! # Schema nodes

What a schema states at one node: its kind and name, and what the kind calls for (the type of a leaf, the
keys of a list). Where the node stands is the tree's business (`SchemaIr.Schema.Tree`). -/

namespace SchemaIr

/-- The kinds of schema nodes. -/
inductive NodeKind
  | module | container | list | leaf | leafList | choice | case | anydata
  /-- Any statement that is none of the others. -/
  | unknown
  deriving DecidableEq, Repr

namespace NodeKind

/-- The kinds in the order of their declaration. -/
def all : List NodeKind := [module, container, list, leaf, leafList, choice, case, anydata, unknown]

/-- The name of a kind in documents and messages. -/
def name : NodeKind → String
  | module => "module"
  | container => "container"
  | list => "list"
  | leaf => "leaf"
  | leafList => "leaf-list"
  | choice => "choice"
  | case => "case"
  | anydata => "anydata"
  | unknown => "unknown"

/-- The kind with a name; a name of no kind stands for `unknown`. -/
def ofName (s : String) : NodeKind := (all.find? (·.name == s)).getD unknown

/-- A leaf or leaf-list. -/
def isLeafLike : NodeKind → Bool
  | leaf | leafList => true
  | _ => false

/-- A container or list. -/
def isDirectory : NodeKind → Bool
  | container | list => true
  | _ => false

/-- A choice or case, which has no place in the data tree. -/
def isChoiceOrCase : NodeKind → Bool
  | choice | case => true
  | _ => false

end NodeKind

/-- What a node states about being configuration. -/
inductive ConfigFlag
  | config | state
  /-- Nothing is stated; the parent decides. -/
  | inherit
  deriving DecidableEq, Repr

namespace ConfigFlag

/-- The flag of an optional config statement. -/
def ofStatement : Option Bool → ConfigFlag
  | some true => config
  | some false => state
  | none => inherit

/-- The config statement that a flag stands for. -/
def statement : ConfigFlag → Option Bool
  | config => some true
  | state => some false
  | inherit => none

end ConfigFlag

/-- What a schema states at one node. -/
structure Node where
  name : String
  kind : NodeKind
  /-- The declared type of a leaf or leaf-list. -/
  type : Option TypeDescriptor
  /-- The key statement of a list: key names parted by white space. -/
  key : Option String
  config : ConfigFlag
  /-- The module that defines the node. -/
  module : String
  default : Option String
  deriving Repr

/-- The node of a kind with nothing else stated. -/
def Node.ofKind (name : String) (kind : NodeKind) (module : String) : Node :=
  ⟨name, kind, none, none, .inherit, module, none⟩

/-- The key names that a node states, in order. -/
def Node.keyNames (n : Node) : List String := (n.key.map Text.words).getD []

/-- The declared type is a leafref. -/
def Node.isLeafref (n : Node) : Bool := (n.type.map (·.isLeafref)).getD false

/-- What a module says about itself. -/
structure ModuleInfo where
  name : String
  /-- The namespace URI. -/
  uri : String
  /-- The name by which leafref paths refer to the module. -/
  shortName : Option String
  /-- The module was loaded only because another one imports it. -/
  importedOnly : Bool
  deriving DecidableEq, Repr

end SchemaIr
