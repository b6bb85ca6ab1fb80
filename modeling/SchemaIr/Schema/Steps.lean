import SchemaIr.Schema.Growth

/-! # Growing step by step

A tree can be built by hand, one step at a time: a step adds a module or a child, or settles what a node states. Each
step answers with the node that it added. A child of most kinds needs no more than a name and what the kind calls for
(`ChildKind`); it belongs to the module of its parent. -/

namespace SchemaIr

/-- A kind of child, with what the kind calls for. -/
inductive ChildKind
  | container | choice | case | anydata
  | list (key : Option String)
  | leaf (type : TypeDescriptor)
  | leafList (type : TypeDescriptor)

/-- The node of a child that belongs to a module and states nothing beyond its kind. -/
def ChildKind.node (name module : String) : ChildKind → Node
  | container => .ofKind name .container module
  | choice => .ofKind name .choice module
  | case => .ofKind name .case module
  | anydata => .ofKind name .anydata module
  | list key => { Node.ofKind name .list module with key }
  | leaf type => { Node.ofKind name .leaf module with type := some type }
  | leafList type => { Node.ofKind name .leafList module with type := some type }

theorem ChildKind.name_node (name module : String) (kind : ChildKind) : (kind.node name module).name = name := by
  cases kind <;> rfl

/-- A step that changes a tree. -/
inductive GrowthStep
  /-- Adds a module to generate for. -/
  | module (name uri : String) (shortName : Option String)
  | addModule (info : ModuleInfo)
  /-- Adds a child, which shadows an older one of its name. -/
  | addChild (parent : NodeId) (node : Node)
  /-- Adds a child unless its name is taken. -/
  | addNewChild (parent : NodeId) (node : Node)
  /-- Adds a child of the parent's module, which shadows an older one of its name. -/
  | addOwnChild (parent : NodeId) (name : String) (kind : ChildKind)
  | setConfig (id : NodeId) (config : Bool)
  | setModule (id : NodeId) (module : String)
  | setDefault (id : NodeId) (value : String)

/-- What a step answers: the node that it added, if it is one that adds a node, or the child that stands in its way. -/
abbrev StepAnswer := Except DuplicateChild (Option NodeId)

namespace SchemaTree

/-- The number that the next child of a node is going to have; a node that is not there has none. -/
def nextChild? (t : SchemaTree) (parent : NodeId) : Option NodeId := if parent < t.size then some t.size else none

/-- Takes one step. -/
def take (t : SchemaTree) : GrowthStep → SchemaTree × StepAnswer
  | .module name uri shortName => (t.addModule ⟨name, uri, shortName, false⟩, .ok (some t.size))
  | .addModule info => (t.addModule info, .ok (some t.size))
  | .addChild parent node => (t.addChild parent node, .ok (t.nextChild? parent))
  | .addNewChild parent node =>
    match t.addNewChild parent node with
    | .ok grown => (grown, .ok (t.nextChild? parent))
    | .error duplicate => (t, .error duplicate)
  | .addOwnChild parent name kind =>
    (t.addChild parent (kind.node name (t.node parent).module), .ok (t.nextChild? parent))
  | .setConfig id config => (t.setConfig id config, .ok none)
  | .setModule id module => (t.setModule id module, .ok none)
  | .setDefault id value => (t.setDefault id value, .ok none)

/-- Takes the steps of a list in order. -/
def grow (t : SchemaTree) : List GrowthStep → SchemaTree × List StepAnswer
  | [] => (t, [])
  | step :: rest =>
    let (next, answer) := t.take step
    let (grown, answers) := next.grow rest
    (grown, answer :: answers)

/-- The tree that steps build from nothing. -/
def built (steps : List GrowthStep) : SchemaTree := (empty.grow steps).1

end SchemaTree

end SchemaIr
