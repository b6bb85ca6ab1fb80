import SchemaIr.Diagnostic.Batch
import SchemaIr.Schema.Tree
import SchemaIr.Settings.Compression

/-! # The fields of a directory

A directory's fields are children of its node in the data tree. Compression merges the children of `config`
and `state` into the directory and replaces a container that only surrounds a list by the list.

The candidates come in a fixed order (`candidates`): the children of the preferred wrapper before all
others, which follow in name order. The first candidate of a name becomes the field. A later one is dropped
if either of the two comes out of a wrapper; two direct children of one name are an error. -/

namespace SchemaIr

namespace Fields

/-- Where a candidate comes from. -/
inductive Origin
  /-- The directory itself. -/
  | direct
  /-- One of its wrappers. -/
  | wrapper
  deriving DecidableEq, Repr

/-- A node that may become a field. -/
structure Candidate where
  node : NodeId
  origin : Origin
  deriving DecidableEq, Repr

/-! ### Candidates -/

/-- A child, or what it offers if it is a choice or case. -/
def resolve (t : SchemaTree) (origin : Origin) (child : NodeId) : List Candidate :=
  (if (t.kind child).isChoiceOrCase then t.dataChildren child else [child]).map (⟨·, origin⟩)

/-- The node belongs into a result that leaves out state if it is configuration. -/
def isKept (t : SchemaTree) (noState : Bool) (id : NodeId) : Bool := !noState || t.isConfig id

/-- What a wrapper contributes; nothing if the wrapper itself is left out. -/
def ofWrapper (t : SchemaTree) (noState : Bool) (wrapper : NodeId) : List Candidate :=
  if isKept t noState wrapper then
    (t.children wrapper).flatMap fun c =>
      match t.wrappedList? c with
      | some list => [⟨list, .wrapper⟩]
      | none => resolve t .wrapper c
  else []

/-- A leaf that stands for the key of its writable list and refers to the leaf that holds it. -/
def isOwnLeafrefKey (t : SchemaTree) (dir child : NodeId) : Bool :=
  t.kind dir == .list && t.isConfig dir && t.kind child == .leaf &&
    (t.node dir).keyNames.contains (t.name child) && (t.node child).isLeafref

/-- What a child contributes under compression. -/
def ofChild (t : SchemaTree) (noState : Bool) (dir child : NodeId) : List Candidate :=
  if t.isConfigOrState child then ofWrapper t noState child
  else
    match t.wrappedList? child with
    | some list => [⟨list, .direct⟩]
    | none => if isOwnLeafrefKey t dir child then [] else resolve t .direct child

/-- The preferred wrapper of a directory, if it has one. -/
def preferred? (t : SchemaTree) (compression : Compression) (dir : NodeId) : Option NodeId :=
  (t.child? dir compression.preferred).filter t.isConfigOrState

/-- The candidates of a directory in order, before those that are state are left out. -/
def sources (t : SchemaTree) (compression : Compression) (dir : NodeId) : List Candidate :=
  if compression.compresses then
    let first := preferred? t compression dir
    (first.map (ofWrapper t compression.excludesState)).getD [] ++
      ((t.children dir).filter (some · ≠ first)).flatMap (ofChild t compression.excludesState dir)
  else (t.children dir).flatMap (resolve t .direct)

/-- The candidates of a directory in order. -/
def candidates (t : SchemaTree) (compression : Compression) (dir : NodeId) : List Candidate :=
  (sources t compression dir).filter (isKept t compression.excludesState ·.node)

/-! ### Fields -/

/-- The fields chosen so far, and the names that two direct children share. -/
structure Chosen where
  fields : Table Candidate
  clashes : List (Candidate × Candidate)

/-- Lets one more candidate stand for its name. -/
def choose (t : SchemaTree) (chosen : Chosen) (c : Candidate) : Chosen :=
  match chosen.fields.get? (t.name c.node) with
  | none => { chosen with fields := chosen.fields.insert (t.name c.node) c }
  | some first =>
    match first.origin, c.origin with
    | .direct, .direct => { chosen with clashes := chosen.clashes ++ [(first, c)] }
    | _, _ => chosen

/-- The choice among all candidates of a directory. -/
def chosen (t : SchemaTree) (compression : Compression) (dir : NodeId) : Chosen :=
  (candidates t compression dir).foldl (choose t) ⟨∅, []⟩

/-- The error of two direct children that share a name. -/
def clashError (t : SchemaTree) (dir : NodeId) (clash : Candidate × Candidate) : Diagnostic :=
  .sameField (t.pathString dir) (t.name clash.2.node) ("/".intercalate (t.schemaPath clash.1.node))
    ("/".intercalate (t.schemaPath clash.2.node))

end Fields

/-- The fields of a directory by name. A directory that is left out as state has none. -/
def SchemaTree.fields (t : SchemaTree) (compression : Compression) (dir : NodeId) :
    Except Diagnostics (Table NodeId) :=
  if Fields.isKept t compression.excludesState dir then
    let chosen := Fields.chosen t compression dir
    Diagnostics.settle ⟨chosen.clashes.map (Fields.clashError t dir)⟩ (chosen.fields.map fun _ c => c.node)
  else .ok ∅

end SchemaIr
