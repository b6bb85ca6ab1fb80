import SchemaIr.Directory.Discovery
import SchemaIr.Settings.Basic

/-! # The fake root

The fake root is a directory made up over all modules, at the path `/`. Its fields are the top-level
directories and the top-level leaves, so that disjoint modules can be handled as a single tree. Under
compression a list inside an elided top-level container counts as top-level. -/

namespace SchemaIr.FakeRoot

/-- The path of the fake root. -/
def path : String := "/"

/-- The directory at a path is a top-level one. -/
def isTopLevel (t : SchemaTree) (directories : Table MappedDirectory) (compress : Bool) (path : String)
    (id : NodeId) : Bool :=
  let segments := Text.pieces '/' path
  segments.length == 3 ||
    (segments.length == 4 && compress && t.kind id == .list &&
      !directories.contains ("/".intercalate (segments.take 3)))

/-- The top-level directories in the order of their paths. -/
def topDirectories (t : SchemaTree) (directories : Table MappedDirectory) (compress : Bool) : List NodeId :=
  directories.entries.filterMap fun
    | (path, .schema id) => if isTopLevel t directories compress path id then some id else none
    | (_, .fakeRoot _ _) => none

/-- The top-level leaves and leaf-lists of the roots, excluded ones left out. -/
def topLeaves (t : SchemaTree) (roots : List NodeId) (excluded : List String) : List NodeId :=
  (t.withoutExcluded excluded roots).flatMap fun root =>
    (t.dataChildren root).filter fun c => (t.kind c).isLeafLike && !t.isExcluded excluded c

/-- The fields chosen so far, and the errors of names that are given twice. -/
structure Chosen where
  fields : Table NodeId
  errors : List Diagnostic

/-- Lets one more entity stand for its name, unless another one does. -/
def choose (t : SchemaTree) (chosen : Chosen) (id : NodeId) : Chosen :=
  match chosen.fields.get? (t.name id) with
  | some first =>
    { chosen with errors :=
        chosen.errors ++ [.sameRootEntry path (t.name id) (t.pathString first) (t.pathString id)] }
  | none => { chosen with fields := chosen.fields.insert (t.name id) id }

/-- Puts the fake root among the directories, whose fields are the top-level directories and the given elements. Two
    entities of one name are an error, and the directories then stay as they are. -/
def create (t : SchemaTree) (elements : List NodeId) (name : String) (compress : Bool) :
    StateM (Table MappedDirectory) (Except Diagnostics Unit) := do
  let directories ← get
  let chosen := (topDirectories t directories compress ++ elements).foldl (choose t) ⟨∅, []⟩
  match Diagnostics.settle ⟨chosen.errors⟩ chosen.fields with
  | .error problems => pure (.error problems)
  | .ok fields =>
    set (directories.insert path (.fakeRoot (GenerateSettings.nameOrDefault name) fields))
    pure (.ok ())

/-- The directories with the fake root added. -/
def add (t : SchemaTree) (directories : Table MappedDirectory) (elements : List NodeId) (name : String)
    (compress : Bool) : Except Diagnostics (Table MappedDirectory) :=
  let created := create t elements name compress directories
  created.1.map fun _ => created.2

end SchemaIr.FakeRoot
