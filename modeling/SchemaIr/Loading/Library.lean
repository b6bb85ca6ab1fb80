import SchemaIr.Disk.Basic
import SchemaIr.Loading.Error
import SchemaIr.Schema.Document

/-! # Libraries of module documents

A library holds the documents of a set of modules by name. It is loaded from a disk: first the requested
files, then every module that one of the loaded ones imports, until no import is missing. An import is
looked for under its name beside the importing file and then in the search paths, the first of which that
has it wins. Every module is loaded once; the ones that were not requested are marked. -/

namespace SchemaIr

/-- A loaded module document. -/
structure LoadedModule where
  document : ModuleDocument
  /-- The file it was read from. -/
  path : String
  /-- The module was loaded only because another one imports it. -/
  importedOnly : Bool

/-- The loaded module documents by name. -/
abbrev Library := Table LoadedModule

/-- An import that is to be resolved, with the importing file. -/
structure Import where
  module : String
  importer : String
  deriving DecidableEq, Repr

namespace Library

/-! ### Single modules -/

/-- Reads the module document at a path. -/
def readModule (disk : Disk) (path : String) : Except LoadError ModuleDocument :=
  if disk.isFile path then
    match disk.text? path with
    | none => .error (.unreadable "stream did not contain valid UTF-8")
    | some text =>
      match Json.Decode.text ModuleDocument.decode text with
      | .ok document => .ok document
      | .error e => .error (.malformed path e.message)
  else .error (.fileNotFound path)

/-- The imports that a document at a path states, in order. -/
def importsOf (document : ModuleDocument) (path : String) : List Import := document.imports.map (⟨·, path⟩)

/-- The file of an imported module. -/
def findImport? (disk : Disk) (searchPaths : List String) (i : Import) : Option String :=
  let name := i.module ++ ".json"
  let sibling := Path.join (Path.parent i.importer) name
  if disk.isFile sibling then some sibling else searchPaths.findSome? fun dir => disk.findBelow? dir name

/-- The module that was read from a path; the path itself if none was. -/
def moduleAt (lib : Library) (path : String) : String :=
  match lib.values.find? fun m => Path.same m.path path with
  | some m => m.document.name
  | none => path

/-! ### Requested modules -/

/-- Loads the requested files in order; gives the imports that they state. -/
def loadRequested (disk : Disk) : List String → Library → List Import →
    Except LoadError (Library × List Import)
  | [], lib, queue => .ok (lib, queue)
  | path :: paths, lib, queue => do
    let document ← readModule disk path
    if lib.contains document.name then
      .error (.malformed path ("module " ++ document.name ++ " is defined more than once"))
    else
      loadRequested disk paths (lib.insert document.name ⟨document, path, false⟩)
        (queue ++ importsOf document path)

/-! ### Imported modules -/

/-- Loads one imported module; gives the imports that it states. -/
def loadImport (disk : Disk) (searchPaths : List String) (lib : Library) (i : Import) :
    Except LoadError (Library × List Import) :=
  match findImport? disk searchPaths i with
  | none => .error (.unresolved (lib.moduleAt i.importer) i.module)
  | some path => do
    let document ← readModule disk path
    if document.name = i.module then
      .ok (lib.insert i.module ⟨document, path, true⟩, importsOf document path)
    else .error (.malformed path ("expected module " ++ i.module ++ ", found " ++ document.name))

/-- Loads imports in turn, and those that they state behind them. Each module that is loaded has a file of
    its own name, so there are never more of them than `files`, the number of files. -/
def loadImports (disk : Disk) (searchPaths : List String) (files : Nat) (lib : Library) (queue : List Import) :
    Except LoadError Library :=
  match queue with
  | [] => .ok lib
  | i :: rest =>
    if lib.contains i.module then loadImports disk searchPaths files lib rest
    else
      match files with
      | 0 => .error (.unresolved (lib.moduleAt i.importer) i.module)
      | files + 1 => do
        let (lib, more) ← loadImport disk searchPaths lib i
        loadImports disk searchPaths files lib (rest ++ more)
termination_by (files, queue.length)

/-- Loads the requested files and everything that they import. -/
def load (disk : Disk) (paths searchPaths : List String) : Except LoadError Library := do
  let (lib, queue) ← loadRequested disk paths ∅ []
  loadImports disk searchPaths disk.files.size lib queue

end Library

end SchemaIr
