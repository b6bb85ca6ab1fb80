import SchemaIr.Diagnostic.Batch

/-! # Errors of a run

A run fails because a file is not there or cannot be read, because a document is not well-formed, because
something refers to a module that is not there, or because the generation finds errors. -/

namespace SchemaIr

/-- Why modules cannot be loaded. -/
inductive LoadError
  | fileNotFound (path : String)
  /-- The document at a path is not what it should be. -/
  | malformed (path message : String)
  /-- A module refers to a module that is not there. -/
  | unresolved (module reference : String)
  /-- A file cannot be read. -/
  | unreadable (message : String)
  deriving DecidableEq, Repr

namespace LoadError

def message : LoadError → String
  | fileNotFound path => "file not found: " ++ path
  | malformed path message => "syntax error in " ++ path ++ ": " ++ message
  | unresolved module reference => "unresolved reference in module " ++ module ++ ": " ++ reference
  | unreadable message => "IO error: " ++ message

end LoadError

/-- Why a run fails. -/
inductive RunError
  | load (e : LoadError)
  | generation (ds : Diagnostics)
  deriving DecidableEq, Repr

namespace RunError

def message : RunError → String
  | load e => e.message
  | generation ds => "generation failed with " ++ toString ds.errorCount ++ " error(s):\n" ++ ds.render

end RunError

end SchemaIr
