import SchemaIr.Text.Pieces

/-! # Paths of files

A path is text; its steps are parted by slashes. How a path is written shows in messages and is kept, but
two ways to write one path are equal: empty steps do not count, nor does a dot anywhere but at the
beginning. -/

namespace SchemaIr.Path

/-- The path begins at the root of the disk. -/
def isAbsolute (p : String) : Bool := p.toList.head? == some '/'

/-- The steps of a path that count. -/
def parts (p : String) : List String :=
  match Text.pieces '/' p with
  | [] => []
  | first :: rest => (if first = "" then [] else [first]) ++ rest.filter fun s => s ≠ "" ∧ s ≠ "."

/-- Two texts are the same path. -/
def same (p q : String) : Bool := isAbsolute p == isAbsolute q && parts p == parts q

/-- The file name with which a path ends; a path that ends with a dot or two has none. -/
def fileName? (p : String) : Option String := (parts p).getLast?.filter fun s => s ≠ "." ∧ s ≠ ".."

/-- A path from a directory on; an absolute path stays as it is. -/
def join (dir p : String) : String :=
  if isAbsolute p then p
  else if dir = "" ∨ dir.toList.getLast? = some '/' then dir ++ p
  else dir ++ "/" ++ p

/-- The characters of a path without slashes, and single dots behind slashes, at its end. -/
def trimEnd : List Char → List Char
  | '/' :: rest => trimEnd rest
  | '.' :: '/' :: rest => trimEnd rest
  | cs => cs

/-- The ending of a path's file name: what follows its last dot, unless that is its first character. -/
def ending? (p : String) : Option String := do
  let name ← fileName? p
  match name.toList.reverse.span (· ≠ '.') with
  | (_, []) | (_, ['.']) => none
  | (ending, _) => some (String.ofList ending.reverse)

/-- A path with an ending added to its file name. -/
def withEnding? (p ending : String) : Option String := do
  let _ ← fileName? p
  pure (String.ofList (trimEnd p.toList.reverse).reverse ++ "." ++ ending)

/-- The path of the directory that a path stands in. -/
def parent (p : String) : String :=
  let rest := (trimEnd p.toList.reverse).dropWhile (· ≠ '/')
  let dir := String.ofList (trimEnd rest).reverse
  if dir = "" ∧ isAbsolute p then "/" else dir

end SchemaIr.Path
