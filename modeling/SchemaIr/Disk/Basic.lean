import SchemaIr.Disk.Path
import SchemaIr.Table

/-! # Disks

A disk is a finite set of files and directories, seen from the working directory. Each is known by its place,
the row of the names of the directories above it and its own; the directories above the working directory,
up to the root, are all there, and have two dots for a name. Files may be asked for by any path that leads to
them, through directories that are there: a path that begins with a slash leads from the root, any other from
the working directory. -/

namespace SchemaIr

/-- The files and directories by place, the names of which are joined by slashes. -/
structure Disk where
  files : Table ByteArray
  directories : NameSet
  /-- The names of the directories from the root to the working directory. -/
  working : List String

namespace Disk

/-- The disk without files, seen from its root. -/
def empty : Disk := ⟨∅, ∅, []⟩

/-- The disk without files, seen from a directory. -/
def emptyFrom (working : List String) : Disk := { empty with working }

/-- The row of names of a place. -/
def steps (place : String) : List String := Text.steps place

/-- The text of a row of names. -/
def placeOf (names : List String) : String := "/".intercalate names

/-- The place of the root. -/
def root (d : Disk) : List String := d.working.map fun _ => ".."

/-- Where a path begins. -/
def start (d : Disk) (path : String) : List String := if Path.isAbsolute path then d.root else []

/-- The directory above a directory; the root is above itself. -/
def above (d : Disk) (dir : List String) : List String :=
  if dir = d.root then dir else if dir.all (· == "..") then dir ++ [".."] else dir.dropLast

/-- What a name leads to in a directory: above the working directory the next directory on the way back to it
    has no other place. -/
def below (d : Disk) (dir : List String) (name : String) : List String :=
  if dir ≠ [] ∧ dir.all (· == "..") ∧ d.working[d.working.length - dir.length]? = some name then dir.dropLast
  else dir ++ [name]

/-- The names of the directories from the root to a place, and its own. -/
def fromRoot (d : Disk) (place : List String) : List String :=
  let ups := (place.takeWhile (· == "..")).length
  d.working.take (d.working.length - ups) ++ place.drop ups

/-- Puts the directories on the way of some steps on the disk, and gives where the steps lead. -/
def makeWay (d : Disk) (dir : List String) : List String → Disk × List String
  | [] => (d, dir)
  | s :: rest =>
    if s = "" ∨ s = "." then makeWay d dir rest
    else if s = ".." then makeWay d (d.above dir) rest
    else makeWay { d with directories := d.directories.add (placeOf (d.below dir s)) } (d.below dir s) rest

/-- Puts a file at a place. -/
def putAt (d : Disk) (names : List String) (bytes : ByteArray) : Disk :=
  { d with files := d.files.insert (placeOf names) bytes }

/-- Puts a directory on the disk, with the directories on the way. -/
def putDirectory (d : Disk) (path : String) : Disk := (d.makeWay (d.start path) (Text.pieces '/' path)).1

/-- Puts a file on the disk, with the directories on the way. -/
def put (d : Disk) (path : String) (bytes : ByteArray) : Disk :=
  let pieces := Text.pieces '/' path
  let (d, dir) := d.makeWay (d.start path) pieces.dropLast
  d.putAt (dir ++ pieces.getLast?.toList) bytes

def isFileAt (d : Disk) (names : List String) : Bool := d.files.contains (placeOf names)

def isDirAt (d : Disk) (names : List String) : Bool :=
  names.all (· == "..") || d.directories.contains (placeOf names)

/-- Why a path leads nowhere. -/
inductive PathError
  | noSuchFile | notADirectory | nameTooLong
  deriving DecidableEq, Repr

/-- The number of bytes that a name may have. -/
def maxName : Nat := 255

/-- The number of bytes that a path may have. -/
def maxPath : Nat := 4095

/-- Follows the steps of a path from a directory on. -/
def walkFrom (d : Disk) (dir : List String) : List String → Except PathError (List String)
  | [] => .ok dir
  | s :: rest =>
    if !d.isDirAt dir then .error .notADirectory
    else if s = "" ∨ s = "." then walkFrom d dir rest
    else if s = ".." then walkFrom d (d.above dir) rest
    else if maxName < s.utf8ByteSize then .error .nameTooLong
    else
      let next := d.below dir s
      if d.isFileAt next ∨ d.isDirAt next then walkFrom d next rest else .error .noSuchFile

/-- Follows the steps of a path of some text. -/
def walk (d : Disk) (path : String) (steps : List String) : Except PathError (List String) :=
  if path = "" then .error .noSuchFile
  else if maxPath < path.utf8ByteSize then .error .nameTooLong
  else d.walkFrom (d.start path) steps

/-- Where a path leads, if it leads anywhere. -/
def locate? (d : Disk) (path : String) : Option (List String) := (d.walk path (Text.pieces '/' path)).toOption

/-- A path leads to a file. -/
def isFile (d : Disk) (path : String) : Bool := ((d.locate? path).map d.isFileAt).getD false

/-- A path leads to a file or directory. -/
def isThere (d : Disk) (path : String) : Bool := (d.locate? path).isSome

/-- The bytes of the file at a path. -/
def bytes? (d : Disk) (path : String) : Option ByteArray :=
  (d.locate? path).bind fun names => d.files.get? (placeOf names)

/-- The text of the file at a path; none if there is no file or its bytes are no text. -/
def text? (d : Disk) (path : String) : Option String := (d.bytes? path).bind String.fromUTF8?

/-! ### Searching -/

/-- Rows of names in the order of a search: a directory before what is in it, names in order. -/
def before : List String → List String → Bool
  | [], _ => true
  | _ :: _, [] => false
  | a :: as, b :: bs => if a < b then true else if a = b then before as bs else false

/-- The first of some rows of names in the order of a search. -/
def first? : List (List String) → Option (List String)
  | [] => none
  | r :: rs =>
    match first? rs with
    | none => some r
    | some s => some (if before r s then r else s)

/-- The first file of a name at or below a path. A directory is searched as recursive walks with sorted entries
    are documented to visit it: itself first, then its entries in the order of their names, each directory with
    all that is in it before the next entry; what cannot be visited is passed over. A path that leads to a file
    stands for that file alone. -/
def findBelow? (d : Disk) (path name : String) : Option String := do
  let place ← d.locate? path
  if d.isFileAt place then
    if (Path.fileName? path).getD path = name then some path else none
  else
    let names := d.fromRoot place
    let below := (d.files.names.map fun file => d.fromRoot (steps file)).filter fun row =>
      names.isPrefixOf row && names.length < row.length && row.getLast? == some name
    let row ← first? below
    pure ((row.drop names.length).foldl Path.join path)

/-! ### Writing -/

/-- Why a file cannot be written. -/
inductive WriteError
  | path (e : PathError)
  | isADirectory
  deriving DecidableEq, Repr

namespace WriteError

def message : WriteError → String
  | path .noSuchFile => "No such file or directory (os error 2)"
  | path .notADirectory => "Not a directory (os error 20)"
  | path .nameTooLong => "File name too long (os error 36)"
  | isADirectory => "Is a directory (os error 21)"

end WriteError

/-- Writes a file at a path whose directory is there. A path that ends with a slash or dots is that of a
    directory, there or not. -/
def write (d : Disk) (path : String) (bytes : ByteArray) : Except WriteError Disk :=
  let pieces := Text.pieces '/' path
  let slashed := pieces.getLast? = some ""
  let steps := (pieces.reverse.dropWhile (· == "")).reverse
  match d.walk path steps.dropLast, steps.getLast? with
  | .error e, _ => .error (.path e)
  | .ok _, none => .error .isADirectory
  | .ok dir, some name =>
    if !d.isDirAt dir then .error (.path .notADirectory)
    else if slashed ∨ name = "." ∨ name = ".." ∨ d.isDirAt (d.below dir name) then .error .isADirectory
    else if maxName < name.utf8ByteSize then .error (.path .nameTooLong)
    else .ok (d.putAt (d.below dir name) bytes)

end Disk

end SchemaIr
