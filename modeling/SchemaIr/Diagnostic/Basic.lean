/-! # Diagnostics

A diagnostic tells one problem or note: the path it is about, a code, a message, and lines of context. The
code settles whether it is an error; any other diagnostic is a note. -/

namespace SchemaIr

/-! ### Codes -/

/-- What a diagnostic is about. -/
inductive DiagnosticCode
  -- structure
  | duplicateField
  | duplicateRootEntry
  | unknownNodeKind
  | missingListKey
  | unknownListKey
  | unresolvedKeyLeafref
  | notAList
  | identityNameConflict
  -- types
  | multipleInlineEnums
  | emptyUnion
  | missingIdentityBase
  | enumWithoutContext
  | unresolvedLeafref
  | unsupportedType
  | missingType
  -- notes
  | keylessList
  | unionSimplified
  deriving DecidableEq, Repr

inductive Severity
  | info | error
  deriving DecidableEq, Repr

namespace Severity

def name : Severity → String
  | info => "info"
  | error => "error"

end Severity

namespace DiagnosticCode

/-- The codes in their order. -/
def all : List DiagnosticCode :=
  [duplicateField, duplicateRootEntry, unknownNodeKind, missingListKey, unknownListKey,
    unresolvedKeyLeafref, notAList, identityNameConflict, multipleInlineEnums, emptyUnion,
    missingIdentityBase, enumWithoutContext, unresolvedLeafref, unsupportedType, missingType, keylessList,
    unionSimplified]

/-- The name of a code in documents. -/
def name : DiagnosticCode → String
  | duplicateField => "DuplicateField"
  | duplicateRootEntry => "DuplicateRootEntry"
  | unknownNodeKind => "UnknownNodeKind"
  | missingListKey => "MissingListKey"
  | unknownListKey => "UnknownListKey"
  | unresolvedKeyLeafref => "UnresolvedKeyLeafref"
  | notAList => "NotAList"
  | identityNameConflict => "IdentityNameConflict"
  | multipleInlineEnums => "MultipleInlineEnums"
  | emptyUnion => "EmptyUnion"
  | missingIdentityBase => "MissingIdentityBase"
  | enumWithoutContext => "EnumWithoutContext"
  | unresolvedLeafref => "UnresolvedLeafref"
  | unsupportedType => "UnsupportedType"
  | missingType => "MissingType"
  | keylessList => "KeylessList"
  | unionSimplified => "UnionSimplified"

/-- The short form of a code, as a report shows it. -/
def short : DiagnosticCode → String
  | duplicateField => "E101"
  | duplicateRootEntry => "E102"
  | unknownNodeKind => "E103"
  | missingListKey => "E104"
  | unknownListKey => "E105"
  | unresolvedKeyLeafref => "E106"
  | notAList => "E107"
  | identityNameConflict => "E108"
  | multipleInlineEnums => "E201"
  | emptyUnion => "E202"
  | missingIdentityBase => "E203"
  | enumWithoutContext => "E204"
  | unresolvedLeafref => "E205"
  | unsupportedType => "E206"
  | missingType => "E207"
  | keylessList => "I001"
  | unionSimplified => "I002"

/-- The place of a code in their order. -/
def rank : DiagnosticCode → Nat
  | duplicateField => 0
  | duplicateRootEntry => 1
  | unknownNodeKind => 2
  | missingListKey => 3
  | unknownListKey => 4
  | unresolvedKeyLeafref => 5
  | notAList => 6
  | identityNameConflict => 7
  | multipleInlineEnums => 8
  | emptyUnion => 9
  | missingIdentityBase => 10
  | enumWithoutContext => 11
  | unresolvedLeafref => 12
  | unsupportedType => 13
  | missingType => 14
  | keylessList => 15
  | unionSimplified => 16

def severity : DiagnosticCode → Severity
  | keylessList | unionSimplified => .info
  | _ => .error

end DiagnosticCode

/-! ### Diagnostics -/

/-- One problem or note. -/
structure Diagnostic where
  /-- The path that it is about. -/
  path : String
  code : DiagnosticCode
  message : String
  context : List String
  deriving DecidableEq, Repr

namespace Diagnostic

def severity (d : Diagnostic) : Severity := d.code.severity

def isError (d : Diagnostic) : Bool := d.severity == .error

/-- A diagnostic as a report shows it: one line, and one more for each line of context. -/
def render (d : Diagnostic) : String :=
  "[" ++ d.code.short ++ "] " ++ d.severity.name ++ ": " ++ d.message ++ " (" ++ d.path ++ ")" ++
    String.join (d.context.map ("\n  - " ++ ·))

/-! ### Order -/

/-- Lists of texts in the order of a dictionary. -/
def leTexts : List String → List String → Bool
  | [], _ => true
  | _ :: _, [] => false
  | a :: as, b :: bs => if a < b then true else if a = b then leTexts as bs else false

/-- Diagnostics are ordered by path, then by code, message and context. -/
def le (a b : Diagnostic) : Bool :=
  if a.path ≠ b.path then a.path < b.path
  else if a.code ≠ b.code then a.code.rank < b.code.rank
  else if a.message ≠ b.message then a.message < b.message
  else leTexts a.context b.context

/-! ### The causes -/

/-- Two direct children of a directory share a name. -/
def sameField (directory name first second : String) : Diagnostic :=
  ⟨directory, .duplicateField, "duplicate field name " ++ name ++ " in " ++ directory,
    ["first: " ++ first, "second: " ++ second]⟩

/-- Two top-level entities share a name. -/
def sameRootEntry (root name first second : String) : Diagnostic :=
  ⟨root, .duplicateRootEntry, "duplicate entry " ++ name ++ " at the root",
    ["first: " ++ first, "second: " ++ second]⟩

/-- A node of a kind that has no place where it stands. -/
def unknownKind (path kind : String) : Diagnostic :=
  ⟨path, .unknownNodeKind, "unknown type of entry " ++ kind ++ " in find_mappable_entities for " ++ path, []⟩

/-- A writable list without a key. -/
def noListKey (list : String) : Diagnostic :=
  ⟨list, .missingListKey, "list " ++ list ++ " is config true but has no key", []⟩

/-- A key that names no child of its list; `hint` is the child that is perhaps meant. -/
def noSuchKey (list key : String) (hint : Option String) : Diagnostic :=
  ⟨list, .unknownListKey, "key " ++ key ++ " is not a child of list " ++ list,
    hint.toList.map fun h => "did you mean '" ++ h ++ "'?"⟩

/-- A leafref key that leads to no leaf below its list. -/
def lostKey (list key : String) : Diagnostic :=
  ⟨list, .unresolvedKeyLeafref, "could not resolve leafref key " ++ key ++ " of list " ++ list, []⟩

/-- Keys asked of a node that is no list. -/
def noList (path kind : String) : Diagnostic :=
  ⟨path, .notAList, path ++ " is a " ++ kind ++ ", not a list", []⟩

/-- Several identities that would share a name. -/
def sameIdentityName (identities : List String) (name : String) : Diagnostic :=
  ⟨", ".intercalate identities, .identityNameConflict,
    "identities " ++ ", ".intercalate identities ++ " all map to the name " ++ name, []⟩

/-- An identity whose name is taken. -/
def takenIdentityName (identity name : String) : Diagnostic :=
  ⟨identity, .identityNameConflict,
    "identity " ++ identity ++ " maps to the name " ++ name ++ " which is already defined", []⟩

/-- A leaf with several enumerations of its own. -/
def manyInlineEnums (leaf : String) : Diagnostic :=
  ⟨leaf, .multipleInlineEnums, "multiple enumerated types within a single enumeration not supported", []⟩

/-- A leaf with a union without members. -/
def noUnionMembers (leaf : String) : Diagnostic :=
  ⟨leaf, .emptyUnion, "empty union in type of " ++ leaf, []⟩

/-- An identityref that names no base. -/
def noIdentityBase (leaf : String) : Diagnostic :=
  ⟨leaf, .missingIdentityBase, "identityref " ++ leaf ++ " has no base identity", []⟩

/-- An enumerated leaf whose enumeration was not named. -/
def noEnumeration (leaf kind : String) : Diagnostic :=
  ⟨leaf, .enumWithoutContext, "no enumeration found for " ++ kind ++ " leaf " ++ leaf, []⟩

/-- A leafref that leads nowhere. -/
def lostLeafref (leaf target : String) : Diagnostic :=
  ⟨leaf, .unresolvedLeafref, "leafref target '" ++ target ++ "' not found in schema tree", []⟩

/-- A leaf of a type that has no native type. -/
def unsupported (leaf kind : String) : Diagnostic :=
  ⟨leaf, .unsupportedType, "unsupported type " ++ kind ++ " at " ++ leaf, []⟩

/-- A leaf that declares no type. -/
def untyped (leaf kind : String) : Diagnostic := ⟨leaf, .missingType, kind ++ " " ++ leaf ++ " has no type", []⟩

/-- A leaf that was taken for enumerated but declares no type. -/
def untypedEnum (leaf : String) : Diagnostic :=
  ⟨leaf, .missingType, "enum-bearing leaf " ++ leaf ++ " has no type", []⟩

/-- A read-only list without a key. -/
def keyless (list : String) : Diagnostic :=
  ⟨list, .keylessList, "read-only list " ++ list ++ " has no key and maps to an unkeyed sequence", []⟩

/-- A union with one member type left. -/
def collapsedUnion (leaf member : String) : Diagnostic :=
  ⟨leaf, .unionSimplified, "union collapsed to its single member type " ++ member, []⟩

end Diagnostic

end SchemaIr
