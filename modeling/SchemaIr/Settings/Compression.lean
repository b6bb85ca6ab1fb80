/-! # Compression

How the schema is compressed. Without compression every container is a directory. With it, the containers
`config` and `state` are merged into the node around them, and a container that only surrounds a list
makes way for the list. Either way nodes that are not configuration may be left out; with both wrappers
kept, one of them is preferred. -/

namespace SchemaIr

/-- How the schema is compressed, and whether derived state is left out. -/
inductive Compression
  | uncompressed
  | uncompressedExcludeState
  | preferConfig
  | preferState
  | excludeState
  deriving DecidableEq, Repr

namespace Compression

def all : List Compression := [uncompressed, uncompressedExcludeState, preferConfig, preferState, excludeState]

/-- The name of a behaviour in settings. -/
def name : Compression → String
  | uncompressed => "uncompressed"
  | uncompressedExcludeState => "uncompressed-exclude-derived-state"
  | preferConfig => "prefer-intended-config"
  | preferState => "prefer-operational-state"
  | excludeState => "exclude-derived-state"

/-- Wrappers are merged and surrounding containers elided. -/
def compresses : Compression → Bool
  | preferConfig | preferState | excludeState => true
  | uncompressed | uncompressedExcludeState => false

/-- Nodes that are not configuration are left out. -/
def excludesState : Compression → Bool
  | excludeState | uncompressedExcludeState => true
  | uncompressed | preferConfig | preferState => false

/-- The container whose children win over the other's. -/
def preferred : Compression → String
  | preferState => "state"
  | _ => "config"

/-- The behaviour with a name; the error lists the names there are. -/
def ofName (s : String) : Except String Compression :=
  match all.find? (·.name == s) with
  | some b => .ok b
  | none =>
    .error ("unknown compress behaviour '" ++ s ++ "', expected one of: " ++ ", ".intercalate (all.map name))

end Compression

end SchemaIr
