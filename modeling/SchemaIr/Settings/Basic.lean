import SchemaIr.Settings.Compression
import SchemaIr.Text.Pieces

/-! # Settings

What a run of the generator can be told: how to generate, where to look for imported modules, and how to
write the result. -/

namespace SchemaIr

/-- How to generate. -/
structure GenerateSettings where
  compression : Compression
  /-- Add one directory that holds every top-level entity. -/
  withFakeRoot : Bool
  /-- The name of that directory, as it is set. -/
  fakeRootName : String
  /-- Give each inline enumeration a name of its own. -/
  skipEnumDedup : Bool
  /-- The modules whose nodes are left out. -/
  excludeModules : List String
  deriving DecidableEq, Repr

namespace GenerateSettings

/-- The name of a root that is not given one. -/
def defaultRootName : String := "device"

/-- A name, or the default one where it is blank. -/
def nameOrDefault (name : String) : String := if Text.trim name = "" then defaultRootName else name

/-- The settings of a run that is told nothing. -/
def default : GenerateSettings := ⟨.uncompressed, false, defaultRootName, false, []⟩

/-- The name of the fake root. -/
def rootName (s : GenerateSettings) : String := nameOrDefault s.fakeRootName

end GenerateSettings

/-- How the result is laid out. -/
inductive OutputFormat
  | pretty | compact
  deriving DecidableEq, Repr

namespace OutputFormat

def all : List OutputFormat := [pretty, compact]

def name : OutputFormat → String
  | pretty => "pretty"
  | compact => "compact"

end OutputFormat

/-- How to write the result. -/
structure OutputSettings where
  format : OutputFormat
  includeChecksum : Bool
  deriving DecidableEq, Repr

namespace OutputSettings

def default : OutputSettings := ⟨.pretty, true⟩

end OutputSettings

/-- Everything that a run can be told. -/
structure Settings where
  generate : GenerateSettings
  /-- Where imported modules are looked for. -/
  searchPaths : List String
  output : OutputSettings
  deriving DecidableEq, Repr

namespace Settings

def default : Settings := ⟨.default, [], .default⟩

end Settings

end SchemaIr
