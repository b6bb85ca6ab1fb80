import SchemaIr.Ir.Assembly

/-! # Generation

A run takes a schema tree to its intermediate representation: the leaves are indexed, directories and
enumerated leaves discovered, the fake root added if it is asked for, enumerations named, and the result
assembled. The first of these that finds errors ends the run with all errors that it found. Each run has
name registries of its own, one for enumerations and one for directories. -/

namespace SchemaIr

namespace Generation

/-- The directories and enumerated leaves of a tree, leafref targets included. -/
def discover (t : SchemaTree) (index : LeafIndex) (settings : GenerateSettings) :
    Except Diagnostics Entities := do
  let roots := t.generationRoots
  let found ← Entities.discover t roots settings.excludeModules settings.compression.compresses
  pure { found with
    enumLeaves := Entities.addLeafrefTargets t index roots settings.excludeModules found.enumLeaves }

/-- The directories with the fake root, if it is asked for. -/
def addFakeRoot (t : SchemaTree) (settings : GenerateSettings) (directories : Table MappedDirectory) :
    Except Diagnostics (Table MappedDirectory) :=
  if settings.withFakeRoot then
    FakeRoot.add t directories (FakeRoot.topLeaves t t.generationRoots settings.excludeModules)
      settings.rootName settings.compression.compresses
  else .ok directories

/-- Everything that a run does before it assembles. -/
def prepare (t : SchemaTree) (s : GenerateSettings) : Except Diagnostics Assembly.Input := do
  let index := LeafIndex.ofTree t
  let found ← discover t index s
  let directories ← addFakeRoot t s found.directories
  let entities := { found with directories }
  let enums ← (EnumSet.ofLeaves t entities.enumLeaves s.compression.compresses s.skipEnumDedup ∅).1
  pure ⟨t, index, entities, enums, s⟩

end Generation

/-- The intermediate representation of a tree, or everything that is wrong with it. There is neither if the mapping
    of a type does not end. -/
def SchemaTree.generate (t : SchemaTree) (settings : GenerateSettings) : Option (Except Diagnostics Ir) :=
  match Generation.prepare t settings with
  | .error problems => some (.error problems)
  | .ok input => (input.build ∅).1

end SchemaIr
