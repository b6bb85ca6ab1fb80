import SchemaIr.Disk.Basic
import SchemaIr.Settings.Basic
import SchemaIr.Settings.Environment
import SchemaIr.Settings.FileFormat

/-! # Loading settings

Settings are merged from the files in their usual places, from the user's own file, from the file that is
named for the run, and from the environment, each over the ones before. A file may be left out, unless it is
named for the run. What the merged layers do not set has its default; what they do not know is ignored; a
value that does not fit its setting is an error, as is a broken file. -/

namespace SchemaIr.Settings

/-- The merged layers do not give settings, or a layer cannot be read. -/
inductive LoadFailure
  | missingFile (path : String)
  | brokenFile (path : String)
  | unfit
  deriving DecidableEq, Repr

/-! ### Layers -/

/-- Where settings files usually are. -/
def usualPlaces : List String := ["ygen.toml", ".ygen.toml", "config/ygen.toml"]

/-- The settings file at a path: the file itself, if it has a known ending, or the file with an ending
    added to the path. -/
def file? (disk : Disk) (path : String) : Option (String × FileFormat) :=
  if disk.isFile path then do
    let ending ← Path.ending? path
    let format ← FileFormat.all.find? fun f => ending ∈ f.endings
    some (path, format)
  else
    FileFormat.all.findSome? fun f => f.endings.findSome? fun ending => do
      let path ← Path.withEnding? path ending
      if disk.isFile path then some (path, f) else none

/-- Merges the text of a file over settings. -/
def mergeText (settings : SettingValue) (path : String) (format : FileFormat) (content : String) :
    Except LoadFailure SettingValue :=
  match format.read? content.toList with
  | some es =>
    .ok
      (es.foldl
        (fun settings (name, value) => settings.setAt value (SettingStep.ofName (SettingValue.lower name)))
        settings)
  | none => .error (.brokenFile path)

/-- Merges a file over settings. It may be missing, and so may its text: bytes that are no text are passed
    over. -/
def mergeOptional (disk : Disk) (settings : SettingValue) (path : String) : Except LoadFailure SettingValue :=
  match file? disk path with
  | some (path, format) =>
    match disk.text? path with
    | some content => mergeText settings path format content
    | none => .ok settings
  | none => .ok settings

/-- Merges a file over settings, which must be there and be a text. -/
def mergeNamed (disk : Disk) (settings : SettingValue) (path : String) : Except LoadFailure SettingValue :=
  match file? disk path with
  | some (path, format) =>
    match disk.text? path with
    | some content => mergeText settings path format content
    | none => .error (.brokenFile path)
  | none => .error (.missingFile path)

/-- All layers merged. -/
def layers (disk : Disk) (userFile named : Option String) (environment : List (String × String)) :
    Except LoadFailure SettingValue := do
  let settings ← usualPlaces.foldlM (mergeOptional disk) (.table [])
  let settings ← (userFile.toList.filter disk.isThere).foldlM (mergeOptional disk) settings
  let settings ← named.toList.foldlM (mergeNamed disk) settings
  pure (environment.foldl Environment.mergeVariable settings)

/-! ### Settings -/

/-- What a table, or a list in the order of the settings, gives for a setting. -/
def setting? (v : SettingValue) (place : Nat) (key : String) : Option SettingValue :=
  match v with
  | .list items => items[place]?
  | v => v.get? key

/-- The reading of a setting; its default if it is not set. -/
def readOr {α : Type} (default : α) (read : SettingValue → Option α) : Option SettingValue → Option α
  | none => some default
  | some v => read v

/-- Tables, and lists in the order of the settings, hold settings. -/
def isSection : SettingValue → Bool
  | .table _ | .list _ => true
  | _ => false

def readGenerate (v : SettingValue) : Option GenerateSettings :=
  let d := GenerateSettings.default
  if isSection v then do
    let compression ← readOr d.compression (·.toNamed? Compression.all Compression.name)
      (setting? v 0 "compress_behaviour")
    let withFakeRoot ← readOr d.withFakeRoot (·.toBool?) (setting? v 1 "generate_fake_root")
    let fakeRootName ← readOr d.fakeRootName (·.toText?) (setting? v 2 "fake_root_name")
    let skipEnumDedup ← readOr d.skipEnumDedup (·.toBool?) (setting? v 3 "skip_enum_dedup")
    let excludeModules ← readOr d.excludeModules (·.toTexts?) (setting? v 4 "exclude_modules")
    pure ⟨compression, withFakeRoot, fakeRootName, skipEnumDedup, excludeModules⟩
  else none

def readSearchPaths (v : SettingValue) : Option (List String) :=
  if isSection v then readOr [] (·.toTexts?) (setting? v 0 "search_paths") else none

def readOutput (v : SettingValue) : Option OutputSettings :=
  let d := OutputSettings.default
  if isSection v then do
    let format ← readOr d.format (·.toNamed? OutputFormat.all OutputFormat.name) (setting? v 0 "format")
    let includeChecksum ← readOr d.includeChecksum (·.toBool?) (setting? v 1 "include_checksum")
    pure ⟨format, includeChecksum⟩
  else none

/-- The settings that merged layers give. -/
def ofLayers (v : SettingValue) : Option Settings := do
  let generate ← readOr .default readGenerate (v.get? "generate")
  let searchPaths ← readOr [] readSearchPaths (v.get? "parser")
  let output ← readOr .default readOutput (v.get? "output")
  pure ⟨generate, searchPaths, output⟩

/-- Loads the settings of a run. -/
def load (disk : Disk) (userFile named : Option String) (environment : List (String × String)) :
    Except LoadFailure Settings := do
  let v ← layers disk userFile named environment
  match ofLayers v with
  | some settings => pure settings
  | none => .error .unfit

end SchemaIr.Settings
