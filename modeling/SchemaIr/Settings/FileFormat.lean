import SchemaIr.Settings.Ini
import SchemaIr.Settings.Json
import SchemaIr.Settings.Json5
import SchemaIr.Settings.Ron
import SchemaIr.Settings.Toml.File
import SchemaIr.Settings.Yaml.File

/-! # Formats of settings files

A settings file is in the format that the ending of its name tells. -/

namespace SchemaIr

/-- The format of a settings file. -/
inductive FileFormat
  | toml | json | yaml | ini | ron | json5
  deriving DecidableEq, Repr

namespace FileFormat

/-- The formats, in the order in which files are looked for. -/
def all : List FileFormat := [toml, json, yaml, ini, ron, json5]

/-- The endings of the names of files in a format. -/
def endings : FileFormat → List String
  | toml => ["toml"]
  | json => ["json"]
  | yaml => ["yaml", "yml"]
  | ini => ["ini"]
  | ron => ["ron"]
  | json5 => ["json5"]

/-- The settings in the characters of a file. -/
def read? : FileFormat → List Char → Option (List (String × SettingValue))
  | toml, cs => Toml.parse? cs
  | json, cs => SettingValue.ofJson? (String.ofList cs)
  | yaml, cs => Yaml.parse? cs
  | ini, cs => Ini.parse? cs
  | ron, cs => Ron.parse? cs
  | json5, cs => Json5.parse? cs

end FileFormat

end SchemaIr
