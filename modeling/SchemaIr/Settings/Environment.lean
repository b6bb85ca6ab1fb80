import SchemaIr.Decimal.Reading
import SchemaIr.Settings.Value
import SchemaIr.Text.Pieces

/-! # Settings in the environment

An environment variable sets a value if its name begins with `YGEN_`, in any case; what follows names the
setting, with two underscores for a dot. The variable's text is a switch or a number if it looks like one,
otherwise a text, or the list of its pieces between commas where the setting is a list. -/

namespace SchemaIr.Environment

/-- The settings that are lists. -/
def listSettings : List String := ["generate.exclude_modules", "parser.search_paths"]

/-- The value that a variable's text states for a setting. -/
def value (setting text : String) : SettingValue :=
  match SettingValue.lower text, Decimal.int? text.toList, Decimal.float? text.toList with
  | "true", _, _ => .bool true
  | "false", _, _ => .bool false
  | _, some n, _ => .int n
  | _, none, some x => .float x
  | _, none, none =>
    if setting ∈ listSettings then .list ((Text.pieces ',' text).map .text) else .text text

/-- A name with a dot for each pair of underscores. -/
def dotted : List Char → List Char
  | '_' :: '_' :: cs => '.' :: dotted cs
  | c :: cs => c :: dotted cs
  | [] => []

/-- The mark of names that are settings. -/
def mark : List Char := "ygen_".toList

/-- The setting that a variable names, if it names one. -/
def setting? (name : String) : Option String :=
  let cs := (SettingValue.lower name).toList
  if mark.isPrefixOf cs then some (String.ofList (dotted (cs.drop mark.length))) else none

/-- Merges one variable over settings. -/
def mergeVariable (settings : SettingValue) : String × String → SettingValue
  | (name, text) =>
    match setting? name with
    | some setting => settings.setAt (value setting text) (SettingStep.ofName setting)
    | none => settings

end SchemaIr.Environment
