import SchemaIr.Json.Decode
import SchemaIr.Settings.Basic

/-! # Settings in documents

How settings are written as JSON and as a settings file, and how those for the generation are read from
JSON. -/

namespace SchemaIr
open Json

/-! ### JSON -/

def GenerateSettings.toJson (s : GenerateSettings) : Value :=
  .obj
    [("compress_behaviour", .str s.compression.name), ("generate_fake_root", .bool s.withFakeRoot),
      ("fake_root_name", .str s.fakeRootName), ("skip_enum_dedup", .bool s.skipEnumDedup),
      ("exclude_modules", .texts s.excludeModules)]

def Settings.toJson (s : Settings) : Value :=
  .obj
    [("generate", s.generate.toJson), ("parser", .obj [("search_paths", .texts s.searchPaths)]),
      ("output",
        .obj [("format", .str s.output.format.name), ("include_checksum", .bool s.output.includeChecksum)])]

def Compression.decode (depth : Nat) : Decoder Compression := Decode.choice depth (Decode.named all name)

def GenerateSettings.decode (depth : Nat) : Decoder GenerateSettings :=
  Decode.record "GenerateConfig" depth
    [Decode.fieldOr "compress_behaviour" (Compression.decode (depth - 1)) fun compression s =>
        { s with compression },
      Decode.fieldOr "generate_fake_root" Decode.boolean fun withFakeRoot s => { s with withFakeRoot },
      Decode.fieldOr "fake_root_name" Decode.string fun fakeRootName s => { s with fakeRootName },
      Decode.fieldOr "skip_enum_dedup" Decode.boolean fun skipEnumDedup s => { s with skipEnumDedup },
      Decode.fieldOr "exclude_modules" (Decode.list (depth - 1) Decode.string) fun excludeModules s =>
        { s with excludeModules }]
    .default

/-! ### Settings files -/

namespace Settings

/-- A character that can only be written by an escape. -/
def isControl (c : Char) : Bool := (c.toNat < 0x20 && c != '\t' && c != '\n') || c.toNat == 0x7F

/-- The length of the longest row of a character. -/
def longestRow (c : Char) (cs : List Char) : Nat := ((Text.piecesBy (· ≠ c) cs).map List.length).foldl max 0

/-- How a character other than a double quote is written between double quotes; line ends stay where the
    text has several lines. -/
def escapeChar (lines : Bool) (c : Char) : List Char :=
  if c = '\\' then ['\\', '\\']
  else if c.toNat = 0x08 then ['\\', 'b']
  else if c = '\t' then ['\\', 't']
  else if c = '\n' then if lines then [c] else ['\\', 'n']
  else if c.toNat = 0x0C then ['\\', 'f']
  else if c = '\r' then ['\\', 'r']
  else if isControl c then
    let ds := (Text.hex c.toNat).map Char.toUpper
    '\\' :: 'u' :: (List.replicate (4 - ds.length) '0' ++ ds)
  else [c]

/-- A text between double quotes, in which at most `most` double quotes in a row are written as they are;
    `row` of them stand right before it. -/
def escaped (lines : Bool) (most : Nat) : Nat → List Char → List Char
  | _, [] => []
  | row, c :: cs =>
    if c ≠ '"' then escapeChar lines c ++ escaped lines most 0 cs
    else if row < most then c :: escaped lines most (row + 1) cs
    else '\\' :: c :: escaped lines most 0 cs

/-- How a text is written in a settings file. -/
inductive Quoting
  /-- In double quotes, with escapes. -/
  | basic
  /-- In single quotes, as it is. -/
  | literal
  /-- In three double quotes, with escapes. -/
  | basicLines
  /-- In three single quotes, as it is. -/
  | literalLines
  deriving DecidableEq, Repr

/-- A text is written without escapes where that can be: the first way that needs none is taken. -/
def quoting (cs : List Char) : Quoting :=
  let needsEscape := cs.any isControl
  let lines := cs.contains '\n'
  let plain := !needsEscape && !cs.contains '\\'
  if plain && !lines && !cs.contains '"' then .basic
  else if !needsEscape && !lines && !cs.contains '\'' then .literal
  else if plain && longestRow '"' cs < 3 then .basicLines
  else if !needsEscape && longestRow '\'' cs < 3 then .literalLines
  else if lines then .basicLines
  else .basic

/-- A text in a settings file. A text of several lines begins on a line of its own. -/
def quoted (s : String) : String :=
  let cs := s.toList
  let start := if cs.contains '\n' then "\n" else ""
  match quoting cs with
  | .basic => "\"" ++ String.ofList (escaped false 0 0 cs) ++ "\""
  | .literal => "'" ++ s ++ "'"
  | .basicLines => "\"\"\"" ++ start ++ String.ofList (escaped true 2 0 cs) ++ "\"\"\""
  | .literalLines => "'''" ++ start ++ s ++ "'''"

/-- A list in a settings file; two or more items have a line each. -/
def quotedList : List String → String
  | [] => "[]"
  | [s] => "[" ++ quoted s ++ "]"
  | items => "[\n" ++ String.join (items.map fun s => "    " ++ quoted s ++ ",\n") ++ "]"

/-- A line that sets a key. -/
def line (key value : String) : String := key ++ " = " ++ value ++ "\n"

def switch (b : Bool) : String := if b then "true" else "false"

/-- The settings as a settings file that sets everything. -/
def toToml (s : Settings) : String :=
  "[generate]\n" ++ line "compress_behaviour" (quoted s.generate.compression.name) ++
    line "generate_fake_root" (switch s.generate.withFakeRoot) ++
    line "fake_root_name" (quoted s.generate.fakeRootName) ++
    line "skip_enum_dedup" (switch s.generate.skipEnumDedup) ++
    line "exclude_modules" (quotedList s.generate.excludeModules) ++ "\n[parser]\n" ++
    line "search_paths" (quotedList s.searchPaths) ++ "\n[output]\n" ++
    line "format" (quoted s.output.format.name) ++
    line "include_checksum" (switch s.output.includeChecksum)

end Settings

end SchemaIr
