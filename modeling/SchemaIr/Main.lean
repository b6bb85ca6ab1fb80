import SchemaIr.CommandLine.Run

/-! # The program

The outer layer: it takes up the files below the working directory and the environment, has the command run,
and gives out what the run prints and writes. -/

namespace SchemaIr.CommandLine

/-- The environment variables that set something. -/
def settingVariables : List String :=
  ["YGEN_GENERATE__COMPRESS_BEHAVIOUR", "YGEN_GENERATE__EXCLUDE_MODULES", "YGEN_GENERATE__FAKE_ROOT_NAME",
    "YGEN_GENERATE__GENERATE_FAKE_ROOT", "YGEN_GENERATE__SKIP_ENUM_DEDUP", "YGEN_OUTPUT__FORMAT",
    "YGEN_OUTPUT__INCLUDE_CHECKSUM", "YGEN_PARSER__SEARCH_PATHS"]

/-- The variables that are set, with their texts. -/
def setVariables : IO (List (String × String)) :=
  settingVariables.filterMapM fun name => do pure ((← IO.getEnv name).map (name, ·))

/-- Takes up a directory, with all files below it, under a name on the disk. -/
partial def takeUp (place name : String) (disk : Disk) : IO Disk := do
  let mut disk := disk.putDirectory name
  for entry in ← (← IO.FS.realPath place).readDir do
    let path := entry.path.toString
    let name := Path.join name entry.fileName
    if ← entry.path.isDir then disk ← takeUp path name disk
    else disk := disk.put name (← IO.FS.readBinFile path)
  pure disk

/-- Where the user's own settings file is. -/
def userPath? : IO (Option String) := do
  let base ← match ← IO.getEnv "XDG_CONFIG_HOME" with
    | some dir => if Path.isAbsolute dir then pure (some dir) else homeConfig
    | none => homeConfig
  pure (base.map (Path.join · "ygen/ygen.toml"))
where
  homeConfig : IO (Option String) := do pure ((← IO.getEnv "HOME").map (Path.join · ".config"))

/-- What surrounds the run. -/
def surroundings : IO World := do
  let working := Disk.steps (← IO.currentDir).toString
  let disk ← takeUp "." "" (.emptyFrom working)
  let environment ← setVariables
  let own : Option (String × ByteArray) ← do
    match ← userPath? with
    | none => pure none
    | some path =>
      try pure (some (path, ← IO.FS.readBinFile path)) catch _ => pure none
  match own with
  | none => pure ⟨disk, none, environment⟩
  | some (path, bytes) => pure ⟨disk.put path bytes, some path, environment⟩

end SchemaIr.CommandLine

/-- The exit code of a run that is given up because it does not end. -/
def SchemaIr.CommandLine.exitWithoutEnd : UInt32 := 134

open SchemaIr CommandLine in
def main (args : List String) : IO UInt32 := do
  let some outcome := run (← surroundings) args | pure exitWithoutEnd
  if let some path := outcome.written then
    IO.FS.writeBinFile path ((outcome.disk.bytes? path).getD .empty)
  IO.print outcome.out
  IO.eprint outcome.err
  pure outcome.exit.toUInt32
