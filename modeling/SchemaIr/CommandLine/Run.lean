import SchemaIr.CommandLine.Arguments
import SchemaIr.Generation
import SchemaIr.Ir.Checksum
import SchemaIr.Loading.Tree
import SchemaIr.Settings.Document
import SchemaIr.Settings.Load

/-! # Running commands

A command runs on a disk, in an environment, and ends with an exit code, what it prints, and the disk that
it leaves. A result goes to standard output or into a file; reports of problems go to standard error. -/

namespace SchemaIr

/-- The result of generating from files: they are loaded into a tree, which is generated from. There is none if
    the mapping of a type does not end. -/
def generateFromFiles (disk : Disk) (files : List String) (settings : Settings) : Option (Except RunError Ir) :=
  match SchemaTree.load disk files settings.searchPaths with
  | .error e => some (.error (.load e))
  | .ok t => (t.generate settings.generate).map fun result => result.mapError .generation

namespace CommandLine

/-- What surrounds a run. -/
structure World where
  disk : Disk
  /-- The user's own settings file. -/
  userFile : Option String
  /-- The environment variables with their texts. -/
  environment : List (String × String)

/-- How a run ends. -/
structure Outcome where
  exit : Nat
  out : String
  err : String
  disk : Disk
  /-- The file that was written. -/
  written : Option String

/-- A run that fails with a message. -/
def fail (disk : Disk) (report message : String) : Outcome :=
  ⟨1, "", report ++ "Error: " ++ message ++ "\n", disk, none⟩

/-- How a failed run is reported: with the cause behind the message where it has one of its own, and with the
    notes in front where there are some. -/
def failRun (disk : Disk) : RunError → Outcome
  | .load (.unreadable cause) => fail disk "" ((LoadError.unreadable cause).message ++ ": " ++ cause)
  | .load e => fail disk "" e.message
  | .generation ds =>
    fail disk ds.render ("generation failed with " ++ toString ds.errorCount ++ " error(s)")

/-- The text of a result: its JSON with the members in name order, with its checksum if that is set. -/
def resultText (settings : OutputSettings) (ir : Ir) : String :=
  let body :=
    if settings.includeChecksum then Json.Value.obj [("checksum", .str ir.checksum), ("ir", ir.toJson)]
    else ir.toJson
  match settings.format with
  | .pretty => body.sortMembers.pretty
  | .compact => body.sortMembers.compact

/-- Writes a file, and reports that it did. -/
def writeFile (disk : Disk) (path text report : String) : Outcome :=
  match disk.write path text.toUTF8 with
  | .ok disk => ⟨0, "", report ++ "\n", disk, some path⟩
  | .error e => fail disk "" ("failed to write " ++ path ++ ": " ++ e.message)

/-- Runs a command under the settings that are loaded. A run that does not end has no outcome. -/
def runCommand (world : World) (settings : Settings) : Command → Option Outcome
  | .generate options output compact =>
    let settings := options.apply settings
    let format := if compact then .compact else settings.output.format
    (generateFromFiles world.disk options.files settings).map fun
    | .error e => failRun world.disk e
    | .ok ir =>
      let text := resultText { settings.output with format } ir
      match output with
      | none => ⟨0, text ++ "\n", "", world.disk, none⟩
      | some path =>
        writeFile world.disk path text
          ("wrote " ++ toString ir.directories.size ++ " directories and " ++ toString ir.enumerations.size ++
            " enums to " ++ path)
  | .check options =>
    let settings := options.apply settings
    (generateFromFiles world.disk options.files settings).map fun
    | .error e => failRun world.disk e
    | .ok ir =>
      let summary :=
        "ok: " ++ toString ir.directories.size ++ " directories, " ++ toString ir.enumerations.size ++
          " enums (" ++ settings.generate.compression.name ++ ")\n"
      ⟨0, ir.notes.render ++ summary, "", world.disk, none⟩
  | .initConfig path force =>
    some (if world.disk.isThere path && !force then
      fail world.disk "" (path ++ " already exists (use --force to overwrite)")
    else writeFile world.disk path settings.toToml ("wrote configuration to " ++ path))

/-- How the program is used. -/
def usage : String :=
  "Usage: ygen [--config <CONFIG>] generate <FILES>... | check <FILES>... | init-config [PATH]\n"

/-- Why settings could not be loaded. -/
def failureText : Settings.LoadFailure → String
  | .missingFile path => "configuration file " ++ path ++ " not found"
  | .brokenFile path => path ++ " is not a settings file"
  | .unfit => "a setting has a value that does not fit"

/-- Runs the command that arguments are. A run that does not end has no outcome. -/
def run (world : World) (args : List String) : Option Outcome :=
  match Arguments.parse args with
  | .error .help => some ⟨0, usage, "", world.disk, none⟩
  | .error .usage => some ⟨2, "", usage, world.disk, none⟩
  | .ok arguments =>
    match Settings.load world.disk world.userFile arguments.settingsFile world.environment with
    | .error e => some (fail world.disk "" ("failed to load configuration: " ++ failureText e))
    | .ok settings => runCommand world settings arguments.command

end CommandLine

end SchemaIr
