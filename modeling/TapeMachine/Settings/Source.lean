import TapeMachine.Host
import TapeMachine.Settings.File

/-!
# Where settings come from

The lowest layer is a settings file, above it come environment variables, and above these the
options of the command.  The file is found through environment variables too.
-/

namespace TapeMachine.Settings.Source

def fileName : String :=
  "bfrun.toml"

/-- The directory for settings: the value of its own variable, or else the directory of the usual
name in the home directory.  Without a home directory there may be none. -/
def directory? (host : Host) : Option String :=
  match host.text? "XDG_CONFIG_HOME" with
  | some directory => some directory
  | none => (host.text? "HOME").map fun home => joinPath home ".config"

/-- The path of the settings file: the value of its own variable, or else the file of the usual name
in the directory for settings. -/
def filePath? (host : Host) : Option String :=
  match host.environment "BFRUN_CONFIG" with
  | some path => some (Text.Utf8.decodeLossy path)
  | none => (directory? host).map fun directory => joinPath directory fileName

inductive FileReading where
  /-- There is no such file or no place for it, which is no reason to complain. -/
  | absent
  | unreadable (path : String) (reason : FileError)
  | loaded (path : String) (reading : Reading)

namespace FileReading

/-- The settings of the file; none if it was not read. -/
def settings : FileReading → Settings
  | loaded _ reading => reading.settings
  | _ => {}

end FileReading

/-- Reads the file at a path. -/
def FileReading.ofPath (host : Host) (path : String) : FileReading :=
  match host.fileText path with
  | .ok content => .loaded path (File.read path content)
  | .error .notFound => .absent
  | .error reason => .unreadable path reason

def fileReading (host : Host) : FileReading :=
  match filePath? host with
  | some path => .ofPath host path
  | none => .absent

/-- The variables that hold settings, in the order in which they are looked at. -/
def settingVariables : List (String × Key) :=
  [("BFRUN_TAPE_LENGTH", .tapeLength), ("BFRUN_CIRCULAR", .circular), ("BFRUN_EOF", .eof)]

/-- What the environment says.  A variable that is not a well-formed text counts as unset. -/
def environmentReading (host : Host) : Reading :=
  Reading.ofAssignments <| settingVariables.filterMap fun (name, key) =>
    (host.text? name).map fun value => { origin := name, key, value }

/-- The parameters of the machine, given the options of the command. -/
def resolve (file : FileReading) (environment : Reading) (flags : Settings) : Config :=
  ((file.settings.overlay environment.settings).overlay flags).resolve

end TapeMachine.Settings.Source
