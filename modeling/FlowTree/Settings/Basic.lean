import FlowTree.Data.Yaml.Writer
import FlowTree.Files
import FlowTree.Snapshot.Format

/-!
Settings: what colours, logs, formats and parallel work a run uses. They hold whatever their sources
say; `validate` tells whether they can be used.
-/

namespace FlowTree

/-- When diagnostics are coloured. -/
inductive ColorMode where
  | auto
  | always
  | never
  deriving DecidableEq, Repr

/-- The name of a colour mode. -/
def ColorMode.name : ColorMode → String
  | .auto => "auto"
  | .always => "always"
  | .never => "never"

/-- The colour mode of the given name. -/
def ColorMode.ofName? (name : String) : Option ColorMode :=
  [ColorMode.auto, .always, .never].find? (·.name = name)

/-- The settings of a run. -/
structure Settings where
  /-- The name of a colour mode. -/
  color : String := ColorMode.auto.name
  verbosity : Int := 0
  /-- Where the log goes; empty for the standard error stream. -/
  logFile : String := ""
  /-- The name of an output format. -/
  format : String := Format.text.name
  /-- Graphs in text show immediate dominators. -/
  showDominators : Bool := false
  /-- The number of functions processed at once. -/
  parallel : Int := 1
  deriving DecidableEq, Repr, Inhabited

/-- Why settings cannot be had or used. -/
inductive SettingsError where
  | unreadable (path : String) (e : FileError)
  /-- The file is no YAML, or its values do not fit. -/
  | malformed (path : String)
  | color (name : String)
  | format (name : String)
  | negativeVerbosity
  | noParallelism
  /-- The directory for a file cannot be made, because of one on the way to it. -/
  | noDirectory (path onTheWay : String) (e : FileError)
  | unwritable (path : String) (e : FileError)
  deriving DecidableEq, Repr

/-- The error in words. -/
def SettingsError.message : SettingsError → String
  | .unreadable path e => "failed to read config file " ++ path ++ ": " ++ e.onReading path
  | .malformed path => "failed to parse config file " ++ path
  | .color name => "invalid color: " ++ name ++ " (must be 'auto', 'always' or 'never')"
  | .format name => "invalid format: " ++ name ++ " (must be 'text', 'json', 'yaml' or 'msgpack')"
  | .negativeVerbosity => "verbosity must be non-negative"
  | .noParallelism => "parallel must be positive"
  | .noDirectory path onTheWay e =>
    "failed to create directory " ++ path ++ ": mkdir " ++ onTheWay ++ ": " ++ e.reason
  | .unwritable path e => "failed to write config file " ++ path ++ ": open " ++ path ++ ": " ++ e.reason

namespace Settings

/-- The first thing that is wrong with the settings, if anything is. -/
def fault? (s : Settings) : Option SettingsError :=
  if (ColorMode.ofName? s.color).isNone then some (.color s.color)
  else if (Format.ofName? s.format).isNone then some (.format s.format)
  else if s.verbosity < 0 then some .negativeVerbosity
  else if s.parallel ≤ 0 then some .noParallelism
  else none

/-- The settings, if they can be used. -/
def validate (s : Settings) : Except SettingsError Settings :=
  match s.fault? with
  | some e => .error e
  | none => .ok s

/-- The file that the log goes to, none for the standard error stream. -/
def logPath? (s : Settings) : Option String := if s.logFile = "" then none else some s.logFile

def toData (s : Settings) : Data := .record [
  ("color", .str s.color), ("verbosity", .int s.verbosity), ("log_file", .str s.logFile),
  ("format", .str s.format), ("show_dominators", .bool s.showDominators), ("parallel", .int s.parallel)]

/-- The settings as a YAML text. -/
def toYaml (s : Settings) : String := Yaml.document 4 s.toData

end Settings

end FlowTree
