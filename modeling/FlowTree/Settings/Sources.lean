import FlowTree.Data.Yaml.Content
import FlowTree.Settings.Basic
import FlowTree.Text.Integer

/-!
Where settings come from: the built-in ones, then a file for all projects of a user, then the file of
the project, then variables of the environment, each over those before it.
-/

namespace FlowTree

namespace Settings

/-- The names of the settings in files. -/
def fieldNames : List String := ["color", "verbosity", "log_file", "format", "show_dominators", "parallel"]

/-- Change one field. A name without a meaning here changes nothing. -/
def set? (s : Settings) (name : String) (value : Yaml.Node) : Option Settings :=
  match name with
  | "color" => (value.textOver? s.color).map fun color => { s with color }
  | "verbosity" => (value.intOver? s.verbosity).map fun verbosity => { s with verbosity }
  | "log_file" => (value.textOver? s.logFile).map fun logFile => { s with logFile }
  | "format" => (value.textOver? s.format).map fun format => { s with format }
  | "show_dominators" => (value.boolOver? s.showDominators).map fun showDominators => { s with showDominators }
  | "parallel" => (value.intOver? s.parallel).map fun parallel => { s with parallel }
  | _ => some s

/-- Change the fields of a mapping. Each setting is given at most once. -/
def setOwn? (s : Settings) (fields : List (String × Yaml.Node)) : Option Settings :=
  let known := (fields.map (·.1)).filter fieldNames.contains
  if known.Nodup then fields.foldlM (fun s (name, value) => s.set? name value) s else none

/-- Change the fields that a mapping takes in, of which `given` says which are given already. The first
of several counts. -/
def setTaken? : (given : List String) → (s : Settings) → List (String × Yaml.Node) → Option Settings
  | _, s, [] => some s
  | given, s, (name, value) :: more =>
    if given.contains name then setTaken? given s more
    else (s.set? name value).bind fun s => setTaken? (name :: given) s more

/-- The settings under those of a YAML value: a mapping, or nothing at all. -/
def over? (s : Settings) : Yaml.Node → Option Settings
  | .mapping entries =>
    if Yaml.Node.distinctKeys entries then do
      let own ← Yaml.Node.named? entries
      let taken ← Yaml.Node.takenIn? entries
      (← s.setOwn? own).setTaken? (own.map (·.1)) taken
    else none
  | n => if n.content?.any (·.meaning = .null) then some s else none

/-- The settings under those of a YAML text. One without a document says nothing. -/
def overText? (s : Settings) (text : String) : Option Settings := do
  match ← Yaml.read? text with
  | none => some s
  | some n => s.over? n

/-- The settings under those of a file. -/
def overFile (s : Settings) (path : String) (content : Text) : Except SettingsError Settings :=
  match content.toString?.bind s.overText? with
  | some s => .ok s
  | none => .error (.malformed path)

/-- The settings under those of the environment. A variable without text is as good as none, and a
number that cannot be read or used changes nothing. -/
def overEnvironment (s : Settings) (environment : String → Option String) : Settings :=
  let text (name : String) : Option String := (environment name).bind fun v => if v = "" then none else some v
  let number (name : String) : Option Int := (text name).bind Text.leadingInteger?
  { color := (text "SHADERFLOW_COLOR").getD s.color
    verbosity := (number "SHADERFLOW_VERBOSITY").getD s.verbosity
    logFile := (text "SHADERFLOW_LOG_FILE").getD s.logFile
    format := (text "SHADERFLOW_FORMAT").getD s.format
    showDominators := ((text "SHADERFLOW_SHOW_DOMINATORS").map fun v =>
      v = "true" || v = "1" || v = "yes").getD s.showDominators
    parallel := ((number "SHADERFLOW_PARALLEL").bind fun n => if 0 < n then some n else none).getD s.parallel }

/-- The variables that settings are read from, the one for the home directory included. -/
def variableNames : List String := [
  "HOME", "SHADERFLOW_COLOR", "SHADERFLOW_VERBOSITY", "SHADERFLOW_LOG_FILE", "SHADERFLOW_FORMAT",
  "SHADERFLOW_SHOW_DOMINATORS", "SHADERFLOW_PARALLEL"]

/-- The file for all projects of a user. -/
def userFile (home? : Option String) : String :=
  match home? with
  | none | some "" => ".shaderflow/config.yaml"
  | some home => joinPath [home, ".shaderflow", "config.yaml"]

def projectFile : String := ".shaderflow.yaml"

/-- The settings under those of a file, if it can be read. -/
def overFileIfAny (s : Settings) (path : String) (file : Except FileError Text) :
    Except SettingsError Settings :=
  match file with
  | .error _ => .ok s
  | .ok content => s.overFile path content

section
variable {m : Type → Type} [Monad m]

/-- The settings from their usual sources. The file of the project is not read once the one before it
fails. -/
def load (readFile : String → m (Except FileError Text)) (environment : String → Option String) :
    m (Except SettingsError Settings) := do
  let path := userFile (environment "HOME")
  match overFileIfAny {} path (← readFile path) with
  | .error e => pure (.error e)
  | .ok s =>
    match s.overFileIfAny projectFile (← readFile projectFile) with
    | .error e => pure (.error e)
    | .ok s => pure (s.overEnvironment environment).validate

/-- The settings from the given file, which must be there, and the environment. -/
def loadFile (readFile : String → m (Except FileError Text)) (environment : String → Option String)
    (path : String) : m (Except SettingsError Settings) := do
  match ← readFile path with
  | .error e => pure (.error (.unreadable path e))
  | .ok content =>
    match overFile {} path content with
    | .error e => pure (.error e)
    | .ok s => pure (s.overEnvironment environment).validate

/-- Make directories in order. The result is the first that cannot be made. -/
def makeAll (makeDirectory : String → m (Except FileError Unit)) :
    List String → m (Except (String × FileError) Unit)
  | [] => pure (.ok ())
  | directory :: more => do
    match ← makeDirectory directory with
    | .error e => pure (.error (directory, e))
    | .ok () => makeAll makeDirectory more

/-- Write the settings to a file, in a directory that is made if need be. -/
def save (makeDirectory : String → m (Except FileError Unit))
    (writeFile : String → String → m (Except FileError Unit)) (s : Settings) (path : String) :
    m (Except SettingsError Unit) := do
  let directory := directoryOf path
  match ← makeAll makeDirectory (directoriesTo directory) with
  | .error (onTheWay, e) => pure (.error (.noDirectory directory onTheWay e))
  | .ok () =>
    match ← writeFile path s.toYaml with
    | .error e => pure (.error (.unwritable path e))
    | .ok () => pure (.ok ())

end

end Settings

end FlowTree
