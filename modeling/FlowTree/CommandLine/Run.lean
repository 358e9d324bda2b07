import FlowTree.CommandLine.Invocation
import FlowTree.Repl
import FlowTree.Settings.Sources
import FlowTree.Snapshot.Format

/-!
Running a command: settings are gathered, files are read and analysed in order, and what there is to
say goes to the two output streams. A file that cannot be read ends the run; one with errors only makes
it fail in the end. What a run logs is left out: the settings of the log are read and checked, and nothing
else depends on them.
-/

namespace FlowTree.CommandLine

/-- What a run needs of the machine it is on. -/
structure Console (m : Type → Type) where
  /-- The content of the file at a path. -/
  fetch : String → m (Except FileError Text)
  /-- The variables of the environment. -/
  environment : String → Option String
  out : List UInt8 → m Unit
  err : List UInt8 → m Unit
  /-- Do something and tell how long it took, in words. -/
  timed : {α : Type} → m α → m (α × String)

/-- How a run ends. -/
inductive Ending where
  | success
  /-- The run failed, and what there is to say of it has been said. -/
  | failure
  /-- The run failed for a reason that is still to be said. -/
  | refused (message : String)
  /-- The run goes on with the read-print loop. -/
  | interactive (color : Bool)
  deriving DecidableEq, Repr

/-- The version of the program. -/
def version : String := "0.1.0"

/-- What is printed when the program is to explain itself. -/
def usage : String :=
  "shaderflow recovers structured control flow from shader IR\n\nUsage:\n" ++
    String.join (Command.table.map fun (_, name) => "  " ++ programName ++ " " ++ name ++ "\n")

/-- What the read-print loop starts with. -/
def greeting (user? : Option String) : String :=
  match user? with
  | some user => "Welcome to the shaderflow REPL, " ++ user ++ "!\n"
  | none => "Welcome to the shaderflow REPL!\n"

/-- The settings under what the flags say. -/
def Options.over (o : Options) (s : Settings) : Settings :=
  { s with
    format := o.format?.getD s.format
    color := if o.noColor? = some true then ColorMode.never.name else s.color
    verbosity := o.verbose?.getD s.verbosity
    parallel := o.parallel?.getD s.parallel }

/-- The graph in text: a block a line, with its successors. A block out of reach is marked; for others,
immediate dominators are shown if they are asked for. -/
def graphText (g : FlowGraph) (showDominators : Bool) : String :=
  String.join (g.blocks.toList.zipIdx.map fun (b, id) =>
    let successors := (g.successors id).map fun s => "%" ++ g.blockName s
    let mark :=
      if !g.dominators.reaches id then " ; unreachable"
      else if showDominators then
        ((g.dominators.immediate? id).map fun d => " ; idom %" ++ g.blockName d).getD ""
      else ""
    b.text ++ (if successors.isEmpty then "" else " -> " ++ ", ".intercalate successors) ++ mark ++ "\n")

/-- The graphs of a source in text, each under the name of its function. -/
def graphsText (analyses : List Analysis) (showDominators : Bool) : String :=
  String.join (analyses.map fun a =>
    match a.outcome.graph? with
    | none => ""
    | some g => "; function " ++ a.function.name ++ "\n" ++ graphText g showDominators)

/-- What a source gives as output: a text, or its snapshot in the format of the settings. -/
def output (s : Settings) (text : String) (snapshot : ModuleSnapshot) : List UInt8 :=
  match (Format.ofName? s.format).bind (·.encode? snapshot) with
  | some bytes => bytes
  | none => text.toUTF8.toList

/-- The line that ends the check of a file. -/
def checkLine (color : Bool) (r : Reading) (duration : String) : String :=
  if hasErrors r.diagnostics then
    Style.red.paint color ("Structuring failed for " ++ r.file ++ " after " ++ duration ++ "\n")
  else
    Style.green.paint color ("Successfully structured " ++ r.file ++ " (" ++ toString r.analyses.length ++
      " function(s)) in " ++ duration ++ "\n")

section
variable {m : Type → Type} [Monad m]

/-- Read and analyse a file and report on it. -/
def readSource (console : Console m) (color : Bool) (path : String) : m (Except FileError Reading) := do
  match ← console.fetch path with
  | .error e => pure (.error e)
  | .ok source =>
    let r := Reading.ofText path source
    console.err (r.report color).bytes
    pure (.ok r)

/-- Go through files in order, doing `step` with each. `failed` tells that one before had errors. -/
def eachFile (step : String → m (Except FileError Reading)) : (failed : Bool) → List String → m Ending
  | failed, [] => pure (if failed then .failure else .success)
  | failed, path :: more => do
    match ← step path with
    | .error e => pure (.refused ("failed to read file: " ++ e.onReading path))
    | .ok r => eachFile step (failed || hasErrors r.diagnostics) more

/-- Read a file, report on it and write what it gives. -/
def writeFrom (console : Console m) (color : Bool) (write : Reading → List UInt8) (path : String) :
    m (Except FileError Reading) := do
  match ← readSource console color path with
  | .error e => pure (.error e)
  | .ok r =>
    console.out (write r)
    pure (.ok r)

/-- Check a file and tell how long it took. -/
def checkFile (console : Console m) (color : Bool) (path : String) : m (Except FileError Reading) := do
  match ← console.timed (readSource console color path) with
  | (.error e, _) => pure (.error e)
  | (.ok r, duration) =>
    console.err (checkLine color r duration).toUTF8.toList
    pure (.ok r)

def runCommand (console : Console m) (c : Command) (o : Options) (s : Settings) (arguments : List String) :
    m Ending :=
  let color := s.color = ColorMode.always.name
  match c with
  | .root | .help | .completion | .completionOf _ => do
    console.out usage.toUTF8.toList
    pure .success
  | .trees =>
    let write (r : Reading) :=
      output s (Analysis.outlines r.analyses ⟨o.depth, o.blocks⟩) (.ofAnalyses r.file r.analyses)
    eachFile (writeFrom console color write) false arguments
  | .graphs =>
    let write (r : Reading) :=
      output s (graphsText r.analyses (o.dominators || s.showDominators)) (.ofGraphs r.file r.analyses)
    eachFile (writeFrom console color write) false arguments
  | .check => eachFile (checkFile console color) false arguments
  | .repl => pure (.interactive color)

/-- The settings of a run: from the file that a flag names, else from the usual sources, and then from
the flags. -/
def gatherSettings (console : Console m) (o : Options) : m (Except SettingsError Settings) := do
  let loaded ← if o.config ≠ "" then Settings.loadFile console.fetch console.environment o.config
    else Settings.load console.fetch console.environment
  pure (loaded.bind fun s => (o.over s).validate)

/-- Do what the arguments ask for. -/
def perform (console : Console m) (arguments : List String) : m Ending := do
  match Invocation.ofArguments arguments with
  | .error e => pure (.refused e.message)
  | .ok .help =>
    console.out usage.toUTF8.toList
    pure .success
  | .ok .version =>
    console.out (programName ++ " version " ++ version ++ "\n").toUTF8.toList
    pure .success
  | .ok (.run c o words) =>
    match ← gatherSettings console o with
    | .error e => pure (.refused e.message)
    | .ok s => runCommand console c o s words

/-- Do what the arguments ask for, and say why it was refused if it was. -/
def run (console : Console m) (arguments : List String) : m Ending := do
  let ending ← perform console arguments
  if let .refused message := ending then
    console.err (programName ++ ": " ++ message ++ "\n").toUTF8.toList
  pure ending

end

/-- The number that a run ends with. -/
def Ending.code : Ending → UInt32
  | .success | .interactive _ => 0
  | .failure | .refused _ => 1

end FlowTree.CommandLine
