import FlowTree.CommandLine.Run
import FlowTree.Number.Duration

/-!
The program: the command line on a real machine.
-/

namespace FlowTree.Machine

/-- Why reading a file failed. -/
def fileError : IO.Error → FileError
  | .noFileOrDirectory .. => .missing
  | .inappropriateType .. => .isDirectory
  | e => .other (toString e)

def readFile (path : String) : IO (Except FileError Text) := do
  try
    pure (.ok (.ofBytes (← IO.FS.readBinFile path)))
  catch e => pure (.error (fileError e))

def write (stream : IO.FS.Stream) (bytes : List UInt8) : IO Unit := do
  stream.write ⟨bytes.toArray⟩
  stream.flush

/-- Do something and tell how long it took. -/
def timed {α : Type} (action : IO α) : IO (α × String) := do
  let start ← IO.monoNanosNow
  let a ← action
  let stop ← IO.monoNanosNow
  pure (a, durationText (stop - start : Nat))

/-- The variables that settings are read from. -/
def given : IO (List (String × String)) := do
  let pairs ← Settings.variableNames.mapM fun name => do pure ((← IO.getEnv name).map (name, ·))
  pure (pairs.filterMap id)

/-- The machine that the program is on, with the variables that are given there. -/
def console (given : List (String × String)) (output errors : IO.FS.Stream) : CommandLine.Console IO where
  fetch := readFile
  environment := fun name => given.lookup name
  out := write output
  err := write errors
  timed := timed

/-- The read-print loop on streams. -/
partial def interact (color : Bool) (input output : IO.FS.Stream) (r : Repl) : IO Unit := do
  write output r.prompt.toUTF8.toList
  let line := Text.ofString (← input.getLine)
  let line? := Repl.inputLines line |>.head?
  match line?.filter Repl.isTakable with
  | none => write output (r.finish color).bytes
  | some line =>
    let (shown, next?) := r.take color line
    write output shown.bytes
    if let some next := next? then interact color input output next

end FlowTree.Machine

/-- Do what the arguments ask for. -/
def main (arguments : List String) : IO UInt32 := do
  let output ← IO.getStdout
  let console := FlowTree.Machine.console (← FlowTree.Machine.given) output (← IO.getStderr)
  let ending ← FlowTree.CommandLine.run console arguments
  if let .interactive color := ending then
    FlowTree.Machine.write output (FlowTree.CommandLine.greeting (← IO.getEnv "USER")).toUTF8.toList
    FlowTree.Machine.interact color (← IO.getStdin) output {}
  pure ending.code
