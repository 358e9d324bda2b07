import FlowTree.Analysis
import FlowTree.Text.Space

/-!
The read-print loop: assembly typed in line by line. A blank line has what was typed structured and
printed; lines that start with a colon are commands.
-/

namespace FlowTree

/-- The loop between two lines. -/
structure Repl where
  /-- Instructions are listed under each block. -/
  showInstructions : Bool := false
  /-- The lines typed since the last blank one. -/
  lines : List Text := []

namespace Repl

/-- What the loop prints before it reads a line. -/
def prompt (r : Repl) : String := if r.lines.isEmpty then ">> " else ".. "

/-- What the help command prints. -/
def help : String :=
  "Enter assembly, one instruction per line. A blank line structurizes it.\n" ++
  "Commands:\n" ++
  "  :blocks  toggle instruction listing under each block\n" ++
  "  :help    show this help\n" ++
  "  :quit    exit\n"

/-- The report and the trees of the lines that were typed. -/
def evaluate (color : Bool) (r : Repl) : Text :=
  if r.lines.isEmpty then []
  else
    let reading := Reading.ofText "<repl>" ([Glyph.char '\n'].intercalate r.lines)
    reading.report color ++
      .ofString (Analysis.outlines reading.analyses { instructions := r.showInstructions })

/-- Take a line: what is printed, and the loop after it unless the line ends it. -/
def take (color : Bool) (r : Repl) (line : Text) : Text × Option Repl :=
  let line := line.trim
  if line = .ofString ":quit" || line = .ofString ":q" then ([], none)
  else if line = .ofString ":help" then (.ofString help, some r)
  else if line = .ofString ":blocks" then
    let shown := !r.showInstructions
    (.ofString ("showing instructions: " ++ (if shown then "true" else "false") ++ "\n"),
      some { r with showInstructions := shown })
  else if line.isEmpty then (r.evaluate color, some { r with lines := [] })
  else ([], some { r with lines := r.lines ++ [line] })

/-- What is printed at the end of the input. -/
def finish (color : Bool) (r : Repl) : Text := r.evaluate color ++ .ofString "\n"

/-- The greatest number of bytes in a line. A longer one ends the input. -/
def lineLimit : Nat := 65535

/-- The line can be taken. -/
def isTakable (line : Text) : Bool := line.bytes.length ≤ lineLimit

/-- All that is printed for the lines of an input. -/
def transcript (color : Bool) : Repl → List Text → Text
  | r, [] => .ofString r.prompt ++ r.finish color
  | r, line :: more =>
    if isTakable line then
      match r.take color line with
      | (output, some next) => .ofString r.prompt ++ output ++ transcript color next more
      | (output, none) => .ofString r.prompt ++ output
    -- The line is lost, and what was typed before it is still structured.
    else .ofString r.prompt ++ r.finish color

/-- The lines of an input: its last line need not be ended. -/
def inputLines (input : Text) : List Text :=
  if input.isEmpty then []
  else if input.endsLine then Text.lines input.dropLast else input.lines

end Repl

end FlowTree
