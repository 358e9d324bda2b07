import FlowTree.Diagnostic.Style
import FlowTree.Text.Digits

/-!
Reports: diagnostics with the source lines they are about. The offending stretch is underlined; a
diagnostic about a label underlines the first mention of it at or after its column. A summary line
counts errors and warnings.
-/

namespace FlowTree

/-- The source that a report quotes from, and whether it is coloured. -/
structure Reporter where
  file : String
  source : Text
  color : Bool := false
  deriving Repr

/-- What to underline: a column counted from one and a number of columns. -/
structure Span where
  column : Int
  length : Int
  deriving DecidableEq, Repr

namespace Span

/-- Bytes that continue an id. -/
def isIdByte (b : UInt8) : Bool :=
  b = 0x5F || b = 0x2E || 0x61 ≤ b && b ≤ 0x7A || 0x41 ≤ b && b ≤ 0x5A || 0x30 ≤ b && b ≤ 0x39

/-- Look for the first mention of an id at or after the byte at `offset`. A match that goes on as a
longer id is no mention, and the search goes on behind it. -/
def findId? (ref : List UInt8) (offset : Nat) (line : List UInt8) : Option Nat :=
  match line with
  | [] => none
  | b :: rest =>
    match ref.isPrefixOf? (b :: rest) with
    | none => findId? ref (offset + 1) rest
    | some after =>
      if after.head?.any isIdByte then findId? ref (offset + 1 + (ref.length - 1)) (rest.drop (ref.length - 1))
      else some offset
termination_by line.length
decreasing_by
  · simp
  · simp only [List.length_drop, List.length_cons]; omega

/-- The number of columns before a column, none before the first. It is a number of 64 bits, so the lowest
column of all is taken for one far to the right. -/
def columnsBefore (column : Int) : Nat := ((column - 1).bmod UInt64.size).toNat

/-- What a diagnostic underlines on a line. Lines are measured in bytes. -/
def of (d : Diagnostic) (line : List UInt8) : Span :=
  if d.label = "" then ⟨d.position.column, d.length⟩
  else
    let ref := ("%" ++ d.label).toUTF8.toList
    let start := columnsBefore d.position.column
    match findId? ref start (line.drop start) with
    | some offset => ⟨offset + 1, ref.length⟩
    | none => ⟨d.position.column, d.length⟩

/-- The number of carets under a stretch, at least one. -/
def carets (s : Span) : Nat := max 1 s.length.toNat

/-- The greatest number of blanks or carets that there is room for. -/
def room : Nat := 0x1000000000000

/-- There is room for the marks. -/
def fits (s : Span) : Bool := columnsBefore s.column ≤ room && s.carets ≤ room

/-- The marks under a line: blanks up to the column and at least one caret. -/
def marker (s : Span) (level : Level) (color : Bool) : String :=
  String.ofList (List.replicate (columnsBefore s.column) ' ') ++
    (Style.ofMarker level).paint color (String.ofList (List.replicate s.carets '^'))

end Span

namespace Reporter

/-- The bar between line numbers and lines. -/
def bar (r : Reporter) : String := Style.faint.paint r.color "│"

/-- The width of line numbers: that of the diagnostic's line, at least three. -/
def numberWidth (line : Int) : Nat := max 3 (toString line).length

/-- A source line with its number. -/
def numbered (r : Reporter) (style : Style) (width : Nat) (number : Int) (line : Text) : Text :=
  Text.ofString (style.paint r.color (Text.padLeft width (toString number)) ++ " " ++ r.bar ++ " ") ++
    line ++ Text.ofString "\n"

/-- The text to put in, line by line behind bars. -/
def replacement (r : Reporter) (indent text : String) : String :=
  ("\n" ++ indent ++ " " ++ r.bar ++ " ").intercalate (text.splitOn "\n")

/-- One suggestion, the first of them announced as help. -/
def suggestion (r : Reporter) (indent : String) (first : Bool) (s : Suggestion) : String :=
  let cyan := Style.cyan.paint r.color
  (if first then indent ++ " " ++ cyan "help" ++ " " ++ cyan "try" ++ ": " ++ s.message ++ "\n"
   else indent ++ " " ++ cyan "    " ++ " " ++ s.message ++ "\n") ++
  (if s.replacement = "" then ""
   else indent ++ " " ++ r.bar ++ "\n" ++
    indent ++ " " ++ cyan "│" ++ " " ++ cyan (r.replacement indent s.replacement) ++ "\n")

/-- The suggestions, notes and help of a diagnostic. -/
def trailer (r : Reporter) (indent : String) (d : Diagnostic) : String :=
  let lead := indent ++ " " ++ r.bar
  let suggestions := match d.suggestions with
    | [] => ""
    | first :: rest =>
      lead ++ "\n" ++ r.suggestion indent true first ++ String.join (rest.map (r.suggestion indent false))
  let notes := d.notes.map fun note => lead ++ " " ++ Style.blue.paint r.color "note:" ++ " " ++ note ++ "\n"
  let help := if d.help = "" then "" else lead ++ " " ++ Style.green.paint r.color "help:" ++ " " ++ d.help ++ "\n"
  suggestions ++ String.join notes ++ help

/-- The level, the code and the message. -/
def header (r : Reporter) (d : Diagnostic) : String :=
  (Style.ofLevel d.level).paint r.color d.level.name ++
    (if d.code = "" then "" else "[" ++ d.code ++ "]") ++ ": " ++ d.message ++ "\n"

/-- The line before the offending one, that line with its marks, and the line after it, as far as the
source has them. `line` counts from one. -/
def excerpt (r : Reporter) (d : Diagnostic) (line width : Nat) (indent : String) : Text :=
  let lines := r.source.lines
  let before := if 1 < line && line - 1 < lines.length then
      r.numbered .faint width (line - 1) (lines.getD (line - 2) [])
    else []
  let offending := match lines[line - 1]? with
    | some content =>
      r.numbered .bold width line content ++
        Text.ofString (indent ++ " " ++ r.bar ++ " " ++
          (Span.of d (Text.bytes content)).marker d.level r.color ++ "\n")
    | none => []
  let after := match lines[line]? with
    | some content => r.numbered .faint width (line + 1) content
    | none => []
  before ++ offending ++ after

/-- There is room for the marks of a diagnostic, if it has any. -/
def fits (r : Reporter) (d : Diagnostic) : Bool :=
  !d.position.isValid || (r.source.lines[d.position.line.toNat - 1]?).all fun content =>
    (Span.of d (Text.bytes content)).fits

def format (r : Reporter) (d : Diagnostic) : Text :=
  let arrow := Style.faint.paint r.color "-->"
  if d.position.isValid then
    let width := numberWidth d.position.line
    let indent := String.ofList (List.replicate width ' ')
    Text.ofString (r.header d ++ indent ++ " " ++ arrow ++ " " ++ r.file ++ ":" ++
        toString d.position.line ++ ":" ++ toString d.position.column ++ "\n" ++
        indent ++ " " ++ r.bar ++ "\n") ++
      r.excerpt d d.position.line.toNat width indent ++
      Text.ofString (r.trailer indent d ++ "\n")
  else
    Text.ofString (r.header d ++ "    " ++ arrow ++ " " ++ r.file ++ "\n" ++ r.trailer "   " d ++ "\n")

/-- The line that counts errors and warnings, if there are any. -/
def summary (r : Reporter) (errors warnings : Nat) : String :=
  let tail := " in " ++ r.file ++ "\n"
  if 0 < errors then
    Style.boldRed.paint r.color ("error: " ++ toString errors ++ " error(s)") ++
      (if 0 < warnings then ", " ++ toString warnings ++ " warning(s)" else "") ++ tail
  else if 0 < warnings then
    Style.boldYellow.paint r.color ("warning: " ++ toString warnings ++ " warning(s)") ++ tail
  else ""

/-- The report of diagnostics, with a summary. -/
def formatAll (r : Reporter) (ds : List Diagnostic) : Text :=
  let warnings := ds.countP Diagnostic.isWarning
  ds.flatMap r.format ++ Text.ofString (r.summary (ds.length - warnings) warnings)

end Reporter

end FlowTree
