import FlowTree.Data.Basic
import FlowTree.Data.Yaml.Character
import FlowTree.Data.Yaml.Plain

/-!
Data as YAML text in block style. A text is written without quotes where it can be, else in single
quotes, and in double quotes with escapes where it holds what cannot be shown or would be taken for
something other than a text. A text of several lines is a literal block.
-/

namespace FlowTree.Yaml

/-- A blank, a tab or the end follows. -/
def blankNext (rest : List Char) : Bool := rest.head?.all isBlank

/-- The first character of a scalar, given what follows it, would be taken for an indicator. -/
def opensIndicator (c : Char) (rest : List Char) : Bool :=
  "#,[]\x7b\x7d&*!|>'\"%@`".toList.contains c || (c = '?' || c = ':' || c = '-') && blankNext rest

/-- A later part of a scalar would be taken for an indicator: a colon before a blank, or a hash after
one. -/
def holdsIndicator : (before : Char) → List Char → Bool
  | _, [] => false
  | before, c :: rest =>
    c = ':' && blankNext rest || c = '#' && (isBlank before || isBreak before) || holdsIndicator c rest

/-- The text would be taken for something with a structure of its own. -/
def hasIndicator (cs : List Char) : Bool :=
  ['-', '-', '-'].isPrefixOf cs || ['.', '.', '.'].isPrefixOf cs ||
    match cs with
    | [] => false
    | c :: rest => opensIndicator c rest || holdsIndicator c rest

/-- Two neighbours of which the first satisfies `p` and the second `q`. -/
def hasPair (p q : Char → Bool) : List Char → Bool
  | a :: b :: rest => p a && q b || hasPair p q (b :: rest)
  | _ => false

/-- Something in the text shows only as an escape: what cannot be shown, or a blank before the end of a
line. -/
def needsEscape (cs : List Char) : Bool :=
  cs.any (fun c => c ≠ '\t' && !isShown c) || hasPair (· = ' ') isBreak cs

/-- The text may stand without quotes. -/
def plainAllowed (cs : List Char) : Bool :=
  !(hasIndicator cs || needsEscape cs || cs.any (fun c => c = '\t' || isBreak c) ||
    cs.head? = some ' ' || cs.getLast? = some ' ')

/-- The text may stand in single quotes. -/
def singleAllowed (cs : List Char) : Bool :=
  !(needsEscape cs || cs.contains '\t' || hasPair isBreak (· = ' ') cs)

/-- The text may stand as a block of lines. -/
def blockAllowed (cs : List Char) : Bool := !(needsEscape cs || cs.getLast? = some ' ')

def blanks (count : Nat) : List Char := List.replicate count ' '

/-- The lower case of a hexadecimal digit turned to upper case. -/
def hexDigits (count n : Nat) : List Char := (Text.hexDigits count n).map Char.toUpper

/-- One character in double quotes, `always` as an escape or only where it has to be one. -/
def doubleChar (always : Bool) (c : Char) : List Char :=
  match c.toNat with
  | 0x00 => ['\\', '0']
  | 0x07 => ['\\', 'a']
  | 0x08 => ['\\', 'b']
  | 0x09 => ['\\', 't']
  | 0x0A => ['\\', 'n']
  | 0x0B => ['\\', 'v']
  | 0x0C => ['\\', 'f']
  | 0x0D => ['\\', 'r']
  | 0x1B => ['\\', 'e']
  | 0x22 => ['\\', '"']
  | 0x5C => ['\\', '\\']
  | 0x85 => ['\\', 'N']
  | 0x2028 => ['\\', 'L']
  | 0x2029 => ['\\', 'P']
  | n =>
    if isShown c && !always then [c]
    else if n = 0xA0 then ['\\', '_']
    else if n ≤ 0xFF then '\\' :: 'x' :: hexDigits 2 n
    else if n ≤ 0xFFFF then '\\' :: 'u' :: hexDigits 4 n
    else '\\' :: 'U' :: hexDigits 8 n

/-- The text in double quotes. One that starts with a byte order mark is all escapes. -/
def double (cs : List Char) : List Char :=
  '"' :: cs.flatMap (doubleChar (cs.head? = some '\ufeff')) ++ ['"']

/-- The inside of single quotes. What follows the end of a line is indented; `atStart` tells that a line
has just ended. -/
def singleBody (indent : Nat) : (atStart : Bool) → List Char → List Char
  | _, [] => []
  | atStart, c :: rest =>
    if isBreak c then c :: singleBody indent true rest
    else
      (if atStart then blanks indent else []) ++ (if c = '\x27' then [c, c] else [c]) ++
        singleBody indent false rest

/-- The text in single quotes. -/
def single (indent : Nat) (cs : List Char) : List Char :=
  '\x27' :: singleBody indent false cs ++ ['\x27']

/-- The lines of a literal block, each indented. `atStart` tells that a line has just ended. -/
def literalBody (indent : Nat) : (atStart : Bool) → List Char → List Char
  | _, [] => []
  | atStart, c :: rest =>
    if isBreak c then c :: literalBody indent true rest
    else (if atStart then blanks indent else []) ++ c :: literalBody indent false rest

/-- What a literal block says of itself: its indentation where the text starts with a blank or an empty
line, and what becomes of the ends of lines after the text. -/
def literalHints (step : Nat) (cs : List Char) : List Char :=
  (if cs.head?.any (fun c => c = ' ' || isBreak c) then (toString step).toList else []) ++
    match cs.reverse with
    | [] => ['-']
    | [c] => if isBreak c then ['+'] else ['-']
    | c :: before :: _ => if !isBreak c then ['-'] else if isBreak before then ['+'] else []

/-- The text as a literal block. An empty first line is the one that the heading of the block ends. -/
def literal (step indent : Nat) (cs : List Char) : List Char :=
  '|' :: literalHints step cs ++ (if cs.head?.any isBreak then [] else ['\n']) ++ literalBody indent true cs

/-- A text as a scalar whose further lines are indented by `indent`. -/
def scalar (step indent : Nat) (s : String) : List Char :=
  let cs := s.toList
  if cs.contains '\n' then if blockAllowed cs then literal step indent cs else double cs
  else if !isPlainText s then double cs
  else if plainAllowed cs then cs
  else if singleAllowed cs then single indent cs
  else double cs

/-- The text ended as a line, unless an end of a line of any kind is its last character. -/
def ended (cs : List Char) : String :=
  String.ofList (if cs.getLast?.any isBreak then cs else cs ++ ['\n'])

/-- The indentation of what is in a record at `indent`: the next multiple of the step. -/
def deeper (step indent : Nat) : Nat := step * ((indent + step) / step)

/-- The start of a line, unless it has been started already. -/
def lead (started : Bool) (indent : Nat) : String := if started then "" else String.ofList (blanks indent)

mutual

/-- What follows the name of a field or the dash of an item, with further lines indented by `indent`. In
an item, a record or list starts on the line of the dash. -/
def value (step indent : Nat) (inItem : Bool) : Data → String
  | .null => " null\n"
  | .bool b => if b then " true\n" else " false\n"
  | .int n => " " ++ toString n ++ "\n"
  | .str s => " " ++ ended (scalar step indent s)
  | .list [] | .noList => " []\n"
  | .list (d :: ds) => (if inItem then " " else "\n") ++ items step indent inItem (d :: ds)
  | .record [] => " \x7b\x7d\n"
  | .record (f :: fs) => (if inItem then " " else "\n") ++ fields step indent inItem (f :: fs)

/-- The items of a list at `indent`. `started` tells that the line of the first is started. -/
def items (step indent : Nat) (started : Bool) : List Data → String
  | [] => ""
  | d :: ds => lead started indent ++ "-" ++ value step (indent + 2) true d ++ items step indent false ds

/-- The fields of a record at `indent`. `started` tells that the line of the first is started. -/
def fields (step indent : Nat) (started : Bool) : List (String × Data) → String
  | [] => ""
  | (name, d) :: fs =>
    lead started indent ++ name ++ ":" ++ value step (deeper step indent) false d ++
      fields step indent false fs

end

/-- A record as a YAML document with the given step of indentation. -/
def document (step : Nat) : Data → String
  | .record (f :: fs) => fields step 0 false (f :: fs)
  | d => String.ofList ((value step 0 true d).toList.drop 1)

end FlowTree.Yaml
