import FlowTree.Data.Basic
import FlowTree.Text.Digits

/-!
Data as JSON text: one item or field a line, two blanks deeper than the list or record it is in. Text
is escaped so that it can stand in a web page: angle brackets and ampersands are written by number.
-/

namespace FlowTree.Data

/-- One character as it stands in a JSON string. -/
def jsonChar (c : Char) : List Char :=
  match c.toNat with
  | 0x08 => ['\\', 'b']
  | 0x09 => ['\\', 't']
  | 0x0A => ['\\', 'n']
  | 0x0C => ['\\', 'f']
  | 0x0D => ['\\', 'r']
  | n =>
    if c = '"' || c = '\\' then ['\\', c]
    else if n < 0x20 || c = '<' || c = '>' || c = '&' || n = 0x2028 || n = 0x2029 then
      '\\' :: 'u' :: Text.hexDigits 4 n
    else [c]

def jsonString (s : String) : String := String.ofList ('"' :: s.toList.flatMap jsonChar ++ ['"'])

/-- The start of a line at the given level of indentation. -/
def jsonLine (level : Nat) : String := "\n" ++ String.ofList (List.replicate (2 * level) ' ')

mutual

/-- The value at the given level of indentation. -/
def jsonAt (level : Nat) : Data → String
  | .null | .noList => "null"
  | .bool b => if b then "true" else "false"
  | .int n => toString n
  | .str s => jsonString s
  | .list [] => "[]"
  | .list (d :: ds) => "[" ++ jsonItems (level + 1) (d :: ds) ++ jsonLine level ++ "]"
  | .record [] => "\x7b\x7d"
  | .record (f :: fs) => "\x7b" ++ jsonFields (level + 1) (f :: fs) ++ jsonLine level ++ "\x7d"

/-- The items of a list, a comma after each but the last. -/
def jsonItems (level : Nat) : List Data → String
  | [] => ""
  | [d] => jsonLine level ++ jsonAt level d
  | d :: ds => jsonLine level ++ jsonAt level d ++ "," ++ jsonItems level ds

/-- The fields of a record, a comma after each but the last. -/
def jsonFields (level : Nat) : List (String × Data) → String
  | [] => ""
  | [(name, d)] => jsonLine level ++ jsonString name ++ ": " ++ jsonAt level d
  | (name, d) :: fs => jsonLine level ++ jsonString name ++ ": " ++ jsonAt level d ++ "," ++ jsonFields level fs

end

/-- The value as a JSON text of whole lines. -/
def json (d : Data) : String := jsonAt 0 d ++ "\n"

end FlowTree.Data
