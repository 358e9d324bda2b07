import FlowTree.Data.Json
import FlowTree.Data.MessagePack
import FlowTree.Data.Yaml.Writer
import FlowTree.Snapshot.Basic
import FlowTree.Text.Quoted

/-!
Output formats. Three of them write snapshots; text is the business of the printers.
-/

namespace FlowTree

/-- A format of the output. -/
inductive Format where
  | text
  | json
  | yaml
  | msgpack
  deriving DecidableEq, Repr

namespace Format

def name : Format → String
  | .text => "text"
  | .json => "json"
  | .yaml => "yaml"
  | .msgpack => "msgpack"

def all : List Format := [.text, .json, .yaml, .msgpack]

def ofName? (name : String) : Option Format := all.find? (·.name = name)

/-- What is said of a name that no format has. -/
def unknownMessage (name : String) : String :=
  "unknown format " ++ Text.quoteString name ++ " (must be text, json, yaml or msgpack)"

/-- What is said of a format that writes no snapshots. -/
def unstructuredMessage (f : Format) : String :=
  "format " ++ Text.quoteString f.name ++ " is not a structured encoding"

/-- The bytes of a snapshot in a format, `none` for text. -/
def encode? (f : Format) (m : ModuleSnapshot) : Option (List UInt8) :=
  match f with
  | .text => none
  | .json => some m.toData.json.toUTF8.toList
  | .yaml => some (Yaml.document 2 m.toData).toUTF8.toList
  | .msgpack => some m.toData.pack

end Format

end FlowTree
