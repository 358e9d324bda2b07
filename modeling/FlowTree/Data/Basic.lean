/-!
Plain data: what is left of a value once its types are gone. It is the common ground of the formats
that snapshots, settings and editor messages are written in.
-/

namespace FlowTree

/-- A plain value. The fields of a record stand in the order in which they are written. -/
inductive Data where
  | null
  | bool (b : Bool)
  | int (n : Int)
  | str (s : String)
  | list (items : List Data)
  /-- A list that is not there at all, which some formats tell from one without items. -/
  | noList
  | record (fields : List (String × Data))
  deriving Repr, Inhabited

namespace Data

def strings (texts : List String) : Data := .list (texts.map .str)

/-- A list that may not be there. -/
def listOrNone (items? : Option (List Data)) : Data := (items?.map Data.list).getD .noList

/-- A value that may not be there. -/
def orNull {α : Type} (toData : α → Data) (value? : Option α) : Data := (value?.map toData).getD .null

/-- A field that is left out when there is nothing to say. -/
def field? {α : Type} (name : String) (toData : α → Data) (value? : Option α) : List (String × Data) :=
  (value?.map fun a => (name, toData a)).toList

/-- A text that is left out when it is empty. -/
def textField (name text : String) : List (String × Data) :=
  if text = "" then [] else [(name, .str text)]

/-- A number that is left out when it is zero. -/
def intField (name : String) (n : Int) : List (String × Data) :=
  if n = 0 then [] else [(name, .int n)]

/-- A list that is left out when it has no items. -/
def listField (name : String) (items : List Data) : List (String × Data) :=
  if items.isEmpty then [] else [(name, .list items)]

end Data

end FlowTree
