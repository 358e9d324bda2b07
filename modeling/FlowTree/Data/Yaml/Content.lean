import FlowTree.Data.Base64
import FlowTree.Data.Yaml.Node
import FlowTree.Data.Yaml.Plain

/-!
What the values of YAML texts hold: the text, the number or the truth value of a scalar, and the fields
of a mapping, with those of the mappings that it takes in.
-/

namespace FlowTree.Yaml

/-- What a scalar holds: its meaning, and its text, which stands for it where a text is wanted. -/
structure Content where
  meaning : Meaning
  text : String
  deriving Repr

namespace Content

/-- The number with a fraction that a meaning is, or that an integer of 64 bits is near to. -/
def real? : Meaning → Option Real
  | .real x => some x
  | .int n =>
    if n < Text.signedLimit then
      (Decimal.double? ⟨n < 0, n.natAbs, 0⟩).map fun magnitude => .finite (n < 0) magnitude
    else none
  | _ => none

/-- The content of a scalar with a tag. A tag of a kind of scalars fits only scalars of that kind, binary
data is spelled out, and a tag of any other kind makes a text. -/
def ofTagged? (tag text : String) : Option Content :=
  let fitting (meaning : Meaning) (fits : Bool) : Option Content :=
    if fits then some ⟨meaning, text⟩ else none
  match tag, Yaml.meaning text with
  | "!!null", m => fitting m (m = .null)
  | "!!bool", m => fitting m (m = .bool true || m = .bool false)
  | "!!int", .int n => some ⟨.int n, text⟩
  | "!!int", _ => none
  | "!!float", m => (real? m).map fun x => ⟨.real x, text⟩
  | "!!timestamp", m => fitting m (m = .timestamp)
  | "!!binary", _ => (Base64.decode? text).map fun bytes => ⟨.text, Text.shown (Glyph.read bytes)⟩
  | _, _ => some ⟨.text, text⟩

end Content

namespace Node

/-- What a scalar holds, directly or through an alias. -/
def content? : Node → Option Content
  | .scalar .plain text => some ⟨meaning text, text⟩
  | .scalar .text text => some ⟨.text, text⟩
  | .scalar (.tagged tag) text => Content.ofTagged? tag text
  | .reference _ (some target) => target.content?
  | _ => none

/-- The text of a field that had the text `before`: any scalar will do, and null changes nothing. -/
def textOver? (before : String) (n : Node) : Option String := do
  let content ← n.content?
  some (if content.meaning = .null then before else content.text)

/-- The integer of a field that had the value `before`. A fraction is cut off. -/
def intOver? (before : Int) (n : Node) : Option Int := do
  match (← n.content?).meaning with
  | .null => some before
  | .int n => if n < Text.signedLimit then some n else none
  | .real x => x.toInt?
  | _ => none

/-- The truth value of a field that had the value `before`. The words of the older rules will do. -/
def boolOver? (before : Bool) (n : Node) : Option Bool := do
  let content ← n.content?
  match content.meaning with
  | .null => some before
  | .bool b => some b
  | .text => oldTruthValues.lookup content.text
  | _ => none

/-! ### Mappings -/

/-- The two keys are the same scalar, aliases of the same name, or collections of one kind. -/
def sameKey : Node → Node → Bool
  | .scalar _ a, .scalar _ b => a = b
  | .sequence _, .sequence _ => true
  | .mapping _, .mapping _ => true
  | .reference a _, .reference b _ => a = b
  | _, _ => false

/-- No key stands twice. -/
def distinctKeys : List (Node × Node) → Bool
  | [] => true
  | (key, _) :: more => !more.any (fun (other, _) => key.sameKey other) && distinctKeys more

/-- The key takes in other mappings. -/
def isMerge : Node → Bool
  | .scalar (.tagged tag) text => tag = mergeTag && text = mergeKey
  | _ => false

/-- The fields that the entries of a mapping give by name. A key that is null gives none. -/
def named? : List (Node × Node) → Option (List (String × Node))
  | [] => some []
  | (key, value) :: more => do
    let rest ← named? more
    if key.isMerge then some rest
    else
      let name ← key.content?
      some (if name.meaning = .null then rest else (name.text, value) :: rest)

mutual

/-- All fields of a mapping by name: its own, then those of the mappings that it takes in. -/
def allFields? : Node → Option (List (String × Node))
  | .mapping entries =>
    if distinctKeys entries then do some ((← named? entries) ++ (← takenIn? entries)) else none
  | .reference _ (some target) => target.allFields?
  | _ => none

/-- The fields that a mapping with the given entries takes in, from one mapping or from a list of them. -/
def takenIn? : List (Node × Node) → Option (List (String × Node))
  | [] => some []
  | (key, .sequence items) :: more => if key.isMerge then fieldsOfAll? items else takenIn? more
  | (key, value) :: more => if key.isMerge then value.allFields? else takenIn? more

/-- The fields of all the mappings. -/
def fieldsOfAll? : List Node → Option (List (String × Node))
  | [] => some []
  | n :: ns => do some ((← n.allFields?) ++ (← fieldsOfAll? ns))

end

end Node

end FlowTree.Yaml
