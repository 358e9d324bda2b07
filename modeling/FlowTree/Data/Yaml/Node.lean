import FlowTree.Data.Yaml.TokenStream

/-!
The values of YAML texts, and how they are read from tokens: scalars, sequences and mappings in block
style and in brackets, with anchors, aliases and tags. Only the first document of a text is read, and
what follows its value is looked at only as far as tokens are read ahead.
-/

namespace FlowTree.Yaml

/-- What decides how a scalar is to be taken. -/
inductive ScalarKind where
  /-- What the scalar looks like. -/
  | plain
  /-- It is a text. -/
  | text
  /-- A tag that says something else. -/
  | tagged (tag : String)
  deriving DecidableEq, Repr

/-- A value of a YAML text. -/
inductive Node where
  | scalar (kind : ScalarKind) (text : String)
  | sequence (items : List Node)
  | mapping (entries : List (Node × Node))
  /-- The value that an anchor stands at, `none` for one that the alias is a part of. -/
  | reference (name : String) (target? : Option Node)
  deriving Repr, Inhabited

/-- The value that is not written at all. -/
def Node.empty : Node := .scalar .plain ""

/-- The key under which a mapping takes in others. -/
def mergeKey : String := "<<"

/-- The common stem of the tags that have a meaning, and the short form of it. -/
def tagStem : String := "tag:yaml.org,2002:"
def shortStem : String := "!!"

/-- The tag of texts and the tag of merge keys. -/
def textTag : String := "!!str"
def mergeTag : String := "!!merge"

/-- A tag in its short form, if it has one. -/
def shortTag (tag : String) : String :=
  if tagStem.toList.isPrefixOf tag.toList then shortStem ++ String.ofList (tag.toList.drop tagStem.length)
  else tag

/-- A scalar with the tag that is given to it. The tag that is only an exclamation mark says nothing. -/
def Node.ofScalar (tag? : Option String) (plain : Bool) (text : String) : Node :=
  let untagged : ScalarKind :=
    if !plain then .text else if text = mergeKey then .tagged mergeTag else .plain
  match tag?.map shortTag with
  | none | some "!" => .scalar untagged text
  | some tag => .scalar (if tag = textTag then .text else .tagged tag) text

/-! ### Reading -/

/-- A document that is being read. -/
structure Reading where
  tokens : TokenStream
  /-- What the handles of tags stand for. -/
  handles : List (String × String) := []
  /-- The anchors so far with their values, `none` for one that is being read. -/
  anchors : List (String × Option Node) := []

/-- A step of reading, which may fail. -/
abbrev Reader (α : Type) : Type := StateT Reading Option α

namespace Reader

/-- The token that is next. -/
def peek : Reader Token := do
  let r ← get
  let (token, tokens) ← r.tokens.peek?
  set { r with tokens }
  return token

/-- Take the token that is next. -/
def drop : Reader Unit := modify fun r => { r with tokens := r.tokens.drop }

/-- Take the token that is next, and tell the one behind it. -/
def dropPeek : Reader Token := do
  drop
  peek

/-- The value of an alias. -/
def reference (name : String) : Reader Node := do
  match (← get).anchors.reverse.lookup name with
  | none => failure
  | some target? => return .reference name target?

/-- Read a value and keep it for aliases, if there is an anchor. -/
def anchored (anchor? : Option String) (read : Reader Node) : Reader Node :=
  match anchor? with
  | none => read
  | some name => do
    let place := (← get).anchors.length
    modify fun r => { r with anchors := r.anchors ++ [(name, none)] }
    let node ← read
    modify fun r => { r with anchors := r.anchors.set place (name, some node) }
    return node

def fullTag (handle suffix : String) : Reader String := do
  if handle = "" then return suffix
  match (← get).handles.lookup handle with
  | none => failure
  | some stem => return stem ++ suffix

/-- Read the anchor and the tag of a value, in either order. -/
def properties : Reader (Option String × Option String) := do
  match ← peek with
  | .anchor name =>
    match ← dropPeek with
    | .tag handle suffix =>
      drop
      return (some name, some (← fullTag handle suffix))
    | _ => return (some name, none)
  | .tag handle suffix =>
    match ← dropPeek with
    | .anchor name =>
      drop
      return (some name, some (← fullTag handle suffix))
    | _ => return (none, some (← fullTag handle suffix))
  | _ => return (none, none)

mutual

/-- Read a value. Blocks may stand only where `block` says so, and the items of a sequence without a start
of its own only where `unindented` does. -/
def node : (fuel : Nat) → (block unindented : Bool) → Reader Node
  | 0, _, _ => failure
  | fuel + 1, block, unindented => do
    match ← peek with
    | .reference name =>
      drop
      reference name
    | _ =>
      let (anchor?, tag?) ← properties
      anchored anchor? do
        match ← peek with
        | .scalar plain text =>
          drop
          return .ofScalar tag? plain text
        | .flowSequenceStart =>
          drop
          flowItems fuel true []
        | .flowMappingStart =>
          drop
          flowEntries fuel true []
        | token =>
          if token = .blockEntry && unindented then unindentedItems fuel []
          else if token = .blockSequenceStart && block then
            drop
            blockItems fuel []
          else if token = .blockMappingStart && block then
            drop
            blockEntries fuel []
          else if anchor?.isSome || tag?.isSome then return .ofScalar tag? true ""
          else failure

/-- Read a value, or the empty one before any of the given tokens. -/
def nodeUnless : (fuel : Nat) → (ends : List Token) → (block unindented : Bool) → Reader Node
  | 0, _, _, _ => failure
  | fuel + 1, ends, block, unindented => do
    if ends.contains (← peek) then return .empty else node fuel block unindented

/-- Read the items of a sequence in block style. -/
def blockItems : (fuel : Nat) → (items : List Node) → Reader Node
  | 0, _ => failure
  | fuel + 1, items => do
    match ← peek with
    | .blockEntry =>
      drop
      let item ← nodeUnless fuel [.blockEntry, .blockEnd] true false
      blockItems fuel (items ++ [item])
    | .blockEnd =>
      drop
      return .sequence items
    | _ => failure

/-- Read the items of a sequence that stands at the column of the mapping it is in. -/
def unindentedItems : (fuel : Nat) → (items : List Node) → Reader Node
  | 0, _ => failure
  | fuel + 1, items => do
    match ← peek with
    | .blockEntry =>
      drop
      let item ← nodeUnless fuel [.blockEntry, .key, .value, .blockEnd] true false
      unindentedItems fuel (items ++ [item])
    | _ => return .sequence items

/-- Read the entries of a mapping in block style. A key may be without a value. -/
def blockEntries : (fuel : Nat) → (entries : List (Node × Node)) → Reader Node
  | 0, _ => failure
  | fuel + 1, entries => do
    match ← peek with
    | .key =>
      drop
      let key ← nodeUnless fuel [.key, .value, .blockEnd] true true
      let value ←
        if (← peek) = .value then
          drop
          nodeUnless fuel [.key, .value, .blockEnd] true true
        else pure .empty
      blockEntries fuel (entries ++ [(key, value)])
    | .blockEnd =>
      drop
      return .mapping entries
    | _ => failure

/-- Read the items of a sequence in brackets. An item that is marked as a key is a mapping of one entry. -/
def flowItems : (fuel : Nat) → (first : Bool) → (items : List Node) → Reader Node
  | 0, _, _ => failure
  | fuel + 1, first, items => do
    let token ← peek
    if token = .flowSequenceEnd then
      drop
      return .sequence items
    let token ←
      if first then pure token
      else if token = .flowEntry then dropPeek
      else failure
    match token with
    | .flowSequenceEnd =>
      drop
      return .sequence items
    | .key =>
      drop
      let entry ← flowPair fuel
      flowItems fuel false (items ++ [.mapping [entry]])
    | _ =>
      let item ← node fuel false false
      flowItems fuel false (items ++ [item])

/-- Read the one entry of a mapping that is an item. Where there is no key, the token in its place is
taken all the same. -/
def flowPair : (fuel : Nat) → Reader (Node × Node)
  | 0 => failure
  | fuel + 1 => do
    let key ←
      if [.value, .flowEntry, .flowSequenceEnd].contains (← peek) then
        drop
        pure .empty
      else node fuel false false
    if (← peek) = .value then
      drop
      return (key, ← nodeUnless fuel [.flowEntry, .flowSequenceEnd] false false)
    else return (key, .empty)

/-- Read the entries of a mapping in brackets. What is not marked as a key has no value. -/
def flowEntries : (fuel : Nat) → (first : Bool) → (entries : List (Node × Node)) → Reader Node
  | 0, _, _ => failure
  | fuel + 1, first, entries => do
    let token ← peek
    if token = .flowMappingEnd then
      drop
      return .mapping entries
    let token ←
      if first then pure token
      else if token = .flowEntry then dropPeek
      else failure
    match token with
    | .flowMappingEnd =>
      drop
      return .mapping entries
    | .key =>
      drop
      let key ← nodeUnless fuel [.value, .flowEntry, .flowMappingEnd] false false
      let value ←
        if (← peek) = .value then
          drop
          nodeUnless fuel [.flowEntry, .flowMappingEnd] false false
        else pure .empty
      flowEntries fuel false (entries ++ [(key, value)])
    | _ =>
      let key ← node fuel false false
      let _ ← peek
      flowEntries fuel false (entries ++ [(key, .empty)])

end

/-! ### Documents -/

/-- The handles that need no directive. -/
def builtInHandles : List (String × String) := [("!", "!"), (shortStem, tagStem)]

/-- Read the directives before a document. There is at most one version, which is 1.1, and no handle is
given twice. -/
def directives : (fuel : Nat) → (versioned : Bool) → Reader Unit
  | 0, _ => failure
  | fuel + 1, versioned => do
    match ← peek with
    | .version major minor =>
      if versioned || major ≠ 1 || minor ≠ 1 then failure
      drop
      directives fuel true
    | .tagHandle handle stem =>
      if ((← get).handles.lookup handle).isSome then failure
      modify fun r => { r with handles := r.handles ++ [(handle, stem)] }
      drop
      directives fuel versioned
    | _ => modify fun r => { r with handles := r.handles ++ builtInHandles }

/-- The token stands before a document or at its start. -/
def opensDocument : Token → Bool
  | .version .. | .tagHandle .. | .documentStart => true
  | _ => false

/-- The token stands behind a document. -/
def endsDocument (token : Token) : Bool :=
  opensDocument token || token = .documentEnd || token = .streamEnd

/-- Read the first document, if there is one. Directives need the mark that starts a document. -/
def document (fuel : Nat) : Reader (Option Node) := do
  let first ← peek
  if first = .streamEnd then return none
  directives fuel false
  if opensDocument first then
    if (← peek) ≠ .documentStart then failure
    if endsDocument (← dropPeek) then return some .empty
  let root ← node fuel true false
  let _ ← peek
  return some root

end Reader

/-- The value of the first document of a text, if there is any document. Every character gives at most
three tokens, so their number bounds the steps. -/
def read? (text : String) : Option (Option Node) := do
  let tokens ← TokenStream.ofText? text
  (Reader.document (8 * text.length + 16)).run' { tokens }

end FlowTree.Yaml
