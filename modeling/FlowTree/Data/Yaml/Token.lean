import FlowTree.Data.Yaml.Cursor
import FlowTree.Text.Digits

/-!
The tokens of a YAML text, and the reading of those that have a spelling of their own: anchors, aliases,
tags and directives.
-/

namespace FlowTree.Yaml

/-- A token. The starts and ends of blocks are not written but follow from indentation. -/
inductive Token where
  | streamEnd
  /-- The version of YAML that the text is written in. -/
  | version (major minor : Nat)
  /-- What a handle at the front of a tag stands for. -/
  | tagHandle (handle stem : String)
  | documentStart
  | documentEnd
  | blockSequenceStart
  | blockMappingStart
  | blockEnd
  | flowSequenceStart
  | flowSequenceEnd
  | flowMappingStart
  | flowMappingEnd
  | blockEntry
  | flowEntry
  | key
  | value
  | reference (name : String)
  | anchor (name : String)
  /-- A tag, with an empty handle if it is given in full. -/
  | tag (handle suffix : String)
  | scalar (plain : Bool) (text : String)
  deriving DecidableEq, Repr, Inhabited

namespace Token

/-! ### Anchors and aliases -/

/-- Read the name of an anchor or an alias, from the character before it. -/
def name? (c : Cursor) : Option (String × Cursor) :=
  let start := c.next
  let name := start.word isNameChar
  let after := start.advance name.length
  if !name.isEmpty && after.rest.head?.all (fun a => isSpace a || "?:,]\x7d%@`".toList.contains a) then
    some (String.ofList name, after)
  else none

/-! ### Tags -/

/-- The number of bytes of the character that starts with the given byte. -/
def leadWidth? (lead : Nat) : Option Nat :=
  if lead < 0x80 then some 1
  else if 0xC0 ≤ lead && lead < 0xE0 then some 2
  else if 0xE0 ≤ lead && lead < 0xF0 then some 3
  else if 0xF0 ≤ lead && lead < 0xF8 then some 4
  else none

/-- Read a byte that is written as a percent sign and two digits. -/
def octet? (c : Cursor) : Option (Nat × Cursor) :=
  match c.rest with
  | '%' :: a :: b :: _ => (Text.ofDigits? 16 [a, b]).map (·, c.advance 3)
  | _ => none

/-- Read `count` bytes that go on with a character. -/
def trailingOctets? : (count : Nat) → Cursor → Option (List Nat × Cursor)
  | 0, c => some ([], c)
  | count + 1, c => do
    let (octet, c) ← octet? c
    if 0x80 ≤ octet && octet < 0xC0 then
      let (octets, c) ← trailingOctets? count c
      some (octet :: octets, c)
    else none

/-- Read the bytes of one character. -/
def octets? (c : Cursor) : Option (List Nat × Cursor) := do
  let (lead, c) ← octet? c
  let width ← leadWidth? lead
  let (octets, c) ← trailingOctets? (width - 1) c
  some (lead :: octets, c)

/-- Read the characters of a tag, having read `text`. A byte beyond ASCII takes the place of a character
of its own: no tag that has a meaning holds one. -/
def tagText? : (fuel : Nat) → (text : List Char) → Cursor → Option (List Char × Cursor)
  | 0, _, _ => none
  | fuel + 1, text, c =>
    match c.rest with
    | [] => some (text, c)
    | a :: _ =>
      if a = '%' then do
        let (octets, c) ← octets? c
        tagText? fuel (text ++ octets.map Char.ofNat) c
      else if isTagChar a then tagText? fuel (text ++ [a]) c.next
      else some (text, c)

/-- Read the characters of a tag behind `text`. There is at least one, unless `mayBeEmpty`. -/
def uri? (mayBeEmpty : Bool) (text : List Char) (c : Cursor) : Option (List Char × Cursor) := do
  let (text, after) ← tagText? (c.rest.length + 1) text c
  if mayBeEmpty || after.rest.length < c.rest.length then some (text, after) else none

/-- Read the handle of a tag: a name between exclamation marks, or only the first of them with what may be
a name. -/
def handle? (c : Cursor) : Option (List Char × Cursor) :=
  if c.at? '!' then
    let name := c.next.word isNameChar
    let after := c.next.advance name.length
    if after.at? '!' then some ('!' :: name ++ ['!'], after.next) else some ('!' :: name, after)
  else none

/-- Read a tag: in full between angle brackets, behind a handle, or behind an exclamation mark, which
may also stand alone. -/
def tag? (c : Cursor) : Option (Token × Cursor) := do
  let (token, after) ←
    if c.next.at? '<' then
      let (text, after) ← uri? false [] (c.advance 2)
      if after.at? '>' then some (Token.tag "" (String.ofList text), after.next) else none
    else
      let (handle, after) ← handle? c
      if 1 < handle.length && handle.getLast? = some '!' then
        let (suffix, after) ← uri? false [] after
        some (Token.tag (String.ofList handle) (String.ofList suffix), after)
      else
        let (suffix, after) ← uri? true handle.tail after
        if suffix.isEmpty then some (Token.tag "" "!", after)
        else some (Token.tag "!" (String.ofList suffix), after)
  if endsWord after.rest then some (token, after) else none

/-! ### Directives -/

/-- Read a number of at most two digits. -/
def versionNumber? (c : Cursor) : Option (Nat × Cursor) :=
  let digits := c.word Char.isDigit
  if 0 < digits.length && digits.length ≤ 2 then
    (Text.ofDigits? 10 digits).map (·, c.advance digits.length)
  else none

/-- Read a version, such as `1.1`. -/
def version? (c : Cursor) : Option (Token × Cursor) := do
  let (major, after) ← versionNumber? (c.skipWhile isBlank)
  if !after.at? '.' then none
  let (minor, after) ← versionNumber? after.next
  some (.version major minor, after)

/-- Read a handle and what it stands for. -/
def tagHandle? (c : Cursor) : Option (Token × Cursor) := do
  let (handle, after) ← handle? (c.skipWhile isBlank)
  if 1 < handle.length && handle.getLast? ≠ some '!' then none
  if !after.rest.head?.any isBlank then none
  let (stem, after) ← uri? false [] (after.skipWhile isBlank)
  if endsWord after.rest then some (.tagHandle (String.ofList handle) (String.ofList stem), after)
  else none

/-- Read a directive from its percent sign to the end of its line. -/
def directive? (c : Cursor) : Option (Token × Cursor) := do
  let name := c.next.word isNameChar
  let after := c.next.advance name.length
  if name.isEmpty || !endsWord after.rest then none
  let (token, after) ←
    match String.ofList name with
    | "YAML" => version? after
    | "TAG" => tagHandle? after
    | _ => none
  let after := after.skipWhile isBlank
  let after := if after.at? '#' then after.skipLine else after
  if after.atLineEnd then some (token, after.next) else none

end Token

end FlowTree.Yaml
