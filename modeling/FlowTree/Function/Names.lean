import FlowTree.Instruction.Basic
import FlowTree.Text.Integer

/-!
The names of a function's ids. A name is bound once, to an id that no other name has: a decimal
numeral gets its own number while that is free, any other name the next free one. Ids are 32-bit
words, so counting goes on at zero after the greatest.
-/

namespace FlowTree

/-- Names bound to ids, in the order of binding. -/
structure NameTable where
  entries : List (String × Id) := []
  deriving DecidableEq, Repr, Inhabited

namespace NameTable

def id? (t : NameTable) (name : String) : Option Id := (t.entries.find? (·.1 = name)).map (·.2)

def name? (t : NameTable) (id : Id) : Option String := (t.entries.find? (·.2 = id)).map (·.1)

def isTaken (t : NameTable) (id : Id) : Bool := t.entries.any (·.2 = id)

def bind (t : NameTable) (name : String) (id : Id) : NameTable := ⟨t.entries ++ [(name, id)]⟩

/-- The first free id at or after the given one, of at most `tries + 1` that are looked at. -/
def freeFrom (t : NameTable) : (tries : Nat) → Id → Id
  | 0, id => id
  | tries + 1, id => if t.isTaken id then t.freeFrom tries (id + 1) else id

/-- The name of an id, or its number when it has none. -/
def nameOf (t : NameTable) (id : Id) : String := (t.name? id).getD (toString id.toNat)

/-- The bindings in ascending order of ids. -/
def byId (t : NameTable) : List (Id × String) :=
  (t.entries.map fun (name, id) => (id, name)).mergeSort fun a b => a.1 ≤ b.1

end NameTable

/-- A name table with the id that is tried next for a name that is no free number. -/
structure Naming where
  table : NameTable := {}
  next : Id := 1
  deriving DecidableEq, Repr, Inhabited

namespace Naming

/-- A name without the percent sign it may start with. -/
def bare (name : String) : String :=
  match name.toList with
  | '%' :: rest => String.ofList rest
  | _ => name

/-- The id that the search for a free one starts at. -/
def wanted (n : Naming) (name : String) : Id :=
  match Text.numeral? UInt32.size name with
  | some number =>
    if 0 < number && !n.table.isTaken (UInt32.ofNat number) then UInt32.ofNat number else n.next
  | none => n.next

/-- The id of a name, which is bound to a free one on first use. There are more candidates than names,
so the search ends at a free id as long as one is left. -/
def resolve (n : Naming) (name : String) : Id × Naming :=
  let name := bare name
  match n.table.id? name with
  | some id => (id, n)
  | none =>
    let id := n.table.freeFrom n.table.entries.length (n.wanted name)
    -- The id to try next only grows, but the one after the greatest word is zero.
    (id, ⟨n.table.bind name id, if n.next ≤ id then id + 1 else n.next⟩)

/-- The ids of names, resolved from the left. -/
def resolveAll (n : Naming) : List String → List Id × Naming
  | [] => ([], n)
  | name :: rest =>
    let (id, n) := n.resolve name
    let (ids, n) := n.resolveAll rest
    (id :: ids, n)

end Naming

end FlowTree
