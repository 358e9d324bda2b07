import FlowTree.Data.MessagePack
import FlowTree.Snapshot.Basic

/-!
Reading snapshots back from MessagePack bytes. Fields of unknown names are passed over, and what is
missing has its empty value. What follows the snapshot in the bytes is not looked at.

A field may be given more than once. A text or a number then replaces the one before it, but a list is
filled anew from its front: an item changes only what its own fields say, and items beyond a shorter list
are kept out of sight until the list is that long again. So reading goes through sheets, which are
snapshots with the items that are out of sight.
-/

namespace FlowTree

/-- A list with the items that are out of sight behind its end. -/
structure Sheaf (α : Type) where
  items : List α := []
  hidden : List α := []
  deriving Repr, Inhabited

namespace Sheaf

/-- Every item that there ever was, in sight or not. -/
def all {α : Type} (s : Sheaf α) : List α := s.items ++ s.hidden

/-- Fill the front of a list: each value is read over the item in its place, or over the empty one. -/
def fill? {α : Type} (empty : α) (read : α → Packed → Option α) : (before : List α) → List Packed →
    Option (Sheaf α)
  | before, [] => some ⟨[], before⟩
  | before, p :: ps => do
    let item ← read (before.headD empty) p
    let rest ← fill? empty read before.tail ps
    some ⟨item :: rest.items, rest.hidden⟩

/-- Read a list over the one before it. -/
def read? {α : Type} (empty : α) (read : α → Packed → Option α) (before? : Option (Sheaf α)) (p : Packed) :
    Option (Option (Sheaf α)) := do
  match ← p.items? with
  | none => some none
  | some items => some (some (← fill? empty read ((before?.map all).getD []) items))

end Sheaf

/-- Read a record over the one before it: each known field in turn changes it. A record that is not there,
or a list without values in its place, is the empty one. -/
def Packed.record? {α : Type} (names : List String) (empty : α) (set : α → String → Packed → Option α)
    (before : α) (p : Packed) : Option α := do
  match ← p.fields? names with
  | none => some empty
  | some fields => fields.foldlM (fun a (name, value) => set a name value) before

/-- A list of texts. Where there is none, the texts from before stay. -/
def Packed.texts? (before : Option (List String)) (p : Packed) : Option (Option (List String)) := do
  match ← p.items? with
  | none => some before
  | some items => some (some (← items.mapM Packed.text?))

/-- Read an edge over the one before it. -/
def EdgeSnapshot.read? : EdgeSnapshot → Packed → Option EdgeSnapshot :=
  Packed.record? ["from", "to"] {} fun e name value =>
    match name with
    | "from" => value.text?.map fun source => { e with source }
    | "to" => value.text?.map fun target => { e with target }
    | _ => some e

/-- Read a block over the one before it. -/
def BlockSnapshot.read? : BlockSnapshot → Packed → Option BlockSnapshot :=
  Packed.record? ["name", "line", "reachable", "idom", "successors", "instructions"] {} fun b name value =>
    match name with
    | "name" => value.text?.map fun name => { b with name }
    | "line" => value.int?.map fun line => { b with line }
    | "reachable" => value.bool?.map fun reachable => { b with reachable }
    | "idom" => value.text?.map fun dominator => { b with dominator }
    | "successors" =>
      (value.texts? (some b.successors)).map fun texts? => { b with successors := texts?.getD [] }
    | "instructions" => (value.texts? b.instructions?).map fun instructions? => { b with instructions? }
    | _ => some b

/-! ### Trees -/

/-- A tree with the children that are out of sight. -/
inductive NodeSheet where
  | absent
  | node (kind : String) (depth : Int) (block : String) (children hidden : List NodeSheet)
  deriving Repr, Inhabited

namespace NodeSheet

mutual

/-- The tree without what is out of sight. -/
def snapshot : NodeSheet → NodeSnapshot
  | .absent => .absent
  | .node kind depth block children _ => .node kind depth block (snapshotAll children)

/-- The trees without what is out of sight. -/
def snapshotAll : List NodeSheet → List NodeSnapshot
  | [] => []
  | n :: ns => snapshot n :: snapshotAll ns

end

/-- The parts of a node: its kind, its depth, its block and its children. -/
structure Parts where
  kind : String := ""
  depth : Int := 0
  block : String := ""
  children? : Option (Sheaf NodeSheet) := none

/-- The parts of a node; a place without one has the empty parts. -/
def parts : NodeSheet → Parts
  | .absent => {}
  | .node kind depth block children hidden => ⟨kind, depth, block, some ⟨children, hidden⟩⟩

def ofParts (p : Parts) : NodeSheet :=
  let children := p.children?.getD {}
  .node p.kind p.depth p.block children.items children.hidden

/-- Read a tree over the one before it, nested at most `level` deep. -/
def read? : (level : Nat) → NodeSheet → Packed → Option NodeSheet
  | _, _, .null => some .absent
  | 0, _, _ => none
  | level + 1, before, p =>
    (p.record? ["kind", "depth", "block", "children"] {} (fun (n : Parts) name value =>
      match name with
      | "kind" => value.text?.map fun kind => { n with kind }
      | "depth" => value.int?.map fun depth => { n with depth }
      | "block" => value.text?.map fun block => { n with block }
      | "children" =>
        (Sheaf.read? .absent (NodeSheet.read? level) n.children? value).map fun children? =>
          { n with children? }
      | _ => some n) before.parts).map ofParts

end NodeSheet

/-! ### Functions and modules -/

/-- A function with what is out of sight. -/
structure FunctionSheet where
  name : String := ""
  blocks? : Option (Sheaf BlockSnapshot) := none
  edges? : Option (Sheaf EdgeSnapshot) := none
  tree : NodeSheet := .absent
  error : String := ""

namespace FunctionSheet

/-- The function without what is out of sight. -/
def snapshot (f : FunctionSheet) : FunctionSnapshot where
  name := f.name
  blocks := (f.blocks?.map Sheaf.items).getD []
  edges := (f.edges?.map Sheaf.items).getD []
  tree := f.tree.snapshot
  error := f.error

/-- Read a function over the one before it. Its tree is nested at most `level` deep. -/
def read? (level : Nat) : FunctionSheet → Packed → Option FunctionSheet :=
  Packed.record? ["name", "blocks", "edges", "tree", "error"] {} fun f name value =>
    match name with
    | "name" => value.text?.map fun name => { f with name }
    | "blocks" => (Sheaf.read? {} BlockSnapshot.read? f.blocks? value).map fun blocks? => { f with blocks? }
    | "edges" => (Sheaf.read? {} EdgeSnapshot.read? f.edges? value).map fun edges? => { f with edges? }
    | "tree" => (NodeSheet.read? level f.tree value).map fun tree => { f with tree }
    | "error" => value.text?.map fun error => { f with error }
    | _ => some f

end FunctionSheet

/-- A module with what is out of sight. -/
structure ModuleSheet where
  source : String := ""
  functions? : Option (Sheaf FunctionSheet) := none

namespace ModuleSheet

/-- The module without what is out of sight. -/
def snapshot (m : ModuleSheet) : ModuleSnapshot :=
  ⟨m.source, m.functions?.map fun fs => fs.items.map FunctionSheet.snapshot⟩

/-- Read a module over the one before it. Its trees are nested at most `level` deep. -/
def read? (level : Nat) : ModuleSheet → Packed → Option ModuleSheet :=
  Packed.record? ["source", "functions"] {} fun m name value =>
    match name with
    | "source" => value.text?.map fun source => { m with source }
    | "functions" =>
      (Sheaf.read? {} (FunctionSheet.read? level) m.functions? value).map fun functions? =>
        { m with functions? }
    | _ => some m

end ModuleSheet

/-- The snapshot at the front of the bytes. A tree is nested no deeper than there are bytes. -/
def ModuleSnapshot.unpack? (bytes : List UInt8) : Option ModuleSnapshot := do
  (ModuleSheet.read? bytes.length {} (← Packed.read? bytes)).map ModuleSheet.snapshot

end FlowTree
