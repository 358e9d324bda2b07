import FlowTree.Tree.Walk

/-!
Trees in text: on one line, with the children of a node in brackets, and as an outline with one line a
node or block.
-/

namespace FlowTree

namespace Region

mutual

/-- The region on one line. -/
def format (name : BlockId → String) : Region → String
  | .block b => name b
  | .node _ kind _ _ children => kind.name ++ "[" ++ formatAll name children ++ "]"

/-- Regions on one line, with commas between them. -/
def formatAll (name : BlockId → String) : List Region → String
  | [] => ""
  | [r] => format name r
  | r :: rs => format name r ++ ", " ++ formatAll name rs

end

/-- What an outline shows beside kinds and block names. -/
structure OutlineOptions where
  /-- The depth of each node. -/
  depth : Bool := false
  /-- The instructions of each block. -/
  instructions : Bool := false

/-- A line at the given level of indentation. -/
def indented (level : Nat) (line : String) : String :=
  String.ofList (List.replicate (2 * level) ' ') ++ line ++ "\n"

mutual

/-- The lines of a region, from the given level of indentation. -/
def outline (g : FlowGraph) (options : OutlineOptions) (level : Nat) : Region → String
  | .block b =>
    indented level ("%" ++ g.blockName b) ++
      if options.instructions then
        String.join ((((g.block? b).map (·.instructions)).getD []).map fun i =>
          indented (level + 1) (g.function.render i))
      else ""
  | .node _ kind depth _ children =>
    indented level (kind.name ++ if options.depth then " (depth " ++ toString depth ++ ")" else "") ++
      outlineAll g options (level + 1) children

/-- The lines of regions, from the given level of indentation. -/
def outlineAll (g : FlowGraph) (options : OutlineOptions) (level : Nat) : List Region → String
  | [] => ""
  | r :: rs => outline g options level r ++ outlineAll g options level rs

end

end Region

namespace Tree

/-- The tree on one line, such as `Root[If[start, IfPart[then]], merge]`. -/
def format (t : Tree) : String := t.region.format t.graph.blockName

def outline (t : Tree) (options : Region.OutlineOptions) : String :=
  t.region.outline t.graph options 0

end Tree

end FlowTree
