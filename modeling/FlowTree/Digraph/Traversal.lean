/-!
Directed graphs and their depth-first traversal. The traversal keeps a stack of vertices with the
successors that are still to be looked at, and reports when it enters and when it leaves a vertex;
the vertices in the order they are left are the postorder.
-/

namespace FlowTree

/-- A directed graph on the vertices `0, 1, …`, given by lists of successors. -/
structure Digraph where
  succs : Array (List Nat)
  deriving DecidableEq, Repr, Inhabited

namespace Digraph

/-- The number of vertices. -/
def size (g : Digraph) : Nat := g.succs.size

/-- The successors of a vertex. -/
def successors (g : Digraph) (v : Nat) : List Nat := g.succs[v]?.getD []

/-- The sources of the edges to a vertex, in the order of the sources and with repeats. -/
def predecessors (g : Digraph) (v : Nat) : List Nat :=
  (List.range g.size).flatMap fun u => ((g.successors u).filter (· = v)).map fun _ => u

/-- The predecessors of each vertex. -/
def sources (g : Digraph) : Array (List Nat) := (Array.range g.size).map g.predecessors

/-- An event of a traversal. -/
inductive Visit where
  | enter (v : Nat)
  | leave (v : Nat)
  deriving DecidableEq, Repr

/-- The rest of a traversal. The stack holds vertices with the successors still to be looked at, the
innermost first; `unseen` holds the vertices not yet entered. -/
def visitsFrom (g : Digraph) (unseen : List Nat) (stack : List (Nat × List Nat)) : List Visit :=
  match stack with
  | [] => []
  | (v, []) :: stack => .leave v :: visitsFrom g unseen stack
  | (v, w :: ws) :: stack =>
    if w ∈ unseen then
      .enter w :: visitsFrom g (unseen.erase w) ((w, g.successors w) :: (v, ws) :: stack)
    else visitsFrom g unseen ((v, ws) :: stack)
-- Leaving a vertex or passing one over makes the stack smaller, entering one takes it out of the unseen.
termination_by (unseen.length, (stack.flatMap (·.2)).length + stack.length)
decreasing_by
  · apply Prod.Lex.right
    simp only [List.flatMap_cons, List.length_append, List.length_cons]
    omega
  · apply Prod.Lex.left
    have found : w ∈ unseen := by assumption
    have := List.length_pos_of_mem found
    rw [List.length_erase_of_mem found]; omega
  · apply Prod.Lex.right
    simp only [List.flatMap_cons, List.length_append, List.length_cons]
    omega

/-- The depth-first traversal from a vertex. -/
def visits (g : Digraph) (root : Nat) : List Visit :=
  .enter root :: g.visitsFrom ((List.range g.size).erase root) [(root, g.successors root)]

/-- The vertices that can be reached from `root`, in the order in which the traversal leaves them. -/
def postorder (g : Digraph) (root : Nat) : List Nat :=
  (g.visits root).filterMap fun
    | .leave v => some v
    | .enter _ => none

end Digraph

end FlowTree
