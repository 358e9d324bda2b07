import FlowTree.FlowGraph.Build

/-!
The tables of edges. They are filled one edge at a time, and after each edge every block has the numbers of exactly those
edges that leave it and of those that come in, in the order in which they were added (`ofEnds_addEdge`). Each edge carries
its own number (`getElem?_numbered`).
-/

namespace FlowTree

/-- The block that an edge leaves and the one that it comes to. -/
def Edge.ends (e : Edge) : BlockId × BlockId := (e.source, e.target)

namespace FlowGraph

/-- The edges with the given ends, numbered from zero. -/
def numbered (ends : List (BlockId × BlockId)) : List Edge :=
  ends.zipIdx.map fun ((source, target), id) => ⟨id, source, target⟩

@[simp] theorem length_numbered (ends : List (BlockId × BlockId)) : (numbered ends).length = ends.length := by
  simp [numbered]

theorem getElem?_numbered (ends : List (BlockId × BlockId)) (e : EdgeId) :
    (numbered ends)[e]? = ends[e]?.map fun (source, target) => ⟨e, source, target⟩ := by
  rw [numbered, List.getElem?_map, List.getElem?_zipIdx, Option.map_map, Nat.zero_add]
  rfl

theorem numbered_concat (ends : List (BlockId × BlockId)) (source target : BlockId) :
    numbered (ends ++ [(source, target)]) = numbered ends ++ [⟨ends.length, source, target⟩] := by
  simp [numbered, List.zipIdx_append]

theorem map_ends_numbered (ends : List (BlockId × BlockId)) : (numbered ends).map Edge.ends = ends := by
  rw [numbered, List.map_map]
  exact List.zipIdx_map_fst 0 ends

/-- The ends of one edge for each successor of each block, in the order of the blocks. -/
def endsOf (links : List (List BlockId)) : List (BlockId × BlockId) :=
  links.zipIdx.flatMap fun (targets, source) => targets.map fun target => (source, target)

theorem endsOf_concat (links : List (List BlockId)) (targets : List BlockId) :
    endsOf (links ++ [targets]) = endsOf links ++ targets.map (links.length, ·) := by
  simp [endsOf, List.zipIdx_append]

/-- One edge for each successor of each block, in the order of the blocks. -/
def edgesOf (links : List (List BlockId)) : List Edge := numbered (endsOf links)

/-- The numbers of the edges that satisfy a test. -/
def edgesWhere (edges : List Edge) (p : Edge → Bool) : List EdgeId :=
  (edges.zipIdx.filter fun (e, _) => p e).map (·.2)

theorem edgesWhere_concat (edges : List Edge) (edge : Edge) (p : Edge → Bool) :
    edgesWhere (edges ++ [edge]) p = edgesWhere edges p ++ if p edge then [edges.length] else [] := by
  unfold edgesWhere
  rw [List.zipIdx_append, List.filter_append, List.map_append]
  cases hp : p edge <;> simp [hp]

namespace EdgeTables

/-- The tables that hold the edges with the given ends. -/
def ofEnds (size : Nat) (ends : List (BlockId × BlockId)) : EdgeTables where
  edges := (numbered ends).toArray
  outgoing := (Array.range size).map fun b => edgesWhere (numbered ends) (·.source = b)
  incoming := (Array.range size).map fun b => edgesWhere (numbered ends) (·.target = b)

/-- A row that is there is extended, and the others are left as they are. -/
theorem addToRow_map_range {size b : Nat} (hb : b < size) (rows : Nat → List EdgeId) (e : EdgeId) :
    addToRow ((Array.range size).map rows) b e =
      .ok ((Array.range size).map fun c => rows c ++ if b = c then [e] else []) := by
  rw [addToRow, if_pos (by simpa using hb)]
  refine congrArg Except.ok (Array.ext (by simp) fun c hc hc' => ?_)
  by_cases hbc : b = c <;> simp [Array.getElem_modify, hbc]

variable {size : Nat}

/-- An edge between two blocks that is added is the last one, and it goes to its two blocks. -/
theorem ofEnds_addEdge {source target : BlockId} (hsource : source < size) (htarget : target < size)
    (ends : List (BlockId × BlockId)) :
    (ofEnds size ends).addEdge source target = .ok (ofEnds size (ends ++ [(source, target)])) := by
  simp only [ofEnds, addEdge, addToRow_map_range hsource, addToRow_map_range htarget, bind, Except.bind, numbered_concat,
    edgesWhere_concat, length_numbered, decide_eq_true_eq, List.size_toArray, List.push_toArray]

theorem ofEnds_nil (size : Nat) : ofEnds size [] = empty size := by
  simp only [empty, ofEnds, EdgeTables.mk.injEq]
  exact ⟨rfl, Array.ext (by simp) (by simp [edgesWhere, numbered]), Array.ext (by simp) (by simp [edgesWhere, numbered])⟩

end EdgeTables

end FlowGraph
end FlowTree
