import FlowTree.Proofs.Analysis.Reports
import FlowTree.Proofs.Editor.Ranges
import FlowTree.Proofs.FlowGraph.Grammar
import FlowTree.Proofs.Function.Segments
import FlowTree.Proofs.Tree.Walk

/-!
The outline of a document. The instructions of a function stand one below the other, so no block ends above its label, and
the symbol of a block is picked inside its own range. Every other symbol covers the ranges of the symbols in it, wherever
the structure tree has put their blocks.
-/

namespace FlowTree

namespace Editor
open Assembly

/-! ### Nesting and pre-order -/

/-- The selection of the symbol lies within its range, and so do the ranges of the symbols in it, which are nested too. -/
inductive Symbol.Nested : Symbol → Prop
  | mk {name : String} {detail? : Option String} {kind : SymbolKind} {range selection : Range} {children : List Symbol}
    (selected : selection.Within range) (covered : ∀ s ∈ children, s.range.Within range)
    (nested : ∀ s ∈ children, s.Nested) : Nested (.mk name detail? kind range selection children)

theorem Symbol.Nested.selected_range {s : Symbol} (h : s.Nested) : s.selection.Within s.range := by
  cases h with
  | mk selected => exact selected

theorem Symbol.nested_leaf {s : Symbol} (hchildren : s.children = []) (h : s.selection.Within s.range) : s.Nested := by
  cases s
  cases hchildren
  exact .mk h (by simp) (by simp)

/-- A symbol that spans nested symbols is nested. -/
theorem nested_enclosing {name : String} {detail? : Option String} {kind : SymbolKind} {children : List Symbol}
    (h : ∀ s ∈ children, s.Nested) : (enclosing name detail? kind children).Nested := by
  unfold enclosing
  cases children with
  | nil =>
    have hempty : Range.Within {} {} := Range.within_iff.mpr (by decide)
    exact Symbol.nested_leaf rfl hempty
  | cons s ss =>
    obtain ⟨hs, hss⟩ := List.forall_mem_cons.mp h
    have hforward : ∀ s : Symbol, s.Nested → s.range.Within s.range := fun s hs => hs.selected_range.start.within_self
    obtain ⟨hfirst, hothers⟩ := Range.within_foldl_cover (fun s hs => hforward s (hss s hs)) (hforward s hs)
    exact .mk (hs.selected_range.trans hfirst) (List.forall_mem_cons.mpr ⟨hfirst, hothers⟩) h

section
variable {g : FlowGraph}

mutual

theorem nested_regionSymbol (h : ∀ b : BlockId, (blockSymbol ((g.block? b).getD default)).Nested) :
    ∀ r : Region, (regionSymbol g r).Nested
  | .block b => h b
  | .node _ _ _ _ children => nested_enclosing (nested_regionSymbols h children)

theorem nested_regionSymbols (h : ∀ b : BlockId, (blockSymbol ((g.block? b).getD default)).Nested) :
    ∀ rs : List Region, ∀ s ∈ regionSymbols g rs, s.Nested
  | [] => by simp [regionSymbols]
  | r :: rs => List.forall_mem_cons.mpr ⟨nested_regionSymbol h r, nested_regionSymbols h rs⟩

end

end

namespace Symbol

mutual

/-- The symbol and all that is in it, each before what is in it. -/
def preorder : Symbol → List Symbol
  | .mk name detail? kind range selection children =>
    .mk name detail? kind range selection children :: preorderAll children

/-- The symbols and all that is in them, each before what is in it. -/
def preorderAll : List Symbol → List Symbol
  | [] => []
  | s :: ss => s.preorder ++ preorderAll ss

end

/-- The symbol stands for a block. -/
def isBlock : Symbol → Bool
  | .mk _ _ kind _ _ _ => kind = .block

end Symbol

theorem preorder_blockSymbol (b : Block) : (blockSymbol b).preorder = [blockSymbol b] := by
  simp [blockSymbol, Symbol.preorder, Symbol.preorderAll]

theorem preorder_enclosing (name : String) (detail? : Option String) (kind : SymbolKind) (children : List Symbol) :
    (enclosing name detail? kind children).preorder =
      enclosing name detail? kind children :: Symbol.preorderAll children := by
  simp [enclosing, Symbol.preorder]

@[simp] theorem isBlock_blockSymbol (b : Block) : (blockSymbol b).isBlock = true := by
  simp [blockSymbol, Symbol.isBlock]

@[simp] theorem isBlock_enclosing {name : String} {detail? : Option String} {kind : SymbolKind} {children : List Symbol} :
    (enclosing name detail? kind children).isBlock = decide (kind = .block) := rfl

mutual

theorem filter_regionSymbol (g : FlowGraph) : ∀ r : Region, (regionSymbol g r).preorder.filter Symbol.isBlock =
    r.blocks.map fun b => blockSymbol ((g.block? b).getD default)
  | .block b => by simp [regionSymbol, preorder_blockSymbol, Region.blocks, Region.fold]
  | .node _ _ _ _ children => by
    simp [regionSymbol, preorder_enclosing, filter_regionSymbols g children, Region.blocks, Region.fold, Region.blocksAll]

theorem filter_regionSymbols (g : FlowGraph) : ∀ rs : List Region,
    (Symbol.preorderAll (regionSymbols g rs)).filter Symbol.isBlock =
      (Region.blocksAll rs).map fun b => blockSymbol ((g.block? b).getD default)
  | [] => by simp [regionSymbols, Symbol.preorderAll, Region.blocksAll, Region.foldAll]
  | r :: rs => by
    simp [regionSymbols, Symbol.preorderAll, filter_regionSymbol g r, filter_regionSymbols g rs, Region.blocksAll,
      Region.blocks, Region.foldAll]

end

end Editor
end FlowTree
