import FlowTree.Editor.Document
import FlowTree.Editor.Range

/-!
Symbols: the outline of a document. Each function is a symbol; what is in it follows its structure tree,
or is a plain list of its blocks when it has none.
-/

namespace FlowTree.Editor

/-- What a symbol stands for. -/
inductive SymbolKind where
  | function
  | block
  | construct (kind : Kind)
  deriving DecidableEq, Repr

/-- The number of a kind of symbol. -/
def SymbolKind.code : SymbolKind → Int
  | .function => 12
  | .block => 3
  | .construct kind =>
    match kind with
    | .root => 12
    | .ifThen => 19
    | .ifPart | .loopBody | .continuing => 20
    | .loop => 18
    | .switch => 10
    | .case => 22
    | .other _ => 0

/-- A named stretch of a document, with the symbols in it. The selection is what the editor shows when
the symbol is picked. -/
inductive Symbol where
  | mk (name : String) (detail? : Option String) (kind : SymbolKind) (range selection : Range)
      (children : List Symbol)
  deriving Repr

namespace Symbol

/-- The stretch of the symbol. -/
def range : Symbol → Range
  | .mk _ _ _ range _ _ => range

/-- What the editor shows when the symbol is picked. -/
def selection : Symbol → Range
  | .mk _ _ _ _ selection _ => selection

def children : Symbol → List Symbol
  | .mk _ _ _ _ _ children => children

mutual

def toData : Symbol → Data
  | .mk name detail? kind range selection children =>
    .record ([("name", .str name)] ++ Data.field? "detail" .str detail? ++
      [("kind", .int kind.code), ("range", range.toData), ("selectionRange", selection.toData)] ++
      Data.listField "children" (listData children))

def listData : List Symbol → List Data
  | [] => []
  | s :: ss => toData s :: listData ss

end

end Symbol

/-- The range from the earlier start to the later end of two. -/
def Range.cover (a b : Range) : Range where
  start := if b.start.before a.start then b.start else a.start
  stop := if a.stop.before b.stop then b.stop else a.stop

/-- The range that spans symbols, and the selection of the first one. -/
def enclose : List Symbol → Range × Range
  | [] => ({}, {})
  | s :: ss => (ss.foldl (fun r t => r.cover t.range) s.range, s.selection)

/-- A symbol that spans the symbols in it. -/
def enclosing (name : String) (detail? : Option String) (kind : SymbolKind) (children : List Symbol) : Symbol :=
  let (range, selection) := enclose children
  .mk name detail? kind range selection children

/-- The symbol of a block: from the line of its label up to the line after its last instruction. -/
def blockSymbol (b : Block) : Symbol :=
  let start := Point.ofPosition b.position
  let last := match b.terminator? with
    | some i => if i.position.isValid then i.position else b.position
    | none => b.position
  let name := b.text
  .mk name ((b.terminator?.map (·.name)).getD "") .block
    ⟨⟨start.line, 0⟩, ⟨(Point.ofPosition last).line + 1, 0⟩⟩
    ⟨start, ⟨start.line, start.character + UInt32.ofNat name.utf8ByteSize⟩⟩ []

mutual

def regionSymbol (g : FlowGraph) : Region → Symbol
  | .block b => blockSymbol ((g.block? b).getD default)
  | .node _ kind _ firstBlock children =>
    enclosing (kind.name ++ " %" ++ g.blockName firstBlock) none (.construct kind) (regionSymbols g children)

def regionSymbols (g : FlowGraph) : List Region → List Symbol
  | [] => []
  | r :: rs => regionSymbol g r :: regionSymbols g rs

end

def functionSymbol (a : Analysis) : Symbol :=
  enclosing a.function.name (a.outcome.failure?.map Failure.message) .function
    (match a.outcome with
    | .structured g t => regionSymbols g t.region.children
    | .noTree g _ => g.blocks.toList.map blockSymbol
    | .noGraph _ => [])

def Document.symbols (d : Document) : List Symbol := d.analyses.map functionSymbol

end FlowTree.Editor
