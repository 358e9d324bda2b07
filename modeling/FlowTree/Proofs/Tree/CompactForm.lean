import FlowTree.Assembly.Lexeme
import FlowTree.Proofs.Tree.Shapes
import FlowTree.Proofs.Tree.Walk
import FlowTree.Tree.Printer

/-!
The compact form of trees. The text of a tree is that of its form, which has the kinds of the nodes and the names of the
blocks and nothing else (`Form`). Names of blocks, like those of kinds, are runs of id characters, so what follows such a
run in the text tells whether it was the name of a block or that of a kind, even where both are spelled alike. A form and
the place where it ends are thereby read off any text that it is the front of, and trees with one text are alike.
-/

namespace FlowTree

open Sketch Structuring

/-- What the compact form of a tree tells of a child: the name of a block, or a kind and what is in the node. -/
inductive Form where
  | block (name : String)
  | node (kind : Kind) (parts : List Form)

namespace Form

mutual

/-- The characters of a form. -/
def chars : Form → List Char
  | .block name => name.toList
  | .node kind parts => kind.name.toList ++ '[' :: charsWithin parts

/-- The characters within a node: the forms there and the bracket behind them. -/
def charsWithin : List Form → List Char
  | [] => [']']
  | f :: rest => f.chars ++ charsAfter rest

/-- The characters after a form within a node: the other forms there and the bracket behind them. -/
def charsAfter : List Form → List Char
  | [] => [']']
  | f :: rest => ',' :: ' ' :: (f.chars ++ charsAfter rest)

end

/-- The names of blocks in the form are runs of id characters, and its nodes are of known kinds and have parts. -/
inductive Legible : Form → Prop
  | block {name : String} (word : ∀ c ∈ name.toList, Assembly.isIdChar c = true) : Legible (.block name)
  | node {kind : Kind} {f : Form} {rest : List Form} (known : Kind.ofName? kind.name = some kind)
    (inside : ∀ p ∈ f :: rest, Legible p) : Legible (.node kind (f :: rest))

/-- Inside a text, what comes after a form is a comma or a bracket. -/
def EndsForm (text : List Char) : Prop := ∀ c ∈ text.head?, c = ',' ∨ c = ']'

theorem endsForm_charsAfter (rest : List Form) (text : List Char) : EndsForm (charsAfter rest ++ text) := by
  cases rest <;> simp [EndsForm, charsAfter]

/-- A run of characters of a class ends where the first other one is. -/
theorem run_unique {p : Char → Bool} {xs ys text text' : List Char} (hxs : ∀ c ∈ xs, p c = true)
    (hys : ∀ c ∈ ys, p c = true) (htext : ∀ c ∈ text.head?, p c = false) (htext' : ∀ c ∈ text'.head?, p c = false)
    (h : xs ++ text = ys ++ text') : xs = ys ∧ text = text' := by
  have hrun : ∀ {xs text : List Char}, (∀ c ∈ xs, p c = true) → (∀ c ∈ text.head?, p c = false) →
      (xs ++ text).takeWhile p = xs := by
    intro xs text hxs htext
    rw [List.takeWhile_append_of_pos hxs]
    cases text with
    | nil => simp
    | cons c text => simp [htext c rfl]
  obtain rfl : xs = ys := by rw [← hrun hxs htext, h, hrun hys htext']
  exact ⟨rfl, List.append_cancel_left h⟩

theorem not_idChar_bracket (text : List Char) : ∀ c ∈ ('[' :: text).head?, Assembly.isIdChar c = false := by
  rintro c ⟨⟩
  decide

theorem EndsForm.not_idChar {text : List Char} (h : EndsForm text) : ∀ c ∈ text.head?, Assembly.isIdChar c = false := by
  intro c hc
  rcases h c hc with rfl | rfl <;> decide

theorem idChars_of_known {kind : Kind} (known : Kind.ofName? kind.name = some kind) :
    ∀ c ∈ kind.name.toList, Assembly.isIdChar c = true := by
  obtain ⟨entry, hfound, -⟩ := Option.map_eq_some_iff.mp known
  have hnames : Kind.table.all (fun entry => entry.2.toList.all Assembly.isIdChar) = true := by decide +kernel
  have hname : entry.2 = kind.name := by simpa using List.find?_some hfound
  rw [← hname]
  exact List.all_eq_true.mp (List.all_eq_true.mp hnames entry (List.mem_of_find?_eq_some hfound))

/-- A bracket after a run of id characters tells that it is the name of a kind. -/
theorem block_ne_node {name : String} {kind : Kind} {text text' : List Char}
    (word : ∀ c ∈ name.toList, Assembly.isIdChar c = true) (known : Kind.ofName? kind.name = some kind)
    (htext : EndsForm text) : name.toList ++ text ≠ kind.name.toList ++ '[' :: text' := by
  intro h
  obtain ⟨-, rfl⟩ := run_unique word (idChars_of_known known) htext.not_idChar (not_idChar_bracket text') h
  rcases htext '[' rfl with h | h <;> exact absurd h (by decide)

theorem kind_unique {kind kind' : Kind} {text text' : List Char} (known : Kind.ofName? kind.name = some kind)
    (known' : Kind.ofName? kind'.name = some kind')
    (h : kind.name.toList ++ '[' :: text = kind'.name.toList ++ '[' :: text') : kind = kind' ∧ text = text' := by
  obtain ⟨hname, htext⟩ := run_unique (idChars_of_known known) (idChars_of_known known') (not_idChar_bracket text)
    (not_idChar_bracket text') h
  refine ⟨Option.some.inj ?_, (List.cons.inj htext).2⟩
  rw [← known, String.toList_inj.mp hname, known']

mutual

/-- A form and the place where it ends are read off the text. -/
theorem Legible.unique : ∀ {f f' : Form} {text text' : List Char}, f.Legible → f'.Legible → EndsForm text →
    EndsForm text' → f.chars ++ text = f'.chars ++ text' → f = f' ∧ text = text'
  | .block name, .block name', text, text', .block word, .block word', htext, htext', h => by
    simp only [chars] at h
    obtain ⟨hname, rfl⟩ := run_unique word word' htext.not_idChar htext'.not_idChar h
    exact ⟨by rw [String.toList_inj.mp hname], rfl⟩
  | .block name, .node kind (f :: rest), text, text', .block word, .node known _, htext, _, h => by
    simp only [chars, List.append_assoc, List.cons_append] at h
    exact absurd h (block_ne_node word known htext)
  | .node kind (f :: rest), .block name, text, text', .node known _, .block word, _, htext', h => by
    simp only [chars, List.append_assoc, List.cons_append] at h
    exact absurd h.symm (block_ne_node word known htext')
  | .node kind (f :: rest), .node kind' (f' :: rest'), text, text', .node known inside, .node known' inside', _, _, h => by
    simp only [chars, charsWithin, List.append_assoc, List.cons_append] at h
    obtain ⟨rfl, hwithin⟩ := kind_unique known known' h
    -- Behind a part comes a comma or the bracket of the node: the induction has all of that as the text behind.
    obtain ⟨hf, hrest⟩ := List.forall_mem_cons.mp inside
    obtain ⟨hf', hrest'⟩ := List.forall_mem_cons.mp inside'
    obtain ⟨rfl, hafter⟩ := Legible.unique hf hf' (endsForm_charsAfter rest text) (endsForm_charsAfter rest' text') hwithin
    obtain ⟨rfl, rfl⟩ := unique_after hrest hrest' hafter
    exact ⟨rfl, rfl⟩

theorem unique_after : ∀ {rest rest' : List Form} {text text' : List Char}, (∀ f ∈ rest, f.Legible) →
    (∀ f ∈ rest', f.Legible) → charsAfter rest ++ text = charsAfter rest' ++ text' → rest = rest' ∧ text = text'
  | [], [], text, text', _, _, h => by simpa [charsAfter] using h
  -- A comma tells that there is one more, a bracket that there is none.
  | [], f' :: rest', text, text', _, _, h => by simp [charsAfter] at h
  | f :: rest, [], text, text', _, _, h => by simp [charsAfter] at h
  | f :: rest, f' :: rest', text, text', hforms, hforms', h => by
    simp only [charsAfter, List.append_assoc, List.cons_append, List.cons.injEq, true_and] at h
    obtain ⟨hf, hrest⟩ := List.forall_mem_cons.mp hforms
    obtain ⟨hf', hrest'⟩ := List.forall_mem_cons.mp hforms'
    obtain ⟨rfl, hafter⟩ := Legible.unique hf hf' (endsForm_charsAfter rest text) (endsForm_charsAfter rest' text') h
    obtain ⟨rfl, rfl⟩ := unique_after hrest hrest' hafter
    exact ⟨rfl, rfl⟩

end

theorem Legible.eq_of_chars {f f' : Form} (h : f.Legible) (h' : f'.Legible) (hchars : f.chars = f'.chars) : f = f' := by
  have hend : EndsForm [] := by simp [EndsForm]
  exact (h.unique h' hend hend (by rw [hchars])).1

end Form

/-! ### The text of a tree -/

/-- The form of a region, whose blocks go by the given names. -/
def Region.form (name : BlockId → String) (r : Region) : Form := r.fold (fun b => .block (name b)) .node

/-- The form of a sketch, whose blocks go by the given names. -/
def Sketch.form (name : BlockId → String) (s : Sketch) : Form := s.fold (fun b => .block (name b)) .node

@[simp] theorem Sketch.form_block (name : BlockId → String) (b : BlockId) :
    (Sketch.block b).form name = .block (name b) := by simp [form, fold]

@[simp] theorem Sketch.form_node (name : BlockId → String) (kind : Kind) (exits : BlockExits) (parts : List Sketch) :
    (Sketch.node kind exits parts).form name = .node kind (parts.map (form name)) := by
  simp [form, fold, foldAll_eq_map]

namespace Region

@[simp] theorem form_block (name : BlockId → String) (b : BlockId) :
    (Region.block b).form name = .block (name b) := by simp [form, fold]

@[simp] theorem form_node (name : BlockId → String) (id : NodeId) (kind : Kind) (depth : Nat) (first : BlockId)
    (children : List Region) :
    (Region.node id kind depth first children).form name = .node kind (children.map (form name)) := by
  simp [form, fold, foldAll_eq_map]

mutual

theorem toList_format (name : BlockId → String) : ∀ r : Region, (r.format name).toList = (r.form name).chars
  | .block b => by simp [format, Form.chars]
  | .node id kind depth first children => by simp [format, Form.chars, toList_formatAll name children]

theorem toList_formatAll (name : BlockId → String) : ∀ rs : List Region,
    (formatAll name rs).toList ++ [']'] = Form.charsWithin (rs.map (form name))
  | [] => by simp [formatAll, Form.charsWithin]
  | [r] => by simp [formatAll, Form.charsWithin, Form.charsAfter, toList_format name r]
  | r :: next :: rs => by
    have hrest := toList_formatAll name (next :: rs)
    simp [formatAll, Form.charsWithin, Form.charsAfter, toList_format name r, hrest]

end

end Region

theorem Sketch.Shaped.legible {s : Sketch} (h : Shaped s) {name : BlockId → String}
    (hnames : ∀ b ∈ s.blocks, ∀ c ∈ (name b).toList, Assembly.isIdChar c = true) : (s.form name).Legible := by
  induction h with
  | block b => simpa using Form.Legible.block (hnames b (by simp))
  | @node kind exits parts here inside ih =>
    have known : Kind.ofName? kind.name = some kind := by
      cases here with
      | sequence sequence => cases kind <;> first | rfl | cases sequence
      | ifThen | loop | switch => rfl
    have hparts : ∀ p ∈ parts.map (form name), p.Legible := List.forall_mem_map.mpr fun s hs =>
      ih s hs fun b hb => hnames b (by rw [blocks_node]; exact mem_blocksOf.mpr ⟨s, hs, hb⟩)
    rw [form_node]
    obtain ⟨p, rest, rfl⟩ := List.exists_cons_of_ne_nil here.ne_nil
    exact .node known hparts

namespace Tree

/-- The blocks of the tree go by runs of id characters, which may be spelled like the names of kinds. -/
def PlainNames (t : Tree) : Prop :=
  ∀ b ∈ t.blockList none, ∀ c ∈ (t.graph.blockName b).toList, Assembly.isIdChar c = true

instance (t : Tree) : Decidable t.PlainNames :=
  decidable_of_iff ((t.blockList none).all fun b => (t.graph.blockName b).toList.all Assembly.isIdChar)
    (by simp only [PlainNames, List.all_eq_true])

/-- Children of two trees are alike: blocks of one name, or nodes of one kind with as many children, alike one by one. -/
inductive Alike (t t' : Tree) : Child → Child → Prop
  | block {b b' : BlockId} (name : t.graph.blockName b = t'.graph.blockName b') : Alike t t' (.block b) (.block b')
  | node {id id' : NodeId} {n n' : Node} (found : t.node? id = some n) (found' : t'.node? id' = some n')
    (kind : n.kind = n'.kind) (length : n.children.length = n'.children.length)
    (children : ∀ (i : Nat) (c c' : Child), n.children[i]? = some c → n'.children[i]? = some c' → Alike t t' c c') :
    Alike t t' (.node id) (.node id')

/-- Children are alike when what they are drawn from has one form. -/
theorem alike_iff {t t' : Tree} {unvisited unvisited' : List BlockId} {c c' : Child} {depth depth' : Nat} {s s' : Sketch}
    (h : Draws (t.draft unvisited) c depth s) (h' : Draws (t'.draft unvisited') c' depth' s') :
    t.Alike t' c c' ↔ s.form t.graph.blockName = s'.form t'.graph.blockName := by
  constructor
  · intro halike
    induction halike generalizing depth depth' s s' with
    | block name => rw [h.eq_block, h'.eq_block, form_block, form_block, name]
    | node found found' kind length _ ih =>
      obtain ⟨parts, rfl, hparts⟩ := parts_of_draws found h
      obtain ⟨parts', rfl, hparts'⟩ := parts_of_draws found' h'
      have hforms : parts.map (form t.graph.blockName) = parts'.map (form t'.graph.blockName) := by
        refine List.ext_getElem (by simp [← hparts.length_eq, ← hparts'.length_eq, length]) fun i hi hi' => ?_
        rw [List.length_map] at hi hi'
        obtain ⟨c, hc, hdraws⟩ := getElem?_of_forall₂ hparts (List.getElem?_eq_getElem hi)
        obtain ⟨c', hc', hdraws'⟩ := getElem?_of_forall₂ hparts' (List.getElem?_eq_getElem hi')
        simpa using ih i c c' hc hc' hdraws hdraws'
      rw [form_node, form_node, kind, hforms]
  · intro hform
    induction h generalizing c' depth' s' with
    | block b =>
      cases h' with
      | block b' => exact .block (by simpa using hform)
      | node => simp at hform
    | @node id n depth parts found _ _ length_eq _ _ ih =>
      cases h' with
      | block b' => simp at hform
      | @node id' n' _ parts' found' _ _ length_eq' _ inside' =>
        rw [form_node, form_node, Form.node.injEq] at hform
        obtain ⟨hkind, hforms⟩ := hform
        have hlength : parts.length = parts'.length := by simpa using congrArg List.length hforms
        refine .node found found' hkind (by omega) fun i c c' hc hc' => ?_
        have hi : i < parts.length := length_eq ▸ (List.getElem?_eq_some_iff.mp hc).1
        have hi' : i < parts'.length := hlength ▸ hi
        refine ih i c _ hc (List.getElem?_eq_getElem hi) (inside' i c' _ hc' (List.getElem?_eq_getElem hi')) ?_
        have hat := congrArg (·[i]?) hforms
        simpa [hi, hi'] using hat

section
variable {g : FlowGraph} {before : Placement} {t : Tree} {sketch : Sketch} {unvisited : List BlockId}

theorem Built.toList_format (h : Built g before t sketch unvisited) :
    t.format.toList = (sketch.form t.graph.blockName).chars := by
  rw [format, Region.toList_format, Region.form, fold_region _ _ h.draws, Sketch.form]

theorem Built.legible (h : Built g before t sketch unvisited) (plain : t.PlainNames) :
    (sketch.form t.graph.blockName).Legible :=
  h.shaped.legible fun b hb => plain b (h.blockList_eq ▸ hb)

end

end Tree

/-- The compact form is unambiguous: two trees whose blocks go by runs of id characters have the same text exactly when
they are nested alike, with nodes of the same kinds and blocks of the same names in the same places. Not even an empty name
would be mistaken, as every node has something in it. -/
theorem format_unambiguous {f f' : Function} {g g' : FlowGraph} {before before' : Placement} {t t' : Tree}
    (accepted : FlowGraph.build f = .ok g) (structured : (Tree.build g before).1 = .ok t) (plain : t.PlainNames)
    (accepted' : FlowGraph.build f' = .ok g') (structured' : (Tree.build g' before').1 = .ok t') (plain' : t'.PlainNames) :
    t.format = t'.format ↔ t.Alike t' (.node t.root) (.node t'.root) := by
  obtain ⟨sketch, unvisited, h⟩ := Tree.build_ok (FlowGraph.build_linked accepted) structured
  obtain ⟨sketch', unvisited', h'⟩ := Tree.build_ok (FlowGraph.build_linked accepted') structured'
  rw [Tree.alike_iff h.draws h'.draws, ← String.toList_inj, h.toList_format, h'.toList_format]
  exact ⟨(h.legible plain).eq_of_chars (h'.legible plain'), fun hform => by rw [hform]⟩

/-- A selection whose blocks are named like kinds; where it merges may stand before its arm in the source. -/
def kindNamesSample (mergeFirst : Bool) : Function where
  name := "kind_names"
  instructions :=
    let header : List Instruction := [
      { op := .label, result := 1 }, { op := .selectionMerge, operands := [.ofId 3] },
      { op := .branchConditional, operands := [.ofId 9, .ofId 2, .ofId 3] }]
    let arm : List Instruction := [{ op := .label, result := 2 }, { op := .branch, operands := [.ofId 3] }]
    let merge : List Instruction := [{ op := .label, result := 3 }, { op := .return }]
    header ++ if mergeFirst then merge ++ arm else arm ++ merge
  names := ⟨[("If", 1), ("IfPart", 2), ("Root", 3)]⟩

theorem format_unambiguous_kindNames : ∃ g g' t t', FlowGraph.build (kindNamesSample false) = .ok g ∧
    (Tree.build g (.none g)).1 = .ok t ∧ t.PlainNames ∧ t.blockList none = [0, 1, 2] ∧
    FlowGraph.build (kindNamesSample true) = .ok g' ∧ (Tree.build g' (.none g')).1 = .ok t' ∧ t'.PlainNames ∧
    t'.blockList none = [0, 2, 1] ∧ t.format = "Root[If[If, IfPart[IfPart]], Root]" ∧
    t.Alike t' (.node t.root) (.node t'.root) := by
  have hchecked : ∀ mergeFirst, hasTree (kindNamesSample mergeFirst) (fun _ t => t.PlainNames ∧
      t.blockList none = (if mergeFirst then [0, 2, 1] else [0, 1, 2]) ∧
      t.format = "Root[If[If, IfPart[IfPart]], Root]") = true := by decide +kernel
  obtain ⟨g, t, hbuild, htree, htest⟩ := exists_of_hasTree (hchecked false)
  obtain ⟨g', t', hbuild', htree', htest'⟩ := exists_of_hasTree (hchecked true)
  obtain ⟨plain, hblocks, hformat⟩ := of_decide_eq_true htest
  obtain ⟨plain', hblocks', hformat'⟩ := of_decide_eq_true htest'
  exact ⟨g, g', t, t', hbuild, htree, plain, hblocks, hbuild', htree', plain', hblocks', hformat,
    (format_unambiguous hbuild htree plain hbuild' htree' plain').mp (hformat.trans hformat'.symm)⟩

end FlowTree
