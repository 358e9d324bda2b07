import FlowTree.Proofs.Data.MessagePack
import FlowTree.Proofs.Tree.Built
import FlowTree.Snapshot.Format
import FlowTree.Snapshot.Unpacking
import Mathlib

/-!
Snapshots that were packed and read back. What a snapshot leaves out because it is empty is read as the
empty value, and the rest is read field by field, so nothing is lost: the snapshot that is read from the
bytes is the one that was written (`unpack?_pack`), and it is written alike in every format.
-/

namespace FlowTree

open Data

namespace Packed

@[simp] theorem text?_packed (s : String) : (packed (.str s)).text? = some s := by
  rw [packed, text?, Glyph.read_toUTF8, Text.shown_ofString]

@[simp] theorem int?_packed (n : Int) : (packed (.int n)).int? = some n := by
  rw [packed, int?]

@[simp] theorem bool?_packed (b : Bool) : (packed (.bool b)).bool? = some b := by
  rw [packed, bool?]

@[simp] theorem items?_packed (items : List Data) :
    (packed (.list items)).items? = some (some (items.map packed)) := by
  rw [packed, packedItems_eq_map, items?]

@[simp] theorem items?_noList : (packed .noList).items? = some none := by
  rw [packed, items?]

theorem fields?_packed (names : List String) (fields : List (String × Data)) :
    (packed (.record fields)).fields? names = some (some (fields.map fun f => (f.1, packed f.2))) := by
  have key (f : String × Data) : text? (.raw f.1.toUTF8.toList) = some f.1 := text?_packed f.1
  rw [packed, packedFields_eq_map, fields?]
  simp only [List.mapM_map, Function.comp_def, key, Option.bind_eq_bind, Option.bind_some, List.mapM_pure]
  rfl

@[simp] theorem texts?_packed (before? : Option (List String)) (texts : List String) :
    (packed (.list (texts.map .str))).texts? before? = some (some texts) := by
  have each : ((texts.map .str).map packed).mapM text? = some texts := by
    simp only [List.map_map, List.mapM_map, Function.comp_def, text?_packed]
    exact List.mapM_pure.trans (by simp)
  rw [texts?, items?_packed]
  simp only [each, Option.bind_eq_bind, Option.bind_some]

theorem texts?_listOrNone (texts? : Option (List String)) :
    (packed (.listOrNone (texts?.map fun texts => texts.map .str))).texts? none = some texts? := by
  cases texts? with
  | none => simp [Data.listOrNone, texts?]
  | some texts => exact texts?_packed none texts

end Packed

/-- Setting the fields in turn takes the one value to the other. -/
def Sets {α : Type} (set : α → String → Packed → Option α) (a : α) (fields : List (String × Data)) (b : α) :
    Prop :=
  fields.foldlM (fun a f => set a f.1 (packed f.2)) a = some b

namespace Sets

variable {α : Type} {set : α → String → Packed → Option α} {a b c : α} {name : String} {d : Data}
  {fields more : List (String × Data)}

theorem nil : Sets set a [] a := rfl

theorem cons (h : set a name (packed d) = some b) (hmore : Sets set b more c) :
    Sets set a ((name, d) :: more) c := by
  unfold Sets at *
  rw [List.foldlM_cons, h]
  exact hmore

theorem append (h : Sets set a fields b) (hmore : Sets set b more c) : Sets set a (fields ++ more) c := by
  unfold Sets at *
  rw [List.foldlM_append, h]
  exact hmore

theorem field (h : set a name (packed d) = some b) : Sets set a [(name, d)] b := cons h nil

/-- A field that is left out must not change anything. -/
theorem leftOut {p : Prop} [Decidable p] (h : set a name (packed d) = some b) (hout : p → b = a) :
    Sets set a (if p then [] else [(name, d)]) b := by
  split
  case isTrue hp => rw [hout hp]; exact nil
  case isFalse => exact field h

theorem record?_packed {names : List String} {empty : α} (h : Sets set a fields b) :
    Packed.record? names empty set a (packed (.record fields)) = some b := by
  unfold Sets at h
  simp only [Packed.record?, Packed.fields?_packed, Option.bind_eq_bind, Option.bind_some, List.foldlM_map, h]

end Sets

theorem EdgeSnapshot.read?_packed (e : EdgeSnapshot) : EdgeSnapshot.read? {} e.toData.packed = some e := by
  obtain ⟨source, target⟩ := e
  refine Sets.record?_packed (.cons (b := { source }) ?_ (.field ?_))
  all_goals simp

theorem BlockSnapshot.read?_packed (b : BlockSnapshot) : BlockSnapshot.read? {} b.toData.packed = some b := by
  obtain ⟨name, line, reachable, dominator, successors, instructions?⟩ := b
  refine Sets.record?_packed <| .append (.append (.append (.append (.append
    (.field (b := { name }) ?_)
    (.leftOut (b := { name, line }) ?_ ?_))
    (.field (b := { name, line, reachable }) ?_))
    (.leftOut (b := { name, line, reachable, dominator }) ?_ ?_))
    (.leftOut (b := { name, line, reachable, dominator, successors }) ?_ ?_))
    (.field ?_)
  all_goals simp [Packed.texts?_listOrNone]

namespace Sheaf

variable {α β : Type} {empty : α} {read : α → Packed → Option α} {view : α → β} {toData : β → Data}
  {xs : List β}

theorem fill?_packed (h : ∀ x ∈ xs, ∃ item, read empty (toData x).packed = some item ∧ view item = x) :
    ∃ items, fill? empty read [] ((xs.map toData).map packed) = some ⟨items, []⟩ ∧ items.map view = xs := by
  induction xs with
  | nil => exact ⟨[], rfl, rfl⟩
  | cons x xs ih =>
    obtain ⟨item, hread, hview⟩ := h x List.mem_cons_self
    obtain ⟨items, hfill, hviews⟩ := ih fun y hy => h y (List.mem_cons_of_mem x hy)
    refine ⟨item :: items, ?_, by rw [List.map_cons, hview, hviews]⟩
    simp only [List.map_cons, fill?, List.headD_nil, List.tail_nil, hread, hfill, Option.bind_eq_bind,
      Option.bind_some]

theorem read?_packed (h : ∀ x ∈ xs, ∃ item, read empty (toData x).packed = some item ∧ view item = x) :
    ∃ items, read? empty read none (packed (.list (xs.map toData))) = some (some ⟨items, []⟩) ∧
      items.map view = xs := by
  obtain ⟨items, hfill, hviews⟩ := fill?_packed h
  refine ⟨items, ?_, hviews⟩
  simp only [read?, Packed.items?_packed, Option.bind_eq_bind, Option.bind_some, Option.map_none, Option.getD_none,
    hfill]

/-- The field of a list is left out when there are no items, and then no list is read. -/
theorem sets_listField (h : ∀ x ∈ xs, ∃ item, read empty (toData x).packed = some item ∧ view item = x) :
    ∃ items? : Option (Sheaf α), (items?.getD {}).items.map view = xs ∧
      ∀ {γ : Type} {set : γ → String → Packed → Option γ} {a : γ} {name : String}
        (update : Option (Sheaf α) → γ), (∀ p, set a name p = (read? empty read none p).map update) →
        update none = a → Sets set a (Data.listField name (xs.map toData)) (update items?) := by
  obtain ⟨items, hread, hviews⟩ := read?_packed h
  cases xs with
  | nil =>
    refine ⟨none, rfl, fun update _ hnone => ?_⟩
    rw [hnone]
    exact .nil
  | cons x xs =>
    refine ⟨some ⟨items, []⟩, hviews, fun update hset _ => .field ?_⟩
    rw [hset, hread, Option.map_some]

end Sheaf

/-! ### Trees -/

namespace NodeSnapshot

theorem induction {p : NodeSnapshot → Prop} (absent : p .absent)
    (node : ∀ kind depth block children, (∀ child ∈ children, p child) → p (.node kind depth block children)) :
    ∀ n, p n
  | .absent => absent
  | .node kind depth block children =>
    node kind depth block children fun child _ => NodeSnapshot.induction absent node child

theorem listData_eq_map (ns : List NodeSnapshot) : listData ns = ns.map toData := by
  induction ns with
  | nil => rfl
  | cons n ns ih => rw [listData, ih, List.map_cons]

end NodeSnapshot

namespace NodeSheet

theorem snapshotAll_eq_map (ns : List NodeSheet) : snapshotAll ns = ns.map snapshot := by
  induction ns with
  | nil => rfl
  | cons n ns ih => rw [snapshotAll, ih, List.map_cons]

theorem length_pack_child_lt (kind : String) (depth : Int) (block : String) {child : NodeSnapshot}
    {children : List NodeSnapshot} (h : child ∈ children) :
    child.toData.pack.length < (NodeSnapshot.node kind depth block children).toData.pack.length := by
  have hdata : child.toData ∈ NodeSnapshot.listData children := by
    rw [NodeSnapshot.listData_eq_map]
    exact List.mem_map_of_mem h
  have hfield : ("children", .list (NodeSnapshot.listData children)) ∈
      Data.listField "children" (NodeSnapshot.listData children) := by
    rw [Data.listField, if_neg (by simpa using List.ne_nil_of_mem hdata)]
    exact List.mem_singleton_self _
  exact (length_pack_item_lt hdata).trans (length_pack_field_lt (List.mem_append_right _ hfield))

/-- A packed tree is read back at every level that is at least the number of its bytes. -/
theorem read?_packed (n : NodeSnapshot) {level : Nat} (hlevel : n.toData.pack.length ≤ level) :
    ∃ sheet, NodeSheet.read? level .absent n.toData.packed = some sheet ∧ sheet.snapshot = n := by
  induction n using NodeSnapshot.induction generalizing level with
  | absent => exact ⟨.absent, by simp [NodeSnapshot.toData, packed, NodeSheet.read?], rfl⟩
  | node kind depth block children ih =>
    obtain ⟨level, rfl⟩ := Nat.exists_eq_succ_of_ne_zero (Nat.lt_of_lt_of_le (length_pack_pos _) hlevel).ne'
    have inner : ∀ child ∈ children, ∃ sheet,
        NodeSheet.read? level .absent child.toData.packed = some sheet ∧ sheet.snapshot = child := by
      intro child hchild
      have hlt := length_pack_child_lt kind depth block hchild
      exact ih child hchild (by omega)
    obtain ⟨children?, hview, hsets⟩ := Sheaf.sets_listField inner
    refine ⟨ofParts { kind, depth, block, children? }, ?_, ?_⟩
    · rw [NodeSnapshot.toData, NodeSnapshot.listData_eq_map, NodeSheet.read?]
      · refine congrArg (Option.map ofParts) (Sets.record?_packed
          (.append (b := { kind, depth, block }) (.append (b := { kind, depth }) ?_ ?_) ?_))
        · exact .cons (b := { kind }) (by simp [parts]) (.field (by simp))
        · exact .leftOut (by simp) (by simp)
        · refine hsets (fun children? => ({ kind, depth, block, children? } : Parts)) ?_ rfl
          exact fun _ => rfl
      · simp [packed]
    · rw [ofParts, snapshot, snapshotAll_eq_map, hview]

/-- The field of a tree is left out when there is none. -/
theorem sets_field {n : NodeSnapshot} {name : String} {level : Nat}
    (hlevel : ∀ d, (name, d) ∈ n.field name → d.pack.length ≤ level) :
    ∃ sheet : NodeSheet, sheet.snapshot = n ∧
      ∀ {α : Type} {set : α → String → Packed → Option α} {a : α} (update : NodeSheet → α),
        (∀ p, set a name p = (NodeSheet.read? level .absent p).map update) → update .absent = a →
        Sets set a (n.field name) (update sheet) := by
  cases n with
  | absent =>
    refine ⟨.absent, rfl, fun update _ habsent => ?_⟩
    rw [habsent]
    exact .nil
  | node kind depth block children =>
    obtain ⟨sheet, hread, hview⟩ := read?_packed _ (hlevel _ (List.mem_singleton_self _))
    refine ⟨sheet, hview, fun update hset _ => .field ?_⟩
    rw [hset, hread, Option.map_some]

end NodeSheet

/-! ### Functions and modules -/

theorem Sheaf.getD_items {α : Type} (sheaf? : Option (Sheaf α)) :
    (sheaf?.map Sheaf.items).getD [] = (sheaf?.getD {}).items := by
  cases sheaf? <;> rfl

theorem FunctionSheet.read?_packed (f : FunctionSnapshot) {level : Nat}
    (hlevel : f.toData.pack.length ≤ level) :
    ∃ sheet, FunctionSheet.read? level {} f.toData.packed = some sheet ∧ sheet.snapshot = f := by
  obtain ⟨name, blocks, edges, tree, error⟩ := f
  obtain ⟨blocks?, hblocks, setsBlocks⟩ :=
    Sheaf.sets_listField fun (b : BlockSnapshot) (_ : b ∈ blocks) => ⟨b, b.read?_packed, id_eq b⟩
  obtain ⟨edges?, hedges, setsEdges⟩ :=
    Sheaf.sets_listField fun (e : EdgeSnapshot) (_ : e ∈ edges) => ⟨e, e.read?_packed, id_eq e⟩
  have htree : ∀ d, ("tree", d) ∈ tree.field "tree" → d.pack.length ≤ level := fun d hd =>
    (length_pack_field_lt (List.mem_append_left _ (List.mem_append_right _ hd))).le.trans hlevel
  obtain ⟨sheet, hsheet, setsTree⟩ := NodeSheet.sets_field htree
  refine ⟨{ name, blocks?, edges?, tree := sheet, error }, Sets.record?_packed
    (.append (b := { name, blocks?, edges?, tree := sheet })
    (.append (b := { name, blocks?, edges? }) (.append (b := { name, blocks? })
    (.append (b := { name }) ?_ ?_) ?_) ?_) ?_), ?_⟩
  · exact .field (by simp)
  · refine setsBlocks (fun blocks? => ({ name, blocks? } : FunctionSheet)) ?_ rfl
    exact fun _ => rfl
  · refine setsEdges (fun edges? => ({ name, blocks?, edges? } : FunctionSheet)) ?_ rfl
    exact fun _ => rfl
  · refine setsTree (fun tree => ({ name, blocks?, edges?, tree } : FunctionSheet)) ?_ rfl
    exact fun _ => rfl
  · exact .leftOut (by simp) (by simp)
  · rw [List.map_id] at hblocks hedges
    simp only [FunctionSheet.snapshot, Sheaf.getD_items, hblocks, hedges, hsheet]

theorem ModuleSheet.read?_packed (m : ModuleSnapshot) {level : Nat} (hlevel : m.toData.pack.length ≤ level) :
    ∃ sheet, ModuleSheet.read? level {} m.toData.packed = some sheet ∧ sheet.snapshot = m := by
  obtain ⟨source, functions?⟩ := m
  cases functions? with
  | none =>
    refine ⟨{ source }, Sets.record?_packed (.cons (b := { source }) ?_ (.field ?_)), rfl⟩
    · simp
    · simp [Data.listOrNone, Sheaf.read?]
  | some functions =>
    have inner : ∀ f ∈ functions, ∃ sheet,
        FunctionSheet.read? level {} f.toData.packed = some sheet ∧ sheet.snapshot = f := by
      intro f hf
      have hitem := length_pack_item_lt (List.mem_map_of_mem hf (f := FunctionSnapshot.toData))
      have hfield : (pack (.list (functions.map FunctionSnapshot.toData))).length <
          (ModuleSnapshot.mk source (some functions)).toData.pack.length :=
        length_pack_field_lt (List.mem_cons_of_mem _ List.mem_cons_self)
      exact FunctionSheet.read?_packed f (by omega)
    obtain ⟨items, hread, hview⟩ := Sheaf.read?_packed inner
    refine ⟨{ source, functions? := some ⟨items, []⟩ },
      Sets.record?_packed (.cons (b := { source }) ?_ (.field ?_)), ?_⟩
    · simp
    · simp only [Data.listOrNone, Option.map_some, Option.getD_some, hread]
    · simp only [ModuleSheet.snapshot, Option.map_some, hview]

theorem ModuleSnapshot.unpack?_pack {m : ModuleSnapshot} (hfits : m.toData.fits = true) (rest : List UInt8) :
    ModuleSnapshot.unpack? (m.toData.pack ++ rest) = some m := by
  have hlevel : m.toData.pack.length ≤ (m.toData.pack ++ rest).length := by simp
  obtain ⟨sheet, hread, hsheet⟩ := ModuleSheet.read?_packed m hlevel
  rw [ModuleSnapshot.unpack?, Data.read?_pack hfits]
  simp only [Option.bind_eq_bind, Option.bind_some, hread, Option.map_some, hsheet]

/-- Whatever a snapshot holds that fits the format, its bytes are read back as a snapshot, which is the same
one and has the same JSON text. -/
theorem msgpack_read_back (m : ModuleSnapshot) (hfits : m.toData.fits = true) :
    ∃ bytes read, Format.msgpack.encode? m = some bytes ∧ ModuleSnapshot.unpack? bytes = some read ∧
      read = m ∧ Format.json.encode? read = Format.json.encode? m := by
  have hread := ModuleSnapshot.unpack?_pack hfits []
  rw [List.append_nil] at hread
  exact ⟨m.toData.pack, m, rfl, hread, rfl, rfl⟩

/-- A name of more than 31 bytes, not all of them ASCII. -/
def distantSource : String := "größere Schleifen/mit Rücksprung/loop.spvasm"

theorem msgpack_read_back_loop :
    (ModuleSnapshot.ofAnalyses distantSource [Analysis.run loopSample]).toData.fits = true ∧
      (ModuleSnapshot.ofGraphs distantSource []).toData.fits = true ∧
      (∃ bytes read, Format.msgpack.encode? (.ofAnalyses distantSource [Analysis.run loopSample]) = some bytes ∧
        ModuleSnapshot.unpack? bytes = some read ∧
        read = .ofAnalyses distantSource [Analysis.run loopSample] ∧
        Format.json.encode? read = Format.json.encode? (.ofAnalyses distantSource [Analysis.run loopSample])) ∧
      ∃ bytes read, Format.msgpack.encode? (.ofGraphs distantSource []) = some bytes ∧
        ModuleSnapshot.unpack? bytes = some read ∧ read = .ofGraphs distantSource [] ∧
        Format.json.encode? read = Format.json.encode? (.ofGraphs distantSource []) := by
  have loop : (ModuleSnapshot.ofAnalyses distantSource [Analysis.run loopSample]).toData.fits = true := by cbv
  have empty : (ModuleSnapshot.ofGraphs distantSource []).toData.fits = true := by decide +kernel
  exact ⟨loop, empty, msgpack_read_back _ loop, msgpack_read_back _ empty⟩

end FlowTree
