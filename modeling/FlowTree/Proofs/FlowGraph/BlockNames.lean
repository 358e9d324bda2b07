import FlowTree.Proofs.FlowGraph.Grammar
import FlowTree.Proofs.Function.Segments

/-!
The names of blocks. A label goes by the name that its id is bound to, and by its number if it is bound to none. In a
function that comes from a text only the id zero can be without a name, that of a label without a result, and names are
bound to one id each. So the names of blocks are distinct, except that a label without a result goes by the name of a
label called `0` (`nodup_names_iff`).
-/

namespace FlowTree

open Assembly

theorem NameTable.eq_of_name?_eq {t : NameTable} {name : String} {a b : Id} (hnames : (t.entries.map (·.1)).Nodup)
    (ha : t.name? a = some name) (hb : t.name? b = some name) : a = b :=
  congrArg Prod.snd (List.inj_on_of_nodup_map hnames (mem_of_name? ha) (mem_of_name? hb) rfl)

namespace Function

/-- No name is bound twice, and every result has a name. -/
structure WellNamed (f : Function) : Prop where
  names : (f.names.entries.map (·.1)).Nodup
  results : ∀ i ∈ f.instructions, i.result = 0 ∨ ∃ name, f.names.id? name = some i.result

/-- A label without a result, which goes by the number zero, stands beside a label that is called `0`. -/
def SharesZero (f : Function) : Prop :=
  f.Defines 0 ∧ f.names.name? 0 = none ∧ ∃ l, f.Defines l ∧ f.names.name? l = some "0"

theorem WellNamed.of_addStatements (file : String) {b : Builder} (hb : b.instructions = [])
    (hnames : (b.naming.table.entries.map (·.1)).Nodup) (ss : List Statement) :
    (b.addStatements file ss).function.WellNamed := by
  obtain ⟨is, hfunction, -, hlowers⟩ := b.function_addStatements file ss
  have hkept : ((b.addStatements file ss).naming.table.entries.map (·.1)).Nodup :=
    Builder.addStatements_keeps (P := fun n => (n.table.entries.map (·.1)).Nodup)
      (fun _ name h => Naming.nodup_names_resolve h name) hnames
  rw [hfunction, hb, List.nil_append]
  refine ⟨hkept, fun i hi => ?_⟩
  obtain ⟨s, -, hs⟩ := exists_of_mem_right hlowers hi
  have hresult := hs.result
  unfold Statement.ResultIs at hresult
  split at hresult
  · exact Or.inr ⟨_, hresult⟩
  · exact Or.inl hresult

end Function

theorem nodup_names_openBuilder (s : Statement) : ((openBuilder s).naming.table.entries.map (·.1)).Nodup := by
  unfold openBuilder
  split
  · exact Naming.nodup_names_resolve (n := {}) .nil _
  · exact .nil

theorem wellNamed_of_ofText {file : String} {source : Text} {m : Module} (h : (Module.ofText file source).1 = some m)
    {f : Function} (hf : f ∈ m.functions) : f.WellNamed := by
  unfold Module.ofText at h
  split at h
  · cases h
  · rename_i p hparse
    obtain rfl : (Module.lower file p).1 = m := Option.some.inj h
    obtain ⟨b, ss, hb, -, rfl⟩ := exists_builder_of_lower (line_pos_of_parse hparse) hf
    rcases hb with rfl | ⟨opener, rfl⟩
    · exact .of_addStatements file (b := .start "main") rfl .nil ss
    · exact .of_addStatements file (resultIs_openBuilder opener).1 (nodup_names_openBuilder opener) ss

namespace Function

variable {f : Function} {l l' : Id}

/-- A label has a name, or it is zero and goes by its number. -/
theorem WellNamed.label_cases (h : f.WellNamed) (hl : f.Defines l) :
    (∃ name, f.names.name? l = some name ∧ f.nameOf l = name) ∨
      l = 0 ∧ f.names.name? 0 = none ∧ f.nameOf l = "0" := by
  obtain ⟨i, hi, -, rfl⟩ := hl
  cases hname : f.names.name? i.result with
  | some name => exact Or.inl ⟨name, rfl, by rw [nameOf, NameTable.nameOf, hname, Option.getD_some]⟩
  | none =>
    rcases h.results i hi with hzero | ⟨name, hid⟩
    · rw [hzero] at hname ⊢
      exact Or.inr ⟨rfl, hname, by rw [nameOf, NameTable.nameOf, hname]; rfl⟩
    · obtain ⟨name', hname'⟩ := NameTable.exists_name?_of_id? hid
      rw [hname] at hname'
      cases hname'

theorem WellNamed.eq_of_nameOf_eq (h : f.WellNamed) (hshares : ¬f.SharesZero) (hl : f.Defines l) (hl' : f.Defines l')
    (heq : f.nameOf l = f.nameOf l') : l = l' := by
  rcases h.label_cases hl with ⟨name, hname, hof⟩ | ⟨rfl, hnone, hof⟩ <;>
    rcases h.label_cases hl' with ⟨name', hname', hof'⟩ | ⟨rfl, hnone', hof'⟩
  · rw [hof, hof'] at heq
    exact NameTable.eq_of_name?_eq h.names hname (heq ▸ hname')
  · rw [hof, hof'] at heq
    exact absurd ⟨hl', hnone', l, hl, heq ▸ hname⟩ hshares
  · rw [hof, hof'] at heq
    exact absurd ⟨hl, hnone, l', hl', heq ▸ hname'⟩ hshares
  · rfl

theorem SharesZero.exists_ne (h : f.SharesZero) : ∃ l, f.Defines 0 ∧ f.Defines l ∧ l ≠ 0 ∧ f.nameOf l = f.nameOf 0 := by
  obtain ⟨hzero, hnone, l, hl, hname⟩ := h
  refine ⟨l, hzero, hl, ?_, ?_⟩
  · rintro rfl
    rw [hnone] at hname
    cases hname
  · rw [nameOf, nameOf, NameTable.nameOf, NameTable.nameOf, hname, hnone]
    rfl

end Function

namespace FlowGraph

variable {f : Function} {g : FlowGraph}

/-- Blocks have names of their own unless two labels share the name `0`. -/
theorem nodup_names_iff (hnamed : f.WellNamed) (h : build f = .ok g) :
    (g.blocks.toList.map (·.name)).Nodup ↔ ¬f.SharesZero := by
  obtain ⟨blocks, links, hcut, -, -⟩ := build_eq_ok h
  obtain ⟨groups, trailing, hparses, -⟩ := exists_parses hcut
  have hdefines : ∀ l, f.Defines l ↔ l ∈ groups.map (·.code.label.result) := fun l => by
    rw [defines_iff hparses, List.map_map]
    rfl
  have hnames : g.blocks.toList.map (·.name) = (groups.map (·.code.label.result)).map f.nameOf := by
    rw [blocks_of_parses h hparses, List.map_map, List.map_map]
    rfl
  rw [hnames, List.nodup_map_iff_inj_on hparses.distinct]
  constructor
  · intro hinj hshares
    obtain ⟨l, hzero, hl, hne, heq⟩ := hshares.exists_ne
    exact hne (hinj l ((hdefines l).mp hl) 0 ((hdefines 0).mp hzero) heq)
  · intro hshares l hl l' hl' heq
    exact hnamed.eq_of_nameOf_eq hshares ((hdefines l).mpr hl) ((hdefines l').mpr hl') heq

end FlowGraph

end FlowTree
