import FlowTree.Proofs.Nested.Constructs
import Mathlib.Data.List.Pairwise

/-!
Structuring a switch of a nested program. Its cases have distinct first blocks, so each of them is found by its
target, and a case that falls goes on at the case right behind it. So the cases are in order already, and what
they leave together is what the switch goes on at.
-/

namespace FlowTree

open Sketch Structuring

namespace Nested

section
variable {g : FlowGraph} {entries : List Entry} {next : Id} {exits : List BlockId} {d : Draft}

/-- The labels of a case. -/
def Entry.labels (e : Entry) : List Id := (e.body.lower (some e.next)).map Segment.label

/-- The labels of a case behind its first one. -/
def Entry.laterLabels (e : Entry) : List Id := (e.body.lower (some e.next)).tail.map Segment.label

theorem Entry.labels_eq_cons (e : Entry) : e.labels = e.body.first :: e.laterLabels := by
  obtain ⟨s, rest, hlower, hlabel⟩ := e.body.exists_lower_eq_cons (some e.next)
  simp [labels, laterLabels, hlower, hlabel]

/-- The first labels of the cases, and behind them all others. -/
theorem perm_labels (entries : List Entry) :
    (entries.flatMap Entry.labels).Perm (entries.map (·.body.first) ++ entries.flatMap Entry.laterLabels) := by
  induction entries with
  | nil => simp
  | cons e entries ih =>
    rw [List.flatMap_cons, List.flatMap_cons, List.map_cons, e.labels_eq_cons, List.cons_append, List.cons_append]
    refine List.Perm.cons _ ((ih.append_left _).trans ?_)
    exact List.perm_append_comm_assoc ..

/-- The cases of a switch that goes on at the given label, with where their blocks are in the graph. -/
structure CaseSites (g : FlowGraph) (entries : List Entry) (next : Id) (exits : List BlockId) : Prop where
  known : ∀ e ∈ entries, ∀ l ∈ e.labels, g.Known l
  distinct : (entries.flatMap Entry.labels).Nodup
  apart : ∀ e ∈ entries, ∀ l ∈ e.labels, g.site l ∉ g.site next :: exits

/-- The blocks that the cases start with. -/
def caseTargets (g : FlowGraph) (entries : List Entry) : List BlockId := entries.map fun e => g.site e.body.first

theorem Entry.first_mem_labels (e : Entry) : e.body.first ∈ e.labels := e.labels_eq_cons ▸ List.mem_cons_self

namespace CaseSites
variable (h : CaseSites g entries next exits)
include h

theorem nodup_targets : (caseTargets g entries).Nodup := by
  have hfirsts := (perm_labels entries).nodup_iff.mp h.distinct
  rw [List.nodup_append'] at hfirsts
  have hinj : ∀ l ∈ entries.map (·.body.first), ∀ l' ∈ entries.map (·.body.first), g.site l = g.site l' → l = l' := by
    intro l hl l' hl' heq
    obtain ⟨e, he, rfl⟩ := List.mem_map.mp hl
    obtain ⟨e', he', rfl⟩ := List.mem_map.mp hl'
    exact (h.known e he _ e.first_mem_labels).site_inj (h.known e' he' _ e'.first_mem_labels) heq
  have hnodup := hfirsts.1.map_on hinj
  rw [List.map_map] at hnodup
  exact hnodup

/-- A case is known by the block that it starts with. -/
theorem entry_unique {e e' : Entry} (he : e ∈ entries) (he' : e' ∈ entries)
    (heq : g.site e.body.first = g.site e'.body.first) : e = e' :=
  List.inj_on_of_nodup_map h.nodup_targets he he' heq

theorem targets_apart : ∀ t ∈ caseTargets g entries, t ∉ g.site next :: exits := by
  intro t ht
  obtain ⟨e, he, rfl⟩ := List.mem_map.mp ht
  exact h.apart e he _ e.first_mem_labels

theorem next_not_target : g.site next ∉ caseTargets g entries := fun hmem =>
  h.targets_apart _ hmem List.mem_cons_self

/-- Only the first block of a case is an exit of the spans of the cases. -/
theorem later_apart {e : Entry} (he : e ∈ entries) {s : Segment} (hs : s ∈ (e.body.lower (some e.next)).tail) :
    g.site s.label ∉ caseTargets g entries ++ g.site next :: exits := by
  have hlater : s.label ∈ e.laterLabels := List.mem_map_of_mem hs
  have hlabel : s.label ∈ e.labels := e.labels_eq_cons ▸ List.mem_cons_of_mem _ hlater
  rw [List.mem_append, not_or]
  refine ⟨fun hmem => ?_, h.apart e he _ hlabel⟩
  obtain ⟨e', he', heq⟩ := List.mem_map.mp hmem
  have hsame := (h.known e' he' _ e'.first_mem_labels).site_inj (h.known e he _ hlabel) heq
  have hdisjoint := (List.nodup_append'.mp ((perm_labels entries).nodup_iff.mp h.distinct)).2.2
  exact hdisjoint (List.mem_map.mpr ⟨e', he', hsame⟩) (List.mem_flatMap.mpr ⟨e, he, hlater⟩)

/-- Different cases have no label in common. -/
theorem label_unique {e e' : Entry} (he : e ∈ entries) (he' : e' ∈ entries) {l : Id} (hl : l ∈ e.labels)
    (hl' : l ∈ e'.labels) : e = e' := by
  by_contra hne
  have hpairs := (List.nodup_flatMap.mp h.distinct).2
  have : Std.Symm (Function.onFun List.Disjoint Entry.labels) := ⟨fun _ _ hd => List.disjoint_symm hd⟩
  exact hpairs.forall he he' hne hl hl'

end CaseSites

/-! ### Drawn cases -/

/-- The span from the first block of a case. -/
def CaseSpan (g : FlowGraph) (entries : List Entry) : SpanRelation := fun _ t parts loose =>
  ∃ e ∈ entries, t = g.site e.body.first ∧ parts.map (Sketch.shape g) = e.body.shapes ∧ loose.Leaves [g.site e.next]

/-- The case as it is drawn. It falls where it goes on at another case. -/
structure CaseDrawn (g : FlowGraph) (entries : List Entry) (e : Entry) (a : ArmPieces) : Prop where
  target_eq : a.target = g.site e.body.first
  shapes_eq : (a.pieces.map Piece.sketch).map (Sketch.shape g) = e.body.shapes
  leaves : a.loose.Leaves [g.site e.next]
  falls_eq : a.fallsInto? = if g.site e.next ∈ caseTargets g entries then some (g.site e.next) else none

theorem CaseSites.entry_at (h : CaseSites g entries next exits) {around : List BlockId} {as : List ArmPieces}
    (parsed : List.Forall₂ (fun t a => ArmOf (CaseSpan g entries) (caseTargets g entries) around t a.sketch)
      (caseTargets g entries) as) {i : Nat} {a : ArmPieces} (ha : as[i]? = some a) :
    ∃ e, entries[i]? = some e ∧ CaseDrawn g entries e a := by
  obtain ⟨t, ht, harm⟩ := getElem?_of_forall₂ parsed ha
  rw [caseTargets, List.getElem?_map] at ht
  obtain ⟨e, he, rfl⟩ := Option.map_eq_some_iff.mp ht
  obtain ⟨e', he', heq, hshapes, hleaves⟩ := harm.span
  obtain rfl := h.entry_unique (List.mem_of_getElem? he) he' heq
  refine ⟨e, he, harm.target_eq, hshapes, hleaves, ?_⟩
  have hfalls := harm.falls
  rw [hleaves.targetList_eq] at hfalls
  split
  · rename_i hmem
    rw [List.filter_cons_of_pos (by simpa using hmem), List.filter_nil] at hfalls
    exact (Option.toList_eq_singleton_iff.mp hfalls.symm)
  · rename_i hmem
    rw [List.filter_cons_of_neg (by simpa using hmem), List.filter_nil] at hfalls
    exact Option.toList_eq_nil_iff.mp hfalls.symm

/-- What a case leaves to the switch. -/
theorem CaseDrawn.leaves_exits {e : Entry} {a : ArmPieces} (h : CaseDrawn g entries e a) :
    a.sketch.exits.Leaves (if g.site e.next ∈ caseTargets g entries then [] else [g.site e.next]) := by
  have hfalls := h.falls_eq
  have hleaves := h.leaves
  split at hfalls
  · rename_i hmem
    have hexits : a.sketch.exits = a.loose.remove (g.site e.next) := by simp [ArmSketch.exits, ArmPieces.sketch, hfalls]
    rw [hexits, if_pos hmem]
    exact (hleaves.remove _).congr fun t => by simp
  · rename_i hmem
    have hexits : a.sketch.exits = a.loose := by simp [ArmSketch.exits, ArmPieces.sketch, hfalls]
    rw [hexits, if_neg hmem]
    exact hleaves

section
variable {cases : Cases} {around : List BlockId} {as : List ArmPieces}
  (h : CaseSites g (cases.entries next) next exits)
  (parsed : List.Forall₂ (fun t a => ArmOf (CaseSpan g (cases.entries next)) (caseTargets g (cases.entries next)) around t
    a.sketch) (caseTargets g (cases.entries next)) as)
include h parsed

/-- The cases are in order: one that falls goes on at the case behind it. -/
theorem direct_cases : SwitchArm.Direct (as.map ArmPieces.arm) := by
  intro i arm t harm hfalls
  rw [List.getElem?_map] at harm
  obtain ⟨a, ha, rfl⟩ := Option.map_eq_some_iff.mp harm
  obtain ⟨e, he, hdrawn⟩ := h.entry_at parsed ha
  have hfalls' := hdrawn.falls_eq.symm.trans hfalls
  split at hfalls'
  · rename_i hmem
    cases hfalls'
    rcases cases.next_entries next he with hnext | ⟨e', he', hnext⟩
    · exact absurd (hnext ▸ hmem) h.next_not_target
    · have hlt : i + 1 < as.length := by
        rw [← parsed.length_eq, caseTargets, List.length_map]
        exact (List.getElem?_eq_some_iff.mp he').1
      obtain ⟨e'', he'', hdrawn'⟩ := h.entry_at parsed (List.getElem?_eq_getElem hlt)
      rw [he'] at he''
      cases he''
      exact ⟨as[i + 1].arm, by simp [hlt], hdrawn'.target_eq.trans (congrArg g.site hnext.symm)⟩
  · cases hfalls'

theorem order_cases : SwitchArm.order (as.map ArmPieces.arm) = .ok (as.map ArmPieces.arm) :=
  SwitchArm.order_eq_self (wired_of_parsed h.nodup_targets parsed) (direct_cases h parsed)

/-- The nodes of the cases look like the cases. -/
theorem shapes_cases : (as.map (·.sketch.sketch)).map (Sketch.shape g) = cases.shapes := by
  rw [cases.shapes_eq_map next, List.map_map]
  refine List.ext_getElem? fun i => ?_
  rw [List.getElem?_map, List.getElem?_map]
  have hlength : as.length = (cases.entries next).length := by
    rw [← parsed.length_eq, caseTargets, List.length_map]
  cases ha : as[i]? with
  | none =>
    rw [List.getElem?_eq_none_iff, hlength, ← List.getElem?_eq_none_iff] at ha
    rw [ha]
    rfl
  | some a =>
    obtain ⟨e, he, hdrawn⟩ := h.entry_at parsed ha
    rw [he]
    simp [ArmSketch.sketch, ArmPieces.sketch, ← hdrawn.shapes_eq]

/-- The switch leaves for what it goes on at: each case that does not fall does, and the last one does not. -/
theorem leaves_cases (b : BlockId) :
    (switchExits g b (caseTargets g (cases.entries next)) (g.site next :: exits) (as.map (·.sketch))).Leaves
      [g.site next] := by
  have hdirect : (caseTargets g (cases.entries next)).filter (· ∈ g.site next :: exits) = [] := by
    rw [List.filter_eq_nil_iff]
    intro t ht
    simpa using h.targets_apart t ht
  have hexits : ∀ a ∈ as, a.sketch.exits.Leaves (if a.fallsInto?.isSome then [] else [g.site next]) := by
    intro a ha
    obtain ⟨i, hi⟩ := List.mem_iff_getElem?.mp ha
    obtain ⟨e, he, hdrawn⟩ := h.entry_at parsed hi
    have hleaves := hdrawn.leaves_exits
    rw [hdrawn.falls_eq]
    split
    · rename_i hmem
      simpa [hmem] using hleaves
    · rename_i hmem
      rw [if_neg hmem] at hleaves
      rcases cases.next_entries next he with hnext | ⟨e', he', hnext⟩
      · simpa [hnext] using hleaves
      · exact absurd (List.mem_map.mpr ⟨e', List.mem_of_getElem? he', congrArg g.site hnext.symm⟩) hmem
  -- The default case goes on behind the switch, so that there is a way out.
  obtain ⟨last, hlast, hstays⟩ : ∃ a ∈ as, a.fallsInto? = none := by
    obtain ⟨e, he, hnext⟩ := cases.exists_default next
    obtain ⟨i, hi⟩ := List.mem_iff_getElem?.mp he
    have hlt : i < as.length := by
      rw [← parsed.length_eq, caseTargets, List.length_map]
      exact (List.getElem?_eq_some_iff.mp hi).1
    obtain ⟨e', he', hdrawn⟩ := h.entry_at parsed (List.getElem?_eq_getElem hlt)
    rw [hi] at he'
    cases he'
    refine ⟨as[i], List.getElem_mem hlt, ?_⟩
    rw [hdrawn.falls_eq, hnext, if_neg h.next_not_target]
  rw [switchExits, hdirect, List.foldl_map]
  refine (leaves_foldl_merge hexits (Exits.leaves_nil [])).congr fun t => ?_
  simp only [List.nil_append, List.mem_flatMap, List.mem_singleton]
  constructor
  · rintro ⟨a, -, ht⟩
    split at ht
    · cases ht
    · exact List.mem_singleton.mp ht
  · rintro rfl
    exact ⟨last, hlast, by simp [hstays]⟩

end

/-! ### Switches -/

section
variable {header : Opening} {selector : Id} {cases : Cases}

theorem Waits.caseSites (hw : Waits g (cases.lower next) d) (hapart : ∀ s ∈ cases.lower next, g.site s.label ∉ exits)
    (hknown : g.Known next) (hnew : next ∉ (cases.lower next).map Segment.label) :
    CaseSites g (cases.entries next) next exits := by
  have hlabels : (cases.entries next).flatMap Entry.labels = (cases.lower next).map Segment.label := by
    rw [cases.lower_eq_flatMap next, List.map_flatMap]
    rfl
  have hsegment : ∀ e ∈ cases.entries next, ∀ l ∈ e.labels, ∃ s ∈ cases.lower next, s.label = l := by
    intro e he l hl
    exact List.mem_map.mp (hlabels ▸ List.mem_flatMap.mpr ⟨e, he, hl⟩)
  refine ⟨fun e he l hl => ?_, hlabels ▸ hw.distinct, fun e he l hl => ?_⟩
  · obtain ⟨s, hs, rfl⟩ := hsegment e he l hl
    exact (hw.hosted s hs).known
  · obtain ⟨s, hs, rfl⟩ := hsegment e he l hl
    rw [List.mem_cons, not_or]
    exact ⟨hw.site_ne hs hknown fun heq => hnew (List.mem_map.mpr ⟨s, hs, heq⟩), hapart s hs⟩

/-- The targets of the switch are the first blocks of its cases. -/
theorem CaseSites.switchTargets_eq (h : CaseSites g (cases.entries next) next exits) :
    switchTargets (cases.branches.map fun case => g.site case.target) (g.site cases.defaultLabel) =
      caseTargets g (cases.entries next) := by
  have htargets : caseTargets g (cases.entries next) =
      (cases.branches.map fun case => g.site case.target) ++ [g.site cases.defaultLabel] := by
    have := congrArg (List.map g.site) (cases.targets_eq_map next)
    rw [List.map_append, List.map_map, List.map_map] at this
    exact this.symm
  have hnodup := h.nodup_targets
  rw [htargets, List.nodup_append'] at hnodup
  have hfilter : (cases.branches.map fun case => g.site case.target).filter (· ≠ g.site cases.defaultLabel) =
      cases.branches.map fun case => g.site case.target := by
    rw [List.filter_eq_self]
    intro t ht
    have hne : t ≠ g.site cases.defaultLabel := fun heq => hnodup.2.2 ht (List.mem_singleton.mpr heq)
    simpa using hne
  rw [switchTargets, hfilter, eraseDups_eq_self hnodup.1, htargets]

/-- The span of a case, after those of the cases before it. -/
theorem case_runs (h : CaseSites g (cases.entries next) next exits) (hw : Waits g (cases.lower next) d)
    (hknown : g.Known next) (hcases : ∀ e ∈ cases.entries next, Nests g e.body (some e.next)) {budget depth : Nat}
    (hlength : d.unvisited.length < budget) {done rest : List BlockId} {t : BlockId} {as : List ArmPieces} {d' : Draft}
    (hitems : caseTargets g (cases.entries next) = done ++ t :: rest)
    (hdone : List.Forall₂ (fun t a => ArmOf (CaseSpan g (cases.entries next)) (caseTargets g (cases.entries next))
      (g.site next :: exits) t a.sketch) done as)
    (hvisited : Visited g never d (blocksOf (as.flatMap (·.sketch.parts))) d') :
    Runs (span g budget t (caseTargets g (cases.entries next) ++ g.site next :: exits) depth) d' depth
      (CaseSpan g (cases.entries next) (caseTargets g (cases.entries next) ++ g.site next :: exits) t) never := by
  have ht : t ∈ caseTargets g (cases.entries next) := hitems ▸ by simp
  obtain ⟨e, he, rfl⟩ := List.mem_map.mp ht
  have hsub : (e.body.lower (some e.next)).Sublist (cases.lower next) := by
    rw [cases.lower_eq_flatMap next, List.flatMap_def]
    exact List.sublist_flatten_of_mem (List.mem_map_of_mem he)
  have hwaits : Waits g (e.body.lower (some e.next)) d' := by
    refine hw.later hsub hvisited fun s hs hmem => ?_
    -- The block would be one of a case before this one, and that case would start where this one does.
    obtain ⟨b, hb, hlabel⟩ := List.mem_map.mp hmem
    obtain ⟨part, hpart, hb⟩ := mem_blocksOf.mp hb
    obtain ⟨a, ha, hpart⟩ := List.mem_flatMap.mp hpart
    obtain ⟨t, ht, harm⟩ := exists_of_mem_right hdone ha
    obtain ⟨e', he', rfl, hshapes, -⟩ := harm.span
    have hlabels : (blocksOf a.sketch.parts).map g.labelOf = e'.labels := by
      rw [← Sketch.labelsOf_shapes, hshapes]
      exact e'.body.labelsOf_shapes (some e'.next)
    have hl' : s.label ∈ e'.labels := by
      rw [← hlabels, ← hlabel]
      exact List.mem_map_of_mem (mem_blocksOf.mpr ⟨part, hpart, hb⟩)
    obtain rfl := h.label_unique he he' (List.mem_map_of_mem hs) hl'
    have hnodup := h.nodup_targets
    rw [hitems, List.nodup_append'] at hnodup
    exact hnodup.2.2 ht List.mem_cons_self
  have hnext : g.Known e.next ∧ g.site e.next ∈ caseTargets g (cases.entries next) ++ g.site next :: exits := by
    obtain ⟨i, hi⟩ := List.mem_iff_getElem?.mp he
    rcases cases.next_entries next hi with hnext | ⟨e', he', hnext⟩
    · rw [hnext]
      exact ⟨hknown, List.mem_append_right _ List.mem_cons_self⟩
    · have hmem := List.mem_of_getElem? he'
      rw [hnext]
      exact ⟨h.known e' hmem _ e'.first_mem_labels, List.mem_append_left _ (List.mem_map.mpr ⟨e', hmem, rfl⟩)⟩
  refine (hcases e he hwaits (fun s hs => h.later_apart he hs) (by simpa using hnext)
    (hvisited.length_lt hlength)).imp fun parts loose ⟨hparts, hloose⟩ => ⟨e, he, rfl, hparts, hloose⟩

theorem opens_switch (hg : g.Linked) (hcases : ∀ e ∈ cases.entries next, Nests g e.body (some e.next)) :
    Opens g (.switch header selector cases) next := by
  intro budget exits depth d hw hapart hknown hnew hlength
  rw [Item.lower] at hw hapart hnew
  rw [List.map_cons, List.mem_cons, not_or] at hnew
  have hheader := hw.hosted _ List.mem_cons_self
  refine selection_runs hg hw rfl rfl hknown (Or.inr rfl) hlength fun d₁ block found ends hrest hlength₁ hdrawn =>
    ⟨fun h => (by cases h), fun _ => ?_⟩
  have hsites := hrest.caseSites hapart hknown hnew.2
  have hlabelsKnown : ∀ l ∈ cases.branches.map (·.target) ++ [cases.defaultLabel], g.Known l := by
    intro l hl
    rw [cases.targets_eq_map next] at hl
    obtain ⟨e, he, rfl⟩ := List.mem_map.mp hl
    exact hsites.known e he _ e.first_mem_labels
  have hdefault : g.Known cases.defaultLabel := hlabelsKnown _ (by simp)
  have hresolved : cases.branches.mapM (fun case => g.blockOf? case.target) =
      some (cases.branches.map fun case => g.site case.target) :=
    mapM_some_forall₂ (List.forall₂_map_right_iff.mpr (List.forall₂_same.mpr fun case hcase =>
      hlabelsKnown _ (List.mem_append_left _ (List.mem_map_of_mem hcase))))
  have htargets : caseTargets g (cases.entries next) =
      (switchTargets (cases.branches.map fun case => g.site case.target) (g.site cases.defaultLabel)).filter
        (· ∉ g.site next :: exits) := by
    rw [hsites.switchTargets_eq, eq_comm, List.filter_eq_self]
    intro t ht
    simpa using hsites.targets_apart t ht
  refine (switch_runs (R := CaseSpan g (cases.entries next)) hg
    (switchCases?_branchSwitch selector cases.defaultLabel cases.branches) hdefault hresolved htargets hw.ready hdrawn
    ?_ ?_ ?_ ?_).imp ?_
  · intro done t rest as d' hitems hdone hvisited
    exact case_runs hsites hrest hknown hcases hlength₁ hitems hdone hvisited
  · rintro t parts loose ⟨e, -, -, hshapes, -⟩ rfl
    exact e.body.shapes_ne_nil hshapes.symm
  · rintro t parts loose ⟨e, -, -, -, hloose⟩ hmany
    -- A body leaves for one label, so that it falls into one case at most.
    rw [hloose.targetList_eq] at hmany
    exact absurd hmany (Nat.not_lt.mpr (List.length_filter_le _ [_]))
  · intro as parsed e horder
    rw [order_cases hsites parsed] at horder
    cases horder
  · rintro sketch loose ⟨as, as', parsed, hperm, horder, rfl, rfl⟩
    -- The cases are lowered in an order that ordering keeps.
    obtain rfl : as' = as := by
      rw [order_cases hsites parsed, Except.ok.injEq] at horder
      have hsame : as'.map (·.target) = as.map (·.target) := by
        have := congrArg (List.map SwitchArm.target) horder
        rw [List.map_map, List.map_map] at this
        exact this.symm
      exact eq_of_perm_of_map_eq hperm hsame (targets_eq_of_parsed parsed ▸ hsites.nodup_targets)
    rw [hsites.switchTargets_eq]
    refine ⟨?_, leaves_cases hsites parsed _⟩
    have hlabel : g.labelOf (g.site (Item.switch header selector cases).label) = header.label :=
      hheader.known.labelOf_site
    rw [shape_node, List.map_cons, shapes_cases hsites parsed, shape_block, hlabel, Item.shape]

end

end

end Nested
end FlowTree
