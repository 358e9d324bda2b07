import FlowTree.Proofs.Tree.Exits
import FlowTree.Proofs.Tree.Sketch

/-!
What a sketch says about the control flow in it. Every edge out of a block of a span leads to a block of
the span or is among its loose ends, every loose end is such an edge, and every block of the span is
reached from its start. No block of a span is an exit of what is around it, except that a switch case may
start at one. The facts about a construct follow from those about the spans in it.
-/

namespace FlowTree

open Sketch Structuring

theorem records_mergeAll {spans : List SpanSketch} {v : BlockId} {e : EdgeId} :
    (mergeAll {} spans).Records v e ↔ ∃ span ∈ spans, span.2.Records v e := by
  unfold mergeAll
  rw [Exits.records_foldl (p := fun span v e => span.2.Records v e) fun _ _ _ _ => Exits.records_merge]
  simp

theorem neat_mergeAll (spans : List SpanSketch) : (mergeAll {} spans).Neat :=
  List.foldlRecOn (motive := Exits.Neat) spans _ (Exits.neat_nil []) fun _ hx span _ => hx.merge span.2

theorem mem_blocksOf_flatMap {spans : List SpanSketch} {f : SpanSketch → List Sketch}
    (hf : ∀ span, blocksOf (f span) = blocksOf span.1) {b : BlockId} :
    b ∈ blocksOf (spans.flatMap f) ↔ ∃ span ∈ spans, b ∈ blocksOf span.1 := by
  induction spans with
  | nil => simp
  | cons span spans ih => simp [ih, hf]

theorem records_kept {exits : List BlockId} {x : BlockExits} {v : BlockId} {e : EdgeId} :
    (kept exits x).Records v e ↔ x.Records v e ∧ v ∈ exits := by
  simp only [kept, Exits.Records, List.mem_filter, decide_eq_true_eq]
  constructor
  · rintro ⟨edges, ⟨hmem, hv⟩, he⟩
    exact ⟨⟨edges, hmem, he⟩, hv⟩
  · rintro ⟨⟨edges, hmem, he⟩, hv⟩
    exact ⟨edges, ⟨hmem, hv⟩, he⟩

theorem neat_kept {exits : List BlockId} {x : BlockExits} (hx : x.Neat) : (kept exits x).Neat := hx.filter _

theorem mem_onward {exits : List BlockId} {x : BlockExits} {v : BlockId} :
    v ∈ onward exits x ↔ v ∈ x.targetList ∧ v ∉ exits := by
  simp [onward]

/-- A span goes on at a loose end that is no exit, and at no other. -/
theorem of_onward_eq {exits : List BlockId} {x : BlockExits} {next : BlockId} (h : onward exits x = [next]) :
    next ∈ x.targetList ∧ next ∉ exits ∧ ∀ v e, x.Records v e → v ∉ exits → v = next := by
  have hnext : next ∈ x.targetList ∧ next ∉ exits := mem_onward.mp (h ▸ List.mem_singleton_self next)
  refine ⟨hnext.1, hnext.2, fun v e he hv => ?_⟩
  have hon : v ∈ onward exits x := mem_onward.mpr ⟨he.mem_targetList, hv⟩
  rwa [h, List.mem_singleton] at hon

/-- What is neither kept nor gone on at is no loose end. -/
theorem not_records_of_kept {exits : List BlockId} {x : BlockExits} {v : BlockId}
    (hkept : ∀ e, ¬(kept exits x).Records v e) (hon : v ∉ onward exits x) : ∀ e, ¬x.Records v e := by
  intro e he
  by_cases hexit : v ∈ exits
  · exact hkept e (records_kept.mpr ⟨he, hexit⟩)
  · exact hon (mem_onward.mpr ⟨he.mem_targetList, hexit⟩)

theorem records_plainExits {g : FlowGraph} {b v : BlockId} {e : EdgeId} :
    (plainExits g b).Records v e ↔ (v, e) ∈ g.transfers b := by
  unfold plainExits
  rw [Exits.records_foldl (p := fun transfer v e => v = transfer.1 ∧ e = transfer.2) fun _ _ _ _ => Exits.records_add]
  constructor
  · rintro (h | ⟨transfer, hmem, rfl, rfl⟩)
    · exact absurd h (Exits.not_records_nil _ _ _)
    · exact hmem
  · exact fun h => Or.inr ⟨(v, e), h, rfl, rfl⟩

theorem neat_plainExits (g : FlowGraph) (b : BlockId) : (plainExits g b).Neat :=
  List.foldlRecOn (motive := Exits.Neat) (g.transfers b) _ (Exits.neat_nil []) fun _ hx transfer _ =>
    hx.add transfer.1 transfer.2

theorem records_directExits {g : FlowGraph} {b v : BlockId} {e : EdgeId} {targets : List BlockId} :
    (directExits g b targets).Records v e ↔ v ∈ targets ∧ g.edgeBetween? b v = some e := by
  unfold directExits
  rw [Exits.records_foldl (p := fun t v e => v = t ∧ e ∈ (g.edgeBetween? b t).toList)
    fun _ _ _ _ => Exits.records_addAll]
  constructor
  · rintro (h | ⟨t, ht, rfl, he⟩)
    · exact absurd h (Exits.not_records_nil _ _ _)
    · exact ⟨ht, Option.mem_toList.mp he⟩
  · rintro ⟨ht, he⟩
    exact Or.inr ⟨v, ht, rfl, Option.mem_toList.mpr he⟩

theorem records_switchExits {g : FlowGraph} {b v : BlockId} {e : EdgeId} {targets exits : List BlockId}
    {arms : List ArmSketch} : (switchExits g b targets exits arms).Records v e ↔
      (v ∈ targets ∧ v ∈ exits ∧ g.edgeBetween? b v = some e) ∨ ∃ a ∈ arms, a.exits.Records v e := by
  unfold switchExits
  rw [Exits.records_foldl (p := fun a v e => a.exits.Records v e) fun _ _ _ _ => Exits.records_merge,
    records_directExits]
  simp [and_assoc]

theorem neat_switchExits (g : FlowGraph) (b : BlockId) (targets exits : List BlockId) (arms : List ArmSketch) :
    (switchExits g b targets exits arms).Neat := by
  refine List.foldlRecOn (motive := Exits.Neat) arms _ ?_ fun _ hx a _ => hx.merge a.exits
  exact List.foldlRecOn (motive := Exits.Neat) _ _ (Exits.neat_nil []) fun _ hx t _ => hx.addAll t _

/-- The control flow in some blocks with their loose ends: the blocks are those that are reached from the
start, and the loose ends are the edges that are not followed further. -/
structure Flow (g : FlowGraph) (start : BlockId) (blocks : List BlockId) (loose : BlockExits) : Prop where
  start_mem : start ∈ blocks
  closed : ∀ u ∈ blocks, ∀ v e, (v, e) ∈ g.transfers u → v ∈ blocks ∨ loose.Records v e
  sourced : ∀ v e, loose.Records v e → ∃ u ∈ blocks, (v, e) ∈ g.transfers u
  neat : loose.Neat
  reached : ∀ b ∈ blocks, g.Leads start b

/-- What holds of a span. -/
structure SpanFacts (g : FlowGraph) (exits : List BlockId) (start : BlockId) (parts : List Sketch)
    (loose : BlockExits) : Prop extends Flow g start (blocksOf parts) loose where
  head : ∃ s rest, parts = s :: rest ∧ s.first = start ∧ start ∈ s.blocks
  outside : ∀ b ∈ blocksOf parts, b ∈ exits → b = start
  targets : ∀ v e, loose.Records v e → v ∈ exits

/-- What holds of a block and the construct that it opens. -/
structure ConstructFacts (g : FlowGraph) (exits : List BlockId) (b : BlockId) (sketch : Sketch)
    (loose : BlockExits) : Prop extends Flow g b sketch.blocks loose where
  first_eq : sketch.first = b
  outside : ∀ b' ∈ sketch.blocks, b' ∈ exits → b' = b

/-- What holds of a span that is entered by edges: these are loose ends where the span is empty. -/
structure EntryFacts (g : FlowGraph) (exits : List BlockId) (start : BlockId) (sources : List EdgeId)
    (parts : List Sketch) (loose : BlockExits) : Prop where
  entered : start ∈ blocksOf parts ∨ ∀ e ∈ sources, loose.Records start e
  closed : ∀ u ∈ blocksOf parts, ∀ v e, (v, e) ∈ g.transfers u → v ∈ blocksOf parts ∨ loose.Records v e
  sourced : ∀ v e, loose.Records v e → (v = start ∧ e ∈ sources) ∨ ∃ u ∈ blocksOf parts, (v, e) ∈ g.transfers u
  reached : ∀ b ∈ blocksOf parts, g.Leads start b
  outside : ∀ b ∈ blocksOf parts, b ∉ exits
  targets : ∀ v e, loose.Records v e → v ∈ exits

section
variable {g : FlowGraph} {R : SpanRelation}

/-- The facts hold of every span of the relation. -/
def SpanFactsOf (g : FlowGraph) (R : SpanRelation) : Prop :=
  ∀ ⦃exits start parts loose⦄, R exits start parts loose → SpanFacts g exits start parts loose

theorem SpanFacts.nonempty {exits : List BlockId} {start : BlockId} {parts : List Sketch} {loose : BlockExits}
    (h : SpanFacts g exits start parts loose) : parts ≠ [] := by
  obtain ⟨s, rest, rfl, -⟩ := h.head
  simp

theorem SpanFacts.first_eq {exits : List BlockId} {start : BlockId} {parts : List Sketch} {loose : BlockExits}
    (h : SpanFacts g exits start parts loose) : firstOf parts = start := by
  obtain ⟨s, rest, rfl, hfirst, -⟩ := h.head
  simpa using hfirst

theorem SpanFacts.not_mem_exits {exits : List BlockId} {start : BlockId} {parts : List Sketch} {loose : BlockExits}
    (h : SpanFacts g exits start parts loose) (hstart : start ∉ exits) : ∀ b ∈ blocksOf parts, b ∉ exits :=
  fun b hb hmem => hstart (h.outside b hb hmem ▸ hmem)

theorem Enters.facts (hR : SpanFactsOf g R)
    {exits : List BlockId} {start : BlockId} {sources : List EdgeId} {parts : List Sketch} {loose : BlockExits}
    (h : Enters R exits start sources parts loose) : EntryFacts g exits start sources parts loose := by
  cases h with
  | stop hmem =>
    refine ⟨Or.inr fun e he => ?_, by simp, fun v e h => ?_, by simp, by simp, fun v e h => ?_⟩
    · simp [he]
    · exact Or.inl (by simpa using h)
    · have : v = start ∧ e ∈ sources := by simpa using h
      exact this.1 ▸ hmem
  | go hmem hrun =>
    have facts := hR hrun
    exact ⟨Or.inl facts.start_mem, facts.closed, fun v e h => Or.inr (facts.sourced v e h), facts.reached,
      facts.not_mem_exits hmem, facts.targets⟩

/-! ### Branches and cases -/

/-- What holds of the spans that a header branches to, taken together. -/
structure BranchFacts (g : FlowGraph) (exits : List BlockId) (b : BlockId) (blocks : List BlockId)
    (loose : BlockExits) : Prop where
  closed : ∀ u ∈ b :: blocks, ∀ v e, (v, e) ∈ g.transfers u → v ∈ blocks ∨ loose.Records v e
  sourced : ∀ v e, loose.Records v e → ∃ u ∈ b :: blocks, (v, e) ∈ g.transfers u
  reached : ∀ x ∈ blocks, g.Leads b x
  outside : ∀ x ∈ blocks, x ∉ exits
  targets : ∀ v e, loose.Records v e → v ∈ exits

/-- The branches of a header, each for a successor with the edges to it. -/
theorem branchFacts {α : Type} {s : α → BlockId} {f : α → List EdgeId} {exits : List BlockId} {b : BlockId}
    {branches : List α} {spans : List SpanSketch}
    (facts : List.Forall₂ (fun a span => EntryFacts g exits (s a) (f a) span.1 span.2) branches spans)
    (complete : ∀ v e, (v, e) ∈ g.transfers b → ∃ a ∈ branches, s a = v ∧ e ∈ f a)
    (sound : ∀ a ∈ branches, ∀ e ∈ f a, (s a, e) ∈ g.transfers b)
    (leads : ∀ a ∈ branches, s a ∈ g.successors b) :
    BranchFacts g exits b (blocksOf (spans.flatMap (·.1))) (mergeAll {} spans) := by
  have hmem : ∀ x, x ∈ blocksOf (spans.flatMap (·.1)) ↔ ∃ span ∈ spans, x ∈ blocksOf span.1 :=
    fun x => mem_blocksOf_flatMap fun _ => rfl
  refine ⟨fun u hu v e he => ?_, fun v e h => ?_, fun x hx => ?_, fun x hx => ?_, fun v e h => ?_⟩
  · rw [hmem, records_mergeAll]
    rcases List.mem_cons.mp hu with rfl | hu
    · obtain ⟨a, ha, rfl, hsource⟩ := complete v e he
      obtain ⟨span, hspan, hf⟩ := exists_of_mem_left facts ha
      rcases hf.entered with h | h
      · exact Or.inl ⟨span, hspan, h⟩
      · exact Or.inr ⟨span, hspan, h e hsource⟩
    · obtain ⟨span, hspan, hu⟩ := (hmem u).mp hu
      obtain ⟨a, -, hf⟩ := exists_of_mem_right facts hspan
      rcases hf.closed u hu v e he with h | h
      · exact Or.inl ⟨span, hspan, h⟩
      · exact Or.inr ⟨span, hspan, h⟩
  · obtain ⟨span, hspan, h⟩ := records_mergeAll.mp h
    obtain ⟨a, ha, hf⟩ := exists_of_mem_right facts hspan
    rcases hf.sourced v e h with ⟨rfl, he⟩ | ⟨u, hu, he⟩
    · exact ⟨b, List.mem_cons_self, sound a ha e he⟩
    · exact ⟨u, List.mem_cons_of_mem _ ((hmem u).mpr ⟨span, hspan, hu⟩), he⟩
  · obtain ⟨span, hspan, hx⟩ := (hmem x).mp hx
    obtain ⟨a, ha, hf⟩ := exists_of_mem_right facts hspan
    exact (Relation.ReflTransGen.single (leads a ha)).trans (hf.reached x hx)
  · obtain ⟨span, hspan, hx⟩ := (hmem x).mp hx
    obtain ⟨a, -, hf⟩ := exists_of_mem_right facts hspan
    exact hf.outside x hx
  · obtain ⟨span, hspan, h⟩ := records_mergeAll.mp h
    obtain ⟨a, -, hf⟩ := exists_of_mem_right facts hspan
    exact hf.targets v e h

/-- The spans that a loop's header leads to. -/
theorem loopBranchFacts (hR : SpanFactsOf g R)
    {exits : List BlockId} {b : BlockId} {spans : List SpanSketch}
    (body : List.Forall₂ (fun transfer span => Enters R exits transfer.1 [transfer.2] span.1 span.2)
      (g.transfers b) spans) :
    BranchFacts g exits b (blocksOf (spans.flatMap (·.1))) (mergeAll {} spans) := by
  refine branchFacts (f := fun transfer => [transfer.2]) (body.imp fun _ _ h => h.facts hR)
    (fun v e he => ⟨(v, e), he, rfl, List.mem_singleton_self e⟩) (fun a ha e he => ?_) fun a ha => ?_
  · rw [List.mem_singleton.mp he]
    exact ha
  · exact FlowGraph.mem_successors_iff.mpr ⟨a.2, ha⟩

/-- The spans that a conditional branch leads to. -/
theorem sideBranchFacts (hg : g.Linked)
    (hR : SpanFactsOf g R)
    {exits : List BlockId} {b : BlockId} {sides : List BlockId} {spans : List SpanSketch}
    (hsides : ∀ v, v ∈ g.successors b ↔ v ∈ sides)
    (arms : List.Forall₂ (fun side span => Enters R exits side (g.edgeBetween? b side).toList span.1 span.2)
      sides spans) :
    BranchFacts g exits b (blocksOf (spans.flatMap (·.1))) (mergeAll {} spans) := by
  refine branchFacts (f := fun side => (g.edgeBetween? b side).toList) (arms.imp fun _ _ h => h.facts hR)
    (fun v e he => ?_) (fun side _ e he => ?_) fun side hside => (hsides side).mpr hside
  · exact ⟨v, (hsides v).mp (FlowGraph.mem_successors_iff.mpr ⟨e, he⟩), rfl,
      Option.mem_toList.mpr (hg.edgeBetween?_eq_some_iff.mpr he)⟩
  · exact hg.edgeBetween?_eq_some_iff.mp (Option.mem_toList.mp he)

theorem mem_switchTargets {cases : List BlockId} {default v : BlockId} :
    v ∈ switchTargets cases default ↔ v ∈ cases ∨ v = default := by
  simp only [switchTargets, List.mem_append, List.mem_eraseDups, List.mem_filter, decide_eq_true_eq,
    List.mem_singleton]
  by_cases h : v = default <;> simp [h]

section
variable {targets exits : List BlockId} {arms ordered : List ArmSketch}

/-- A case falls into the case that it has an edge to. -/
theorem ArmOf.fallsInto?_eq_some_iff {t : BlockId} {a : ArmSketch} (h : ArmOf R targets exits t a) {v : BlockId} :
    a.fallsInto? = some v ↔ v ∈ a.loose.targetList ∧ v ∈ targets := by
  have hmem : v ∈ a.fallsInto?.toList ↔ v ∈ a.loose.targetList.filter (· ∈ targets) := by rw [h.falls]
  rw [← Option.mem_toList, hmem, List.mem_filter, decide_eq_true_eq]

theorem ArmOf.records_exits {t : BlockId} {a : ArmSketch} (h : ArmOf R targets exits t a) {v : BlockId} {e : EdgeId} :
    a.exits.Records v e ↔ a.loose.Records v e ∧ v ∉ targets := by
  have hmem : a.loose.Records v e → (v ∉ targets ↔ a.fallsInto? ≠ some v) := fun hv => by
    rw [ne_eq, h.fallsInto?_eq_some_iff]
    simp [hv.mem_targetList]
  rw [and_congr_right hmem]
  unfold ArmSketch.exits
  cases hnext : a.fallsInto? with
  | none => simp
  | some next => simp [ne_comm]

theorem mem_blocksOf_arms {v : BlockId} :
    v ∈ blocksOf (arms.map ArmSketch.sketch) ↔ ∃ a ∈ arms, v ∈ blocksOf a.parts := by
  simp [mem_blocksOf, ArmSketch.sketch]

/-- The cases of a switch. -/
theorem armBranchFacts (hg : g.Linked)
    (hR : SpanFactsOf g R) {b : BlockId}
    (htargets : ∀ v, v ∈ g.successors b ↔ v ∈ targets)
    (parsed : List.Forall₂ (ArmOf R (targets.filter (· ∉ exits)) exits) (targets.filter (· ∉ exits)) arms)
    (same : ordered.Perm arms) :
    BranchFacts g exits b (blocksOf (ordered.map ArmSketch.sketch)) (switchExits g b targets exits arms) := by
  have hblocks : ∀ v, v ∈ blocksOf (ordered.map ArmSketch.sketch) ↔ ∃ a ∈ arms, v ∈ blocksOf a.parts := fun v => by
    rw [mem_blocksOf_arms]
    simp [same.mem_iff]
  have hcase : ∀ {t}, t ∈ targets.filter (· ∉ exits) ↔ t ∈ targets ∧ t ∉ exits := by simp
  -- A case target is the first block of its case.
  have hplaced : ∀ {t}, t ∈ targets.filter (· ∉ exits) → ∃ a ∈ arms, t ∈ blocksOf a.parts := fun ht => by
    obtain ⟨a, ha, harm⟩ := exists_of_mem_left parsed ht
    exact ⟨a, ha, (hR harm.span).start_mem⟩
  refine ⟨fun u hu v e he => ?_, fun v e h => ?_, fun x hx => ?_, fun x hx => ?_, fun v e h => ?_⟩
  · rw [hblocks, records_switchExits]
    rcases List.mem_cons.mp hu with rfl | hu
    · have hv : v ∈ targets := (htargets v).mp (FlowGraph.mem_successors_iff.mpr ⟨e, he⟩)
      by_cases hexit : v ∈ exits
      · exact Or.inr (Or.inl ⟨hv, hexit, hg.edgeBetween?_eq_some_iff.mpr he⟩)
      · exact Or.inl (hplaced (hcase.mpr ⟨hv, hexit⟩))
    · obtain ⟨a, ha, hu⟩ := (hblocks u).mp hu
      obtain ⟨t, -, harm⟩ := exists_of_mem_right parsed ha
      rcases (hR harm.span).closed u hu v e he with h | h
      · exact Or.inl ⟨a, ha, h⟩
      · by_cases hv : v ∈ targets.filter (· ∉ exits)
        · exact Or.inl (hplaced hv)
        · exact Or.inr (Or.inr ⟨a, ha, harm.records_exits.mpr ⟨h, hv⟩⟩)
  · rcases records_switchExits.mp h with ⟨-, -, he⟩ | ⟨a, ha, h⟩
    · exact ⟨b, List.mem_cons_self, hg.edgeBetween?_eq_some_iff.mp he⟩
    · obtain ⟨t, -, harm⟩ := exists_of_mem_right parsed ha
      obtain ⟨u, hu, he⟩ := (hR harm.span).sourced v e (harm.records_exits.mp h).1
      exact ⟨u, List.mem_cons_of_mem _ ((hblocks u).mpr ⟨a, ha, hu⟩), he⟩
  · obtain ⟨a, ha, hx⟩ := (hblocks x).mp hx
    obtain ⟨t, ht, harm⟩ := exists_of_mem_right parsed ha
    have hlead : t ∈ g.successors b := (htargets t).mpr (hcase.mp ht).1
    exact (Relation.ReflTransGen.single hlead).trans ((hR harm.span).reached x hx)
  · obtain ⟨a, ha, hx⟩ := (hblocks x).mp hx
    obtain ⟨t, ht, harm⟩ := exists_of_mem_right parsed ha
    intro hexit
    have hxt := (hR harm.span).outside x hx (List.mem_append_right _ hexit)
    exact (hcase.mp ht).2 (hxt ▸ hexit)
  · rcases records_switchExits.mp h with ⟨-, hexit, -⟩ | ⟨a, ha, h⟩
    · exact hexit
    · obtain ⟨t, -, harm⟩ := exists_of_mem_right parsed ha
      obtain ⟨hrec, hnot⟩ := harm.records_exits.mp h
      exact (List.mem_append.mp ((hR harm.span).targets v e hrec)).resolve_left hnot

end

/-! ### Constructs and spans -/

theorem BranchFacts.flow {exits : List BlockId} {b : BlockId} {blocks : List BlockId} {loose : BlockExits}
    (h : BranchFacts g exits b blocks loose) (neat : loose.Neat) : Flow g b (b :: blocks) loose where
  start_mem := List.mem_cons_self
  closed u hu v e he := (h.closed u hu v e he).imp_left (List.mem_cons_of_mem b)
  sourced := h.sourced
  neat := neat
  reached x hx := by
    rcases List.mem_cons.mp hx with rfl | hx
    · exact .refl
    · exact h.reached x hx

/-- The loose ends and blocks of a loop once its continue part is there. -/
theorem Continues.flow (hR : SpanFactsOf g R)
    {exits inner : List BlockId} {b c : BlockId} {blocks : List BlockId} {body loose : BlockExits} {parts : List Sketch}
    (hbody : BranchFacts g inner b blocks body) (hneat : body.Neat) (h : Continues R exits c body parts loose) :
    Flow g b (b :: blocks ++ blocksOf parts) (loose.remove b) := by
  have flow := hbody.flow hneat
  cases h with
  | absent =>
    rw [blocksOf_nil, List.append_nil]
    refine ⟨flow.start_mem, fun u hu v e he => ?_, fun v e h => ?_, flow.neat.remove b, flow.reached⟩
    · rcases flow.closed u hu v e he with h | h
      · exact Or.inl h
      · by_cases hv : v = b
        · exact Or.inl (hv ▸ List.mem_cons_self)
        · exact Or.inr (Exits.records_remove.mpr ⟨h, hv⟩)
    · exact flow.sourced v e (Exits.records_remove.mp h).1
  | @present _ ends hlisted hc hrun =>
    have facts := hR hrun
    have hb : b ∈ b :: blocks ++ blocksOf parts := List.mem_append_left _ flow.start_mem
    refine ⟨hb, fun u hu v e he => ?_, fun v e h => ?_, ((hneat.remove c).merge ends).remove b, fun x hx => ?_⟩
    · -- Loose ends of the body for the continue target are followed, those for the header close the loop.
      by_cases hv : v = b
      · exact Or.inl (hv ▸ hb)
      rw [Exits.records_remove, Exits.records_merge, Exits.records_remove]
      rcases List.mem_append.mp hu with hu | hu
      · rcases flow.closed u hu v e he with h | h
        · exact Or.inl (List.mem_append_left _ h)
        · by_cases hvc : v = c
          · exact Or.inl (hvc ▸ List.mem_append_right _ facts.start_mem)
          · exact Or.inr ⟨Or.inl ⟨h, hvc⟩, hv⟩
      · rcases facts.closed u hu v e he with h | h
        · exact Or.inl (List.mem_append_right _ h)
        · exact Or.inr ⟨Or.inr h, hv⟩
    · rcases Exits.records_merge.mp (Exits.records_remove.mp h).1 with h | h
      · obtain ⟨u, hu, he⟩ := flow.sourced v e (Exits.records_remove.mp h).1
        exact ⟨u, List.mem_append_left _ hu, he⟩
      · obtain ⟨u, hu, he⟩ := facts.sourced v e h
        exact ⟨u, List.mem_append_right _ hu, he⟩
    · rcases List.mem_append.mp hx with hx | hx
      · exact flow.reached x hx
      · obtain ⟨e, he⟩ := hneat.full.exists_records hlisted
        obtain ⟨u, hu, hedge⟩ := flow.sourced c e he
        have hcu : c ∈ g.successors u := FlowGraph.mem_successors_iff.mpr ⟨e, hedge⟩
        exact ((flow.reached u hu).tail hcu).trans (facts.reached x hx)

theorem Continues.outside (hR : SpanFactsOf g R)
    {exits : List BlockId} {c : BlockId} {body loose : BlockExits} {parts : List Sketch}
    (h : Continues R exits c body parts loose) : ∀ x ∈ blocksOf parts, x ∉ exits := by
  cases h with
  | absent => simp
  | present _ hc hrun => exact (hR hrun).not_mem_exits hc

theorem blocksOf_armParts (spans : List SpanSketch) :
    blocksOf (spans.flatMap fun span => part .ifPart span.2 span.1) = blocksOf (spans.flatMap (·.1)) := by
  induction spans with
  | nil => simp
  | cons span spans ih => simp [ih]

/-- The facts about a construct follow from those about the spans in it. -/
theorem Constructs.facts (hg : g.Linked)
    (hR : SpanFactsOf g R)
    {exits : List BlockId} {b : BlockId} {sketch : Sketch} {loose : BlockExits}
    (h : Constructs g R exits b sketch loose) : ConstructFacts g exits b sketch loose := by
  cases h with
  | leaving found _ leaves =>
    have hnone := hg.transfers_eq_nil_of_leaving found leaves
    exact ⟨⟨by simp, by simp [hnone], by simp, Exits.neat_nil _, by simp [FlowGraph.Leads, Relation.ReflTransGen.refl]⟩,
      by simp, by simp⟩
  | plain =>
    refine ⟨⟨by simp, fun u hu v e he => ?_, fun v e h => ?_, neat_plainExits g b, ?_⟩, by simp, by simp⟩
    · rw [blocks_block, List.mem_singleton] at hu
      exact Or.inr (records_plainExits.mpr (hu ▸ he))
    · exact ⟨b, by simp, records_plainExits.mp h⟩
    · simp [FlowGraph.Leads, Relation.ReflTransGen.refl]
  | @loop _ _ _ _ m c spans continuing loose _ _ _ _ _ body rest =>
    have hbody := loopBranchFacts hR body
    have flow := rest.flow hR hbody (neat_mergeAll spans)
    refine ⟨by simpa using flow, by simp, fun x hx hexit => ?_⟩
    have hx : x = b ∨ x ∈ blocksOf (spans.flatMap (·.1)) ∨ x ∈ blocksOf continuing := by simpa using hx
    rcases hx with rfl | hx | hx
    · rfl
    · exact absurd (List.mem_cons_of_mem _ (List.mem_cons_of_mem _ hexit)) (hbody.outside x hx)
    · exact absurd (List.mem_cons_of_mem _ (List.mem_cons_of_mem _ hexit)) (rest.outside hR x hx)
  | @ifThen _ _ _ _ _ _ m sides spans found _ _ _ ends labels resolved arms =>
    have hbranch := sideBranchFacts hg hR (hg.mem_successors_conditional found ends labels resolved) arms
    refine ⟨by simpa [blocksOf_armParts] using hbranch.flow (neat_mergeAll spans), by simp, fun x hx hexit => ?_⟩
    have hx : x = b ∨ x ∈ blocksOf (spans.flatMap (·.1)) := by simpa [blocksOf_armParts] using hx
    rcases hx with rfl | hx
    · rfl
    · exact absurd (List.mem_cons_of_mem _ hexit) (hbranch.outside x hx)
  | @switch _ _ _ _ _ m _ _ _ targets arms ordered found _ _ _ ends labels defaultBlock resolved targets_eq parsed same _ =>
    have htargets : ∀ v, v ∈ g.successors b ↔ v ∈ targets := fun v => by
      rw [hg.mem_successors_switch found ends labels defaultBlock resolved, targets_eq, mem_switchTargets]
    have hbranch := armBranchFacts hg hR htargets parsed same
    refine ⟨by simpa using hbranch.flow (neat_switchExits g b _ _ _), by simp, fun x hx hexit => ?_⟩
    have hx : x = b ∨ x ∈ blocksOf (ordered.map ArmSketch.sketch) := by simpa using hx
    rcases hx with rfl | hx
    · rfl
    · exact absurd (List.mem_cons_of_mem _ hexit) (hbranch.outside x hx)

end

section
variable {g : FlowGraph} {exits : List BlockId} {start next : BlockId} {child : Sketch} {rest : List Sketch}
  {ends ends' : BlockExits}

/-- A construct behind which nothing is left to go on at is a span. -/
theorem ConstructFacts.last (facts : ConstructFacts g exits start child ends) (hnone : onward exits ends = []) :
    SpanFacts g exits start [child] (kept exits ends) := by
  refine ⟨⟨by simpa using facts.start_mem, fun u hu v e he => ?_, fun v e h => ?_, neat_kept facts.neat, ?_⟩,
    ⟨child, [], rfl, facts.first_eq, facts.start_mem⟩, by simpa using facts.outside,
    fun v e h => (records_kept.mp h).2⟩
  · rw [blocksOf_cons, blocksOf_nil, List.append_nil] at hu ⊢
    refine (facts.closed u hu v e he).imp_right fun h => records_kept.mpr ⟨h, ?_⟩
    by_contra hv
    have : v ∈ onward exits ends := mem_onward.mpr ⟨h.mem_targetList, hv⟩
    simp [hnone] at this
  · simpa using facts.sourced v e (records_kept.mp h).1
  · simpa using facts.reached

/-- A construct and the span at which it goes on are a span. -/
theorem ConstructFacts.further (facts : ConstructFacts g exits start child ends) (hnext : onward exits ends = [next])
    (restFacts : SpanFacts g exits next rest ends') :
    SpanFacts g exits start (child :: rest) ((kept exits ends).merge ends') := by
  obtain ⟨htarget, hexits, honly⟩ := of_onward_eq hnext
  refine ⟨⟨?_, fun u hu v e he => ?_, fun v e h => ?_, (neat_kept facts.neat).merge ends', fun x hx => ?_⟩,
    ⟨child, rest, rfl, facts.first_eq, facts.start_mem⟩, fun x hx hexit => ?_, fun v e h => ?_⟩
  · exact List.mem_append_left _ facts.start_mem
  · rw [blocksOf_cons, List.mem_append, Exits.records_merge, records_kept]
    rcases List.mem_append.mp hu with hu | hu
    · rcases facts.closed u hu v e he with h | h
      · exact Or.inl (Or.inl h)
      · by_cases hv : v ∈ exits
        · exact Or.inr (Or.inl ⟨h, hv⟩)
        · exact Or.inl (Or.inr (honly v e h hv ▸ restFacts.start_mem))
    · rcases restFacts.closed u hu v e he with h | h
      · exact Or.inl (Or.inr h)
      · exact Or.inr (Or.inr h)
  · rcases Exits.records_merge.mp h with h | h
    · obtain ⟨u, hu, he⟩ := facts.sourced v e (records_kept.mp h).1
      exact ⟨u, List.mem_append_left _ hu, he⟩
    · obtain ⟨u, hu, he⟩ := restFacts.sourced v e h
      exact ⟨u, List.mem_append_right _ hu, he⟩
  · rcases List.mem_append.mp hx with hx | hx
    · exact facts.reached x hx
    · -- What is behind the construct is reached through an edge at which the span goes on.
      obtain ⟨e, he⟩ := facts.neat.full.exists_records htarget
      obtain ⟨u, hu, hedge⟩ := facts.sourced next e he
      have hstep : next ∈ g.successors u := FlowGraph.mem_successors_iff.mpr ⟨e, hedge⟩
      exact ((facts.reached u hu).tail hstep).trans (restFacts.reached x hx)
  · rcases List.mem_append.mp hx with hx | hx
    · exact facts.outside x hx hexit
    · exact absurd hexit (restFacts.not_mem_exits hexits x hx)
  · rcases Exits.records_merge.mp h with h | h
    · exact (records_kept.mp h).2
    · exact restFacts.targets v e h

/-- Where a span has no loose end to its start, neither has the construct that it starts with. -/
theorem ConstructFacts.not_records_start (facts : ConstructFacts g exits start child ends)
    (hnext : onward exits ends = [next]) (restFacts : SpanFacts g exits next rest ends')
    (hdisjoint : child.blocks.Disjoint (blocksOf rest))
    (hloose : ∀ e, ¬((kept exits ends).merge ends').Records start e) : ∀ e, ¬ends.Records start e := by
  refine not_records_of_kept (fun e he => hloose e (Exits.records_merge.mpr (Or.inl he))) fun hon => ?_
  rw [hnext, List.mem_singleton] at hon
  exact hdisjoint facts.start_mem (hon ▸ restFacts.start_mem)

end

theorem Spans.facts {g : FlowGraph} (hg : g.Linked) (budget : Nat) : SpanFactsOf g (Spans g budget) := by
  refine Spans.induction (fun ih hchild hnone => ?_) (fun ih hchild hnext hrest => ?_) budget
  · exact (hchild.facts hg ih).last hnone
  · exact (hchild.facts hg ih).further hnext (ih hrest)

end FlowTree
