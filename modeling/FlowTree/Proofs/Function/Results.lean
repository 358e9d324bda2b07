import FlowTree.Proofs.Function.Calls
import FlowTree.Proofs.Function.Disassembly

/-!
Results and the id zero. The counter is above all ids that are taken until a name gets the greatest id; then it is at zero,
which stands for no result. So the results of a text are kept as long as no name has the greatest id, and that takes a
numeral close to it or as many names as there are ids.
-/

namespace FlowTree

open Assembly

/-- The greatest id. -/
def greatestId : Id := 4294967295

namespace Naming
open NameTable Text

/-- The counter has not passed the greatest id: it is above all ids that are taken, and zero is not among them. -/
structure Bounded (n : Naming) : Prop where
  next : 0 < n.next
  ids : ∀ entry ∈ n.table.entries, 0 < entry.2 ∧ entry.2 < n.next

section
variable {n : Naming} {name : String} {id : Id}

theorem Bounded.lt_next (h : n.Bounded) (hid : n.table.isTaken id = true) : 0 < id ∧ id < n.next := by
  obtain ⟨entry, hentry, rfl⟩ := List.mem_map.mp (isTaken_iff.mp hid)
  exact h.ids entry hentry

theorem Bounded.isTaken_eq_false (h : n.Bounded) (hid : id = 0 ∨ n.next ≤ id) : n.table.isTaken id = false := by
  rw [← Bool.not_eq_true]
  intro htaken
  obtain ⟨hpos, hlt⟩ := h.lt_next htaken
  rcases hid with rfl | hle
  · exact absurd hpos (UInt32.lt_irrefl 0)
  · exact absurd hlt (UInt32.not_lt.mpr hle)

theorem le_greatestId (id : Id) : id ≤ greatestId := by
  have hlt := id.toNat_lt_size
  rw [UInt32.le_iff_toNat_le]
  exact Nat.le_of_lt_succ hlt

/-- Where the counter is after an id that is not the greatest. -/
theorem toNat_counter (next : Id) {id : Id} (hne : id ≠ greatestId) :
    (if next ≤ id then id + 1 else next).toNat = max next.toNat (id.toNat + 1) := by
  have hlt : id.toNat + 1 < UInt32.size := by
    have hle := UInt32.le_iff_toNat_le.mp (le_greatestId id)
    have hne : id.toNat ≠ greatestId.toNat := fun heq => hne (UInt32.toNat_inj.mp heq)
    have hgreatest : greatestId.toNat + 1 = UInt32.size := rfl
    omega
  have hsucc : (id + 1).toNat = id.toNat + 1 := by
    rw [UInt32.toNat_add]
    exact Nat.mod_eq_of_lt hlt
  split
  · rename_i hle
    rw [UInt32.le_iff_toNat_le] at hle
    rw [hsucc]
    omega
  · rename_i hgt
    rw [UInt32.le_iff_toNat_le] at hgt
    omega

/-- The id that a name asks for is free, so a new name gets it. -/
theorem Bounded.wanted (h : n.Bounded) (name : String) :
    0 < n.wanted name ∧ n.table.isTaken (n.wanted name) = false := by
  rcases n.wanted_cases name with ⟨number, -, hpos, hlt, hfree, hwanted⟩ | ⟨-, hwanted⟩
  · rw [hwanted]
    refine ⟨?_, hfree⟩
    rw [UInt32.lt_iff_toNat_lt, UInt32.toNat_ofNat_of_lt' hlt]
    exact hpos
  · rw [hwanted]
    exact ⟨h.next, h.isTaken_eq_false (Or.inr (UInt32.le_refl _))⟩

theorem Bounded.resolve_of_new (h : n.Bounded) (hnew : n.table.id? (bare name) = none) : n.resolve name =
    (n.wanted (bare name), ⟨n.table.bind (bare name) (n.wanted (bare name)),
      if n.next ≤ n.wanted (bare name) then n.wanted (bare name) + 1 else n.next⟩) := by
  rw [Naming.resolve_of_new hnew, freeFrom_eq_self (h.wanted (bare name)).2]

theorem Bounded.resolve_pos (h : n.Bounded) (name : String) : 0 < (n.resolve name).1 := by
  cases hfound : n.table.id? (bare name) with
  | some id =>
    rw [resolve_of_bound hfound]
    exact (h.ids _ (mem_of_id? hfound)).1
  | none =>
    rw [h.resolve_of_new hfound]
    exact (h.wanted (bare name)).1

/-- The counter passes the greatest id only as that id is given. -/
theorem Bounded.resolve (h : n.Bounded) (hne : (n.resolve name).1 ≠ greatestId) : (n.resolve name).2.Bounded := by
  cases hfound : n.table.id? (bare name) with
  | some id =>
    rw [resolve_of_bound hfound]
    exact h
  | none =>
    rw [h.resolve_of_new hfound] at hne ⊢
    have hcounter := toNat_counter n.next hne
    have hpos := (h.wanted (bare name)).1
    simp only [UInt32.lt_iff_toNat_lt] at hpos
    constructor
    · simp only [UInt32.lt_iff_toNat_lt, hcounter]
      omega
    · intro entry hentry
      rcases List.mem_append.mp hentry with hold | hlast
      · have hids := h.ids entry hold
        simp only [UInt32.lt_iff_toNat_lt, hcounter] at hids ⊢
        omega
      · obtain rfl := List.mem_singleton.mp hlast
        simp only [UInt32.lt_iff_toNat_lt, hcounter]
        omega

theorem Bounded.isTaken_greatestId (h : n.Bounded) : n.table.isTaken greatestId = false :=
  h.isTaken_eq_false (Or.inr (le_greatestId n.next))

/-- A new name that asks for no number of its own gets zero if the greatest id was the last one given. -/
theorem Bounded.zero_follows (h : n.Bounded) (hgreatest : (n.resolve name).1 = greatestId) {other : String}
    (hnew : (n.resolve name).2.table.id? (bare other) = none) (hplain : ∀ number, ¬IsNumeral (bare other) number) :
    ((n.resolve name).2.resolve other).1 = 0 := by
  have hfound : n.table.id? (bare name) = none := by
    rw [Option.eq_none_iff_forall_ne_some]
    intro id hid
    obtain rfl : id = greatestId := by simpa only [resolve_of_bound hid] using hgreatest
    exact absurd (h.ids _ (mem_of_id? hid)).2 (UInt32.not_lt.mpr (le_greatestId n.next))
  -- The counter was at most at the greatest id, so it goes on to the id after it, which is zero.
  have hresolve := h.resolve_of_new hfound
  have hwanted : n.wanted (bare name) = greatestId := by simpa only [hresolve] using hgreatest
  have hnext : (n.resolve name).2.next = 0 := by
    rw [hresolve, hwanted]
    exact if_pos (le_greatestId n.next)
  have hfree : (n.resolve name).2.table.isTaken 0 = false := by
    rw [hresolve, hwanted, ← Bool.not_eq_true, isTaken_bind, h.isTaken_eq_false (Or.inl rfl)]
    decide
  rcases (n.resolve name).2.wanted_cases (bare other) with ⟨number, hnumeral, -⟩ | ⟨-, hcounter⟩
  · exact absurd hnumeral (hplain number)
  · rw [Naming.resolve_of_new hnew, hcounter, hnext]
    exact freeFrom_eq_self hfree _

/-! ### Names in a row -/

theorem bounded_after {names : List String} (h : (after names).table.isTaken greatestId = false) :
    (after names).Bounded := by
  induction names using List.reverseRecOn with
  | nil => exact ⟨by decide, nofun⟩
  | append_singleton names name ih =>
    rw [after_concat] at h ⊢
    have hgrown := (after names).prefix_resolve name
    have hbefore : (after names).table.isTaken greatestId = false := by
      rw [← Bool.not_eq_true, isTaken_iff] at h ⊢
      exact fun htaken => h ((hgrown.map _).subset htaken)
    refine (ih hbefore).resolve fun hgreatest => ?_
    have hmem := mem_of_id? ((after names).id?_resolve name)
    rw [hgreatest] at hmem
    rw [isTaken_iff.mpr (List.mem_map_of_mem hmem)] at h
    cases h

/-- Zero is given only when some name has the greatest id. -/
theorem exists_greatestId_of_zero {names : List String} (h : ((after names).resolve name).1 = 0) :
    ∃ other ∈ names, ((after names).resolve other).1 = greatestId := by
  rw [← isTaken_after]
  by_contra hfree
  rw [Bool.not_eq_true] at hfree
  have hpos := (bounded_after hfree).resolve_pos name
  rw [h] at hpos
  exact UInt32.lt_irrefl 0 hpos

theorem zero_follows_after {names : List String} {other : String}
    (hearlier : ∀ earlier ∈ names, ((after names).resolve earlier).1 ≠ greatestId)
    (hgreatest : ((after names).resolve name).1 = greatestId) (hnew : bare other ∉ (names ++ [name]).map bare)
    (hplain : ∀ number, ¬IsNumeral (bare other) number) : (((after names).resolve name).2.resolve other).1 = 0 := by
  have hfree : (after names).table.isTaken greatestId = false := by
    rw [← Bool.not_eq_true, isTaken_after]
    rintro ⟨earlier, hmem, heq⟩
    exact hearlier earlier hmem heq
  refine (bounded_after hfree).zero_follows hgreatest ?_ hplain
  rw [← after_concat]
  exact id?_after_eq_none hnew

/-- Names that are not numerals of great numbers keep the counter close to the number of names. -/
theorem bounded_of_numerals_le {names : List String} {bound : Nat}
    (hnumerals : ∀ entry ∈ (after names).table.entries, ∀ number, IsNumeral entry.1 number → number < UInt32.size →
      number ≤ bound)
    (hroom : bound + (after names).table.entries.length + 1 < UInt32.size) :
    (after names).Bounded ∧ (after names).next.toNat ≤ bound + (after names).table.entries.length + 1 := by
  induction names using List.reverseRecOn with
  | nil => exact ⟨⟨by decide, nofun⟩, Nat.le_add_left 1 _⟩
  | append_singleton names name ih =>
    rw [after_concat] at hnumerals hroom ⊢
    have hgrown := (after names).prefix_resolve name
    have hlength := hgrown.length_le
    obtain ⟨hbounded, hnext⟩ := ih (fun entry hentry => hnumerals entry (hgrown.subset hentry)) (by omega)
    cases hfound : (after names).table.id? (bare name) with
    | some id =>
      rw [resolve_of_bound hfound]
      exact ⟨hbounded, hnext⟩
    | none =>
      -- The name gets the id that it asks for: its own number, at most the bound, or what the counter stands at.
      have hresolve := hbounded.resolve_of_new hfound
      have hwanted : ((after names).wanted (bare name)).toNat ≤ bound + (after names).table.entries.length + 1 := by
        rcases (after names).wanted_cases (bare name) with ⟨number, hnumeral, -, hlt, -, heq⟩ | ⟨-, heq⟩
        · have hle := hnumerals _ (mem_of_id? ((after names).id?_resolve name)) number hnumeral hlt
          rw [heq, UInt32.toNat_ofNat_of_lt' hlt]
          omega
        · rw [heq]
          exact hnext
      have hlength : ((after names).resolve name).2.table.entries.length = (after names).table.entries.length + 1 := by
        rw [hresolve]
        exact List.length_append
      have hne : (after names).wanted (bare name) ≠ greatestId := by
        intro heq
        have hgreatest : greatestId.toNat + 1 = UInt32.size := rfl
        rw [heq] at hwanted
        omega
      refine ⟨hbounded.resolve (by rwa [hresolve]), ?_⟩
      rw [hlength, hresolve, toNat_counter _ hne]
      omega

end

end Naming

/-! ### Functions of a text -/

theorem exists_after_openBuilder (s : Statement) : ∃ names, (openBuilder s).naming = Naming.after names := by
  unfold openBuilder
  cases s.result? with
  | some w => exact ⟨[w.name], rfl⟩
  | none => exact ⟨[], rfl⟩

/-- The ids of a function come from names in a row, and each of its instructions from a statement of the text. -/
theorem exists_names_of_lower {file : String} {t : Text} {p : Program} (h : Program.parse t = .ok p) {f : Function}
    (hf : f ∈ (Module.lower file p).1.functions) : (∃ names, f.names = (Naming.after names).table) ∧
      ∀ i ∈ f.instructions, ∃ s ∈ p.statements, s.Lowers file f.names i := by
  obtain ⟨b, ss, hb, hsub, rfl⟩ := exists_builder_of_lower (line_pos_of_parse h) hf
  have hstart : b.instructions = [] ∧ ∃ names, b.naming = Naming.after names := by
    rcases hb with rfl | ⟨opener, rfl⟩
    · exact ⟨rfl, [], rfl⟩
    · exact ⟨(resultIs_openBuilder opener).1, exists_after_openBuilder opener⟩
  constructor
  · have hkept : ∃ names, (b.addStatements file ss).naming = Naming.after names :=
      Builder.addStatements_keeps (P := fun n => ∃ names, n = Naming.after names)
        (fun n name ⟨names, hn⟩ => ⟨names ++ [name], by rw [hn, Naming.after_concat]⟩) hstart.2
    obtain ⟨names, hnaming⟩ := hkept
    exact ⟨names, congrArg Naming.table hnaming⟩
  · obtain ⟨is, hfunction, -, hlowers⟩ := b.function_addStatements file ss
    intro i hi
    rw [hfunction, hstart.1, List.nil_append] at hi
    obtain ⟨s, hs, hlowered⟩ := exists_of_mem_right hlowers hi
    exact ⟨s, hsub.subset hs, hlowered⟩

/-- The instruction has the result that is named, and the name is printed in front of the rest. -/
structure Function.KeepsResult (f : Function) (i : Instruction) (result : Word) : Prop where
  nonzero : i.result ≠ 0
  printed : f.render i = result.text ++ " = " ++ f.render { i with result := 0 }

theorem Function.keepsResult_of_lowers {file : String} {f : Function} {s : Statement} {i : Instruction} {w : Word}
    (h : s.Lowers file f.names i) (hw : s.result? = some w) (hone : f.names.OneToOne) (hzero : f.names.NonZero)
    (hspelled : Spells .id w.text) : f.KeepsResult i w := by
  have hresult := h.result
  simp only [Statement.ResultIs, hw, bare_name hspelled] at hresult
  have hnonzero : i.result ≠ 0 := hzero _ (NameTable.mem_of_id? hresult)
  refine ⟨hnonzero, ?_⟩
  unfold Function.render Instruction.render
  simp only [if_neg hnonzero, if_true, render_id hone hspelled hresult, String.empty_append, String.append_assoc]
  rfl

section
variable {file : String} {t : Text} {p : Program} {f : Function}

theorem nonZero_of_free (h : Program.parse t = .ok p) (hf : f ∈ (Module.lower file p).1.functions)
    (hfree : f.names.isTaken greatestId = false) : f.names.OneToOne ∧ f.names.NonZero := by
  obtain ⟨⟨names, hnames⟩, -⟩ := exists_names_of_lower h hf
  rw [hnames] at hfree ⊢
  have hzero : (Naming.after names).table.NonZero := fun entry hentry =>
    (UInt32.ne_of_lt ((Naming.bounded_after hfree).ids entry hentry).1).symm
  exact ⟨Naming.faithful_after names hzero, hzero⟩

end

/-- Zero is given only when some name has the greatest id, and if a new name that is no numeral comes right after the one
that gets the greatest id first, it is given to that. So the results of a text are kept, and printed, in every function that
has no name for the greatest id; and it has none if counting on from its greatest numeral leaves room for all its names. -/
theorem results_kept_below_greatest (function : String) (calls : List Builder.Call) (file : String) (t : Text) :
    (∀ name, (((Builder.start function).run calls).id name).1 = 0 →
      ∃ other ∈ calls.flatMap Builder.Call.names, (((Builder.start function).run calls).id other).1 = greatestId) ∧
    (∀ name other, (∀ earlier ∈ calls.flatMap Builder.Call.names,
        (((Builder.start function).run calls).id earlier).1 ≠ greatestId) →
      (((Builder.start function).run calls).id name).1 = greatestId →
      Naming.bare other ∉ (calls.flatMap Builder.Call.names ++ [name]).map Naming.bare →
      (∀ number, ¬Text.IsNumeral (Naming.bare other) number) →
      ((((Builder.start function).run calls).id name).2.id other).1 = 0) ∧
    ∀ p, Program.parse t = .ok p → ∀ f ∈ (Module.lower file p).1.functions,
      (∀ i ∈ f.instructions, ∃ s ∈ p.statements, s.Lowers file f.names i) ∧
      (f.names.isTaken greatestId = false → ∀ i ∈ f.instructions, ∀ s ∈ p.statements, s.Lowers file f.names i →
        ∀ w, s.result? = some w → f.KeepsResult i w) ∧
      ∀ bound, (∀ entry ∈ f.names.entries, ∀ number, Text.IsNumeral entry.1 number → number < UInt32.size →
        number ≤ bound) → bound + f.names.entries.length + 1 < UInt32.size → f.names.isTaken greatestId = false := by
  refine ⟨?_, ?_, fun p h f hf => ?_⟩
  · simp only [Builder.fst_id, Builder.naming_run_start]
    exact fun name => Naming.exists_greatestId_of_zero
  · simp only [Builder.fst_id, Builder.naming_id, Builder.naming_run_start]
    exact fun name other => Naming.zero_follows_after
  · obtain ⟨⟨names, hnames⟩, hlowers⟩ := exists_names_of_lower h hf
    refine ⟨hlowers, fun hfree i _ s hs hlowered w hw => ?_, fun bound hnumerals hroom => ?_⟩
    · obtain ⟨hone, hzero⟩ := nonZero_of_free h hf hfree
      exact Function.keepsResult_of_lowers hlowered hw hone hzero ((spelled_of_parse h s hs).result w hw)
    · rw [hnames] at hnumerals hroom ⊢
      exact (Naming.bounded_of_numerals_le hnumerals hroom).1.isTaken_greatestId

/-- A result whose id is counted on from a numeral. -/
def numeralSample : Text := Text.ofString "%7 = OpLabel\n%x = OpFoo %7\n"

def numeralProgram : Program := ⟨[⟨some ⟨"%7", ⟨1, 1, 0⟩⟩, ⟨"OpLabel", ⟨1, 6, 5⟩⟩, []⟩,
  ⟨some ⟨"%x", ⟨2, 1, 13⟩⟩, ⟨"OpFoo", ⟨2, 6, 18⟩⟩, [⟨.id, "%7", ⟨2, 12, 24⟩⟩]⟩]⟩

def numeralFunction : Function where
  name := "main"
  instructions := [{ op := .label, mnemonic := "OpLabel", result := 7, position := ⟨"in", 1, 1⟩ },
    { op := .unknown, mnemonic := "OpFoo", result := 8, operands := [.ofId 7], position := ⟨"in", 2, 1⟩ }]
  names := ⟨[("7", 7), ("x", 8)]⟩

theorem not_isNumeral_x (number : Nat) : ¬Text.IsNumeral "x" number := fun h =>
  absurd (h.digits 'x' (by decide)) (by decide)

theorem numeralFunction_numerals : ∀ entry ∈ numeralFunction.names.entries, ∀ number, Text.IsNumeral entry.1 number →
    number < UInt32.size → number ≤ 7 := by
  intro entry hentry number hnumeral _
  rcases List.mem_cons.mp hentry with rfl | hentry
  · exact Nat.le_of_eq (hnumeral.value.symm.trans (by decide))
  · obtain rfl := List.mem_singleton.mp hentry
    exact absurd hnumeral (not_isNumeral_x number)

/-- The sample keeps its result; and when a label has taken the greatest id, the name `x` gets zero. -/
theorem results_kept_below_greatest_samples : Program.parse numeralSample = .ok numeralProgram ∧
    (Module.lower "in" numeralProgram).1 = ⟨"in", [numeralFunction]⟩ ∧
    (∀ i s w, i ∈ numeralFunction.instructions → s ∈ numeralProgram.statements →
      s.Lowers "in" numeralFunction.names i → s.result? = some w → numeralFunction.KeepsResult i w) ∧
    ((((Builder.start "main").run [.branch "y"]).id "%4294967295").2.id "x").1 = 0 ∧
    ∃ other ∈ ["%4294967295"], (((Builder.start "main").run [.label "%4294967295"]).id other).1 = greatestId := by
  obtain ⟨-, hnext, htexts⟩ := results_kept_below_greatest "main" [.branch "y"] "in" numeralSample
  obtain ⟨hgiven, -, -⟩ := results_kept_below_greatest "main" [.label "%4294967295"] "in" numeralSample
  have hparse : Program.parse numeralSample = .ok numeralProgram := by decide +kernel
  have hmodule : (Module.lower "in" numeralProgram).1 = ⟨"in", [numeralFunction]⟩ := by decide +kernel
  obtain ⟨-, hkept, hroom⟩ := htexts numeralProgram hparse numeralFunction (by simp [hmodule])
  have hfree := hroom 7 numeralFunction_numerals (by decide)
  refine ⟨hparse, hmodule, fun i s w hi hs hlowers hw => hkept hfree i hi s hs hlowers w hw, ?_, ?_⟩
  · exact hnext "%4294967295" "x" (by decide +kernel) (by decide +kernel) (by decide +kernel) not_isNumeral_x
  · exact hgiven "x" (by decide +kernel)

/-- A result behind one that is called by the greatest id. -/
def greatestSample : Text := Text.ofString "%4294967295 = OpLabel\n%x = OpFoo\n"

def greatestProgram : Program := ⟨[⟨some ⟨"%4294967295", ⟨1, 1, 0⟩⟩, ⟨"OpLabel", ⟨1, 15, 14⟩⟩, []⟩,
  ⟨some ⟨"%x", ⟨2, 1, 22⟩⟩, ⟨"OpFoo", ⟨2, 6, 27⟩⟩, []⟩]⟩

def greatestFunction : Function where
  name := "main"
  instructions := [{ op := .label, mnemonic := "OpLabel", result := greatestId, position := ⟨"in", 1, 1⟩ },
    { op := .unknown, mnemonic := "OpFoo", position := ⟨"in", 2, 1⟩ }]
  names := ⟨[("4294967295", greatestId), ("x", 0)]⟩

/-- The second result of the sample has the id zero and is not printed. -/
theorem result_lost_past_greatest : Program.parse greatestSample = .ok greatestProgram ∧
    (Module.lower "in" greatestProgram).1 = ⟨"in", [greatestFunction]⟩ ∧
    ∃ i ∈ greatestFunction.instructions, ∃ s ∈ greatestProgram.statements, s.Lowers "in" greatestFunction.names i ∧
      s.result? = some ⟨"%x", ⟨2, 1, 22⟩⟩ ∧ i.result = 0 ∧ greatestFunction.render i = "OpFoo" := by
  have hresult : greatestFunction.names.id? "x" = some 0 := by decide +kernel
  exact ⟨by decide +kernel, by decide +kernel, greatestFunction.instructions[1], by simp,
    greatestProgram.statements[1], by simp, ⟨by decide +kernel, rfl, hresult, .nil, rfl⟩, rfl, rfl, by decide +kernel⟩

end FlowTree
