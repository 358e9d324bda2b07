import Mathlib.Data.List.Induction
import FlowTree.Proofs.Function.Naming
import FlowTree.Proofs.Sequences
import FlowTree.Proofs.Text.Integers

/-!
Ids allotted to names one after the other. The names in the table are the distinct names in the order of their first use
(`names_after`), so as long as there are at most as many of them as ids, names and ids correspond. A numeral has its own
number if that was free.
-/

namespace FlowTree

namespace NameTable
variable {t : NameTable} {name : String} {id : Id}

theorem id?_eq_some_iff (hnames : (t.entries.map (·.1)).Nodup) : t.id? name = some id ↔ (name, id) ∈ t.entries := by
  refine ⟨mem_of_id?, fun hmem => ?_⟩
  cases hfound : t.id? name with
  | none => exact absurd rfl (id?_eq_none_iff.mp hfound _ hmem)
  | some id' =>
    have heq := List.inj_on_of_nodup_map hnames (mem_of_id? hfound) hmem rfl
    rw [(Prod.mk.inj heq).2]

/-- Looking up names and looking up ids undo each other. -/
theorem OneToOne.id?_iff_name? (h : t.OneToOne) : t.id? name = some id ↔ t.name? id = some name := by
  rw [id?_eq_some_iff h.names]
  refine ⟨fun hmem => ?_, mem_of_name?⟩
  obtain ⟨name', hname⟩ := exists_name?_of_id? ((id?_eq_some_iff h.names).mpr hmem)
  have heq := List.inj_on_of_nodup_map h.ids (mem_of_name? hname) hmem rfl
  rw [hname, (Prod.mk.inj heq).1]

theorem exists_id?_iff : (∃ id, t.id? name = some id) ↔ name ∈ t.entries.map (·.1) := by
  rw [← Option.isSome_iff_exists, id?, Option.isSome_map, List.find?_isSome]
  simp

theorem freeFrom_eq_self (h : t.isTaken id = false) (tries : Nat) : t.freeFrom tries id = id := by
  cases tries <;> simp [freeFrom, h]

theorem isTaken_bind {id' : Id} : (t.bind name id).isTaken id' = true ↔ t.isTaken id' = true ∨ id' = id := by
  simp [isTaken_iff, NameTable.bind]

end NameTable

namespace Naming
open NameTable Text
variable {n : Naming} {name : String}

theorem resolve_of_bound {id : Id} (h : n.table.id? (bare name) = some id) : n.resolve name = (id, n) := by
  unfold resolve
  simp only [h]

theorem resolve_of_new (h : n.table.id? (bare name) = none) : n.resolve name =
    (n.table.freeFrom n.table.entries.length (n.wanted (bare name)),
      ⟨n.table.bind (bare name) (n.table.freeFrom n.table.entries.length (n.wanted (bare name))),
        if n.next ≤ n.table.freeFrom n.table.entries.length (n.wanted (bare name))
        then n.table.freeFrom n.table.entries.length (n.wanted (bare name)) + 1 else n.next⟩) := by
  unfold resolve
  simp only [h]

theorem names_resolve (n : Naming) (name : String) : (n.resolve name).2.table.entries.map (·.1) =
    if bare name ∈ n.table.entries.map (·.1) then n.table.entries.map (·.1)
    else n.table.entries.map (·.1) ++ [bare name] := by
  cases hfound : n.table.id? (bare name) with
  | some id => rw [resolve_of_bound hfound, if_pos (exists_id?_iff.mp ⟨id, hfound⟩)]
  | none =>
    have hnew : bare name ∉ n.table.entries.map (·.1) := fun hmem => by
      obtain ⟨id, hid⟩ := exists_id?_iff.mpr hmem
      rw [hfound] at hid
      cases hid
    rw [resolve_of_new hfound, if_neg hnew]
    simp [NameTable.bind]

/-- The id that a name asks for is its own number, or else the one that the counter stands at. -/
theorem wanted_cases (n : Naming) (name : String) :
    (∃ number, IsNumeral name number ∧ 0 < number ∧ number < UInt32.size ∧
      n.table.isTaken (UInt32.ofNat number) = false ∧ n.wanted name = UInt32.ofNat number) ∨
    (∀ number, IsNumeral name number → 0 < number → number < UInt32.size →
      n.table.isTaken (UInt32.ofNat number) = true) ∧ n.wanted name = n.next := by
  unfold wanted
  cases hnumeral : numeral? UInt32.size name with
  | none =>
    refine Or.inr ⟨fun number h _ hlt => ?_, rfl⟩
    rw [numeral?_eq_some_iff.mpr ⟨h, hlt⟩] at hnumeral
    cases hnumeral
  | some number =>
    obtain ⟨h, hlt⟩ := numeral?_eq_some_iff.mp hnumeral
    by_cases hfree : 0 < number ∧ n.table.isTaken (UInt32.ofNat number) = false
    · exact Or.inl ⟨number, h, hfree.1, hlt, hfree.2, by simp [hfree]⟩
    · refine Or.inr ⟨fun number' h' hpos _ => ?_, ?_⟩
      · obtain rfl : number = number' := h.value.symm.trans h'.value
        simpa [hpos] using hfree
      · have hnot : (decide (0 < number) && !n.table.isTaken (UInt32.ofNat number)) = false := by
          simpa [Bool.and_eq_false_iff] using not_and.mp hfree
        simp only [hnot, Bool.false_eq_true, if_false]

/-- A numeral that is new gets its number if and only if no other name has it. -/
theorem resolve_numeral (hlt : n.table.entries.length < UInt32.size) (hnew : n.table.id? (bare name) = none)
    {number : Nat} (hnumeral : IsNumeral (bare name) number) (hpos : 0 < number) (hsize : number < UInt32.size) :
    (n.resolve name).1 = UInt32.ofNat number ↔ n.table.isTaken (UInt32.ofNat number) = false := by
  rw [resolve_of_new hnew]
  constructor
  · intro heq
    rw [← heq]
    exact not_isTaken_freeFrom hlt _
  · intro hfree
    rcases n.wanted_cases (bare name) with ⟨number', hnumeral', -, -, hfree', hwanted⟩ | ⟨htaken, -⟩
    · obtain rfl : number' = number := hnumeral'.value.symm.trans hnumeral.value
      simp only [hwanted]
      exact freeFrom_eq_self hfree _
    · rw [htaken number hnumeral hpos hsize] at hfree
      cases hfree

/-! ### Names in a row -/

theorem resolveAll_append (n : Naming) (xs ys : List String) : n.resolveAll (xs ++ ys) =
    ((n.resolveAll xs).1 ++ ((n.resolveAll xs).2.resolveAll ys).1, ((n.resolveAll xs).2.resolveAll ys).2) := by
  induction xs generalizing n with
  | nil => rfl
  | cons x xs ih => simp only [List.cons_append, resolveAll, ih]

theorem resolveAll_concat (n : Naming) (xs : List String) (x : String) :
    (n.resolveAll (xs ++ [x])).2 = ((n.resolveAll xs).2.resolve x).2 := by
  rw [resolveAll_append]
  rfl

theorem prefix_resolveAll (n : Naming) (names : List String) :
    n.table.entries <+: (n.resolveAll names).2.table.entries := by
  induction names generalizing n with
  | nil => exact List.prefix_refl _
  | cons name names ih => exact (n.prefix_resolve name).trans (ih _)

/-- The ids that names are given in a row are those that they have whatever names follow. -/
theorem ids_resolveAll (n : Naming) (names rest : List String) :
    (n.resolveAll names).1 = names.map fun name => ((n.resolveAll (names ++ rest)).2.resolve name).1 := by
  induction names generalizing n with
  | nil => rfl
  | cons name names ih =>
    have hbound := id?_of_prefix (prefix_resolveAll (n.resolve name).2 (names ++ rest)) (n.id?_resolve name)
    simp only [resolveAll, List.cons_append, List.map_cons, resolve_of_bound hbound, ← ih]

/-- The naming after names were used one after the other. -/
def after (names : List String) : Naming := (({} : Naming).resolveAll names).2

theorem after_concat (names : List String) (name : String) : after (names ++ [name]) = ((after names).resolve name).2 :=
  resolveAll_concat {} names name

theorem names_after (names : List String) : (after names).table.entries.map (·.1) = (names.map bare).eraseDups := by
  induction names using List.reverseRecOn with
  | nil => rfl
  | append_singleton names name ih =>
    rw [after_concat, names_resolve, ih, List.map_append, List.map_singleton, eraseDups_concat]
    simp only [List.mem_eraseDups]

theorem length_after (names : List String) : (after names).table.entries.length = (names.map bare).eraseDups.length := by
  rw [← names_after, List.length_map]

theorem exists_id?_after {names : List String} :
    (∃ id, (after names).table.id? name = some id) ↔ name ∈ names.map bare := by
  rw [exists_id?_iff, names_after, List.mem_eraseDups]

theorem id?_after_eq_none {names : List String} (h : name ∉ names.map bare) : (after names).table.id? name = none :=
  Option.eq_none_iff_forall_ne_some.mpr fun id hid => h (exists_id?_after.mp ⟨id, hid⟩)

/-- A name keeps the id that it is given when it is used. -/
theorem id?_after_append (before : List String) (name : String) (rest : List String) :
    (after (before ++ name :: rest)).table.id? (bare name) = some ((after before).resolve name).1 := by
  have hsplit : after (before ++ name :: rest) = (((after before).resolve name).2.resolveAll rest).2 := by
    rw [after, resolveAll_append]
    rfl
  rw [hsplit]
  exact id?_of_prefix (prefix_resolveAll _ rest) (id?_resolve _ name)

theorem resolve_after_append (before : List String) (name : String) (rest : List String) :
    ((after (before ++ name :: rest)).resolve name).1 = ((after before).resolve name).1 := by
  rw [resolve_of_bound (id?_after_append before name rest)]

theorem resolve_after_of_mem {before : List String} (h : name ∈ before) (rest : List String) :
    ((after (before ++ rest)).resolve name).1 = ((after before).resolve name).1 := by
  obtain ⟨earlier, later, rfl⟩ := List.append_of_mem h
  rw [List.append_assoc, List.cons_append, resolve_after_append, resolve_after_append]

theorem id?_after {names : List String} (h : name ∈ names) :
    (after names).table.id? (bare name) = some ((after names).resolve name).1 := by
  obtain ⟨before, rest, rfl⟩ := List.append_of_mem h
  rw [id?_after_append, resolve_after_append]

theorem names_nodup_after (names : List String) : ((after names).table.entries.map (·.1)).Nodup := by
  rw [names_after]
  exact nodup_eraseDups _

/-- The ids that are taken are those of the names that were used. -/
theorem isTaken_after {names : List String} {id : Id} :
    (after names).table.isTaken id = true ↔ ∃ name ∈ names, ((after names).resolve name).1 = id := by
  rw [isTaken_iff]
  constructor
  · intro hid
    obtain ⟨⟨name, _⟩, hentry, rfl⟩ := List.mem_map.mp hid
    have hused : name ∈ (after names).table.entries.map (·.1) := List.mem_map_of_mem hentry
    rw [names_after, List.mem_eraseDups] at hused
    obtain ⟨used, hmem, rfl⟩ := List.mem_map.mp hused
    refine ⟨used, hmem, ?_⟩
    rw [resolve_of_bound ((id?_eq_some_iff (names_nodup_after names)).mpr hentry)]
  · rintro ⟨name, hname, rfl⟩
    exact List.mem_map_of_mem (mem_of_id? (id?_after hname))

/-- Names and ids correspond while there are no more names than ids. -/
theorem oneToOne_after {names : List String} (hfew : (names.map bare).eraseDups.length ≤ UInt32.size) :
    (after names).table.OneToOne := by
  induction names using List.reverseRecOn with
  | nil => exact ⟨.nil, .nil⟩
  | append_singleton names name ih =>
    rw [List.map_append, List.map_singleton, eraseDups_concat] at hfew
    rw [after_concat]
    -- A name that was used before changes nothing; a new one finds an id as long as fewer are taken than there are.
    split at hfew
    · rename_i hused
      obtain ⟨id, hid⟩ := exists_id?_after.mpr hused
      rw [resolve_of_bound hid]
      exact ih hfew
    · rw [List.length_append, List.length_singleton] at hfew
      exact oneToOne_resolve (ih (by omega)) (by rw [length_after]; omega) name

theorem faithful_after (names : List String) : (after names).table.Faithful := by
  induction names using List.reverseRecOn with
  | nil => exact fun _ => ⟨.nil, .nil⟩
  | append_singleton names name ih =>
    rw [after_concat]
    exact faithful_resolve ih name

/-- A numeral has its number if and only if no name had it when the numeral was first used. -/
theorem resolve_numeral_after {before rest : List String}
    (hfew : ((before ++ name :: rest).map bare).eraseDups.length < UInt32.size) (hfirst : bare name ∉ before.map bare)
    {number : Nat} (hnumeral : IsNumeral (bare name) number) (hpos : 0 < number) (hsize : number < UInt32.size) :
    ((after (before ++ name :: rest)).resolve name).1 = UInt32.ofNat number ↔
      ∀ other ∈ before, ((after (before ++ name :: rest)).resolve other).1 ≠ UInt32.ofNat number := by
  have hnew := id?_after_eq_none hfirst
  have hlt : (after before).table.entries.length < UInt32.size := by
    have hgrown : (after before).table.entries.length ≤ (after (before ++ name :: rest)).table.entries.length := by
      rw [after, after, resolveAll_append]
      exact (prefix_resolveAll _ _).length_le
    rw [length_after (before ++ name :: rest)] at hgrown
    omega
  rw [resolve_after_append, resolve_numeral hlt hnew hnumeral hpos hsize, ← Bool.not_eq_true, isTaken_after]
  constructor
  · intro hfree other hother heq
    exact hfree ⟨other, hother, (resolve_after_of_mem hother _).symm.trans heq⟩
  · rintro hfree ⟨other, hother, heq⟩
    exact hfree other hother ((resolve_after_of_mem hother _).trans heq)

end Naming

end FlowTree
