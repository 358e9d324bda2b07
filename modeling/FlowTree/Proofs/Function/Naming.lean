import Mathlib.Data.List.Nodup
import Mathlib.Data.List.Perm.Subperm
import FlowTree.Function.Names

/-!
Names and ids. A name that is resolved is bound from then on, and bindings are only ever added. While no name has the id
zero there is a free id for the next name, so no two names share one: the name of a name's id is that name.
-/

namespace FlowTree

namespace NameTable

/-- Bindings stay as others are added after them. -/
theorem id?_of_prefix {t t' : NameTable} {name : String} {id : Id} (h : t.entries <+: t'.entries)
    (hid : t.id? name = some id) : t'.id? name = some id := by
  obtain ⟨more, hmore⟩ := h
  obtain ⟨entry, hentry, rfl⟩ := Option.map_eq_some_iff.mp hid
  rw [id?, ← hmore, List.find?_append, hentry]
  rfl

theorem mem_of_id? {t : NameTable} {name : String} {id : Id} (h : t.id? name = some id) : (name, id) ∈ t.entries := by
  obtain ⟨⟨name', id'⟩, hentry, rfl⟩ := Option.map_eq_some_iff.mp h
  have hname : name' = name := by simpa using List.find?_some hentry
  exact hname ▸ List.mem_of_find?_eq_some hentry

theorem mem_of_name? {t : NameTable} {name : String} {id : Id} (h : t.name? id = some name) :
    (name, id) ∈ t.entries := by
  obtain ⟨⟨name', id'⟩, hentry, rfl⟩ := Option.map_eq_some_iff.mp h
  have hid : id' = id := by simpa using List.find?_some hentry
  exact hid ▸ List.mem_of_find?_eq_some hentry

theorem exists_name?_of_id? {t : NameTable} {name : String} {id : Id} (h : t.id? name = some id) :
    ∃ name', t.name? id = some name' := by
  cases hfound : t.entries.find? (·.2 = id) with
  | some entry => exact ⟨entry.1, by rw [name?, hfound, Option.map_some]⟩
  | none =>
    have hne := List.find?_eq_none.mp hfound _ (mem_of_id? h)
    exact absurd (decide_eq_true rfl) hne

theorem id?_eq_none_iff {t : NameTable} {name : String} : t.id? name = none ↔ ∀ entry ∈ t.entries, entry.1 ≠ name := by
  simp [id?]

end NameTable

namespace Naming

theorem prefix_resolve (n : Naming) (name : String) : n.table.entries <+: (n.resolve name).2.table.entries := by
  unfold resolve
  simp only
  split
  · exact List.prefix_refl _
  · exact List.prefix_append _ _

/-- A name is bound as soon as it is resolved. -/
theorem id?_resolve (n : Naming) (name : String) :
    (n.resolve name).2.table.id? (bare name) = some (n.resolve name).1 := by
  unfold resolve
  simp only
  split
  · assumption
  · have hnone : n.table.entries.find? (·.1 = bare name) = none := Option.map_eq_none_iff.mp ‹_›
    simp [NameTable.id?, NameTable.bind, List.find?_append, hnone]

end Naming

namespace NameTable

/-- The search ends at an id that is taken only if every id it looks at is. -/
theorem isTaken_of_freeFrom {t : NameTable} {tries : Nat} {id : Id} (h : t.isTaken (t.freeFrom tries id) = true) :
    ∀ k ≤ tries, t.isTaken (id + UInt32.ofNat k) = true := by
  induction tries generalizing id with
  | zero =>
    intro k hk
    obtain rfl : k = 0 := by omega
    simpa [freeFrom] using h
  | succ tries ih =>
    rw [freeFrom] at h
    split at h
    · rename_i hid
      intro k hk
      cases k with
      | zero => simpa using hid
      | succ k =>
        have hshift : id + UInt32.ofNat (k + 1) = id + 1 + UInt32.ofNat k := by
          rw [Nat.add_comm k 1, UInt32.ofNat_add, UInt32.add_assoc]
          rfl
        rw [hshift]
        exact ih h k (by omega)
    · rename_i hid
      exact absurd h hid

theorem isTaken_iff {t : NameTable} {id : Id} : t.isTaken id = true ↔ id ∈ t.entries.map (·.2) := by
  simp [isTaken]

/-- The search ends at a free id unless there are as many names as ids. -/
theorem not_isTaken_freeFrom {t : NameTable} (hlt : t.entries.length < UInt32.size) (id : Id) :
    t.isTaken (t.freeFrom t.entries.length id) = false := by
  by_contra htaken
  rw [Bool.not_eq_false] at htaken
  have hall := isTaken_of_freeFrom htaken
  let candidates := (List.range (t.entries.length + 1)).map fun k => id + UInt32.ofNat k
  have hnodup : candidates.Nodup := by
    refine List.Nodup.map_on (fun j hj k hk heq => ?_) List.nodup_range
    rw [List.mem_range] at hj hk
    have heq : (UInt32.ofNat j).toNat = (UInt32.ofNat k).toNat := by rw [(UInt32.add_right_inj id).mp heq]
    rwa [UInt32.toNat_ofNat_of_lt' (by omega), UInt32.toNat_ofNat_of_lt' (by omega)] at heq
  have hsubset : candidates ⊆ t.entries.map (·.2) := by
    intro c hc
    obtain ⟨k, hk, rfl⟩ := List.mem_map.mp hc
    rw [List.mem_range] at hk
    exact isTaken_iff.mp (hall k (by omega))
  have hlength := (List.subperm_of_subset hnodup hsubset).length_le
  simp only [candidates, List.length_map, List.length_range] at hlength
  omega

/-! ### One id for each name -/

/-- No name is bound twice, and no two names share an id. -/
structure OneToOne (t : NameTable) : Prop where
  names : (t.entries.map (·.1)).Nodup
  ids : (t.entries.map (·.2)).Nodup

/-- No name has the id zero, which stands for no result. -/
def NonZero (t : NameTable) : Prop := ∀ entry ∈ t.entries, entry.2 ≠ 0

theorem NonZero.of_prefix {t t' : NameTable} (h : t'.NonZero) (hgrown : t.entries <+: t'.entries) : t.NonZero :=
  fun entry hentry => h entry (hgrown.subset hentry)

theorem OneToOne.length_lt {t : NameTable} (h : t.OneToOne) (hzero : t.NonZero) : t.entries.length < UInt32.size := by
  have hnodup : ((0 :: t.entries.map (·.2)).map UInt32.toNat).Nodup := by
    refine List.Nodup.map (fun _ _ => UInt32.toNat_inj.mp) (List.nodup_cons.mpr ⟨?_, h.ids⟩)
    intro hmem
    obtain ⟨entry, hentry, hid⟩ := List.mem_map.mp hmem
    exact hzero entry hentry hid
  have hsubset : ((0 :: t.entries.map (·.2)).map UInt32.toNat) ⊆ List.range UInt32.size := by
    intro n hn
    obtain ⟨id, -, rfl⟩ := List.mem_map.mp hn
    exact List.mem_range.mpr id.toNat_lt_size
  have hlength := (List.subperm_of_subset hnodup hsubset).length_le
  simp only [List.length_map, List.length_cons, List.length_range] at hlength
  omega

/-- While no id is zero, names and ids correspond. -/
def Faithful (t : NameTable) : Prop := t.NonZero → t.OneToOne

theorem OneToOne.nameOf_eq {t : NameTable} (h : t.OneToOne) {name : String} {id : Id} (hid : t.id? name = some id) :
    t.nameOf id = name := by
  obtain ⟨name', hname⟩ := exists_name?_of_id? hid
  have heq : (name', id) = (name, id) := List.inj_on_of_nodup_map h.ids (mem_of_name? hname) (mem_of_id? hid) rfl
  rw [nameOf, hname, Option.getD_some, (Prod.mk.inj heq).1]

end NameTable

namespace Naming
open NameTable

/-- No name is bound twice: a name that has an id keeps it. -/
theorem nodup_names_resolve {n : Naming} (h : (n.table.entries.map (·.1)).Nodup) (name : String) :
    ((n.resolve name).2.table.entries.map (·.1)).Nodup := by
  unfold resolve
  simp only
  split
  · exact h
  · rename_i hnone
    rw [NameTable.bind, List.map_append, List.map_singleton, List.nodup_append_comm, List.singleton_append,
      List.nodup_cons]
    refine ⟨fun hmem => ?_, h⟩
    obtain ⟨entry, hentry, heq⟩ := List.mem_map.mp hmem
    exact id?_eq_none_iff.mp hnone entry hentry heq

/-- Resolving a name keeps names and ids in correspondence while there is a free id, for it binds one. -/
theorem oneToOne_resolve {n : Naming} (h : n.table.OneToOne) (hlt : n.table.entries.length < UInt32.size) (name : String) :
    (n.resolve name).2.table.OneToOne := by
  refine ⟨nodup_names_resolve h.names name, ?_⟩
  unfold resolve
  simp only
  split
  · exact h.ids
  · have hfree := not_isTaken_freeFrom hlt (n.wanted (bare name))
    rw [NameTable.bind, List.map_append, List.map_singleton, List.nodup_append_comm, List.singleton_append,
      List.nodup_cons]
    exact ⟨fun hmem => by simp [isTaken_iff.mpr hmem] at hfree, h.ids⟩

theorem faithful_resolve {n : Naming} (h : n.table.Faithful) (name : String) : (n.resolve name).2.table.Faithful := by
  intro hzero
  have hbefore := hzero.of_prefix (n.prefix_resolve name)
  exact oneToOne_resolve (h hbefore) ((h hbefore).length_lt hbefore) name

end Naming

end FlowTree
