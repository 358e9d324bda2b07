import FlowTree.Editor.Symbol

/-!
Points and ranges of a document. Points are in the order of their numbers (`Point.before_iff_rank`), so a range lies within
another if the numbers of its ends are between those of the other, and the cover of two ranges goes from the least number
to the greatest.
-/

namespace FlowTree.Editor

namespace Point

variable {a b : Point}

theorem toNat_wrap {n : Int} (hpos : 0 ≤ n) (hlt : n < UInt32.size) : ((wrap n).toNat : Int) = n := by
  rw [wrap, Int.emod_eq_of_lt hpos hlt, UInt32.toNat_ofNat_of_lt' (by omega)]
  omega

theorem before_iff : a.before b = true ↔
    a.line.toNat < b.line.toNat ∨ a.line.toNat = b.line.toNat ∧ a.character.toNat < b.character.toNat := by
  simp [before, UInt32.lt_iff_toNat_lt, UInt32.toNat_inj]

/-- From a point to one that is not before it, the lines do not wrap around, nor do the characters on the same line. -/
theorem toNat_sub (h : b.before a = false) : a.line.toNat + (b.line - a.line).toNat = b.line.toNat ∧
    (b.line - a.line = 0 → a.character.toNat + (b.character - a.character).toNat = b.character.toNat) := by
  rw [Bool.eq_false_iff, Ne, before_iff] at h
  have hline : (b.line - a.line).toNat = b.line.toNat - a.line.toNat :=
    UInt32.toNat_sub_of_le _ _ (UInt32.le_iff_toNat_le.mpr (by omega))
  refine ⟨by omega, fun hsame => ?_⟩
  have hzero : (b.line - a.line).toNat = 0 := by rw [hsame]; rfl
  rw [UInt32.toNat_sub_of_le _ _ (UInt32.le_iff_toNat_le.mpr (by omega))]
  omega

/-- The number of a point among all points. -/
def rank (p : Point) : Nat := p.line.toNat * UInt32.size + p.character.toNat

theorem before_iff_rank : a.before b = true ↔ a.rank < b.rank := by
  have := a.character.toNat_lt
  have := b.character.toNat_lt
  simp only [before_iff, rank, UInt32.size]
  omega

theorem before_eq_false_iff : a.before b = false ↔ b.rank ≤ a.rank := by
  rw [Bool.eq_false_iff, Ne, before_iff_rank, Nat.not_lt]

end Point

namespace Range

variable {a b c : Range}

/-- The point is neither before the range nor behind it. -/
def Has (r : Range) (p : Point) : Prop := p.before r.start = false ∧ r.stop.before p = false

/-- Both ends of the first range are in the second one. -/
structure Within (inner outer : Range) : Prop where
  start : outer.Has inner.start
  stop : outer.Has inner.stop

theorem has_iff {r : Range} {p : Point} : r.Has p ↔ r.start.rank ≤ p.rank ∧ p.rank ≤ r.stop.rank :=
  and_congr Point.before_eq_false_iff Point.before_eq_false_iff

theorem within_iff : a.Within b ↔ (b.start.rank ≤ a.start.rank ∧ a.start.rank ≤ b.stop.rank) ∧
    b.start.rank ≤ a.stop.rank ∧ a.stop.rank ≤ b.stop.rank :=
  ⟨fun h => ⟨has_iff.mp h.start, has_iff.mp h.stop⟩, fun h => ⟨has_iff.mpr h.1, has_iff.mpr h.2⟩⟩

theorem Within.trans (h : a.Within b) (h' : b.Within c) : a.Within c := by
  rw [within_iff] at h h' ⊢
  omega

/-- A range that has a point goes forward. -/
theorem Has.within_self {p : Point} (h : a.Has p) : a.Within a := by
  rw [has_iff] at h
  rw [within_iff]
  omega

theorem rank_start_cover : (a.cover b).start.rank = min a.start.rank b.start.rank := by
  unfold cover
  simp only [Point.before_iff_rank]
  split <;> omega

theorem rank_stop_cover : (a.cover b).stop.rank = max a.stop.rank b.stop.rank := by
  unfold cover
  simp only [Point.before_iff_rank]
  split <;> omega

/-- Ranges that go forward are within their cover. -/
theorem within_cover (ha : a.Within a) (hb : b.Within b) : a.Within (a.cover b) ∧ b.Within (a.cover b) := by
  simp only [within_iff, rank_start_cover, rank_stop_cover] at *
  omega

/-- The cover of a range with the ranges of symbols spans all of them. -/
theorem within_foldl_cover {ss : List Symbol} (hss : ∀ s ∈ ss, s.range.Within s.range) {r : Range} (hr : r.Within r) :
    r.Within (ss.foldl (fun r s => r.cover s.range) r) ∧
      ∀ s ∈ ss, s.range.Within (ss.foldl (fun r s => r.cover s.range) r) := by
  induction ss generalizing r with
  | nil => exact ⟨hr, by simp⟩
  | cons s ss ih =>
    obtain ⟨hs, hss⟩ := List.forall_mem_cons.mp hss
    obtain ⟨hleft, hright⟩ := within_cover hr hs
    obtain ⟨hcover, hothers⟩ := ih hss (hleft.start.within_self)
    exact ⟨hleft.trans hcover, List.forall_mem_cons.mpr ⟨hright.trans hcover, hothers⟩⟩

end Range

end FlowTree.Editor
