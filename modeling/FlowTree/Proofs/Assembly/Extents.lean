import FlowTree.Assembly.Program
import FlowTree.Proofs.Assembly.Lexing
import FlowTree.Proofs.Sequences

/-!
Where the pieces of a text stand. Each lexeme starts where the one before it ends, so on one line there are at least as many
columns between the starts of two lexemes as the first one has characters. Tokens start where their lexemes do, and no place
is beyond the lines and columns of the text.
-/

namespace FlowTree.Assembly

namespace Cursor

/-- The second place is on a later line, or on the same line and at least `n` columns further. -/
def Clears (c : Cursor) (n : Nat) (d : Cursor) : Prop := c.line < d.line ∨ c.line = d.line ∧ c.column + n ≤ d.column

theorem Clears.mono {c d : Cursor} {m n : Nat} (h : c.Clears n d) (hle : m ≤ n) : c.Clears m d :=
  h.imp_right fun ⟨hline, hcolumn⟩ => ⟨hline, by omega⟩

theorem Clears.line_le {c d : Cursor} {n : Nat} (h : c.Clears n d) : c.line ≤ d.line := by
  rcases h with h | ⟨h, -⟩ <;> omega

theorem after_append (c : Cursor) (t u : Text) : c.after (t ++ u) = (c.after t).after u := List.foldl_append

theorem clears_after (c : Cursor) (t : Text) : c.Clears t.length (c.after t) := by
  induction t generalizing c with
  | nil => exact Or.inr ⟨rfl, Nat.le_refl _⟩
  | cons g t ih =>
    have hstep : (c.step g).line = c.line + 1 ∨ (c.step g).line = c.line ∧ (c.step g).column = c.column + 1 := by
      unfold step
      split
      · exact Or.inl rfl
      · exact Or.inr ⟨rfl, rfl⟩
    have hrest : (c.step g).Clears t.length (c.after (g :: t)) := ih (c.step g)
    unfold Clears at hrest ⊢
    rw [List.length_cons]
    omega

theorem toChar_eq_newline_iff {g : Glyph} : g.toChar = '\n' ↔ g = .char '\n' := by
  cases g <;> simp [Glyph.toChar]

/-- A place in a text is in one of its lines, at most behind the last character of a line. -/
theorem after_le (c : Cursor) (t u : Text) : ∃ first others, (t ++ u).lines = first :: others ∧
    (c.after t).line ≤ c.line + others.length ∧
    ((c.after t).column ≤ c.column + first.length ∨ ∃ line ∈ others, (c.after t).column ≤ line.length + 1) := by
  unfold Text.lines
  induction t generalizing c with
  | nil =>
    obtain ⟨first, others, hlines⟩ := List.exists_cons_of_ne_nil (List.splitOn_ne_nil (.char '\n') u)
    exact ⟨first, others, hlines, Nat.le_add_right _ _, Or.inl (Nat.le_add_right _ _)⟩
  | cons g t ih =>
    obtain ⟨first, others, hlines, hline, hcolumn⟩ := ih (c.step g)
    rw [List.splitOn] at hlines
    rw [List.splitOn, List.cons_append, List.splitOnP_cons_eq_if_modifyHead, hlines]
    change (c.after (g :: t)).line ≤ _ at hline
    change (c.after (g :: t)).column ≤ _ ∨ (∃ line ∈ _, (c.after (g :: t)).column ≤ _) at hcolumn
    by_cases hg : g = .char '\n'
    · have hstep : c.step g = ⟨c.line + 1, 1, c.offset + g.width⟩ := by simp [step, hg, Glyph.toChar]
      rw [hstep] at hline hcolumn
      simp only at hline hcolumn
      refine ⟨[], first :: others, by simp [hg], by rw [List.length_cons]; omega, Or.inr ?_⟩
      rcases hcolumn with hfirst | ⟨line, hmem, hcolumn⟩
      · exact ⟨first, List.mem_cons_self, by omega⟩
      · exact ⟨line, List.mem_cons_of_mem _ hmem, hcolumn⟩
    · have hstep : c.step g = ⟨c.line, c.column + 1, c.offset + g.width⟩ := by
        simp [step, toChar_eq_newline_iff, hg]
      rw [hstep] at hline hcolumn
      simp only at hline hcolumn
      refine ⟨g :: first, others, by simp [hg], hline, hcolumn.imp_left fun hfirst => ?_⟩
      rw [List.length_cons]
      omega

theorem one_le_after {c : Cursor} (h : 1 ≤ c.line ∧ 1 ≤ c.column) (t : Text) :
    1 ≤ (c.after t).line ∧ 1 ≤ (c.after t).column := by
  induction t generalizing c with
  | nil => exact h
  | cons g t ih =>
    refine ih (c := c.step g) ?_
    unfold step
    split
    · exact ⟨Nat.le_add_left _ _, Nat.le_refl _⟩
    · exact ⟨h.1, Nat.le_add_left _ _⟩

end Cursor

/-! ### Lexemes and tokens -/

/-- A lexeme and where it starts. -/
structure Placed where
  start : Cursor
  lexeme : Lexeme

/-- Lexemes in a row, the first one at the cursor. -/
def placed : Cursor → List Lexeme → List Placed
  | _, [] => []
  | c, l :: ls => ⟨c, l⟩ :: placed (c.after l.text) ls

variable {c : Cursor} {t left : Text} {ls : List Lexeme} {x : Placed}

theorem map_placed (c : Cursor) (ls : List Lexeme) : (placed c ls).map (·.lexeme) = ls := by
  induction ls generalizing c with
  | nil => rfl
  | cons l ls ih => simp [placed, ih]

theorem exists_of_mem_placed (h : x ∈ placed c ls) :
    ∃ earlier later, ls = earlier ++ x.lexeme :: later ∧ x.start = c.after (earlier.flatMap Lexeme.text) := by
  induction ls generalizing c with
  | nil => cases h
  | cons l ls ih =>
    rcases List.mem_cons.mp h with rfl | h
    · exact ⟨[], ls, rfl, rfl⟩
    · obtain ⟨earlier, later, rfl, hstart⟩ := ih h
      exact ⟨l :: earlier, later, rfl, by rw [hstart, List.flatMap_cons, Cursor.after_append]⟩

/-- A lexeme is over where a later one starts. -/
theorem pairwise_placed (c : Cursor) (ls : List Lexeme) :
    (placed c ls).Pairwise fun x y => x.start.Clears x.lexeme.text.length y.start := by
  induction ls generalizing c with
  | nil => exact .nil
  | cons l ls ih =>
    refine .cons (fun y hy => ?_) (ih _)
    obtain ⟨earlier, later, -, hstart⟩ := exists_of_mem_placed hy
    rw [hstart, ← Cursor.after_append]
    refine (c.clears_after _).mono ?_
    rw [List.length_append]
    exact Nat.le_add_right _ _

theorem one_le_start (h : x ∈ placed {} ls) : 1 ≤ x.start.line ∧ 1 ≤ x.start.column := by
  obtain ⟨earlier, later, -, hstart⟩ := exists_of_mem_placed h
  exact hstart ▸ Cursor.one_le_after ⟨Nat.le_refl 1, Nat.le_refl 1⟩ _

theorem Lexes.flatMap_text (h : Lexes t ls) : ls.flatMap Lexeme.text = t := by
  induction h with
  | nil => rfl
  | cons _ _ ih => rw [List.flatMap_cons, ih]

theorem Lexes.text_ne_nil (h : Lexes t ls) : ∀ l ∈ ls, l.text ≠ [] := by
  induction h with
  | nil => simp
  | cons first _ ih =>
    refine List.forall_mem_cons.mpr ⟨?_, ih⟩
    rintro rfl
    exact absurd (length_lt_of_first? first) (Nat.lt_irrefl _)

/-- What is in front of the end of a closed text is in front of the end of the text. -/
theorem exists_append_of_closeLine {u w : Text} (h : closeLine t = u ++ w) (hw : w ≠ []) : ∃ v, t = u ++ v := by
  unfold closeLine at h
  split at h
  · exact ⟨w, h⟩
  · obtain ⟨v, g, rfl⟩ := List.eq_nil_or_concat' w |>.resolve_left hw
    rw [← List.append_assoc] at h
    exact ⟨v, (List.append_inj' h rfl).1⟩

/-- Lexemes start inside the lines and columns of the text. -/
theorem Lexes.start_le (h : Lexes (closeLine t) ls) (hx : x ∈ placed {} ls) :
    x.start.line ≤ t.lines.length ∧ ∃ line ∈ t.lines, x.start.column ≤ line.length + 1 := by
  obtain ⟨earlier, later, hls, hstart⟩ := exists_of_mem_placed hx
  have htext : closeLine t = earlier.flatMap Lexeme.text ++ (x.lexeme.text ++ later.flatMap Lexeme.text) := by
    rw [← h.flatMap_text, hls, List.flatMap_append, List.flatMap_cons]
  have hne : x.lexeme.text ≠ [] := h.text_ne_nil _ (by simp [hls])
  obtain ⟨v, hv⟩ := exists_append_of_closeLine htext (by simp [hne])
  obtain ⟨first, others, hlines, hline, hcolumn⟩ := Cursor.after_le {} (earlier.flatMap Lexeme.text) v
  rw [← hv] at hlines
  rw [hlines, hstart, List.length_cons]
  refine ⟨Nat.le_trans hline (Nat.le_of_eq (Nat.add_comm 1 _)), ?_⟩
  rcases hcolumn with hcolumn | ⟨line, hmem, hcolumn⟩
  · exact ⟨first, List.mem_cons_self, Nat.le_trans hcolumn (Nat.le_of_eq (Nat.add_comm 1 _))⟩
  · exact ⟨line, List.mem_cons_of_mem _ hmem, hcolumn⟩

/-- The lexeme counts. -/
def Lexeme.isKept (l : Lexeme) : Bool := !Token.isSkipped l.kind

namespace Token

/-- The token has the kind and the value of the lexeme. -/
structure Of (l : Lexeme) (t : Token) : Prop where
  kind : t.kind = l.kind
  value : value? l = some t.value

/-- The token is that of the lexeme and starts where it does. -/
structure StandsFor (x : Placed) (t : Token) : Prop where
  of : Of x.lexeme t
  start : t.start = x.start

theorem standsFor_of_ofLexemes {ts : List Token} (h : ofLexemes left c ls = .ok ts) :
    left = [] ∧ (∀ l ∈ ls, (value? l).isSome) ∧ List.Forall₂ StandsFor ((placed c ls).filter (·.lexeme.isKept)) ts := by
  induction ls generalizing c ts with
  | nil =>
    rw [ofLexemes] at h
    split at h
    · cases h
      exact ⟨by simpa using ‹left.isEmpty = true›, by simp, .nil⟩
    · cases h
  | cons l ls ih =>
    rw [ofLexemes] at h
    split at h
    · cases h
    · rename_i value hvalue
      obtain ⟨tokens, htokens, h⟩ := Except.bind_eq_ok_iff.mp h
      obtain ⟨hleft, hvalues, hstands⟩ := ih htokens
      refine ⟨hleft, List.forall_mem_cons.mpr ⟨by simp [hvalue], hvalues⟩, ?_⟩
      by_cases hskipped : isSkipped l.kind = true
      · rw [if_pos hskipped] at h
        cases h
        simpa [placed, Lexeme.isKept, hskipped] using hstands
      · rw [if_neg hskipped] at h
        cases h
        simp only [placed, Lexeme.isKept, hskipped, Bool.not_false, List.filter_cons_of_pos]
        exact .cons ⟨⟨rfl, hvalue⟩, rfl⟩ hstands

theorem of_ofLexemes {ts : List Token} (h : ofLexemes left c ls = .ok ts) :
    left = [] ∧ (∀ l ∈ ls, (value? l).isSome) ∧ List.Forall₂ Of (ls.filter Lexeme.isKept) ts := by
  obtain ⟨hleft, hvalues, hstands⟩ := standsFor_of_ofLexemes h
  refine ⟨hleft, hvalues, ?_⟩
  rw [← map_placed c ls, List.filter_map, List.forall₂_map_left_iff]
  exact hstands.imp fun _ _ => StandsFor.of

end Token
end FlowTree.Assembly
