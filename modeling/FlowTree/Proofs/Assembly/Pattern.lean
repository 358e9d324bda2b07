import Mathlib.Data.List.Basic

/-!
Patterns of characters. A pattern that is matched at the front of a text may leave several rests; they are listed in the
order in which a search that backs up finds them, and the first one counts. The main facts say what a match depends on:
behind a character that no class of the pattern takes nothing matters (`left?_append`).
-/

namespace FlowTree.Assembly

/-- What the front of a text may look like. -/
inductive Pattern where
  | nothing
  /-- A character of the class. -/
  | one (p : Char → Bool)
  | seq (first next : Pattern)
  /-- One of two patterns, the first one if there is a choice. -/
  | either (preferred other : Pattern)
  /-- The pattern any number of times, as often as possible if there is a choice. -/
  | many (item : Pattern)

namespace Pattern

/-- Take a step that leaves less, again and again, and not at all as a last resort. -/
def repeated (step : List Char → List (List Char)) : (tries : Nat) → List Char → List (List Char)
  | 0, cs => [cs]
  | tries + 1, cs => ((step cs).filter fun rest => rest.length < cs.length).flatMap (repeated step tries) ++ [cs]

/-- What the pattern can leave of a text, in order of preference. -/
def ways : Pattern → List Char → List (List Char)
  | nothing, cs => [cs]
  | one _, [] => []
  | one p, c :: cs => if p c then [cs] else []
  | seq first next, cs => (ways first cs).flatMap (ways next)
  | either preferred other, cs => ways preferred cs ++ ways other cs
  | many item, cs => repeated (ways item) cs.length cs

/-- What the preferred match leaves of a text. -/
def left? (p : Pattern) (cs : List Char) : Option (List Char) := (p.ways cs).head?

/-- The given character. -/
def char (c : Char) : Pattern := one (· = c)

/-- The pattern or nothing. -/
def optional (p : Pattern) : Pattern := either p nothing

/-- The pattern at least once. -/
def several (p : Pattern) : Pattern := seq p (many p)

/-- No class of the pattern takes the character. -/
def Refuses (c : Char) : Pattern → Prop
  | nothing => True
  | one p => p c = false
  | seq first next => first.Refuses c ∧ next.Refuses c
  | either preferred other => preferred.Refuses c ∧ other.Refuses c
  | many item => item.Refuses c

/-- Whether a pattern refuses a character is read off its classes. -/
def decideRefuses (c : Char) : (p : Pattern) → Decidable (p.Refuses c)
  | nothing => isTrue trivial
  | one p => inferInstanceAs (Decidable (p c = false))
  | seq first next =>
    have := decideRefuses c first
    have := decideRefuses c next
    inferInstanceAs (Decidable (_ ∧ _))
  | either preferred other =>
    have := decideRefuses c preferred
    have := decideRefuses c other
    inferInstanceAs (Decidable (_ ∧ _))
  | many item => decideRefuses c item

instance (c : Char) (p : Pattern) : Decidable (p.Refuses c) := decideRefuses c p

variable {a b p : Pattern} {cs u w rest : List Char}

theorem repeated_eq {step : List Char → List (List Char)} {m n : Nat} (hm : cs.length ≤ m) (hn : cs.length ≤ n) :
    repeated step m cs = repeated step n cs := by
  induction m generalizing n cs with
  | zero =>
    obtain rfl := List.eq_nil_of_length_eq_zero (Nat.le_zero.mp hm)
    cases n <;> simp [repeated]
  | succ m ih =>
    cases n with
    | zero =>
      obtain rfl := List.eq_nil_of_length_eq_zero (Nat.le_zero.mp hn)
      simp [repeated]
    | succ n =>
      rw [repeated, repeated]
      congr 1
      refine List.flatMap_congr fun r hr => ?_
      have hlt : r.length < cs.length := by simpa using (List.mem_filter.mp hr).2
      exact ih (by omega) (by omega)

/-- A repetition goes on behind each match of its item that leaves less, and may always stop. -/
theorem ways_many : (many a).ways cs =
    ((a.ways cs).filter fun rest => rest.length < cs.length).flatMap (many a).ways ++ [cs] := by
  show repeated a.ways cs.length cs = _
  rw [repeated_eq (Nat.le_refl _) (Nat.le_succ _), repeated]
  congr 1
  refine List.flatMap_congr fun r hr => ?_
  have hlt : r.length < cs.length := by simpa using (List.mem_filter.mp hr).2
  exact repeated_eq (by omega) (Nat.le_refl _)

/-- What holds of the rests of a repetition, along its matches. -/
theorem many_induction {P : List Char → List Char → Prop} (stop : ∀ cs, P cs cs)
    (step : ∀ {cs mid rest}, mid ∈ a.ways cs → P mid rest → P cs rest) (h : rest ∈ (many a).ways cs) : P cs rest := by
  induction hn : cs.length using Nat.strongRecOn generalizing cs with
  | _ n ih =>
    rw [ways_many, List.mem_append, List.mem_flatMap] at h
    rcases h with ⟨mid, hmid, hrest⟩ | h
    · obtain ⟨hmid, hlt⟩ := List.mem_filter.mp hmid
      exact step hmid (ih _ (by simpa [hn] using hlt) hrest rfl)
    · rw [List.mem_singleton.mp h]
      exact stop cs

theorem suffix_of_mem_ways (h : rest ∈ p.ways cs) : rest <:+ cs := by
  induction p generalizing cs rest with
  | nothing => exact List.mem_singleton.mp h ▸ List.suffix_refl _
  | one q =>
    cases cs with
    | nil => cases h
    | cons c cs =>
      rw [ways] at h
      split at h
      · rw [List.mem_singleton.mp h]
        exact List.suffix_cons c cs
      · cases h
  | seq a b iha ihb =>
    obtain ⟨mid, hmid, hrest⟩ := List.mem_flatMap.mp h
    exact (ihb hrest).trans (iha hmid)
  | either a b iha ihb => exact (List.mem_append.mp h).elim iha ihb
  | many a ih =>
    exact many_induction (P := fun cs rest => rest <:+ cs) List.suffix_refl (fun hmid hrest => hrest.trans (ih hmid)) h

/-- Behind a character that the pattern refuses everything is left. -/
theorem suffix_of_refuses {c : Char} (hc : p.Refuses c) (h : rest ∈ p.ways (w ++ c :: u)) :
    ∃ v, rest = v ++ c :: u := by
  suffices ∀ {cs : List Char}, rest ∈ p.ways cs → (∃ v, cs = v ++ c :: u) → ∃ v, rest = v ++ c :: u from this h ⟨w, rfl⟩
  clear h
  induction p generalizing rest with
  | nothing =>
    intro cs h hcs
    rwa [List.mem_singleton.mp h]
  | one q =>
    rintro cs h ⟨v, rfl⟩
    cases v with
    | nil =>
      have hq : q c = false := hc
      simp [ways, hq] at h
    | cons d v =>
      rw [List.cons_append, ways] at h
      split at h
      · exact ⟨v, List.mem_singleton.mp h⟩
      · cases h
  | seq a b iha ihb =>
    intro cs h hcs
    obtain ⟨mid, hmid, hrest⟩ := List.mem_flatMap.mp h
    exact ihb hc.2 hrest (iha hc.1 hmid hcs)
  | either a b iha ihb =>
    intro cs h hcs
    exact (List.mem_append.mp h).elim (iha hc.1 · hcs) (ihb hc.2 · hcs)
  | many a ih =>
    intro cs h
    exact many_induction (P := fun cs rest => (∃ v, cs = v ++ c :: u) → ∃ v, rest = v ++ c :: u) (fun _ => id)
      (fun hmid hrest hcs => hrest (ih hc hmid hcs)) h

/-- A match takes no character that the pattern refuses. -/
theorem not_mem_of_refuses {c : Char} (hc : p.Refuses c) (h : rest ∈ p.ways (w ++ rest)) : c ∉ w := by
  intro hmem
  obtain ⟨before, after, rfl⟩ := List.append_of_mem hmem
  rw [List.append_assoc, List.cons_append] at h
  obtain ⟨v, hv⟩ := suffix_of_refuses hc h
  have hlength := congrArg List.length hv
  simp only [List.length_append, List.length_cons] at hlength
  omega

theorem filter_ways_eq_nil (h : cs.length < u.length) : (p.ways cs).filter (u.length ≤ ·.length) = [] := by
  rw [List.filter_eq_nil_iff]
  intro r hr
  have := (suffix_of_mem_ways hr).length_le
  simp only [decide_eq_true_eq]
  omega

/-- What is too short already leaves only what is too short. -/
theorem filter_flatMap_ways {rs : List (List Char)} : (rs.flatMap p.ways).filter (u.length ≤ ·.length) =
    (rs.filter (u.length ≤ ·.length)).flatMap fun r => (p.ways r).filter (u.length ≤ ·.length) := by
  induction rs with
  | nil => rfl
  | cons r rs ih =>
    by_cases hr : u.length ≤ r.length
    · simp [hr, ih]
    · simp [hr, ih, filter_ways_eq_nil (p := p) (Nat.not_le.mp hr)]

/-- The matches in a part of the text are those in the whole text that stay in the part. -/
theorem filter_ways_append : (p.ways (w ++ u)).filter (u.length ≤ ·.length) = (p.ways w).map (· ++ u) := by
  induction p generalizing w with
  | nothing => simp [ways]
  | one q =>
    cases w with
    | nil =>
      cases u with
      | nil => simp [ways]
      | cons c u =>
        simp only [List.nil_append, ways]
        split <;> simp
    | cons d w =>
      simp only [List.cons_append, ways]
      split <;> simp
  | either a b iha ihb => simp [ways, iha, ihb]
  | seq a b iha ihb =>
    rw [ways, filter_flatMap_ways, iha, List.flatMap_map, ways, List.map_flatMap]
    exact List.flatMap_congr fun r _ => ihb
  | many a ih =>
    -- Repetition is no structural recursion: an item that takes something leaves a shorter text.
    induction hn : w.length using Nat.strongRecOn generalizing w with
    | _ n ihn =>
      have hitems : ((a.ways (w ++ u)).filter fun rest => rest.length < (w ++ u).length).filter (u.length ≤ ·.length) =
          ((a.ways w).filter fun rest => rest.length < w.length).map (· ++ u) := by
        rw [List.filter_comm, ih, List.filter_map]
        simp [Function.comp_def]
      rw [ways_many, List.filter_append, filter_flatMap_ways, hitems, List.flatMap_map, ways_many, List.map_append,
        List.map_flatMap]
      congr 1
      · refine List.flatMap_congr fun r hr => ?_
        have hlt : r.length < w.length := by simpa using (List.mem_filter.mp hr).2
        exact ihn _ (hn ▸ hlt) rfl
      · simp

theorem ways_append_of_refuses {c : Char} (hc : p.Refuses c) :
    p.ways (w ++ c :: u) = (p.ways w).map (· ++ c :: u) := by
  rw [← filter_ways_append, List.filter_eq_self.mpr]
  intro r hr
  obtain ⟨v, rfl⟩ := suffix_of_refuses hc hr
  simp

/-- What the preferred match takes, it takes also in front of a character that the pattern refuses. -/
theorem left?_append {c : Char} (h : p.left? (w ++ rest) = some rest) (hc : p.Refuses c) :
    p.left? (w ++ c :: u) = some (c :: u) := by
  have hpart : ((p.ways w).map (· ++ rest)).head? = some rest := by
    obtain ⟨others, hways⟩ := List.head?_eq_some_iff.mp h
    rw [← filter_ways_append, hways]
    simp
  rw [List.head?_map, Option.map_eq_some_iff] at hpart
  obtain ⟨r, hr, hrest⟩ := hpart
  rw [left?, ways_append_of_refuses hc, List.head?_map, hr]
  simpa using hrest

/-- What does not match does not match in front of a character that the pattern refuses either. -/
theorem left?_append_none {c : Char} (h : p.left? (w ++ rest) = none) (hc : p.Refuses c) :
    p.left? (w ++ c :: u) = none := by
  have hpart : (p.ways w).map (· ++ rest) = [] := by
    rw [← filter_ways_append, List.head?_eq_none_iff.mp h]
    rfl
  rw [left?, ways_append_of_refuses hc, List.map_eq_nil_iff.mp hpart]
  rfl

/-! ### Matches of the parts -/

theorem ways_seq : (seq a b).ways cs = (a.ways cs).flatMap b.ways := rfl

theorem ways_either : (either a b).ways cs = a.ways cs ++ b.ways cs := rfl

@[simp] theorem ways_nothing : nothing.ways cs = [cs] := rfl

@[simp] theorem ways_one_nil {q : Char → Bool} : (one q).ways [] = [] := rfl

@[simp] theorem ways_one_cons {q : Char → Bool} {c : Char} : (one q).ways (c :: cs) = if q c then [cs] else [] := rfl

theorem length_lt_of_mem_ways_one {q : Char → Bool} {cs rest : List Char} (h : rest ∈ (one q).ways cs) :
    rest.length < cs.length := by
  cases cs with
  | nil => cases h
  | cons c cs =>
    rw [ways_one_cons] at h
    split at h
    · rw [List.mem_singleton.mp h]
      exact Nat.lt_succ_self _
    · cases h

@[simp] theorem left?_one_cons {q : Char → Bool} {c : Char} :
    (one q).left? (c :: cs) = if q c then some cs else none := by
  rw [left?, ways_one_cons]
  split <;> rfl

theorem left?_either : (either a b).left? cs = (a.left? cs).or (b.left? cs) := List.head?_append

theorem left?_optional : (optional a).left? cs = some ((a.left? cs).getD cs) := by
  rw [optional, left?_either]
  cases a.left? cs <;> rfl

/-- Where the second pattern matches whatever is left, the preferred match of the first one counts. -/
theorem left?_seq_of_total (h : ∀ cs, (b.left? cs).isSome) : (seq a b).left? cs = (a.left? cs).bind b.left? := by
  simp only [left?, ways_seq]
  cases hways : a.ways cs with
  | nil => rfl
  | cons r others =>
    obtain ⟨r', hr'⟩ := Option.isSome_iff_exists.mp (h r)
    simp only [List.flatMap_cons, List.head?_append, List.head?_cons, Option.bind_some]
    rw [show (b.ways r).head? = some r' from hr', Option.some_or]
    exact hr'.symm

theorem isSome_left?_many : ((many a).left? cs).isSome := by
  rw [left?, ways_many]
  simp

theorem isSome_left?_optional : ((optional a).left? cs).isSome := by
  rw [left?_optional]
  rfl

/-- The first pattern leaves one rest that the second may match, and others that it does not. -/
theorem ways_seq_of_only {others : List (List Char)} (h : a.ways cs = rest :: others)
    (hothers : ∀ r ∈ others, b.ways r = []) : (seq a b).ways cs = b.ways rest := by
  rw [ways_seq, h, List.flatMap_cons, List.flatMap_eq_nil_iff.mpr hothers, List.append_nil]

/-- A class that is repeated leaves first what it does not take, and else what it takes. -/
theorem exists_ways_many_one (q : Char → Bool) (cs : List Char) :
    ∃ others, (many (one q)).ways cs = cs.dropWhile q :: others ∧
    ∀ r ∈ others, ∃ c r', r = c :: r' ∧ q c = true := by
  induction cs with
  | nil => exact ⟨[], rfl, by simp⟩
  | cons c cs ih =>
    obtain ⟨others, hways, hothers⟩ := ih
    by_cases hc : q c = true
    · refine ⟨others ++ [c :: cs], by rw [ways_many]; simp [hc, hways], ?_⟩
      intro r hr
      rcases List.mem_append.mp hr with hr | hr
      · exact hothers r hr
      · exact ⟨c, cs, List.mem_singleton.mp hr, hc⟩
    · exact ⟨[], by rw [ways_many]; simp [hc], by simp⟩

theorem left?_many_one {q : Char → Bool} : (many (one q)).left? cs = some (cs.dropWhile q) := by
  obtain ⟨others, hways, -⟩ := exists_ways_many_one q cs
  rw [left?, hways]
  rfl

theorem exists_ways_several_one {q : Char → Bool} (h : cs.head?.any q = true) :
    ∃ others, (several (one q)).ways cs = cs.dropWhile q :: others ∧ ∀ r ∈ others, ∃ c r', r = c :: r' ∧ q c = true := by
  cases cs with
  | nil => cases h
  | cons c cs =>
    obtain ⟨others, hways, hothers⟩ := exists_ways_many_one q cs
    have hc : q c = true := h
    exact ⟨others, by simp [several, ways_seq, hc, hways], hothers⟩

theorem left?_several_one {q : Char → Bool} :
    (several (one q)).left? cs = if cs.head?.any q then some (cs.dropWhile q) else none := by
  rw [several, left?_seq_of_total fun _ => isSome_left?_many]
  cases cs with
  | nil => rfl
  | cons c cs => by_cases hc : q c = true <;> simp [hc, left?_many_one]

/-- Behind a repeated class there is no choice if what comes next is never of the class. -/
theorem left?_seq_several_one {q : Char → Bool} (h : ∀ c cs, q c = true → b.left? (c :: cs) = none) :
    (seq (several (one q)) b).left? cs = if cs.head?.any q then b.left? (cs.dropWhile q) else none := by
  by_cases hcs : cs.head?.any q = true
  · obtain ⟨others, hways, hothers⟩ := exists_ways_several_one hcs
    rw [left?, ways_seq_of_only hways, if_pos hcs]
    · rfl
    · intro r hr
      obtain ⟨c, r', rfl, hc⟩ := hothers r hr
      exact List.head?_eq_none_iff.mp (h c r' hc)
  · have hways : (several (one q)).ways cs = [] := by
      rw [← List.head?_eq_none_iff, ← left?, left?_several_one, if_neg hcs]
    rw [left?, ways_seq, hways, if_neg hcs]
    rfl

/-- Nor is there one before a pattern that never begins with the class. -/
theorem left?_seq_optional_one {q : Char → Bool} (h : ∀ c cs, q c = true → b.left? (c :: cs) = none) :
    (seq (optional (one q)) b).left? cs = b.left? (if cs.head?.any q then cs.tail else cs) := by
  cases cs with
  | nil => simp [optional, left?, ways_seq, ways_either]
  | cons c cs =>
    by_cases hc : q c = true
    · have hways : b.ways (c :: cs) = [] := List.head?_eq_none_iff.mp (h c cs hc)
      simp [optional, left?, ways_seq, ways_either, hc, hways]
    · simp [optional, left?, ways_seq, ways_either, hc]

theorem left?_seq_one_cons {q : Char → Bool} {c : Char} :
    (seq (one q) b).left? (c :: cs) = if q c then b.left? cs else none := by
  by_cases hc : q c = true <;> simp [left?, ways_seq, hc]

@[simp] theorem left?_seq_one_nil {q : Char → Bool} : (seq (one q) b).left? [] = none := rfl

theorem ways_seq_many : (seq (many a) b).ways cs =
    ((a.ways cs).filter fun rest => rest.length < cs.length).flatMap (seq (many a) b).ways ++ b.ways cs := by
  rw [ways_seq, ways_many, List.flatMap_append, List.flatMap_assoc, List.flatMap_singleton]
  rfl

theorem left?_many_of_none (h : a.left? cs = none) : (many a).left? cs = some cs := by
  rw [left?, ways_many, List.head?_eq_none_iff.mp h]
  rfl

theorem left?_many_of_some (h : a.left? cs = some rest) (hlt : rest.length < cs.length) :
    (many a).left? cs = (many a).left? rest := by
  obtain ⟨others, hways⟩ := List.head?_eq_some_iff.mp h
  have hsome : ((many a).left? rest).isSome := isSome_left?_many
  obtain ⟨r, hr⟩ := Option.isSome_iff_exists.mp hsome
  rw [left?, ways_many, hways, List.filter_cons_of_pos (by simpa using hlt), List.flatMap_cons, List.append_assoc,
    List.head?_append, ← left?, hr, Option.some_or]

end Pattern

end FlowTree.Assembly
