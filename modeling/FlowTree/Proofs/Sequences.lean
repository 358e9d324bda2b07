import Mathlib.Data.List.Forall2
import Mathlib.Data.List.Nodup

/-!
Lists that correspond item by item, lists with an item more, and what the success of a map, or of a loop, over a list says
of its items.
-/

namespace FlowTree

/-! ### Corresponding lists -/

section Forall₂
variable {α β : Type} {R : α → β → Prop} {xs : List α} {ys : List β}

theorem exists_of_mem_right (h : List.Forall₂ R xs ys) {y : β} (hy : y ∈ ys) : ∃ x ∈ xs, R x y := by
  induction h with
  | nil => cases hy
  | cons hxy _ ih =>
    rcases List.mem_cons.mp hy with rfl | hy
    · exact ⟨_, List.mem_cons_self, hxy⟩
    · obtain ⟨x, hx, hr⟩ := ih hy
      exact ⟨x, List.mem_cons_of_mem _ hx, hr⟩

theorem exists_of_mem_left (h : List.Forall₂ R xs ys) {x : α} (hx : x ∈ xs) : ∃ y ∈ ys, R x y :=
  exists_of_mem_right h.flip hx

theorem getElem?_of_forall₂ (h : List.Forall₂ R xs ys) {i : Nat} {y : β} (hy : ys[i]? = some y) :
    ∃ x, xs[i]? = some x ∧ R x y := by
  obtain ⟨hi, rfl⟩ := List.getElem?_eq_some_iff.mp hy
  have hi' : i < xs.length := h.length_eq ▸ hi
  exact ⟨xs[i], List.getElem?_eq_getElem hi', h.get hi' hi⟩

theorem exists_forall₂ {xs : List α} (h : ∀ x ∈ xs, ∃ y, R x y) : ∃ ys, List.Forall₂ R xs ys := by
  induction xs with
  | nil => exact ⟨[], .nil⟩
  | cons x xs ih =>
    obtain ⟨⟨y, hy⟩, hrest⟩ := List.forall_mem_cons.mp h
    obtain ⟨ys, hys⟩ := ih hrest
    exact ⟨y :: ys, .cons hy hys⟩

/-- A sublist on one side has a counterpart on the other. -/
theorem exists_sublist_left (h : List.Forall₂ R xs ys) {ys' : List β} (hsub : ys'.Sublist ys) :
    ∃ xs', xs'.Sublist xs ∧ List.Forall₂ R xs' ys' := by
  induction h generalizing ys' with
  | nil => exact ⟨[], .slnil, List.eq_nil_of_sublist_nil hsub ▸ .nil⟩
  | cons hxy _ ih =>
    cases hsub with
    | cons _ hsub =>
      obtain ⟨xs', hxs', hall⟩ := ih hsub
      exact ⟨xs', hxs'.cons _, hall⟩
    | cons_cons _ hsub =>
      obtain ⟨xs', hxs', hall⟩ := ih hsub
      exact ⟨_ :: xs', hxs'.cons_cons _, .cons hxy hall⟩

theorem forall₂_trans {γ : Type} {S : β → γ → Prop} {T : α → γ → Prop} {zs : List γ} (h : List.Forall₂ R xs ys)
    (h' : List.Forall₂ S ys zs) (htrans : ∀ x y z, R x y → S y z → T x z) : List.Forall₂ T xs zs := by
  induction h generalizing zs with
  | nil =>
    cases h'
    exact .nil
  | cons hxy _ ih =>
    cases h' with
    | cons hyz h' => exact .cons (htrans _ _ _ hxy hyz) (ih h')

/-- What holds of any two items in order carries over to corresponding lists. -/
theorem pairwise_of_forall₂ {P : α → α → Prop} {Q : β → β → Prop} (h : List.Forall₂ R xs ys) (hxs : xs.Pairwise P)
    (hcarry : ∀ x ∈ xs, ∀ x' ∈ xs, ∀ y y', R x y → R x' y' → P x x' → Q y y') : ys.Pairwise Q := by
  induction h with
  | nil => exact .nil
  | @cons x y xs ys hxy hrest ih =>
    obtain ⟨hfirst, hlater⟩ := List.pairwise_cons.mp hxs
    refine .cons (fun y' hy' => ?_) (ih hlater fun x hx x' hx' => hcarry x (.tail _ hx) x' (.tail _ hx'))
    obtain ⟨x', hx', hxy'⟩ := exists_of_mem_right hrest hy'
    exact hcarry x List.mem_cons_self x' (.tail _ hx') y y' hxy hxy' (hfirst x' hx')

end Forall₂

/-! ### Items of a list -/

/-- Induction along the removal of repeats: behind the first item come the others that are different from it. -/
theorem eraseDups_induction {α : Type} [DecidableEq α] {motive : List α → Prop} (nil : motive [])
    (cons : ∀ x xs, motive (xs.filter fun y => !y == x) → motive (x :: xs)) (xs : List α) : motive xs := by
  induction hn : xs.length using Nat.strongRecOn generalizing xs with
  | _ n ih =>
    cases xs with
    | nil => exact nil
    | cons x xs =>
      have hle := List.length_filter_le (fun y => !y == x) xs
      rw [List.length_cons] at hn
      exact cons x xs (ih _ (by omega) _ rfl)

theorem nodup_eraseDups {α : Type} [DecidableEq α] (xs : List α) : xs.eraseDups.Nodup := by
  induction xs using eraseDups_induction with
  | nil => simp
  | cons x xs ih =>
    rw [List.eraseDups_cons, List.nodup_cons]
    exact ⟨by simp [List.mem_eraseDups], ih⟩

theorem eraseDups_eq_self {α : Type} [DecidableEq α] {xs : List α} (h : xs.Nodup) : xs.eraseDups = xs := by
  induction xs with
  | nil => rfl
  | cons x xs ih =>
    obtain ⟨hx, hxs⟩ := List.nodup_cons.mp h
    have hfilter : (xs.filter fun y => !y == x) = xs := List.filter_eq_self.mpr fun y hy => by
      have hne : y ≠ x := fun heq => hx (heq ▸ hy)
      simpa using hne
    rw [List.eraseDups_cons, hfilter, ih hxs]

/-- One more item is one more distinct item unless it is there already. -/
theorem eraseDups_concat {α : Type} [DecidableEq α] (xs : List α) (x : α) :
    (xs ++ [x]).eraseDups = if x ∈ xs then xs.eraseDups else xs.eraseDups ++ [x] := by
  rw [List.eraseDups_append]
  by_cases hx : x ∈ xs <;> simp [List.removeAll, hx, eraseDups_eq_self]

/-- Lists of the same items are the same if their items are known by values that stand in the same order. -/
theorem eq_of_perm_of_map_eq {α β : Type} {f : α → β} {xs ys : List α} (hperm : xs.Perm ys) (hmap : xs.map f = ys.map f)
    (hnodup : (ys.map f).Nodup) : xs = ys := by
  refine List.ext_getElem hperm.length_eq fun i hi hi' => ?_
  have hvalue : (xs.map f)[i]? = (ys.map f)[i]? := by rw [hmap]
  refine List.inj_on_of_nodup_map hnodup (hperm.mem_iff.mp (List.getElem_mem hi)) (List.getElem_mem hi') ?_
  simpa [hi, hi'] using hvalue

/-- Lists with the same values are the same if their items are known by their values. -/
theorem eq_of_map_eq_map {α β : Type} {f : α → β} {xs ys : List α} (h : xs.map f = ys.map f)
    (hinj : ∀ x ∈ xs, ∀ y ∈ ys, f x = f y → x = y) : xs = ys := by
  induction xs generalizing ys with
  | nil => exact (List.map_eq_nil_iff.mp h.symm).symm
  | cons x xs ih =>
    obtain ⟨y, ys, rfl, hy, hys⟩ := List.map_eq_cons_iff.mp h.symm
    rw [hinj x List.mem_cons_self y List.mem_cons_self hy.symm,
      ih hys.symm fun a ha b hb => hinj a (List.mem_cons_of_mem x ha) b (List.mem_cons_of_mem y hb)]

theorem getElem?_concat {α : Type} {xs : List α} {x y : α} {i : Nat} :
    (xs ++ [y])[i]? = some x ↔ xs[i]? = some x ∨ (i = xs.length ∧ x = y) := by
  rcases Nat.lt_trichotomy i xs.length with hlt | rfl | hgt
  · simp [List.getElem?_append_left hlt, Nat.ne_of_lt hlt]
  · simp [eq_comm]
  · have hnone : (xs ++ [y])[i]? = none := List.getElem?_eq_none (by simpa using Nat.succ_le_of_lt hgt)
    simp [hnone, List.getElem?_eq_none (Nat.le_of_lt hgt), Nat.ne_of_gt hgt]

theorem split_singleton {α : Type} {a x : α} {done rest : List α} (h : [a] = done ++ x :: rest) : done = [] ∧ x = a := by
  cases done with
  | nil =>
    cases h
    exact ⟨rfl, rfl⟩
  | cons _ done => simp at h

theorem split_pair {α : Type} {a b x : α} {done rest : List α} (h : [a, b] = done ++ x :: rest) :
    (done = [] ∧ x = a) ∨ (done = [a] ∧ x = b) := by
  cases done with
  | nil =>
    cases h
    exact Or.inl ⟨rfl, rfl⟩
  | cons c done =>
    rw [List.cons_append, List.cons.injEq] at h
    obtain ⟨rfl, h⟩ := h
    obtain ⟨rfl, rfl⟩ := split_singleton h
    exact Or.inr ⟨rfl, rfl⟩

/-! ### Maps that may fail -/

theorem Except.bind_eq_ok_iff {α β ε : Type} {x : Except ε α} {f : α → Except ε β} {b : β} :
    (x >>= f) = .ok b ↔ ∃ a, x = .ok a ∧ f a = .ok b := by
  cases x <;> simp [bind, Except.bind]

theorem Except.mapError_eq_ok_iff {α ε ε' : Type} {f : ε → ε'} {x : Except ε α} {a : α} :
    x.mapError f = .ok a ↔ x = .ok a := by
  cases x <;> simp [Except.mapError]

theorem forall₂_of_mapM_ok {α β ε : Type} {f : α → Except ε β} {xs : List α} {ys : List β}
    (h : xs.mapM f = .ok ys) : List.Forall₂ (fun x y => f x = .ok y) xs ys := by
  induction xs generalizing ys with
  | nil =>
    cases h
    exact .nil
  | cons x xs ih =>
    rw [List.mapM_cons] at h
    obtain ⟨y, hy, h⟩ := Except.bind_eq_ok_iff.mp h
    obtain ⟨rest, hrest, h⟩ := Except.bind_eq_ok_iff.mp h
    cases h
    exact .cons hy (ih hrest)

theorem mapM_ok_of_forall {α β ε : Type} {f : α → Except ε β} {xs : List α} (h : ∀ x ∈ xs, ∃ y, f x = .ok y) :
    ∃ ys, xs.mapM f = .ok ys := by
  induction xs with
  | nil => exact ⟨[], rfl⟩
  | cons x xs ih =>
    obtain ⟨⟨y, hy⟩, hrest⟩ := List.forall_mem_cons.mp h
    obtain ⟨ys, hys⟩ := ih hrest
    exact ⟨y :: ys, by simp [List.mapM_cons, hy, hys, bind, Except.bind, pure, Except.pure]⟩

theorem mapM_ok_forall₂ {α β ε : Type} {f : α → Except ε β} {xs : List α} {ys : List β}
    (h : List.Forall₂ (fun x y => f x = .ok y) xs ys) : xs.mapM f = .ok ys := by
  induction h with
  | nil => rfl
  | cons hx _ ih =>
    rw [List.mapM_cons, hx, ih]
    rfl

theorem mapM_congr {α β ε : Type} {f g : α → Except ε β} {xs : List α} (h : ∀ x ∈ xs, f x = g x) :
    xs.mapM f = xs.mapM g := by
  induction xs with
  | nil => rfl
  | cons x xs ih =>
    obtain ⟨hx, hrest⟩ := List.forall_mem_cons.mp h
    rw [List.mapM_cons, List.mapM_cons, hx, ih hrest]

theorem mapM_mapError {α β ε ε' : Type} (f : α → Except ε β) (g : ε → ε') (xs : List α) :
    xs.mapM (fun x => (f x).mapError g) = (xs.mapM f).mapError g := by
  induction xs with
  | nil => rfl
  | cons x xs ih =>
    rw [List.mapM_cons, List.mapM_cons, ih]
    cases f x with
    | error e => rfl
    | ok y => cases xs.mapM f <;> rfl

/-- A fold whose state is known by what the items so far were mapped to maps the items, one after the other. -/
theorem foldlM_eq_map_mapM {α β γ ε : Type} {f : β → α → Except ε β} {value : α → Except ε γ} {xs : List α}
    (state : List γ → β)
    (step : ∀ ys x, xs[ys.length]? = some x → f (state ys) x = (value x).map fun y => state (ys ++ [y])) :
    xs.foldlM f (state []) = (xs.mapM value).map state := by
  have key : ∀ (rest done : List α) (ys : List γ), xs = done ++ rest → ys.length = done.length →
      rest.foldlM f (state ys) = (rest.mapM value).map fun later => state (ys ++ later) := by
    intro rest
    induction rest with
    | nil => simp [Except.map, pure, Except.pure]
    | cons x rest ih =>
      intro done ys hxs hlength
      rw [List.foldlM_cons, List.mapM_cons, step ys x (by simp [hxs, hlength])]
      cases value x with
      | error e => rfl
      | ok y =>
        refine (ih (done ++ [x]) (ys ++ [y]) (by simpa using hxs) (by simpa using hlength)).trans ?_
        cases rest.mapM value with
        | error e => rfl
        | ok later => exact congrArg (fun all => Except.ok (state all)) (by simp)
  simpa using key xs [] [] rfl rfl

theorem mapM_some_forall₂ {α β : Type} {f : α → Option β} {xs : List α} {ys : List β}
    (h : List.Forall₂ (fun x y => f x = some y) xs ys) : xs.mapM f = some ys := by
  induction h with
  | nil => rfl
  | cons hx _ ih => simp [List.mapM_cons, hx, ih]

theorem forall₂_of_mapM_some {α β : Type} {f : α → Option β} :
    ∀ {xs : List α} {ys : List β}, xs.mapM f = some ys → List.Forall₂ (fun x y => f x = some y) xs ys
  | [], ys, h => by
    simp only [List.mapM_nil, pure, Option.some.injEq] at h
    subst h
    exact .nil
  | x :: xs, ys, h => by
    simp only [List.mapM_cons, Option.bind_eq_bind, Option.bind_eq_some_iff, Option.pure_def,
      Option.some.injEq] at h
    obtain ⟨y, hy, rest, hrest, rfl⟩ := h
    exact .cons hy (forall₂_of_mapM_some hrest)

theorem eq_ok_of_forM_ok {α ε : Type} {f : α → Except ε PUnit} {xs : List α} (h : xs.forM f = .ok ()) :
    ∀ x ∈ xs, f x = .ok () := by
  induction xs with
  | nil => simp
  | cons y ys ih =>
    change (f y >>= fun _ => ys.forM f) = .ok () at h
    obtain ⟨_, hy, h⟩ := Except.bind_eq_ok_iff.mp h
    exact List.forall_mem_cons.mpr ⟨hy, ih h⟩

theorem forM_ok_of_forall {α ε : Type} {f : α → Except ε PUnit} {xs : List α} (h : ∀ x ∈ xs, f x = .ok ()) :
    xs.forM f = .ok () := by
  induction xs with
  | nil => rfl
  | cons x xs ih =>
    obtain ⟨hx, hrest⟩ := List.forall_mem_cons.mp h
    change (f x >>= fun _ => xs.forM f) = .ok ()
    rw [hx]
    exact ih hrest

section
variable {α β ε : Type} {p : ε → Prop}

/-- What holds of the errors of both steps holds of their errors in sequence. -/
theorem error_of_bind {x : Except ε α} {f : α → Except ε β} (hx : ∀ e, x = .error e → p e)
    (hf : ∀ a e, f a = .error e → p e) : ∀ e, (x >>= f) = .error e → p e := by
  intro e h
  cases x with
  | error e' =>
    cases h
    exact hx e rfl
  | ok a => exact hf a e h

theorem error_of_foldlM {f : β → α → Except ε β} {xs : List α} (h : ∀ b x e, f b x = .error e → p e) :
    ∀ b e, xs.foldlM f b = .error e → p e := by
  induction xs with
  | nil => intro b e hnil; cases hnil
  | cons x xs ih =>
    intro b
    rw [List.foldlM_cons]
    exact error_of_bind (h b x) ih

theorem error_of_mapError {ε' : Type} {f : ε' → ε} {x : Except ε' α} (h : ∀ e, x = .error e → p (f e)) :
    ∀ e, x.mapError f = .error e → p e := by
  intro e he
  cases x with
  | error e' =>
    cases he
    exact h e' rfl
  | ok a => cases he

theorem error_of_mapM {f : α → Except ε β} {xs : List α} (h : ∀ x ∈ xs, ∀ e, f x = .error e → p e) :
    ∀ e, xs.mapM f = .error e → p e := by
  induction xs with
  | nil => intro e hnil; cases hnil
  | cons x xs ih =>
    obtain ⟨hx, hrest⟩ := List.forall_mem_cons.mp h
    rw [List.mapM_cons]
    refine error_of_bind hx fun y => error_of_bind (ih hrest) fun ys e hpure => ?_
    cases hpure

theorem error_of_forM {f : α → Except ε Unit} {xs : List α} (h : ∀ x e, f x = .error e → p e) :
    ∀ e, xs.forM f = .error e → p e := by
  induction xs with
  | nil => intro e hnil; cases hnil
  | cons x xs ih =>
    change ∀ e, (f x >>= fun _ => xs.forM f) = .error e → p e
    exact error_of_bind (h x) fun _ => ih

end

end FlowTree
